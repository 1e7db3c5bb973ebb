import Mathlib.Data.List.Forall2

/-!
# Programs that can fail

A program that can fail is a value of `Except ε α`. How one of several parts ends is read off how
the parts end.

* `bind_eq_ok`, `bind_eq_error` — two parts, one after the other
* `mapM_eq_ok` — a part for each element of a list
-/

namespace Tqos

variable {ε α β : Type} {x : Except ε α} {f : α → Except ε β} {b : β} {e : ε}

/-- A part that ends well, and what is after it. -/
theorem ok_bind (a : α) (f : α → Except ε β) : Except.ok a >>= f = f a := rfl

/-- What ended well did so in each of its parts. -/
theorem bind_eq_ok : x >>= f = .ok b ↔ ∃ a, x = .ok a ∧ f a = .ok b := by
  cases x <;> simp [bind, Except.bind]

/-- What ended in an error did so in its first part, or the second part ended in it. -/
theorem bind_eq_error :
    x >>= f = .error e ↔ x = .error e ∨ ∃ a, x = .ok a ∧ f a = .error e := by
  cases x <;> simp [bind, Except.bind]

theorem toOption_eq_some {a : α} : x.toOption = some a ↔ x = .ok a := by
  cases x <;> simp [Except.toOption]

/-- What ends well ends well under any name for its errors. -/
theorem mapError_eq_ok {ε' : Type} {f : ε → ε'} {a : α} : x.mapError f = .ok a ↔ x = .ok a := by
  cases x <;> simp [Except.mapError]

theorem bind_ne_error (hx : x ≠ .error e) (hf : ∀ a, x = .ok a → f a ≠ .error e) :
    x >>= f ≠ .error e := by
  intro h
  rcases bind_eq_error.mp h with h | ⟨a, ha, h⟩
  · exact hx h
  · exact hf a ha h

variable {γ : Type} {g : γ → Except ε β} {l : List γ} {bs : List β}

theorem mapM_ne_error (h : ∀ c ∈ l, g c ≠ .error e) : l.mapM g ≠ .error e := by
  induction l with
  | nil => simp [pure, Except.pure]
  | cons c l ih =>
    rw [List.mapM_cons]
    refine bind_ne_error (h c List.mem_cons_self) fun b _ => ?_
    refine bind_ne_error (ih fun d hd => h d (List.mem_cons_of_mem _ hd)) fun bs _ => ?_
    exact nofun

theorem mapM_congr {g' : γ → Except ε β} (h : ∀ c ∈ l, g c = g' c) : l.mapM g = l.mapM g' := by
  induction l with
  | nil => rfl
  | cons c l ih =>
    obtain ⟨hc, hl⟩ := List.forall_mem_cons.mp h
    rw [List.mapM_cons, List.mapM_cons, hc, ih hl]

/-- **A traversal that ends well** did so for each element. -/
theorem mapM_eq_ok : l.mapM g = .ok bs ↔ List.Forall₂ (fun c b => g c = .ok b) l bs := by
  induction l generalizing bs with
  | nil => exact ⟨fun h => Except.ok.inj h ▸ .nil, fun h => by cases h; rfl⟩
  | cons c l ih =>
    rw [List.mapM_cons, bind_eq_ok]
    constructor
    · rintro ⟨b, hb, h⟩
      obtain ⟨cs, hcs, h⟩ := bind_eq_ok.mp h
      obtain rfl := Except.ok.inj h
      exact .cons hb (ih.mp hcs)
    · rintro (_ | ⟨hb, hcs⟩)
      exact ⟨_, hb, bind_eq_ok.mpr ⟨_, ih.mpr hcs, rfl⟩⟩

theorem exists_of_mapM_eq_ok (h : l.mapM g = .ok bs) : ∀ c ∈ l, ∃ b, g c = .ok b := by
  rw [mapM_eq_ok] at h
  induction h with
  | nil => exact List.forall_mem_nil _
  | cons hb _ ih => exact List.forall_mem_cons.mpr ⟨⟨_, hb⟩, ih⟩

/-- What a traversal gives comes from its elements. -/
theorem exists_of_mem_mapM (h : l.mapM g = .ok bs) : ∀ b ∈ bs, ∃ c ∈ l, g c = .ok b := by
  induction l generalizing bs with
  | nil =>
    obtain rfl := Except.ok.inj h
    exact nofun
  | cons c l ih =>
    rw [List.mapM_cons, bind_eq_ok] at h
    obtain ⟨b, hb, h⟩ := h
    obtain ⟨cs, hcs, h⟩ := bind_eq_ok.mp h
    obtain rfl := Except.ok.inj h
    intro d hd
    rcases List.mem_cons.mp hd with rfl | hd
    · exact ⟨c, List.mem_cons_self, hb⟩
    · obtain ⟨c', hc', hd'⟩ := ih hcs d hd
      exact ⟨c', List.mem_cons_of_mem _ hc', hd'⟩

end Tqos
