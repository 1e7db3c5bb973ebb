import Mathlib.Algebra.BigOperators.Fin
import Tqos.Lib.Owners

/-!
# What a run does to the ledger

A run makes objects, hands some of them over and drops some. What it does is described by how much
there is to spare of each object afterwards, compared to before, and runs one after another add up.
A run that comes out even, and puts nothing into containers that were there before it, leaves all
objects as they were: what it has made is gone. It cannot come out with an object missing that it
has made.

## Main results

* `Effect.trans` — runs one after another
* `Effect.count_eq` — a run that comes out even leaves the owners of all objects as they were
* `Effect.eq_nil` — nothing is missing in the end of what was made
-/

namespace Tqos

namespace Owners

/-- Owners of objects, one for each time that an object is in the list. -/
def own (xs : List ℕ) : ℕ → ℤ := fun y => (xs.count y : ℕ)

theorem own_nil : own [] = 0 := rfl

theorem own_append (xs ys : List ℕ) : own (xs ++ ys) = own xs + own ys := by
  funext y
  rw [own, List.count_append, Nat.cast_add]
  rfl

/-- A run that changes what there is to spare by `d`, and no container with a number below `b`. -/
structure Effect (b : ℕ) (s s' : Store) (d : ℕ → ℤ) : Prop where
  wellFormed : WellFormed s'
  length_le : s.length ≤ s'.length
  kids_eq : ∀ x < b, kids s' x = kids s x
  spare_eq : ∀ y, spare s' y = spare s y + d y

section Ledger

variable {s s' s'' : Store} {b b' c n x : ℕ} {d d' : ℕ → ℤ} {xs : List ℕ}

theorem mem_kids_iff {y : ℕ} : y ∈ kids s x ↔ ∃ o, s[x]? = some o ∧ y ∈ o.kids := by
  rw [kids]
  cases s[x]? with
  | none => exact iff_of_false List.not_mem_nil (by rintro ⟨o, ho, -⟩; cases ho)
  | some o =>
    constructor
    · exact fun h => ⟨o, rfl, h⟩
    · rintro ⟨o', ho', h⟩
      obtain rfl := Option.some.inj ho'
      exact h

theorem WellFormed.lt_of_mem_kids (h : WellFormed s) {y : ℕ} (hy : y ∈ kids s x) :
    x < y ∧ y < s.length := by
  obtain ⟨o, ho, hmem⟩ := mem_kids_iff.mp hy
  exact ⟨h.ordered x o ho y hmem, h.closed x o ho y hmem⟩

/-- An object is in older containers only. -/
theorem held_eq_sum (h : WellFormed s) (x : ℕ) : held s x =
    ∑ c ∈ Finset.range x, if count s c = 0 then 0 else (kids s c).count x := by
  have hat (c : ℕ) (hc : c < s.length) :
      Obj.holds x s[c] = if count s c = 0 then 0 else (kids s c).count x := by
    rw [count, kids, List.getElem?_eq_getElem hc]
    rfl
  have hzero (c : ℕ) (hc : ¬ (c < s.length ∧ c < x)) :
      (if count s c = 0 then 0 else (kids s c).count x) = 0 := by
    split
    · rfl
    · rename_i hlive
      rw [List.count_eq_zero]
      intro hmem
      obtain ⟨hlt, -⟩ := h.lt_of_mem_kids hmem
      exact hc ⟨lt_length_of_count_pos (Nat.pos_of_ne_zero hlive), hlt⟩
  have hsum : held s x =
      ∑ c ∈ Finset.range s.length, if count s c = 0 then 0 else (kids s c).count x := by
    rw [held, ← Fin.sum_univ_fun_getElem, Finset.sum_range]
    exact Finset.sum_congr rfl fun c _ => hat c c.isLt
  rw [hsum]
  refine (Finset.sum_subset (Finset.range_subset_range.mpr (Nat.le_max_left s.length x))
    fun c _ hc => hzero c fun hlt => hc (Finset.mem_range.mpr hlt.1)).trans
    (Finset.sum_subset (Finset.range_subset_range.mpr (Nat.le_max_right s.length x))
      fun c _ hc => hzero c fun hlt => hc (Finset.mem_range.mpr hlt.2)).symm

/-- What is not there is nowhere. -/
theorem spare_of_le (h : WellFormed s) (hx : s.length ≤ x) : spare s x = 0 := by
  have hheld : held s x = 0 := by
    rw [held_eq_sum h]
    refine Finset.sum_eq_zero fun c _ => ?_
    split
    · rfl
    · rw [List.count_eq_zero]
      intro hmem
      exact absurd (h.lt_of_mem_kids hmem).2 hx.not_gt
  rw [spare, count_of_le hx, hheld]
  rfl

/-! ## Runs -/

theorem Effect.refl (h : WellFormed s) (b : ℕ) : Effect b s s 0 :=
  ⟨h, le_rfl, fun _ _ => rfl, fun _ => (add_zero _).symm⟩

/-- **Runs one after another** add up. -/
theorem Effect.trans (h : Effect b s s' d) (h' : Effect b s' s'' d') :
    Effect b s s'' (d + d') := by
  refine ⟨h'.wellFormed, h.length_le.trans h'.length_le, fun x hx => ?_, fun y => ?_⟩
  · rw [h'.kids_eq x hx, h.kids_eq x hx]
  · rw [h'.spare_eq, h.spare_eq, Pi.add_apply, add_assoc]

theorem Effect.mono (h : Effect b s s' d) (hb : b' ≤ b) : Effect b' s s' d :=
  ⟨h.wellFormed, h.length_le, fun x hx => h.kids_eq x (hx.trans_le hb), h.spare_eq⟩

theorem Effect.congr (h : Effect b s s' d) (hd : d = d') : Effect b s s' d' := hd ▸ h

theorem effect_new (h : WellFormed s) : Effect s.length s (new s) (own [s.length]) := by
  refine ⟨wellFormed_new h, by rw [length_new]; exact Nat.le_succ _, fun x hx => ?_, fun y => ?_⟩
  · rw [kids, getElem?_new hx, kids]
  · rw [spare_new, own, count_cons_eq, List.count_nil]
    split <;> rfl

theorem effect_alloc (h : WellFormed s) (t : Tree) :
    Effect s.length s (alloc t s) (own [s.length]) := by
  obtain ⟨hgrown, -, hspare⟩ := alloc_spec t s h
  refine ⟨hgrown.wellFormed, hgrown.length_le, fun x hx => ?_, fun y => ?_⟩
  · rw [kids, hgrown.getElem?_eq x hx hx.ne, kids]
  · rw [hspare, own, count_cons_eq, List.count_nil]
    split <;> rfl

/-- **Handing over** takes an owner. -/
theorem effect_add (h : WellFormed s) (hc : 0 < count s c) (hb : b ≤ c) (hcx : c < x)
    (hx : x < s.length) : Effect b s (add s c x) (-own [x]) := by
  refine ⟨wellFormed_add h hcx hx, (length_add s c x).ge, fun y hy => ?_, fun y => ?_⟩
  · rw [kids, getElem?_add_of_ne (hy.trans_le hb).ne, kids]
  · rw [spare_add hc, Pi.neg_apply, own, count_cons_eq, List.count_nil]
    split <;> rfl

/-- Dropping leaves in a container what was in it. -/
theorem kids_drop (h : drop n xs s = some s') :
    s'.length = s.length ∧ ∀ x, kids s' x = kids s x := by
  induction n generalizing xs s with
  | zero =>
    cases xs with
    | nil => exact Option.some.inj h ▸ ⟨rfl, fun _ => rfl⟩
    | cons x xs => cases h
  | succ n ih =>
    cases xs with
    | nil => exact Option.some.inj h ▸ ⟨rfl, fun _ => rfl⟩
    | cons x xs =>
      rw [drop] at h
      cases ho : s[x]? with
      | none =>
        rw [ho] at h
        cases h
      | some o =>
        rw [ho] at h
        dsimp only at h
        split at h
        · cases h
        · obtain ⟨hlen, hkids⟩ := ih h
          rw [List.length_set] at hlen
          refine ⟨hlen, fun y => ?_⟩
          rw [hkids, kids, kids, List.getElem?_set]
          split
          · rename_i hxy
            subst hxy
            rw [if_pos (List.getElem?_eq_some_iff.mp ho).1, ho]
            rfl
          · rfl

/-- **Dropping** takes an owner. -/
theorem effect_put (h : WellFormed s) (hput : put s x = some s') (b : ℕ) :
    Effect b s s' (-own [x]) := by
  obtain ⟨hlen, hkids⟩ := kids_drop hput
  refine ⟨⟨ordered_drop h.ordered hput, fun y o ho z hz => ?_⟩, hlen.ge, fun y _ => hkids y,
    fun y => ?_⟩
  · rw [hlen]
    have hmem : z ∈ kids s y := hkids y ▸ mem_kids_iff.mpr ⟨o, ho, hz⟩
    exact (h.lt_of_mem_kids hmem).2
  · rw [spare_drop hput, Pi.neg_apply, own, sub_eq_add_neg]

/-! ## Whole runs -/

/-- **A run that comes out even** leaves the owners of all objects as they were. -/
theorem Effect.count_eq (h : Effect s.length s s' 0) (hs : WellFormed s) (x : ℕ) :
    count s' x = count s x := by
  induction x using Nat.strong_induction_on with
  | _ x ih =>
    have hheld : held s' x = held s x := by
      rw [held_eq_sum h.wellFormed, held_eq_sum hs]
      refine Finset.sum_congr rfl fun c hc => ?_
      rw [ih c (Finset.mem_range.mp hc)]
      rcases Nat.lt_or_ge c s.length with hlt | hge
      · rw [h.kids_eq c hlt]
      · rw [if_pos (count_of_le hge), if_pos (count_of_le hge)]
    have hspare := h.spare_eq x
    rw [spare, spare, hheld, Pi.zero_apply] at hspare
    omega

/-- **Nothing is missing** in the end of what a run has made. -/
theorem Effect.eq_nil (h : Effect s.length s s' (-own xs)) (hs : WellFormed s)
    (hxs : ∀ x ∈ xs, s.length ≤ x) : xs = [] := by
  have hspare (x : ℕ) (hx : s.length ≤ x) : spare s' x = -(xs.count x : ℕ) := by
    rw [h.spare_eq, spare_of_le hs hx, zero_add]
    rfl
  -- what is oldest of it has no container
  have hgone (x : ℕ) : s.length ≤ x → count s' x = 0 ∧ held s' x = 0 := by
    induction x using Nat.strong_induction_on with
    | _ x ih =>
      intro hx
      have hheld : held s' x = 0 := by
        rw [held_eq_sum h.wellFormed]
        refine Finset.sum_eq_zero fun c hc => ?_
        rcases Nat.lt_or_ge c s.length with hlt | hge
        · rw [h.kids_eq c hlt, List.count_eq_zero.mpr fun hmem =>
            absurd (hs.lt_of_mem_kids hmem).2 hx.not_gt]
          exact ite_self 0
        · exact if_pos (ih c (Finset.mem_range.mp hc) hge).1
      have hx' := hspare x hx
      rw [spare, hheld] at hx'
      omega
  rw [List.eq_nil_iff_forall_not_mem]
  intro x hmem
  have hx := hxs x hmem
  have hpos := List.count_pos_iff.mpr hmem
  obtain ⟨hcount, hheld⟩ := hgone x hx
  have hx' := hspare x hx
  rw [spare, hcount, hheld] at hx'
  omega

end Ledger

end Owners

end Tqos
