import Mathlib.Data.List.Basic
import Mathlib.Tactic.Ring

/-!
# Programs that log every memory access

C code that copies into fixed buffers is modelled by a value together with the list of the memory
accesses it made on the way. An access names a buffer, a direction, an offset and a length; whether
it stays inside is a question asked *about* the log afterwards, so the same definition serves the
theorems about values and the theorems about bounds.

## Semantics of an access outside a buffer

A store outside is logged and has no other effect on the model; a load outside is logged and yields
only the bytes that exist. Neither stops the program, because neither stops the machine: a single
stray byte is usually not noticed. A fault that does stop it is an `error`, and what had been logged
before it stays in the log.

## Main definitions

* `Access`, `Access.Inside` — one access, and when it stays inside its buffer
* `Traced` — a result or a fault, with the log of accesses
* `blit` — overwriting part of a buffer, at any integer offset
* `Traced.store`, `Traced.load` — the two accesses
-/

namespace Tqos

/-- Which way memory is accessed. -/
inductive Dir
  | read
  | write
deriving DecidableEq, Repr

/-- One access to `len` consecutive elements of a buffer. -/
structure Access (β : Type*) where
  /-- The buffer the pointer belongs to. -/
  buf : β
  /-- Whether it is read or written. -/
  dir : Dir
  /-- The offset from the start of the buffer; negative in front of it. -/
  off : ℤ
  /-- How many elements. -/
  len : ℕ
deriving DecidableEq, Repr

/-- The access stays inside a buffer of the given size. An access to no element touches nothing. -/
def Access.Inside {β : Type*} (size : β → ℕ) (a : Access β) : Prop :=
  a.len = 0 ∨ 0 ≤ a.off ∧ a.off + a.len ≤ size a.buf

instance {β : Type*} (size : β → ℕ) (a : Access β) : Decidable (a.Inside size) :=
  inferInstanceAs (Decidable (_ ∨ _))

/-! ## Overwriting part of a buffer -/

section Blit

variable {α : Type*}

/-- `l` with the elements from offset `off` on replaced by those of `w`. What would fall outside
`l` is dropped. -/
def blit (l : List α) (off : ℤ) (w : List α) : List α :=
  l.mapIdx fun i x => if off ≤ i then (w[((i : ℤ) - off).toNat]?).getD x else x

@[simp] theorem length_blit (l : List α) (off : ℤ) (w : List α) :
    (blit l off w).length = l.length := by
  simp [blit]

theorem getElem?_blit (l : List α) (off : ℤ) (w : List α) (i : ℕ) :
    (blit l off w)[i]? =
      l[i]?.map fun x => if off ≤ i then (w[((i : ℤ) - off).toNat]?).getD x else x := by
  simp [blit]

/-- Inside the buffer, overwriting is cutting the old part out and putting the new one in. -/
theorem blit_of_le {l w : List α} {off : ℕ} (h : off + w.length ≤ l.length) :
    blit l off w = l.take off ++ w ++ l.drop (off + w.length) := by
  refine List.ext_getElem? fun i => ?_
  rw [getElem?_blit]
  rcases Nat.lt_or_ge i off with hi | hi
  · have hoff : ¬ (off : ℤ) ≤ i := by omega
    rw [List.append_assoc, List.getElem?_append_left (by simp; omega), List.getElem?_take_of_lt hi]
    simp [hoff]
  · have hoff : (off : ℤ) ≤ i := by omega
    have hidx : ((i : ℤ) - off).toNat = i - off := by omega
    simp only [hoff, if_true, hidx]
    rcases Nat.lt_or_ge i (off + w.length) with hi' | hi'
    · rw [List.append_assoc, List.getElem?_append_right (by simp; omega),
        List.getElem?_append_left (by simp; omega), List.length_take,
        Nat.min_eq_left (by omega), List.getElem?_eq_getElem (by omega : i < l.length),
        List.getElem?_eq_getElem (by omega : i - off < w.length)]
      simp
    · rw [List.getElem?_append_right (by simp; omega), List.getElem?_drop,
        List.getElem?_eq_none (by omega : w.length ≤ i - off)]
      have : off + w.length + (i - (List.take off l ++ w).length) = i := by
        simp only [List.length_append, List.length_take]; omega
      rw [this]
      cases l[i]? <;> rfl

/-- Overwriting the middle of three parts. -/
theorem blit_append {l₁ l₂ l₃ w : List α} {off : ℕ} (hoff : l₁.length = off)
    (h : w.length = l₂.length) : blit (l₁ ++ (l₂ ++ l₃)) off w = l₁ ++ (w ++ l₃) := by
  subst hoff
  rw [blit_of_le (by simp [h]), List.take_left, List.drop_append,
    List.drop_eq_nil_of_le (by omega), List.nil_append, List.append_assoc]
  congr 2
  rw [show l₁.length + w.length - l₁.length = l₂.length by omega, List.drop_left]

/-- What would fall outside need not be given. -/
theorem blit_take (l : List α) {off : ℕ} (w : List α) (h : off ≤ l.length) :
    blit l off (w.take (l.length - off)) = blit l off w := by
  refine List.ext_getElem? fun i => ?_
  rw [getElem?_blit, getElem?_blit]
  rcases Nat.lt_or_ge i l.length with hi | hi
  · by_cases hoff : (off : ℤ) ≤ i
    · rw [List.getElem?_take_of_lt (by omega)]
    · simp [hoff]
  · simp [List.getElem?_eq_none hi]

/-- Overwriting behind a first part. -/
theorem blit_append_right (l₁ l₂ w : List α) {off : ℕ} (h : l₁.length = off) :
    blit (l₁ ++ l₂) off w = l₁ ++ blit l₂ 0 w := by
  subst h
  refine List.ext_getElem? fun i => ?_
  rw [getElem?_blit]
  rcases Nat.lt_or_ge i l₁.length with hi | hi
  · have hoff : ¬ (l₁.length : ℤ) ≤ i := by omega
    rw [List.getElem?_append_left hi, List.getElem?_append_left hi]
    simp [hoff]
  · rw [List.getElem?_append_right hi, List.getElem?_append_right hi, getElem?_blit]
    have hidx : ((i : ℤ) - l₁.length).toNat = i - l₁.length := by omega
    simp [hi, hidx]

/-- Overwriting a whole buffer. -/
theorem blit_zero_of_length_eq {l w : List α} (h : w.length = l.length) : blit l 0 w = w := by
  rw [← Nat.cast_zero, blit_of_le (by omega)]
  simp [h]

/-- What is in front of an offset is not touched by a store behind it. -/
theorem take_blit {l : List α} {off k : ℕ} (w : List α) (h : k ≤ off) :
    (blit l off w).take k = l.take k := by
  refine List.ext_getElem? fun i => ?_
  rw [List.getElem?_take, List.getElem?_take]
  split
  · have hlt : ¬ (off : ℤ) ≤ i := by omega
    rw [getElem?_blit]
    simp [hlt]
  · rfl

/-- Nor is what is behind it. -/
theorem drop_blit {l : List α} {off k : ℕ} (b : α) (h : off < k) :
    (blit l off [b]).drop k = l.drop k := by
  refine List.ext_getElem? fun i => ?_
  rw [List.getElem?_drop, List.getElem?_drop, getElem?_blit]
  have hlt : 1 ≤ (((k + i : ℕ) : ℤ) - off).toNat := by omega
  rw [List.getElem?_eq_none hlt]
  simp

/-- What has been stored at the beginning. -/
theorem take_blit_zero {l w : List α} (h : w.length ≤ l.length) :
    (blit l 0 w).take w.length = w := by
  have hblit : blit l ((0 : ℕ) : ℤ) w = l.take 0 ++ w ++ l.drop (0 + w.length) :=
    blit_of_le (by rwa [Nat.zero_add])
  rw [← Nat.cast_zero, hblit]
  exact List.take_left

/-- Overwriting part of a buffer of fixed size. -/
def blitV {n : ℕ} (v : Vector α n) (off : ℤ) (w : List α) : Vector α n :=
  ⟨(blit v.toList off w).toArray, by simp⟩

@[simp] theorem toList_blitV {n : ℕ} (v : Vector α n) (off : ℤ) (w : List α) :
    (blitV v off w).toList = blit v.toList off w := by
  simp [blitV, Vector.toList]

end Blit

/-! ## The program -/

/-- A result of type `α` or a fault of type `ε`, with the accesses made to buffers named by `β`. -/
structure Traced (ε β α : Type) where
  /-- How the program ended. -/
  res : Except ε α
  /-- The accesses it made, in order. -/
  log : List (Access β)

namespace Traced

variable {ε β α γ : Type}

/-- Run `f` on the result of `x`; after a fault nothing more is done. -/
protected def bind (x : Traced ε β α) (f : α → Traced ε β γ) : Traced ε β γ :=
  match x.res with
  | .ok a => ⟨(f a).res, x.log ++ (f a).log⟩
  | .error e => ⟨.error e, x.log⟩

instance : Monad (Traced ε β) where
  pure a := ⟨.ok a, []⟩
  bind := Traced.bind

/-- A computation that touches no memory. -/
def ofExcept (x : Except ε α) : Traced ε β α := ⟨x, []⟩

/-- Stop with a fault. -/
def fail (e : ε) : Traced ε β α := ⟨.error e, []⟩

/-- Make one access. -/
def touch (a : Access β) : Traced ε β Unit := ⟨.ok (), [a]⟩

/-- Write the elements of `w` into the buffer `b` at offset `off`; `l` is what it holds. -/
def store (b : β) (l : List γ) (off : ℤ) (w : List γ) : Traced ε β (List γ) :=
  ⟨.ok (blit l off w), [⟨b, .write, off, w.length⟩]⟩

/-- `store` into a buffer of fixed size. -/
def storeV {n : ℕ} (b : β) (v : Vector γ n) (off : ℤ) (w : List γ) : Traced ε β (Vector γ n) :=
  ⟨.ok (blitV v off w), [⟨b, .write, off, w.length⟩]⟩

/-- Read `n` elements of the buffer `b` from offset `off` on; `l` is what it holds. -/
def load (b : β) (l : List γ) (off n : ℕ) : Traced ε β (List γ) :=
  ⟨.ok ((l.drop off).take n), [⟨b, .read, off, n⟩]⟩

@[simp] theorem res_pure (a : α) : (pure a : Traced ε β α).res = .ok a := rfl

@[simp] theorem log_pure (a : α) : (pure a : Traced ε β α).log = [] := rfl

@[simp] theorem res_ofExcept (x : Except ε α) : (ofExcept x : Traced ε β α).res = x := rfl

@[simp] theorem mk_ok_bind (a : α) (l : List (Access β)) (f : α → Traced ε β γ) :
    (⟨.ok a, l⟩ : Traced ε β α) >>= f = ⟨(f a).res, l ++ (f a).log⟩ := rfl

@[simp] theorem mk_error_bind (e : ε) (l : List (Access β)) (f : α → Traced ε β γ) :
    (⟨.error e, l⟩ : Traced ε β α) >>= f = ⟨.error e, l⟩ := rfl

@[simp] theorem pure_bind (a : α) (f : α → Traced ε β γ) :
    (pure a : Traced ε β α) >>= f = f a := rfl

theorem bind_assoc {δ : Type} (x : Traced ε β α) (f : α → Traced ε β γ) (g : γ → Traced ε β δ) :
    x >>= f >>= g = x >>= fun a => f a >>= g := by
  obtain ⟨_ | a, l⟩ := x
  · rfl
  · simp only [mk_ok_bind]
    rcases f a with ⟨_ | c, m⟩
    · rfl
    · simp only [mk_ok_bind, List.append_assoc]

/-- A program that ended well did so in each of its parts. -/
theorem res_bind_eq_ok {x : Traced ε β α} {f : α → Traced ε β γ} {c : γ} :
    (x >>= f).res = .ok c ↔ ∃ a, x.res = .ok a ∧ (f a).res = .ok c := by
  obtain ⟨_ | a, l⟩ := x <;> simp

/-- After a part that ended well its result is passed on. -/
theorem res_bind_of_ok {x : Traced ε β α} {f : α → Traced ε β γ} {a : α} (h : x.res = .ok a) :
    (x >>= f).res = (f a).res := by
  obtain ⟨_ | b, l⟩ := x
  · cases h
  · cases h
    rfl

theorem log_bind_of_ok {x : Traced ε β α} {f : α → Traced ε β γ} {a : α} (h : x.res = .ok a) :
    (x >>= f).log = x.log ++ (f a).log := by
  obtain ⟨_ | b, l⟩ := x
  · cases h
  · cases h
    rfl

/-- How a program goes on depends on the result of its first part only. -/
theorem res_bind_congr {x y : Traced ε β α} (h : x.res = y.res) (f : α → Traced ε β γ) :
    (x >>= f).res = (y >>= f).res := by
  obtain ⟨r, l⟩ := x
  obtain ⟨r', m⟩ := y
  obtain rfl : r = r' := h
  cases r <;> rfl

/-- A program that ended in a fault did so in its first part, or the second part ended in it. -/
theorem res_bind_eq_error {x : Traced ε β α} {f : α → Traced ε β γ} {e : ε} :
    (x >>= f).res = .error e ↔
      x.res = .error e ∨ ∃ a, x.res = .ok a ∧ (f a).res = .error e := by
  obtain ⟨_ | a, l⟩ := x <;> simp

/-- A program ends in no fault in which none of its parts ends. -/
theorem res_bind_ne_error {x : Traced ε β α} {f : α → Traced ε β γ} {e : ε}
    (hx : x.res ≠ .error e) (hf : ∀ a, (f a).res ≠ .error e) : (x >>= f).res ≠ .error e := by
  intro h
  rcases res_bind_eq_error.mp h with h | ⟨a, -, h⟩
  · exact hx h
  · exact hf a h

/-- A program that ends in no fault ends well. -/
theorem exists_ok {x : Traced ε β α} (h : ∀ e, x.res ≠ .error e) : ∃ a, x.res = .ok a := by
  obtain ⟨e | a, l⟩ := x
  · exact absurd rfl (h e)
  · exact ⟨a, rfl⟩

/-- What is logged first stays logged. -/
theorem mem_log_bind_left {x : Traced ε β α} {f : α → Traced ε β γ} {a : Access β}
    (h : a ∈ x.log) : a ∈ (x >>= f).log := by
  obtain ⟨_ | b, l⟩ := x
  · exact h
  · exact List.mem_append_left _ h

/-- What the second part logs is logged, once the first part ended well. -/
theorem mem_log_bind_right {x : Traced ε β α} {f : α → Traced ε β γ} {b : α} {a : Access β}
    (hb : x.res = .ok b) (h : a ∈ (f b).log) : a ∈ (x >>= f).log := by
  obtain ⟨_ | c, l⟩ := x
  · cases hb
  · cases hb
    exact List.mem_append_right _ h

/-! ### Programs that cannot fault -/

/-- The result of a program without faults. -/
def value (x : Traced Empty β α) : α :=
  match x.res with
  | .ok a => a
  | .error e => e.elim

@[simp] theorem value_pure (a : α) : value (pure a : Traced Empty β α) = a := rfl

@[simp] theorem value_bind (x : Traced Empty β α) (f : α → Traced Empty β γ) :
    value (x >>= f) = value (f (value x)) := by
  obtain ⟨e | a, l⟩ := x
  · exact e.elim
  · rfl

/-- What a program without faults logs is followed by what its second part logs. -/
theorem log_bind (x : Traced Empty β α) (f : α → Traced Empty β γ) :
    (x >>= f).log = x.log ++ (f (value x)).log := by
  obtain ⟨e | a, l⟩ := x
  · exact e.elim
  · rfl

section All

variable {P : Access β → Prop}

theorem forall_log_pure (a : α) : ∀ x ∈ (pure a : Traced ε β α).log, P x :=
  fun _ h => absurd h List.not_mem_nil

theorem forall_log_touch {a : Access β} : (∀ x ∈ (touch a : Traced ε β Unit).log, P x) ↔ P a :=
  List.forall_mem_singleton

/-- What holds of all accesses holds of those of both parts. -/
theorem forall_log_bind {x : Traced Empty β α} {f : α → Traced Empty β γ} :
    (∀ a ∈ (x >>= f).log, P a) ↔ (∀ a ∈ x.log, P a) ∧ ∀ a ∈ (f (value x)).log, P a := by
  rw [log_bind, List.forall_mem_append]

end All

@[simp] theorem value_load (b : β) (l : List γ) (off n : ℕ) :
    value (load b l off n) = (l.drop off).take n := rfl

@[simp] theorem value_ite (p : Prop) [Decidable p] (x y : Traced Empty β α) :
    value (if p then x else y) = if p then value x else value y := by
  split <;> rfl

end Traced

end Tqos
