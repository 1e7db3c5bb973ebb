import Mathlib.Algebra.Order.Group.Multiset
import Mathlib.Data.Multiset.UnionInter

/-!
# Programs with pointers

A memory has some variables and, at some addresses, cells. A pointer is an address or NULL, and a
program that follows NULL, or a pointer to where no cell is, is stuck. `Wp p Q m` says that `p` is
not stuck at `m` and that its result satisfies `Q`.

What a memory holds is said by the multiset of its cells. The multiset is exact, so that a sum of
two parts has them apart, and a step that is described on one part leaves the other as it is.

## Main results

* `wp_bind` — one program after another
* `Mem.Has.wp_field`, `Mem.Has.wp_modify`, `Mem.Has.wp_release` — reading, writing and giving back a
  cell
* `Owns.ne_of_mem` — cells of two parts have different addresses
-/

namespace Tqos

namespace Heap

/-- Variables and cells. -/
structure Mem (ρ ι ν : Type) where
  vars : ρ
  cells : ι → Option ν

/-- A program that may be stuck. -/
abbrev Prog (ρ ι ν α : Type) := StateT (Mem ρ ι ν) Option α

variable {ρ ι ν α β : Type}

/-! ## Weakest preconditions -/

/-- The program is not stuck, and what it leaves satisfies `Q`. -/
def Wp (p : Prog ρ ι ν α) (Q : α → Mem ρ ι ν → Prop) (m : Mem ρ ι ν) : Prop :=
  ∃ a m', p m = some (a, m') ∧ Q a m'

section Rules

variable {p : Prog ρ ι ν α} {k : α → Prog ρ ι ν β} {Q Q' : α → Mem ρ ι ν → Prop}
  {R : β → Mem ρ ι ν → Prop} {m : Mem ρ ι ν}

theorem wp_pure {a : α} (h : Q a m) : Wp (pure a) Q m := ⟨a, m, rfl, h⟩

theorem wp_mono (h : Wp p Q m) (hQ : ∀ a m', Q a m' → Q' a m') : Wp p Q' m := by
  obtain ⟨a, m', hp, ha⟩ := h
  exact ⟨a, m', hp, hQ a m' ha⟩

/-- **One program after another.** -/
theorem wp_bind (h : Wp p (fun a m' => Wp (k a) R m') m) : Wp (p >>= k) R m := by
  obtain ⟨a, m', hp, b, m'', hk, hR⟩ := h
  refine ⟨b, m'', ?_, hR⟩
  show (p m).bind (fun r => k r.1 r.2) = some (b, m'')
  rw [hp]
  exact hk

/-- After a program of which more is known than is needed. -/
theorem wp_bind_of (h : Wp p Q m) (hk : ∀ a m', Q a m' → Wp (k a) R m') : Wp (p >>= k) R m :=
  wp_bind (wp_mono h hk)

theorem wp_ite_pos {c : Prop} [Decidable c] {q : Prog ρ ι ν α} (hc : c) (h : Wp p Q m) :
    Wp (if c then p else q) Q m := by
  rwa [if_pos hc]

theorem wp_ite_neg {c : Prop} [Decidable c] {q : Prog ρ ι ν α} (hc : ¬ c) (h : Wp p Q m) :
    Wp (if c then q else p) Q m := by
  rwa [if_neg hc]

end Rules

/-! ## Cells -/

/-- These are the cells. -/
structure Owns (cells : ι → Option ν) (M : Multiset (ι × ν)) : Prop where
  nodup : (M.map Prod.fst).Nodup
  cells_eq : ∀ a n, cells a = some n ↔ (a, n) ∈ M

section Owns

variable {cells : ι → Option ν} {M F : Multiset (ι × ν)} {a b : ι} {n n' : ν}

theorem Owns.ne_of_mem (h : Owns cells (M + F)) (ha : (a, n) ∈ M) (hb : (b, n') ∈ F) : a ≠ b := by
  intro heq
  have hnodup := h.nodup
  rw [Multiset.map_add] at hnodup
  have hdisj := (Multiset.nodup_add.mp hnodup).2.2
  have hmemb : a ∈ F.map Prod.fst := Multiset.mem_map.mpr ⟨(b, n'), hb, heq.symm⟩
  exact Multiset.disjoint_left.mp hdisj (Multiset.mem_map_of_mem Prod.fst ha) hmemb

theorem owns_zero : Owns (fun _ : ι => (none : Option ν)) 0 where
  nodup := Multiset.nodup_zero
  cells_eq a n := by simp

/-- The address of one cell is not that of another. -/
theorem Owns.notMem (h : Owns cells ({(a, n)} + F)) (m : ν) : (a, m) ∉ F := fun hmem =>
  h.ne_of_mem (Multiset.mem_singleton_self _) hmem rfl

theorem Owns.of_add_left (h : Owns cells ({(a, n)} + F)) : (F.map Prod.fst).Nodup := by
  have hnodup := h.nodup
  rw [Multiset.map_add] at hnodup
  exact (Multiset.nodup_add.mp hnodup).2.1

variable [DecidableEq ι]

/-- A cell is written. -/
theorem Owns.update (h : Owns cells ({(a, n)} + F)) (n' : ν) :
    Owns (Function.update cells a (some n')) ({(a, n')} + F) where
  nodup := by
    have hnodup := h.nodup
    rw [Multiset.map_add] at hnodup ⊢
    exact hnodup
  cells_eq b m := by
    rw [Multiset.mem_add, Multiset.mem_singleton]
    by_cases hb : b = a
    · subst hb
      have hnot := h.notMem m
      rw [Function.update_self]
      constructor
      · intro heq
        exact Or.inl (by rw [Option.some.inj heq])
      · rintro (heq | hmem)
        · rw [(Prod.mk.inj heq).2]
        · exact absurd hmem hnot
    · rw [Function.update_of_ne hb, h.cells_eq, Multiset.mem_add, Multiset.mem_singleton]
      have hne (v : ν) : (b, m) ≠ (a, v) := fun heq => hb (Prod.mk.inj heq).1
      simp only [hne, false_or]

/-- A cell is taken away. -/
theorem Owns.erase (h : Owns cells ({(a, n)} + F)) : Owns (Function.update cells a none) F where
  nodup := h.of_add_left
  cells_eq b m := by
    by_cases hb : b = a
    · subst hb
      rw [Function.update_self]
      constructor
      · exact nofun
      · intro hmem
        exact absurd hmem (h.notMem m)
    · rw [Function.update_of_ne hb, h.cells_eq, Multiset.mem_add, Multiset.mem_singleton]
      have hne : (b, m) ≠ (a, n) := fun heq => hb (Prod.mk.inj heq).1
      simp only [hne, false_or]

/-- A cell is added. -/
theorem Owns.insert (h : Owns cells F) (ha : cells a = none) (n : ν) :
    Owns (Function.update cells a (some n)) ({(a, n)} + F) := by
  have hnot (m : ν) : (a, m) ∉ F := by
    intro hmem
    rw [(h.cells_eq a m).mpr hmem] at ha
    cases ha
  constructor
  · rw [Multiset.map_add, Multiset.map_singleton, Multiset.singleton_add, Multiset.nodup_cons]
    refine ⟨fun hmem => ?_, h.nodup⟩
    obtain ⟨⟨b, m⟩, hb, rfl⟩ := Multiset.mem_map.mp hmem
    exact hnot m hb
  · intro b m
    rw [Multiset.mem_add, Multiset.mem_singleton]
    by_cases hb : b = a
    · subst hb
      rw [Function.update_self]
      constructor
      · intro heq
        exact Or.inl (by rw [Option.some.inj heq])
      · rintro (heq | hmem)
        · rw [(Prod.mk.inj heq).2]
        · exact absurd hmem (hnot m)
    · have hne : (b, m) ≠ (a, n) := fun heq => hb (Prod.mk.inj heq).1
      rw [Function.update_of_ne hb, h.cells_eq]
      simp only [hne, false_or]

end Owns

/-! ## Reading and writing -/

section Programs

/-- A field of the cell at a pointer. -/
def field (p : Option ι) (f : ν → β) : Prog ρ ι ν β := fun m =>
  p.bind fun a => (m.cells a).map fun n => (f n, m)

/-- The variables. -/
def getVars : Prog ρ ι ν ρ := fun m => some (m.vars, m)

/-- The variables are changed. -/
def modifyVars (f : ρ → ρ) : Prog ρ ι ν Unit := fun m => some ((), { m with vars := f m.vars })

/-- The program that is stuck. -/
def stuck : Prog ρ ι ν α := fun _ => none

variable [DecidableEq ι]

/-- The cell at a pointer is changed. -/
def modify (p : Option ι) (f : ν → ν) : Prog ρ ι ν Unit := fun m =>
  p.bind fun a => (m.cells a).map fun n =>
    ((), { m with cells := Function.update m.cells a (some (f n)) })

/-- The cell at a pointer is given back. -/
def release (p : Option ι) : Prog ρ ι ν ν := fun m =>
  p.bind fun a => (m.cells a).map fun n => (n, { m with cells := Function.update m.cells a none })

/-- A new cell. -/
def acquire (a : ι) (n : ν) : Prog ρ ι ν Unit := fun m =>
  if m.cells a = none then some ((), { m with cells := Function.update m.cells a (some n) })
  else none

end Programs

/-- The variables and the cells. -/
structure Mem.Has (m : Mem ρ ι ν) (v : ρ) (M : Multiset (ι × ν)) : Prop where
  vars_eq : m.vars = v
  owns : Owns m.cells M

section Has

variable {m : Mem ρ ι ν} {v : ρ} {M F : Multiset (ι × ν)} {a : ι} {n : ν} {f : ν → ν}

theorem Mem.Has.congr (h : m.Has v M) (hM : M = F) : m.Has v F := hM ▸ h

theorem Mem.Has.wp_field {f : ν → β} {Q : β → Mem ρ ι ν → Prop} (h : m.Has v M)
    (ha : (a, n) ∈ M) (hQ : Q (f n) m) : Wp (field (some a) f) Q m := by
  refine ⟨f n, m, ?_, hQ⟩
  show (m.cells a).map _ = _
  rw [(h.owns.cells_eq a n).mpr ha]
  rfl

theorem Mem.Has.wp_getVars {Q : ρ → Mem ρ ι ν → Prop} (h : m.Has v M) (hQ : Q v m) :
    Wp getVars Q m := ⟨v, m, by rw [getVars, h.vars_eq], hQ⟩

theorem Mem.Has.wp_modifyVars {Q : Unit → Mem ρ ι ν → Prop} {f : ρ → ρ} (h : m.Has v M)
    (hQ : ∀ m', m'.Has (f v) M → Q () m') : Wp (modifyVars f) Q m :=
  ⟨(), _, rfl, hQ _ ⟨congrArg f h.vars_eq, h.owns⟩⟩

theorem Mem.Has.cells_eq_some (h : m.Has v ({(a, n)} + F)) : m.cells a = some n :=
  (h.owns.cells_eq a n).mpr (Multiset.mem_add.mpr (Or.inl (Multiset.mem_singleton_self _)))

variable [DecidableEq ι]

theorem Mem.Has.wp_modify {Q : Unit → Mem ρ ι ν → Prop} (h : m.Has v M) (hM : M = {(a, n)} + F)
    (hQ : ∀ m', m'.Has v ({(a, f n)} + F) → Q () m') : Wp (modify (some a) f) Q m := by
  subst hM
  refine ⟨(), { m with cells := Function.update m.cells a (some (f n)) }, ?_, ?_⟩
  · show (m.cells a).map _ = _
    rw [h.cells_eq_some]
    rfl
  · exact hQ _ ⟨h.vars_eq, h.owns.update (f n)⟩

theorem Mem.Has.wp_release {Q : ν → Mem ρ ι ν → Prop} (h : m.Has v M) (hM : M = {(a, n)} + F)
    (hQ : ∀ m', m'.Has v F → Q n m') : Wp (release (some a)) Q m := by
  subst hM
  refine ⟨n, { m with cells := Function.update m.cells a none }, ?_, ?_⟩
  · show (m.cells a).map _ = _
    rw [h.cells_eq_some]
    rfl
  · exact hQ _ ⟨h.vars_eq, h.owns.erase⟩

theorem Mem.Has.wp_acquire {Q : Unit → Mem ρ ι ν → Prop} (h : m.Has v M)
    (ha : ∀ n', (a, n') ∉ M) (hQ : ∀ m', m'.Has v ({(a, n)} + M) → Q () m') :
    Wp (acquire a n) Q m := by
  have hnone : m.cells a = none := by
    rw [Option.eq_none_iff_forall_not_mem]
    intro n' hn'
    exact ha n' ((h.owns.cells_eq a n').mp hn')
  refine ⟨(), { m with cells := Function.update m.cells a (some n) }, if_pos hnone, ?_⟩
  exact hQ _ ⟨h.vars_eq, h.owns.insert hnone n⟩

end Has

end Heap

end Tqos
