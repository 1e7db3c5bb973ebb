import Mathlib.Data.Multiset.MapFold
import Mathlib.Data.Finset.Dedup
import Mathlib.Logic.Equiv.Basic
import Mathlib.Order.Interval.Finset.Nat

/-!
# Binary heaps, by position

A heap is a function of the positions, from 1 on, of which those below `n` count. The parent of `i`
is `i / 2`, and it is not greater than its children. Nothing here knows how a heap is stored.

An element finds its place by changing places with its parent, or with the smaller of its children.
What holds in between is that one position, the *hole*, may be out of order: with its parent on the
way up, with its children on the way down; and that taking it out would leave everything in order.

## Main results

* `UpOrder.swap`, `UpOrder.ordered` — a step up, and the end
* `DownOrder.swap`, `DownOrder.ordered` — a step down, and the end
* `Ordered.first_le` — nothing is smaller than the first element
* `live_swap` — changing places leaves the elements
-/

namespace Tqos

namespace BinaryHeap

variable {α : Type*} {le : α → α → Prop} {a b : ℕ → α} {n hole i j : ℕ} {v : α}

/-- Every parent is at most its child. -/
def Ordered (le : α → α → Prop) (a : ℕ → α) (n : ℕ) : Prop :=
  ∀ i, 2 ≤ i → i < n → le (a (i / 2)) (a i)

/-- In order but for the hole and its parent. -/
structure UpOrder (le : α → α → Prop) (a : ℕ → α) (n hole : ℕ) : Prop where
  off : ∀ i, 2 ≤ i → i < n → i ≠ hole → le (a (i / 2)) (a i)
  across : 2 ≤ hole → ∀ c, c < n → c / 2 = hole → le (a (hole / 2)) (a c)

/-- In order but for the hole and its children. -/
structure DownOrder (le : α → α → Prop) (a : ℕ → α) (n hole : ℕ) : Prop where
  off : ∀ i, 2 ≤ i → i < n → i / 2 ≠ hole → le (a (i / 2)) (a i)
  across : 2 ≤ hole → ∀ c, c < n → c / 2 = hole → le (a (hole / 2)) (a c)

/-- Two elements change places. -/
def swap (a : ℕ → α) (i j : ℕ) : ℕ → α := a ∘ Equiv.swap i j

@[simp] theorem swap_left (a : ℕ → α) (i j : ℕ) : swap a i j i = a j :=
  congrArg a (Equiv.swap_apply_left i j)

@[simp] theorem swap_right (a : ℕ → α) (i j : ℕ) : swap a i j j = a i :=
  congrArg a (Equiv.swap_apply_right i j)

theorem swap_of_ne {k : ℕ} (hi : k ≠ i) (hj : k ≠ j) : swap a i j k = a k :=
  congrArg a (Equiv.swap_apply_of_ne_of_ne hi hj)

/-- Equals change places. -/
theorem swap_of_eq (h : a i = a j) : swap a i j = a := by
  funext k
  by_cases hi : k = i
  · rw [hi, swap_left, h]
  · by_cases hj : k = j
    · rw [hj, swap_right, h]
    · exact swap_of_ne hi hj

/-! ## The way up -/

/-- A new last element may be out of order. -/
theorem Ordered.upOrder (h : Ordered le a n) (v : α) :
    UpOrder le (Function.update a n v) (n + 1) n := by
  refine ⟨fun i h2 hn hne => ?_, fun h2 c hc hparent => by omega⟩
  rw [Function.update_of_ne hne, Function.update_of_ne (by omega)]
  exact h i h2 (by omega)

/-- **A step up**: the hole changes places with its parent, which is not smaller. -/
theorem UpOrder.swap [IsTrans α le] (h : UpOrder le a n hole) (h2 : 2 ≤ hole) (hn : hole < n)
    (hle : le (a hole) (a (hole / 2))) : UpOrder le (swap a hole (hole / 2)) n (hole / 2) := by
  constructor
  · intro i hi2 hi hne
    by_cases hhole : i = hole
    · rw [hhole, swap_right, swap_left]
      exact hle
    · rw [swap_of_ne hhole hne]
      by_cases hchild : i / 2 = hole
      · rw [hchild, swap_left]
        exact h.across h2 i hi hchild
      · by_cases hsib : i / 2 = hole / 2
        · rw [hsib, swap_right]
          exact Trans.trans hle (hsib ▸ h.off i hi2 hi hhole)
        · rw [swap_of_ne hchild hsib]
          exact h.off i hi2 hi hhole
  · intro hp2 c hc hparent
    have hup : le (a (hole / 2 / 2)) (a (hole / 2)) := h.off (hole / 2) hp2 (by omega) (by omega)
    rw [swap_of_ne (k := hole / 2 / 2) (by omega) (by omega)]
    by_cases hhole : c = hole
    · rw [hhole, swap_left]
      exact hup
    · rw [swap_of_ne hhole (by omega)]
      exact Trans.trans hup (hparent ▸ h.off c (by omega) hc hhole)

/-- **The end of the way up**: the hole is the first, or not smaller than its parent. -/
theorem UpOrder.ordered (h : UpOrder le a n hole) (hstop : 2 ≤ hole → le (a (hole / 2)) (a hole)) :
    Ordered le a n := by
  intro i h2 hn
  by_cases hhole : i = hole
  · exact hhole ▸ hstop (hhole ▸ h2)
  · exact h.off i h2 hn hhole

/-! ## The way down -/

/-- An element put in the first place may be out of order. -/
theorem Ordered.downOrder (h : Ordered le a (n + 1)) (v : α) :
    DownOrder le (Function.update a 1 v) n 1 := by
  refine ⟨fun i h2 hn hne => ?_, fun h2 => absurd h2 (by omega)⟩
  rw [Function.update_of_ne hne, Function.update_of_ne (by omega)]
  exact h i h2 (by omega)

/-- The hole is past the end. -/
theorem Ordered.downOrder_end (h : Ordered le a n) : DownOrder le a n n :=
  ⟨fun i h2 hn _ => h i h2 hn, fun _ c hc hparent => by omega⟩

/-- **A step down**: the hole changes places with the smallest of its children, which is not
greater. -/
theorem DownOrder.swap (h : DownOrder le a n hole) (hj : j / 2 = hole) (hn : j < n)
    (hmin : ∀ c, c < n → c / 2 = hole → le (a j) (a c)) (hle : le (a j) (a hole)) :
    DownOrder le (swap a hole j) n j := by
  constructor
  · intro i hi2 hi hne
    by_cases hmoved : i = j
    · rw [hmoved, hj, swap_left, swap_right]
      exact hle
    · by_cases hchild : i / 2 = hole
      · rw [hchild, swap_left, swap_of_ne (by omega) hmoved]
        exact hmin i hi hchild
      · rw [swap_of_ne hchild hne]
        by_cases hhole : i = hole
        · rw [hhole, swap_left]
          exact h.across (by omega) j hn hj
        · rw [swap_of_ne hhole hmoved]
          exact h.off i hi2 hi hchild
  · intro _ c hc hparent
    rw [hj, swap_left, swap_of_ne (by omega) (by omega)]
    exact hparent ▸ h.off c (by omega) hc (by omega)

/-- **The end of the way down**: the hole is not greater than its children. -/
theorem DownOrder.ordered (h : DownOrder le a n hole)
    (hstop : ∀ c, c < n → c / 2 = hole → le (a hole) (a c)) : Ordered le a n := by
  intro i h2 hn
  by_cases hchild : i / 2 = hole
  · exact hchild ▸ hstop i hn hchild
  · exact h.off i h2 hn hchild

/-- **Nothing is smaller than the first element.** -/
theorem Ordered.first_le [Std.Refl le] [IsTrans α le] (h : Ordered le a n) (h1 : 1 ≤ i)
    (hn : i < n) : le (a 1) (a i) := by
  induction i using Nat.strong_induction_on with
  | _ i ih =>
    by_cases hone : i = 1
    · rw [hone]
      exact refl _
    · exact Trans.trans (ih (i / 2) (by omega) (by omega) (by omega)) (h i (by omega) hn)

/-! ## The elements -/

/-- The elements. -/
def live (a : ℕ → α) (n : ℕ) : Multiset α := (Finset.Ico 1 n).val.map a

theorem live_congr (h : ∀ i, 1 ≤ i → i < n → a i = b i) : live a n = live b n := by
  refine Multiset.map_congr rfl fun i hi => ?_
  obtain ⟨h1, hn⟩ := Finset.mem_Ico.mp (Finset.mem_val.mp hi)
  exact h i h1 hn

theorem mem_live {x : α} : x ∈ live a n ↔ ∃ i, 1 ≤ i ∧ i < n ∧ a i = x := by
  rw [live, Multiset.mem_map]
  constructor
  · rintro ⟨i, hi, rfl⟩
    obtain ⟨h1, hn⟩ := Finset.mem_Ico.mp (Finset.mem_val.mp hi)
    exact ⟨i, h1, hn, rfl⟩
  · rintro ⟨i, h1, hn, rfl⟩
    exact ⟨i, Finset.mem_val.mpr (Finset.mem_Ico.mpr ⟨h1, hn⟩), rfl⟩

/-- One element more. -/
theorem live_succ (a : ℕ → α) (h : 1 ≤ n) : live a (n + 1) = a n ::ₘ live a n := by
  rw [live, Nat.Ico_succ_right_eq_insert_Ico h, Finset.insert_val_of_notMem (by simp),
    Multiset.map_cons]
  rfl

/-- **Changing places leaves the elements.** -/
theorem live_swap (hi : 1 ≤ i) (hin : i < n) (hj : 1 ≤ j) (hjn : j < n) :
    live (swap a i j) n = live a n := by
  have hmoved : {x | Equiv.swap i j x ≠ x} ⊆ (Finset.Ico 1 n : Set ℕ) := by
    intro x hx
    by_contra hout
    refine hx (Equiv.swap_apply_of_ne_of_ne ?_ ?_)
    · rintro rfl
      exact hout (by simpa using ⟨hi, hin⟩)
    · rintro rfl
      exact hout (by simpa using ⟨hj, hjn⟩)
  have hperm := congrArg Finset.val (Finset.map_perm hmoved)
  rw [Finset.map_val] at hperm
  rw [live, swap, ← Multiset.map_map, live]
  exact congrArg (Multiset.map a) hperm

/-- A new last element. -/
theorem live_update (a : ℕ → α) (v : α) (h : 1 ≤ n) :
    live (Function.update a n v) (n + 1) = v ::ₘ live a n := by
  rw [live_succ _ h, Function.update_self]
  refine congrArg _ (live_congr fun i _ hi => ?_)
  exact Function.update_of_ne hi.ne _ _

/-- The last element takes the place of the first. -/
theorem live_remove (a : ℕ → α) (h : 1 ≤ n) :
    a 1 ::ₘ live (Function.update a 1 (a n)) n = live a (n + 1) := by
  have hswap := live_succ (swap a 1 n) h
  rw [live_swap le_rfl (by omega) h (by omega), swap_right] at hswap
  rw [hswap]
  refine congrArg _ (live_congr fun i h1 hi => ?_)
  by_cases hone : i = 1
  · rw [hone, Function.update_self, swap_left]
  · rw [Function.update_of_ne hone, swap_of_ne hone hi.ne]

end BinaryHeap

end Tqos
