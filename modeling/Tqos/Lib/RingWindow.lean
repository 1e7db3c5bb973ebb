import Mathlib.Algebra.BigOperators.Fin
import Mathlib.Algebra.Group.Fin.Basic
import Mathlib.Algebra.Group.Units.Equiv

/-!
# A ring of slots as a sliding window

The last `n` of a sequence of samples can be kept in `n` slots that are written in turn, the slot
behind the last one being the first. Read backwards from the slot written last, the ring shows the
samples, the newest first; slots that have not been written show a default.

## Main results

* `Shows.push` — writing the next slot puts a sample in front of the window
* `Shows.sum_eq` — a sum over the slots is a sum over the window, in whatever order the slots are
-/

namespace Tqos

namespace RingWindow

variable {α : Type*} {n : ℕ} {z a : α} {w : List α} {d : Fin n → α} {last : Fin n}

/-- The slots of `d`, read backwards from `last`, show the window `w`. -/
def Shows (z : α) (w : List α) (d : Fin n → α) (last : Fin n) : Prop :=
  ∀ r : Fin n, d (last - r) = w.getD r z

/-- A ring that was never written. -/
theorem shows_nil (z : α) (last : Fin n) : Shows z [] (fun _ => z) last := fun _ => rfl

variable [NeZero n]

/-- **A new sample** goes into the next slot. -/
theorem Shows.push (h : Shows z w d last) (a : α) :
    Shows z (a :: w) (Function.update d (last + 1) a) (last + 1) := by
  intro r
  by_cases hr : r = 0
  · subst hr
    rw [sub_zero, Function.update_self]
    rfl
  · have hne : last + 1 - r ≠ last + 1 := by
      rw [ne_eq, sub_eq_self]
      exact hr
    have hpos : 0 < (r : ℕ) := Nat.pos_of_ne_zero fun hzero => hr (Fin.ext hzero)
    have hval : ((r - 1 : Fin n) : ℕ) = r - 1 := Fin.val_sub_one_of_ne_zero hr
    have hslot : last + 1 - r = last - (r - 1) := by
      rw [sub_sub_eq_add_sub]
    rw [Function.update_of_ne hne, hslot, h (r - 1), hval]
    obtain ⟨k, hk⟩ := Nat.exists_eq_succ_of_ne_zero hpos.ne'
    rw [hk]
    rfl

/-- The slot written last shows the newest sample. -/
theorem Shows.newest (h : Shows z w d last) : d last = w.getD 0 z := by
  have h0 := h 0
  rwa [sub_zero] at h0

/-- **Sums.** The order of the slots does not matter. -/
theorem Shows.sum_eq {β : Type*} [AddCommMonoid β] (h : Shows z w d last) (f : α → β) :
    ((List.finRange n).map fun i => f (d i)).sum =
      ((List.finRange n).map fun r : Fin n => f (w.getD r z)).sum := by
  rw [← Fin.sum_univ_def, ← Fin.sum_univ_def, ← Equiv.sum_comp (Equiv.subLeft last)]
  refine Finset.sum_congr rfl fun r _ => ?_
  rw [Equiv.subLeft_apply, h r]

end RingWindow

end Tqos
