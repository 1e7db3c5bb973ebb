import Mathlib.Data.Nat.Notation
import Mathlib.Order.Basic

/-!
# Block by block

A state takes in blocks of `n` elements, and what is fed to it comes in pieces of any length. The
elements that are no whole block yet are kept until there are more. So it does not matter how what
is fed was cut into pieces.

## Main results

* `absorb_append` — two pieces, one after the other
* `length_pending` — how many elements are kept
-/

namespace Tqos

namespace Buffered

variable {σ α : Type*} {f : σ → List α → σ} {n : ℕ} {s : σ} {l m b : List α}

/-- All the blocks of `l`, and what is left. -/
def absorb (f : σ → List α → σ) (n : ℕ) (s : σ) (l : List α) : σ × List α :=
  if _h : 0 < n ∧ n ≤ l.length then absorb f n (f s (l.take n)) (l.drop n) else (s, l)
termination_by l.length
decreasing_by
  rw [List.length_drop]
  omega

theorem absorb_of_lt (h : l.length < n) : absorb f n s l = (s, l) := by
  rw [absorb, dif_neg fun hle => absurd hle.2 (by omega)]

theorem absorb_of_le (hn : 0 < n) (h : n ≤ l.length) :
    absorb f n s l = absorb f n (f s (l.take n)) (l.drop n) := by
  rw [absorb, dif_pos ⟨hn, h⟩]

/-- A block first. -/
theorem absorb_block (hn : 0 < n) (hb : b.length = n) :
    absorb f n s (b ++ l) = absorb f n (f s b) l := by
  rw [absorb_of_le hn (by rw [List.length_append]; omega), List.take_left' hb, List.drop_left' hb]

/-- **Two pieces**: the second comes behind what was left of the first. -/
theorem absorb_append (hn : 0 < n) (s : σ) (l m : List α) :
    absorb f n s (l ++ m) = absorb f n (absorb f n s l).1 ((absorb f n s l).2 ++ m) := by
  fun_induction absorb f n s l with
  | case1 s l hle ih =>
    have hblock : (l.take n).length = n := List.length_take_of_le hle.2
    rw [← ih]
    calc absorb f n s (l ++ m) = absorb f n s (l.take n ++ (l.drop n ++ m)) := by
          rw [← List.append_assoc, List.take_append_drop]
      _ = absorb f n (f s (l.take n)) (l.drop n ++ m) := absorb_block hn hblock
  | case2 s l hlt => rfl

/-- **What is left** is less than a block. -/
theorem length_pending (hn : 0 < n) (s : σ) (l : List α) :
    (absorb f n s l).2.length = l.length % n := by
  fun_induction absorb f n s l with
  | case1 s l hle ih => rw [ih, List.length_drop, Nat.mod_eq_sub_mod hle.2]
  | case2 s l hlt => rw [Nat.mod_eq_of_lt (by omega)]

end Buffered

end Tqos
