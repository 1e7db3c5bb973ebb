import Mathlib.Logic.Function.Iterate
import Tqos.Lib.BlockMode

/-!
# Counter mode

A text combined byte by byte with a stream of blocks, each of them a cipher applied to the next
state of a counter. What the cipher and the counter are is of no concern here.

## Main results

* `xorStream_append` — a text in two pieces
* `xorStream_xorStream` — combining twice is no change
-/

namespace Tqos

/-! ## A text and a stream -/

section Stream

variable {ks : ℕ → UInt8}

/-- A text combined with a stream. -/
def xorStream (ks : ℕ → UInt8) (l : List UInt8) : List UInt8 := l.mapIdx fun i b => b ^^^ ks i

@[simp] theorem length_xorStream (l : List UInt8) : (xorStream ks l).length = l.length :=
  List.length_mapIdx

theorem getElem?_xorStream (l : List UInt8) (i : ℕ) :
    (xorStream ks l)[i]? = l[i]?.map (· ^^^ ks i) := List.getElem?_mapIdx

theorem xorStream_append (l m : List UInt8) : xorStream ks (l ++ m) =
    xorStream ks l ++ xorStream (fun i => ks (l.length + i)) m := by
  rw [xorStream, List.mapIdx_append, xorStream, xorStream]
  simp only [Nat.add_comm]

/-- **Combining twice** is no change. -/
theorem xorStream_xorStream (l : List UInt8) : xorStream ks (xorStream ks l) = l := by
  refine List.ext_getElem? fun i => ?_
  rw [getElem?_xorStream, getElem?_xorStream, Option.map_map]
  cases l[i]? with
  | none => rfl
  | some b => simp [UInt8.xor_assoc]

/-- A block in front of a text. -/
theorem zipWith_xor_toList {n : ℕ} {v : Vector UInt8 n} {l : List UInt8} (hl : l.length ≤ n)
    (hks : ∀ i < n, ks i = v.toList.getD i 0) :
    List.zipWith (· ^^^ ·) l v.toList = xorStream ks l := by
  refine List.ext_getElem? fun i => ?_
  rw [getElem?_xorStream]
  rcases Nat.lt_or_ge i l.length with hi | hi
  · have hv : i < v.toList.length := by
      rw [Vector.length_toList]
      omega
    rw [List.getElem?_zipWith, hks i (hi.trans_le hl), List.getD_eq_getElem?_getD,
      List.getElem?_eq_getElem hv, List.getElem?_eq_getElem hi]
    rfl
  · rw [List.getElem?_eq_none hi, List.getElem?_eq_none]
    · rfl
    · rw [List.length_zipWith]
      omega

end Stream

/-! ## The stream of a counter -/

section KeyStream

variable {B : Type*} {n : ℕ} (E : B → Vector UInt8 n) (inc : B → B)

/-- Byte `i` of the stream of the counter that starts with `c`. -/
def keyStream (c : B) (i : ℕ) : UInt8 := (E (inc^[i / n] c)).toList.getD (i % n) 0

theorem keyStream_of_lt {c : B} {i : ℕ} (h : i < n) :
    keyStream E inc c i = (E c).toList.getD i 0 := by
  rw [keyStream, Nat.div_eq_of_lt h, Nat.mod_eq_of_lt h]
  rfl

/-- A block further on. -/
theorem keyStream_add (hn : 0 < n) (c : B) (i : ℕ) :
    keyStream E inc c (n + i) = keyStream E inc (inc c) i := by
  rw [keyStream, keyStream, Nat.add_div_left i hn, Nat.add_mod_left, Function.iterate_succ_apply]

end KeyStream

end Tqos
