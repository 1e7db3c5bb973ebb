import Mathlib.Data.Nat.ModEq
import Tqos.Lib.Bytes
import Tqos.Lib.CounterMode
import Tqos.Tserver.Crypto

/-!
# The counter mode of `tq_aes.c`

`increment_iv` adds one to the number that the last bytes of a block spell, and `aes_encrypt_ctr`
combines a text of any length with the stream that the cipher makes of the blocks that follow.

## Main results

* `counter_incrementIv` — the carry
* `aesEncryptCtr_eq` — the loop, the last block and the text that is shorter than a block
* `aesDecryptCtr_aesEncryptCtr` — `aes_decrypt_ctr`
* `aesEncryptCtr_counterMode` — the mode
-/

namespace Tqos

namespace Aes

/-! ## The counter -/

/-- The loop of `increment_iv`, with `idx + 1` places left and `low` for
`AES_BLOCK_SIZE - counter_size`. -/
def incrementLoop (low : ℤ) : (n : ℕ) → n ≤ 16 → Block → Block
  | 0, _, iv => iv
  | idx + 1, h, iv =>
    if (idx : ℤ) < low then iv
    else
      let iv := iv.set idx (iv[idx] + 1)
      if iv[idx] ≠ 0 ∨ (idx : ℤ) = low then iv
      else incrementLoop low idx (Nat.le_of_succ_le h) iv

/-- `increment_iv`. -/
def incrementIv (iv : Block) (counterSize : ℤ) : Block :=
  incrementLoop (16 - counterSize) 16 le_rfl iv

/-- The number that the bytes of a block from place `low` on and in front of place `n` spell. -/
def counter (low : ℕ) (iv : Block) : ℕ → ℕ
  | 0 => 0
  | idx + 1 => if idx < low then 0 else (iv.toList.getD idx 0).toNat + 256 * counter low iv idx

section Increment

variable {low n : ℕ} {iv iv' : Block}

theorem getD_set {idx i : ℕ} (h : idx < 16) (b : UInt8) :
    (iv.set idx b).toList.getD i 0 = if idx = i then b else iv.toList.getD i 0 := by
  rw [Vector.toList_set, List.getD_eq_getElem?_getD, List.getElem?_set]
  split
  · rw [if_pos (by rw [Vector.length_toList]; exact h), Option.getD_some]
  · rw [List.getD_eq_getElem?_getD]

theorem getD_toList (iv : Block) {idx : ℕ} (h : idx < 16) : iv.toList.getD idx 0 = iv[idx] := by
  have hlen : idx < iv.toList.length := by
    rw [Vector.length_toList]
    exact h
  rw [List.getD_eq_getElem?_getD, List.getElem?_eq_getElem hlen, Option.getD_some,
    Vector.getElem_toList]

theorem counter_congr (h : ∀ i < n, iv.toList.getD i 0 = iv'.toList.getD i 0) :
    counter low iv n = counter low iv' n := by
  induction n with
  | zero => rfl
  | succ n ih =>
    rw [counter, counter, h n (Nat.lt_succ_self n),
      ih fun i hi => h i (hi.trans (Nat.lt_succ_self n))]

/-- The bytes that are not part of the counter. -/
theorem getD_incrementLoop (hn : n ≤ 16) {i : ℕ} (hi : i < low ∨ n ≤ i) :
    (incrementLoop low n hn iv).toList.getD i 0 = iv.toList.getD i 0 := by
  induction n generalizing iv with
  | zero => rfl
  | succ idx ih =>
    rw [incrementLoop]
    split
    · rfl
    · rename_i hlow
      have hne : idx ≠ i := by omega
      dsimp only
      split
      · rw [getD_set, if_neg hne]
      · rw [ih _ (by omega), getD_set, if_neg hne]

theorem counter_self (low : ℕ) (iv : Block) : counter low iv low = 0 := by
  cases low with
  | zero => rfl
  | succ low => rw [counter, if_pos (Nat.lt_succ_self low)]

theorem counter_lt (hlow : low ≤ n) : counter low iv n < 256 ^ (n - low) := by
  induction n with
  | zero => exact Nat.pow_pos (by decide)
  | succ idx ih =>
    rw [counter]
    split
    · exact Nat.pow_pos (by decide)
    · rename_i hidx
      have hrest := ih (by omega)
      have hlt := (iv.toList.getD idx 0).toNat_lt
      rw [Nat.succ_sub (by omega), Nat.pow_succ]
      omega

/-- **The carry.** -/
theorem counter_incrementLoop (hn : n ≤ 16) (hlow : low < n) :
    counter low (incrementLoop low n hn iv) n = (counter low iv n + 1) % 256 ^ (n - low) := by
  induction n generalizing iv with
  | zero => omega
  | succ idx ih =>
    have hidx : idx < 16 := hn
    have hnot : ¬ (idx : ℤ) < low := by omega
    have hnot' : ¬ idx < low := by omega
    have hset (b : UInt8) : (iv.set idx b)[idx] = b := Vector.getElem_set_self hidx
    have hrest (b : UInt8) : counter low (iv.set idx b) idx = counter low iv idx :=
      counter_congr fun i hi => by rw [getD_set hidx, if_neg (by omega)]
    have hcounter : counter low iv (idx + 1) = iv[idx].toNat + 256 * counter low iv idx := by
      rw [counter, if_neg hnot', getD_toList iv hidx]
    have hbound : counter low iv idx < 256 ^ (idx - low) := counter_lt (by omega)
    have hpow : 256 ^ (idx + 1 - low) = 256 * 256 ^ (idx - low) := by
      rw [Nat.succ_sub (by omega), Nat.pow_succ, Nat.mul_comm]
    have hlt := iv[idx].toNat_lt
    have hadd : (iv[idx] + 1).toNat = (iv[idx].toNat + 1) % 256 := by simp
    rw [incrementLoop, if_neg hnot]
    dsimp only
    rw [hset, hcounter, hpow]
    by_cases hzero : iv[idx] + 1 = 0
    · have hbyte255 : iv[idx].toNat + 1 = 256 := by
        rw [hzero] at hadd
        have hmod : 0 = (iv[idx].toNat + 1) % 256 := hadd
        omega
      have hsum : iv[idx].toNat + 256 * counter low iv idx + 1 =
          256 * (counter low iv idx + 1) := by omega
      rw [hzero, hsum, Nat.mul_mod_mul_left]
      by_cases hend : (idx : ℤ) = low
      · -- the counter starts again
        obtain rfl : idx = low := by omega
        rw [if_pos (Or.inr hend), counter, if_neg hnot', hrest, counter_self, getD_set hidx,
          if_pos rfl, Nat.sub_self, Nat.pow_zero, Nat.mod_one]
        rfl
      · rw [if_neg (by simp [hend]), counter, if_neg hnot', ih _ (by omega), hrest,
          getD_incrementLoop _ (Or.inr le_rfl), getD_set hidx, if_pos rfl]
        exact Nat.zero_add _
    · have hsmall : iv[idx].toNat + 1 < 256 := by
        by_contra hge
        refine hzero (UInt8.toNat_inj.mp ?_)
        rw [hadd]
        show _ = 0
        omega
      rw [if_pos (Or.inl hzero), counter, if_neg hnot', hrest, getD_set hidx, if_pos rfl, hadd,
        Nat.mod_eq_of_lt hsmall, Nat.mod_eq_of_lt (by omega)]
      omega

/-- **`increment_iv`** adds one to the number in the last `counterSize` bytes. -/
theorem counter_incrementIv {counterSize : ℕ} (hpos : 0 < counterSize) (hle : counterSize ≤ 16)
    (iv : Block) : counter (16 - counterSize) (incrementIv iv counterSize) 16 =
      (counter (16 - counterSize) iv 16 + 1) % 256 ^ counterSize := by
  have hlow : (16 : ℤ) - counterSize = (16 - counterSize : ℕ) := by omega
  rw [incrementIv, hlow, counter_incrementLoop le_rfl (by omega), Nat.sub_sub_self hle]

/-- Blocks that follow one another are different until the counter starts again. -/
theorem injOn_incrementIv (iv : Block) :
    Set.InjOn (fun j => (incrementIv · 16)^[j] iv) (Set.Iio (256 ^ 16)) := by
  intro j hj k hk h
  rw [Set.mem_Iio] at hj hk
  have hsucc (b : Block) : counter 0 (incrementIv b 16) 16 = (counter 0 b 16 + 1) % 256 ^ 16 := by
    simpa only [Nat.cast_ofNat, Nat.sub_self] using
      counter_incrementIv (show 0 < 16 by decide) le_rfl b
  have hlt : counter 0 iv 16 < 256 ^ 16 := counter_lt (Nat.zero_le 16)
  -- the number of the counters is not to be computed
  generalize 256 ^ 16 = M at hj hk hsucc hlt
  have hiter (m : ℕ) : counter 0 ((incrementIv · 16)^[m] iv) 16 = (counter 0 iv 16 + m) % M := by
    induction m with
    | zero => rw [Function.iterate_zero_apply, Nat.add_zero, Nat.mod_eq_of_lt hlt]
    | succ m ih =>
      rw [Function.iterate_succ_apply', hsucc, ih, Nat.mod_add_mod, Nat.add_assoc]
  have hnum : (counter 0 iv 16 + j) % M = (counter 0 iv 16 + k) % M := by
    rw [← hiter, ← hiter]
    exact congrArg (counter 0 · 16) h
  have hmod : j % M = k % M := Nat.ModEq.add_left_cancel' _ hnum
  rwa [Nat.mod_eq_of_lt hj, Nat.mod_eq_of_lt hk] at hmod

end Increment

/-! ## The text -/

/-- `xor_buf` on `len` bytes of `out` from `off` on, with the first ones of a block. -/
def xorBufAt (inp : Block) (out : List UInt8) (off len : ℕ) : List UInt8 :=
  blit out off (List.zipWith (· ^^^ ·) ((out.drop off).take len) inp.toList)

/-- The loop of `aes_encrypt_ctr`: `idx`, `iv_buf` and `out` when it ends. -/
def ctrLoop (E : Block → Block) (last idx : ℕ) (iv : Block) (out : List UInt8) :
    ℕ × Block × List UInt8 :=
  if idx < last then ctrLoop E last (idx + 16) (incrementIv iv 16) (xorBufAt (E iv) out idx 16)
  else (idx, iv, out)
termination_by last - idx

/-- `aes_encrypt_ctr`. -/
def aesEncryptCtr (key : List UInt32) (keysize : ℕ) (iv : Block) (inp : List UInt8) :
    List UInt8 :=
  let E := aesEncrypt key keysize
  -- the length of the text up to the last block is read for longer texts only
  let r := if 16 < inp.length then ctrLoop E (inp.length - 16) 0 iv inp else (0, iv, inp)
  xorBufAt (E r.2.1) r.2.2 r.1 (inp.length - r.1)

/-- `aes_decrypt_ctr`. -/
def aesDecryptCtr (key : List UInt32) (keysize : ℕ) (iv : Block) (inp : List UInt8) :
    List UInt8 := aesEncryptCtr key keysize iv inp

section Text

/-- The stream of `aes_encrypt_ctr`. -/
abbrev ctrStream (E : Block → Block) (iv : Block) : ℕ → UInt8 := keyStream E (incrementIv · 16) iv

theorem xorBufAt_append (E : Block → Block) (iv : Block) (pre rest : List UInt8)
    {part : List UInt8} (hpart : part.length ≤ 16) :
    xorBufAt (E iv) (pre ++ (part ++ rest)) pre.length part.length =
      pre ++ (xorStream (ctrStream E iv) part ++ rest) := by
  have hzip : List.zipWith (· ^^^ ·) part (E iv).toList = xorStream (ctrStream E iv) part :=
    zipWith_xor_toList hpart fun i hi => keyStream_of_lt E (incrementIv · 16) hi
  rw [xorBufAt, List.drop_left, List.take_left, hzip, blit_append rfl (length_xorStream part)]

/-- What is left of the text when the loop comes to a block, and the last block. -/
theorem xorBufAt_ctrLoop (E : Block → Block) (iv : Block) (pre rest : List UInt8) {idx last : ℕ}
    (hidx : pre.length = idx) (hlast : idx + rest.length - 16 = last)
    {r : ℕ × Block × List UInt8} (hr : ctrLoop E last idx iv (pre ++ rest) = r) :
    xorBufAt (E r.2.1) r.2.2 r.1 (idx + rest.length - r.1) =
      pre ++ xorStream (ctrStream E iv) rest := by
  induction hn : rest.length using Nat.strong_induction_on generalizing pre rest idx iv with
  | _ n ih =>
    rw [ctrLoop] at hr
    split at hr
    · rename_i hlt
      -- a whole block, and at least one more byte
      obtain ⟨part, rest, rfl, hpart⟩ : ∃ part rest', rest = part ++ rest' ∧ part.length = 16 :=
        ⟨rest.take 16, rest.drop 16, (List.take_append_drop 16 rest).symm,
          List.length_take_of_le (by omega)⟩
      have hblock := xorBufAt_append E iv pre rest hpart.le
      rw [hidx, hpart] at hblock
      rw [hblock, ← List.append_assoc] at hr
      rw [List.length_append, hpart] at hlast hn
      have hrest := ih rest.length (by omega) (incrementIv iv 16)
        (pre ++ xorStream (ctrStream E iv) part) rest
        (by rw [List.length_append, length_xorStream, hidx, hpart]) (by omega) hr rfl
      have hstream : (fun i => ctrStream E iv (16 + i)) = ctrStream E (incrementIv iv 16) := by
        funext i
        exact keyStream_add E (incrementIv · 16) (by decide) iv i
      rw [← hn, ← Nat.add_assoc, hrest, xorStream_append, hpart, hstream, List.append_assoc]
    · subst hr
      have hle : rest.length ≤ 16 := by omega
      have hblock := xorBufAt_append E iv pre [] hle
      rw [List.append_nil, List.append_nil, hidx] at hblock
      rw [← hn, Nat.add_sub_cancel_left]
      exact hblock

/-- **`aes_encrypt_ctr`** combines the text with the stream. -/
theorem aesEncryptCtr_eq (key : List UInt32) (keysize : ℕ) (iv : Block) (inp : List UInt8) :
    aesEncryptCtr key keysize iv inp = xorStream (ctrStream (aesEncrypt key keysize) iv) inp := by
  have hloop : (if 16 < inp.length then
      ctrLoop (aesEncrypt key keysize) (inp.length - 16) 0 iv inp else (0, iv, inp)) =
        ctrLoop (aesEncrypt key keysize) (inp.length - 16) 0 iv ([] ++ inp) := by
    split
    · rfl
    · rw [ctrLoop, if_neg (by omega)]
      rfl
  have hnil : ([] : List UInt8).length = 0 := rfl
  have hlast : 0 + inp.length - 16 = inp.length - 16 := by rw [Nat.zero_add]
  have hfinish := xorBufAt_ctrLoop (aesEncrypt key keysize) iv [] inp hnil hlast rfl
  rw [Nat.zero_add, List.nil_append] at hfinish
  rw [aesEncryptCtr, hloop]
  exact hfinish

/-- **`aes_decrypt_ctr`** gives the text back. -/
theorem aesDecryptCtr_aesEncryptCtr (key : List UInt32) (keysize : ℕ) (iv : Block)
    (inp : List UInt8) :
    aesDecryptCtr key keysize iv (aesEncryptCtr key keysize iv inp) = inp := by
  rw [aesDecryptCtr, aesEncryptCtr_eq, aesEncryptCtr_eq, xorStream_xorStream]

/-- **Counter mode**, for every key, counter and length: the text comes back, a byte depends on that
byte of the text only, and 2¹²⁸ blocks of the stream are made from different counters. -/
theorem aesEncryptCtr_counterMode (key : List UInt32) (keysize : ℕ) (iv : Block)
    (inp : List UInt8) :
    aesDecryptCtr key keysize iv (aesEncryptCtr key keysize iv inp) = inp ∧
      (∀ i, (aesEncryptCtr key keysize iv inp)[i]? =
        inp[i]?.map (· ^^^ ctrStream (aesEncrypt key keysize) iv i)) ∧
      Set.InjOn (fun j => (incrementIv · 16)^[j] iv) (Set.Iio (256 ^ 16)) := by
  refine ⟨aesDecryptCtr_aesEncryptCtr key keysize iv inp, fun i => ?_, injOn_incrementIv iv⟩
  rw [aesEncryptCtr_eq, getElem?_xorStream]

end Text

end Aes

end Tqos
