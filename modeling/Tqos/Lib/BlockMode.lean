import Mathlib.Data.List.OfFn
import Mathlib.Logic.Function.Basic
import Mathlib.Tactic.Ring

/-!
# Block chaining and padding

What a program needs to know about a block cipher in chaining mode, without the cipher: how a
buffer is cut into blocks, that chained decryption undoes chained encryption for *any* pair of
inverse block maps, and that the padding that says its own length can be cut off again.

## Main results

* `blocksFrom_flat`, `flat_blocksFrom` — a buffer and its blocks determine each other
* `cbcDecrypt_cbcEncrypt` — chained decryption undoes chained encryption
* `cutPadding_pad` — the length found in the last byte of a padded text is the one that was added
-/

namespace Tqos

/-! ## Cutting a buffer into blocks -/

section Blocks

variable {α : Type*} [Inhabited α] {n : ℕ}

/-- The `n` elements of `l` from offset `off` on. -/
def blockAt (n : ℕ) (l : List α) (off : ℕ) : Vector α n :=
  Vector.ofFn fun i => l.getD (off + i) default

/-- The `k` blocks of `l` from block number `i` on. -/
def blocksFrom (n : ℕ) (l : List α) : ℕ → ℕ → List (Vector α n)
  | _, 0 => []
  | i, k + 1 => blockAt n l (n * i) :: blocksFrom n l (i + 1) k

omit [Inhabited α] in
/-- Blocks written one after another. -/
def flat (bs : List (Vector α n)) : List α := bs.flatMap Vector.toList

omit [Inhabited α] in
@[simp] theorem flat_nil : flat ([] : List (Vector α n)) = [] := rfl

omit [Inhabited α] in
@[simp] theorem flat_cons (b : Vector α n) (bs : List (Vector α n)) :
    flat (b :: bs) = b.toList ++ flat bs := rfl

omit [Inhabited α] in
@[simp] theorem length_flat (bs : List (Vector α n)) : (flat bs).length = n * bs.length := by
  induction bs with
  | nil => simp
  | cons b bs ih => simp [ih]; ring

@[simp] theorem length_blocksFrom (l : List α) (i k : ℕ) : (blocksFrom n l i k).length = k := by
  induction k generalizing i with
  | zero => rfl
  | succ k ih => simp [blocksFrom, ih]

theorem toList_blockAt {l : List α} {off : ℕ} (h : off + n ≤ l.length) :
    (blockAt n l off).toList = (l.drop off).take n := by
  refine List.ext_getElem (by simp; omega) fun i h₁ h₂ => ?_
  have hi : off + i < l.length := by
    have : i < n := by simpa using h₁
    omega
  simp [blockAt, Vector.toList_ofFn, List.getElem?_eq_getElem hi]

/-- Reading back the block written behind `pre`. -/
theorem blockAt_append (pre post : List α) (b : Vector α n) :
    blockAt n (pre ++ (b.toList ++ post)) pre.length = b := by
  rw [← Vector.toList_inj, toList_blockAt (by simp), List.drop_left,
    List.take_left' b.length_toList]

/-- The blocks of a buffer, written one after another, are that part of the buffer. -/
theorem flat_blocksFrom {l : List α} {i k : ℕ} (h : n * (i + k) ≤ l.length) :
    flat (blocksFrom n l i k) = (l.drop (n * i)).take (n * k) := by
  induction k generalizing i with
  | zero => simp [blocksFrom]
  | succ k ih =>
    have hi : n * (i + (k + 1)) = n * i + n + n * k := by ring
    have hi' : n * (i + 1 + k) = n * i + n + n * k := by ring
    rw [blocksFrom, flat_cons, toList_blockAt (by omega), ih (by omega),
      show n * (i + 1) = n * i + n by ring, show n * (k + 1) = n + n * k by ring,
      ← List.drop_drop, ← List.take_add]

/-- Cutting blocks that were written one after another gives them back. -/
theorem blocksFrom_append_flat {pre : List α} {i : ℕ} (hpre : pre.length = n * i)
    (bs : List (Vector α n)) (post : List α) :
    blocksFrom n (pre ++ (flat bs ++ post)) i bs.length = bs := by
  induction bs generalizing pre i with
  | nil => rfl
  | cons b bs ih =>
    have hpre' : (pre ++ b.toList).length = n * (i + 1) := by
      rw [List.length_append, hpre, b.length_toList]; ring
    rw [List.length_cons, blocksFrom, flat_cons, List.append_assoc, ← hpre, blockAt_append,
      ← List.append_assoc pre, ih hpre']

theorem blocksFrom_flat (bs : List (Vector α n)) :
    blocksFrom n (flat bs) 0 bs.length = bs := by
  have hnil : ([] : List α).length = n * 0 := by simp
  simpa using blocksFrom_append_flat hnil bs []

end Blocks

/-! ## Chaining

`mix k b` is `b` combined with `k` so that combining twice with the same `k` is no change; `E` and
`D` are the two directions of the cipher under some key. -/

section Chaining

variable {B : Type*} (mix : B → B → B) (E D : B → B)

/-- Chained encryption: each block is mixed with the ciphertext in front of it. -/
def cbcEncrypt (iv : B) : List B → List B
  | [] => []
  | b :: bs => E (mix iv b) :: cbcEncrypt (E (mix iv b)) bs

/-- Chained decryption: each deciphered block is mixed with the ciphertext in front of it. -/
def cbcDecrypt (iv : B) : List B → List B
  | [] => []
  | c :: cs => mix iv (D c) :: cbcDecrypt c cs

@[simp] theorem length_cbcEncrypt (iv : B) (bs : List B) :
    (cbcEncrypt mix E iv bs).length = bs.length := by
  induction bs generalizing iv with
  | nil => rfl
  | cons b bs ih => simp [cbcEncrypt, ih]

@[simp] theorem length_cbcDecrypt (iv : B) (bs : List B) :
    (cbcDecrypt mix D iv bs).length = bs.length := by
  induction bs generalizing iv with
  | nil => rfl
  | cons b bs ih => simp [cbcDecrypt, ih]

/-- **Chained decryption undoes chained encryption**, whatever the cipher is. -/
theorem cbcDecrypt_cbcEncrypt (hmix : ∀ k, Function.Involutive (mix k))
    (hD : Function.LeftInverse D E) (iv : B) (bs : List B) :
    cbcDecrypt mix D iv (cbcEncrypt mix E iv bs) = bs := by
  induction bs generalizing iv with
  | nil => rfl
  | cons b bs ih => rw [cbcEncrypt, cbcDecrypt, hD, hmix iv b, ih]

end Chaining

/-! ## Padding

A text of length `n` is filled up to a multiple of `b` by one to `b` bytes, each of which holds
their number. -/

section Padding

variable {b : ℕ}

/-- How many bytes fill a text of length `n` up to a multiple of `b`. -/
def padLen (b n : ℕ) : ℕ := b - n % b

/-- `d` filled up to a multiple of `b`. -/
def pad (b : ℕ) (d : List UInt8) : List UInt8 :=
  d ++ List.replicate (padLen b d.length) (UInt8.ofNat (padLen b d.length))

/-- The length left of a text of length `n` whose last byte is `last`. -/
def cutPadding (b n : ℕ) (last : UInt8) : ℕ :=
  if 0 < last.toNat ∧ last.toNat ≤ b then n - last.toNat else n

theorem padLen_pos (hb : 0 < b) (n : ℕ) : 0 < padLen b n := by
  have := Nat.mod_lt n hb
  rw [padLen]; omega

theorem padLen_le (b n : ℕ) : padLen b n ≤ b := Nat.sub_le _ _

theorem add_padLen (hb : 0 < b) (n : ℕ) : n + padLen b n = b * (n / b + 1) := by
  have hdiv := Nat.div_add_mod n b
  have hmod := Nat.mod_lt n hb
  rw [padLen, Nat.mul_add, Nat.mul_one]
  omega

theorem length_pad (hb : 0 < b) (d : List UInt8) : (pad b d).length = b * (d.length / b + 1) := by
  rw [pad, List.length_append, List.length_replicate, add_padLen hb]

/-- The last byte of a padded text is the number of bytes that were added. -/
theorem getLast?_pad (hb : 0 < b) (d : List UInt8) :
    (pad b d).getLast? = some (UInt8.ofNat (padLen b d.length)) := by
  obtain ⟨m, hm⟩ := Nat.exists_eq_add_of_lt (padLen_pos hb d.length)
  rw [pad, hm, Nat.zero_add, List.replicate_succ', ← List.append_assoc, List.getLast?_concat]

/-- **The padding is cut off again.** -/
theorem cutPadding_pad (hb : 0 < b) (hb' : b < 256) (d : List UInt8) :
    cutPadding b (pad b d).length (UInt8.ofNat (padLen b d.length)) = d.length := by
  have hle := padLen_le b d.length
  have htoNat : (UInt8.ofNat (padLen b d.length)).toNat = padLen b d.length := by
    rw [UInt8.toNat_ofNat']; exact Nat.mod_eq_of_lt (by omega)
  rw [cutPadding, htoNat, if_pos ⟨padLen_pos hb _, hle⟩, pad, List.length_append,
    List.length_replicate, Nat.add_sub_cancel]

theorem take_pad (d : List UInt8) : (pad b d).take d.length = d := by
  rw [pad, List.take_left]

end Padding

end Tqos
