import Mathlib.Data.Matrix.Mul
import Mathlib.LinearAlgebra.Matrix.Circulant
import Tqos.Lib.ByteField

/-!
# The cipher as algebra

The standard block cipher on 4×4 matrices: a round substitutes every entry, turns the rows,
multiplies by a circulant matrix and adds a key. The keys are words that a recursion makes of the
first ones. The entries are of any commutative ring, with any substitution; `sbox` is the one of the
standard, on the field of the bytes.

## Main definitions

* `expand` — the words of the key
* `cipher` — the cipher, for a number of rounds
* `sbox` — an inverse in the field and an affine map of its bits
-/

namespace Tqos

namespace Rijndael

/-- Four entries: a column of a state. -/
abbrev Word (K : Type*) := Fin 4 → K

/-- A state, by rows. -/
abbrev State (K : Type*) := Matrix (Fin 4) (Fin 4) K

section Cipher

variable {K : Type*} [CommRing K] (sub : K → K) (x : K)

/-- The entries of a word, one place on. -/
def rotWord (w : Word K) : Word K := fun r => w (finRotate 4 r)

/-- What is added to a word `nk` places before to get the word `i`, of the word before. -/
def schedule (nk i : ℕ) (before : Word K) : Word K :=
  if i % nk = 0 then sub ∘ rotWord before + ![x ^ (i / nk - 1), 0, 0, 0]
  else if 6 < nk ∧ i % nk = 4 then sub ∘ before
  else before

/-- The words of the key: the first `nk` are given. -/
def expand (nk : ℕ) (key : ℕ → Word K) (i : ℕ) : Word K :=
  if i < nk ∨ nk = 0 then key i
  else expand nk key (i - nk) + schedule sub x nk i (expand nk key (i - 1))
termination_by i

/-- The rows are turned to the left, each by its number. -/
def shiftRows (A : State K) : State K := Matrix.of fun r c => A r (c + r)

/-- The matrix that mixes the columns. -/
def mixing : State K := Matrix.circulant ![x, 1, 1, x + 1]

/-- The key of a round. -/
def roundKey (w : ℕ → Word K) (i : ℕ) : State K := Matrix.of fun r c => w (4 * i + c) r

/-- A round. -/
def round (w : ℕ → Word K) (A : State K) (i : ℕ) : State K :=
  mixing x * shiftRows (A.map sub) + roundKey w i

/-- The cipher, with a last round that does not mix. -/
def cipher (w : ℕ → Word K) (nr : ℕ) (A : State K) : State K :=
  shiftRows (((List.range' 1 (nr - 1)).foldl (round sub x w) (A + roundKey w 0)).map sub) +
    roundKey w nr

variable {sub x} {w w' : ℕ → Word K} {nk nr i : ℕ} {key : ℕ → Word K}

theorem expand_of_lt (h : i < nk) : expand sub x nk key i = key i := by
  rw [expand, if_pos (Or.inl h)]

theorem expand_of_le (hnk : 0 < nk) (h : nk ≤ i) : expand sub x nk key i =
    expand sub x nk key (i - nk) + schedule sub x nk i (expand sub x nk key (i - 1)) := by
  rw [expand, if_neg (by omega)]

omit [CommRing K] in
theorem roundKey_congr (h : ∀ j < 4 * (nr + 1), w j = w' j) (hi : i ≤ nr) :
    roundKey w i = roundKey w' i := by
  ext r c
  have hc := c.isLt
  simp only [roundKey, Matrix.of_apply]
  rw [h _ (by omega)]

/-- The words that are used. -/
theorem cipher_congr (h : ∀ j < 4 * (nr + 1), w j = w' j) (A : State K) :
    cipher sub x w nr A = cipher sub x w' nr A := by
  have hfold : ∀ (l : List ℕ), (∀ i ∈ l, i ≤ nr) → ∀ B : State K,
      l.foldl (round sub x w) B = l.foldl (round sub x w') B := by
    intro l hl
    induction l with
    | nil => exact fun _ => rfl
    | cons i l ih =>
      intro B
      have hround : round sub x w B i = round sub x w' B i := by
        rw [round, round, roundKey_congr h (hl i List.mem_cons_self)]
      rw [List.foldl_cons, List.foldl_cons, hround,
        ih fun j hj => hl j (List.mem_cons_of_mem _ hj)]
  rw [cipher, cipher, roundKey_congr h (Nat.zero_le nr), roundKey_congr h le_rfl, hfold]
  intro i hi
  rw [List.mem_range'_1] at hi
  omega

end Cipher

/-! ## The substitution -/

/-- A byte turned to the left. -/
def rotl (b : UInt8) (n : UInt8) : UInt8 := b <<< n ||| b >>> (8 - n)

/-- The affine map of the bits. -/
def affine (b : UInt8) : UInt8 := b ^^^ rotl b 1 ^^^ rotl b 2 ^^^ rotl b 3 ^^^ rotl b 4 ^^^ 0x63

/-- The substitution. -/
noncomputable def sbox (a : ByteField.GF) : ByteField.GF :=
  ByteField.toField (affine (ByteField.ofField (Ring.inverse a)))

/-- The substitution on bytes. -/
theorem sbox_toField {inv : UInt8 → UInt8} (hinv : ∀ a, a ≠ 0 → ByteField.bmul a (inv a) = 1)
    (hzero : inv 0 = 0) (b : UInt8) :
    sbox (ByteField.toField b) = ByteField.toField (affine (inv b)) := by
  rw [sbox, ByteField.inverse_toField hinv hzero, ByteField.ofField_toField hinv]

end Rijndael

end Tqos
