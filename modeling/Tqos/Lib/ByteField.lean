import Mathlib.Algebra.Field.IsField
import Mathlib.Algebra.Field.ZMod
import Mathlib.RingTheory.AdjoinRoot
import Mathlib.Tactic.LinearCombination
import Tqos.Lib.Gf256

/-!
# The field of the bytes

Bytes are the polynomials of degree below eight over the field with two elements, and they are
calculated with modulo `x⁸ + x⁴ + x³ + x + 1`. `toField` is what a byte stands for.

## Main results

* `toField_xor`, `toField_xtime`, `toField_bmul` — the operations on bytes are those of the field
* `isField`, `inverse_toField` — with inverses on bytes there are inverses
* `toField_surjective`, `toField_injective` — each element is that of one byte
-/

namespace Tqos

namespace ByteField

open Polynomial

/-! ## The ring -/

/-- `x⁸ + x⁴ + x³ + x + 1`. -/
noncomputable def modulus : (ZMod 2)[X] := X ^ 8 + X ^ 4 + X ^ 3 + X + 1

/-- The polynomials modulo it. -/
abbrev GF : Type := AdjoinRoot modulus

/-- The polynomial `x`. -/
noncomputable abbrev root : GF := AdjoinRoot.root modulus

theorem add_self (a : GF) : a + a = 0 := by
  have htwo : (2 : ZMod 2) = 0 := rfl
  rw [← two_smul (ZMod 2) a, htwo, zero_smul]

theorem root_pow_eight : root ^ 8 = root ^ 4 + root ^ 3 + root + 1 := by
  have hzero : AdjoinRoot.mk modulus (X ^ 8 + X ^ 4 + X ^ 3 + X + 1) = 0 := AdjoinRoot.mk_self
  simp only [map_add, map_pow, map_one, AdjoinRoot.mk_X] at hzero
  linear_combination hzero - add_self (root ^ 4 + root ^ 3 + root + 1)

/-! ## Bytes -/

/-- A coefficient. -/
def bit (b : UInt8) (i : ℕ) : ZMod 2 := if b.toNat.testBit i then 1 else 0

/-- What a byte stands for. -/
noncomputable def toField (b : UInt8) : GF :=
  ∑ i ∈ Finset.range 8, AdjoinRoot.of modulus (bit b i) * root ^ i

/-- The sum of the doubles of `a` at the coefficients of `b`, from the `i`-th of them on. -/
def bmulFrom (b : UInt8) : ℕ → ℕ → UInt8 → UInt8
  | 0, _, _ => 0
  | n + 1, i, a => (bif b.toNat.testBit i then a else 0) ^^^ bmulFrom b n (i + 1) (Gf256.xtime a)

/-- Multiplication, by doubling and adding. -/
def bmul (a b : UInt8) : UInt8 := bmulFrom b 8 0 a

section Bytes

variable {a b : UInt8}

theorem bit_xor (a b : UInt8) (i : ℕ) : bit (a ^^^ b) i = bit a i + bit b i := by
  rw [bit, bit, bit, UInt8.toNat_xor, Nat.testBit_xor]
  cases a.toNat.testBit i <;> cases b.toNat.testBit i <;> rfl

@[simp] theorem toField_xor (a b : UInt8) : toField (a ^^^ b) = toField a + toField b := by
  rw [toField, toField, toField, ← Finset.sum_add_distrib]
  refine Finset.sum_congr rfl fun i _ => ?_
  rw [bit_xor, map_add, add_mul]

@[simp] theorem toField_zero : toField 0 = 0 := by
  refine Finset.sum_eq_zero fun i _ => ?_
  have hbit : bit 0 i = 0 := by
    rw [bit, UInt8.toNat_zero, Nat.zero_testBit]
    rfl
  rw [hbit, map_zero, zero_mul]

@[simp] theorem toField_one : toField 1 = 1 := by
  simp [toField, Finset.sum_range_succ, bit, Nat.testBit_succ]

/-- The coefficients of a doubled byte. -/
theorem bit_xtime (b : UInt8) :
    bit (Gf256.xtime b) 0 = bit b 7 ∧ bit (Gf256.xtime b) 1 = bit b 0 + bit b 7 ∧
      bit (Gf256.xtime b) 2 = bit b 1 ∧ bit (Gf256.xtime b) 3 = bit b 2 + bit b 7 ∧
      bit (Gf256.xtime b) 4 = bit b 3 + bit b 7 ∧ bit (Gf256.xtime b) 5 = bit b 4 ∧
      bit (Gf256.xtime b) 6 = bit b 5 ∧ bit (Gf256.xtime b) 7 = bit b 6 := by
  have h := forall_byte (p := fun b =>
    bit (Gf256.xtime b) 0 == bit b 7 && bit (Gf256.xtime b) 1 == bit b 0 + bit b 7 &&
      bit (Gf256.xtime b) 2 == bit b 1 && bit (Gf256.xtime b) 3 == bit b 2 + bit b 7 &&
      bit (Gf256.xtime b) 4 == bit b 3 + bit b 7 && bit (Gf256.xtime b) 5 == bit b 4 &&
      bit (Gf256.xtime b) 6 == bit b 5 && bit (Gf256.xtime b) 7 == bit b 6) (by decide +kernel) b
  simpa only [Bool.and_eq_true, beq_iff_eq, and_assoc] using h

/-- **Doubling** is multiplication by `x`. -/
@[simp] theorem toField_xtime (b : UInt8) : toField (Gf256.xtime b) = root * toField b := by
  obtain ⟨h0, h1, h2, h3, h4, h5, h6, h7⟩ := bit_xtime b
  simp only [toField, Finset.sum_range_succ, Finset.sum_range_zero, h0, h1, h2, h3, h4, h5, h6, h7,
    map_add]
  linear_combination (-AdjoinRoot.of modulus (bit b 7)) * root_pow_eight

theorem toField_bmulFrom (b : UInt8) (n i : ℕ) (a : UInt8) : toField (bmulFrom b n i a) =
    (∑ j ∈ Finset.range n, AdjoinRoot.of modulus (bit b (i + j)) * root ^ j) * toField a := by
  induction n generalizing i a with
  | zero => rw [Finset.sum_range_zero, zero_mul, bmulFrom, toField_zero]
  | succ n ih =>
    have hbit : toField (bif b.toNat.testBit i then a else 0) =
        AdjoinRoot.of modulus (bit b i) * toField a := by
      rw [bit]
      cases b.toNat.testBit i <;> simp
    have hshift : ∑ j ∈ Finset.range n, AdjoinRoot.of modulus (bit b (i + (j + 1))) * root ^ (j + 1) =
        root * ∑ j ∈ Finset.range n, AdjoinRoot.of modulus (bit b (i + 1 + j)) * root ^ j := by
      rw [Finset.mul_sum]
      refine Finset.sum_congr rfl fun j _ => ?_
      rw [Nat.add_assoc i 1 j, Nat.add_comm 1 j, pow_succ]
      ring
    rw [bmulFrom, toField_xor, ih, hbit, toField_xtime, Finset.sum_range_succ', hshift,
      Nat.add_zero, pow_zero]
    generalize ∑ j ∈ Finset.range n, AdjoinRoot.of modulus (bit b (i + 1 + j)) * root ^ j = rest
    ring

/-- **Multiplication.** -/
@[simp] theorem toField_bmul (a b : UInt8) : toField (bmul a b) = toField a * toField b := by
  rw [bmul, toField_bmulFrom, mul_comm]
  simp only [Nat.zero_add]
  rfl

end Bytes

/-! ## The field -/

theorem nontrivial : Nontrivial GF := by
  have hdegree : modulus.degree = 8 := by
    rw [modulus]
    compute_degree!
  refine AdjoinRoot.nontrivial modulus ?_
  rw [hdegree]
  decide

theorem toField_surjective : Function.Surjective toField := by
  intro a
  induction a using AdjoinRoot.induction_on with
  | ih p =>
    induction p using Polynomial.induction_on with
    | C c =>
      have hc : c = 0 ∨ c = 1 := by
        revert c
        decide
      rcases hc with rfl | rfl
      · exact ⟨0, by simp⟩
      · exact ⟨1, by simp⟩
    | add p q hp hq =>
      obtain ⟨a, ha⟩ := hp
      obtain ⟨b, hb⟩ := hq
      exact ⟨a ^^^ b, by rw [toField_xor, ha, hb, map_add]⟩
    | monomial n c h =>
      obtain ⟨a, ha⟩ := h
      have hroot : root = AdjoinRoot.mk modulus X := AdjoinRoot.mk_X.symm
      refine ⟨Gf256.xtime a, ?_⟩
      rw [toField_xtime, ha, hroot, ← map_mul]
      congr 1
      ring

/-- The byte of an element. -/
noncomputable def ofField : GF → UInt8 := Function.invFun toField

section Inverse

variable {inv : UInt8 → UInt8} (hinv : ∀ a, a ≠ 0 → bmul a (inv a) = 1)
include hinv

theorem toField_mul_inv {a : UInt8} (h : a ≠ 0) : toField a * toField (inv a) = 1 := by
  rw [← toField_bmul, hinv a h, toField_one]

/-- **The bytes are a field**, once there are inverses. -/
theorem isField : IsField GF := by
  have := nontrivial
  refine ⟨exists_pair_ne GF, mul_comm, fun {a} ha => ?_⟩
  obtain ⟨b, rfl⟩ := toField_surjective a
  refine ⟨toField (inv b), toField_mul_inv hinv ?_⟩
  rintro rfl
  exact ha toField_zero

/-- **Each element is that of one byte.** -/
theorem toField_injective : Function.Injective toField := by
  have := nontrivial
  intro a b h
  by_contra hne
  have hxor : a ^^^ b ≠ 0 := fun hzero => hne (UInt8.xor_eq_zero_iff.mp hzero)
  have hone := toField_mul_inv hinv hxor
  rw [toField_xor, h, add_self, zero_mul] at hone
  exact zero_ne_one hone

theorem ofField_toField (a : UInt8) : ofField (toField a) = a :=
  Function.leftInverse_invFun (toField_injective hinv) a

/-- **Inverses** are those of the bytes. -/
theorem inverse_toField (hzero : inv 0 = 0) (a : UInt8) :
    Ring.inverse (toField a) = toField (inv a) := by
  have := nontrivial
  by_cases h : a = 0
  · subst h
    rw [hzero, toField_zero, Ring.inverse_zero]
  · have hone := toField_mul_inv hinv h
    calc Ring.inverse (toField a) = Ring.inverse (toField a) * (toField a * toField (inv a)) := by
          rw [hone, mul_one]
      _ = toField (inv a) := by
          rw [← mul_assoc, Ring.inverse_mul_cancel _ (IsUnit.of_mul_eq_one _ hone), one_mul]

end Inverse

end ByteField

end Tqos
