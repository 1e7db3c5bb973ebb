import Mathlib.Data.List.Range
import Mathlib.Tactic.Common

/-!
# Bytes as elements of GF(2⁸)

The arithmetic behind the column mixing of the AES round: doubling modulo `x⁸ + x⁴ + x³ + x + 1`,
multiplication by the small constants that occur there, and the one fact that matters about them,
that the two circulant matrices `(2 3 1 1)` and `(14 11 13 9)` are inverse to each other.

Addition is `^^^`. Multiplication by a constant is additive, so a product of the two matrices comes
down to four identities in *one* byte, and those are checked for each of the 256 bytes.
-/

namespace Tqos

/-- A property of bytes that can be evaluated holds of all of them once it holds of 256 numbers. -/
theorem forall_byte {p : UInt8 → Bool}
    (h : (List.range 256).all (fun n => p (UInt8.ofNat n)) = true) (x : UInt8) : p x = true := by
  have := List.all_eq_true.mp h x.toNat (List.mem_range.mpr x.toNat_lt)
  rwa [UInt8.ofNat_toNat] at this

namespace Gf256

/-- What the carry of a doubling is reduced to. -/
def carry (x : UInt8) : UInt8 := (x >>> 7) * 0x1b

/-- Doubling, reduced by the field polynomial. -/
def xtime (x : UInt8) : UInt8 := (x <<< 1) ^^^ carry x

/-- Multiplication by a constant below sixteen, by doubling and adding. -/
def gmul (c : ℕ) (x : UInt8) : UInt8 :=
  (bif c.testBit 0 then x else 0) ^^^ (bif c.testBit 1 then xtime x else 0) ^^^
    (bif c.testBit 2 then xtime (xtime x) else 0) ^^^
      (bif c.testBit 3 then xtime (xtime (xtime x)) else 0)

/-- The top bit of a sum is the sum of the top bits, and so is what it is reduced to. -/
theorem carry_xor (x y : UInt8) : carry (x ^^^ y) = carry x ^^^ carry y := by
  have hbit : ∀ z : UInt8, z >>> 7 = 0 ∨ z >>> 7 = 1 := fun z => by
    have := forall_byte (p := fun z => z >>> 7 == 0 || z >>> 7 == 1) (by decide +kernel) z
    simpa using this
  rw [carry, UInt8.shiftRight_xor, carry, carry]
  rcases hbit x with hx | hx <;> rcases hbit y with hy | hy <;> rw [hx, hy] <;> rfl

@[simp] theorem xtime_xor (x y : UInt8) : xtime (x ^^^ y) = xtime x ^^^ xtime y := by
  rw [xtime, xtime, xtime, carry_xor, UInt8.shiftLeft_xor]
  ac_rfl

/-- Multiplication by a constant is additive. -/
theorem gmul_xor (c : ℕ) (x y : UInt8) : gmul c (x ^^^ y) = gmul c x ^^^ gmul c y := by
  have hif : ∀ (b : Bool) (u v : UInt8),
      (bif b then u ^^^ v else 0) = (bif b then u else 0) ^^^ (bif b then v else 0) := by
    intro b u v
    cases b <;> simp
  simp only [gmul, xtime_xor, hif]
  ac_rfl

/-! ## The two circulant matrices

The rows of the product of `(14 11 13 9)` with `(2 3 1 1)`, one identity for each diagonal. -/

theorem circulant_zero (x : UInt8) :
    gmul 14 (gmul 2 x) ^^^ gmul 11 x ^^^ gmul 13 x ^^^ gmul 9 (gmul 3 x) = x :=
  eq_of_beq <| forall_byte (p := fun x =>
    gmul 14 (gmul 2 x) ^^^ gmul 11 x ^^^ gmul 13 x ^^^ gmul 9 (gmul 3 x) == x) (by decide +kernel) x

theorem circulant_one (x : UInt8) :
    gmul 14 (gmul 3 x) ^^^ gmul 11 (gmul 2 x) ^^^ gmul 13 x ^^^ gmul 9 x = 0 :=
  eq_of_beq <| forall_byte (p := fun x =>
    gmul 14 (gmul 3 x) ^^^ gmul 11 (gmul 2 x) ^^^ gmul 13 x ^^^ gmul 9 x == 0) (by decide +kernel) x

theorem circulant_two (x : UInt8) :
    gmul 14 x ^^^ gmul 11 (gmul 3 x) ^^^ gmul 13 (gmul 2 x) ^^^ gmul 9 x = 0 :=
  eq_of_beq <| forall_byte (p := fun x =>
    gmul 14 x ^^^ gmul 11 (gmul 3 x) ^^^ gmul 13 (gmul 2 x) ^^^ gmul 9 x == 0) (by decide +kernel) x

theorem circulant_three (x : UInt8) :
    gmul 14 x ^^^ gmul 11 x ^^^ gmul 13 (gmul 3 x) ^^^ gmul 9 (gmul 2 x) = 0 :=
  eq_of_beq <| forall_byte (p := fun x =>
    gmul 14 x ^^^ gmul 11 x ^^^ gmul 13 (gmul 3 x) ^^^ gmul 9 (gmul 2 x) == 0) (by decide +kernel) x

/-- The first entry of a mixed column; the others are the same with the bytes rotated. -/
def mix (a b c d : UInt8) : UInt8 := gmul 2 a ^^^ gmul 3 b ^^^ c ^^^ d

/-- The first entry of a column mixed back; the others are the same with the bytes rotated. -/
def invMix (a b c d : UInt8) : UInt8 := gmul 14 a ^^^ gmul 11 b ^^^ gmul 13 c ^^^ gmul 9 d

/-- **Mixing back undoes mixing.** By rotation this is the statement for all four entries. -/
theorem invMix_mix (a b c d : UInt8) :
    invMix (mix a b c d) (mix b c d a) (mix c d a b) (mix d a b c) = a := by
  simp only [invMix, mix, gmul_xor]
  calc _ = (gmul 14 (gmul 2 a) ^^^ gmul 11 a ^^^ gmul 13 a ^^^ gmul 9 (gmul 3 a)) ^^^
        (gmul 14 (gmul 3 b) ^^^ gmul 11 (gmul 2 b) ^^^ gmul 13 b ^^^ gmul 9 b) ^^^
        (gmul 14 c ^^^ gmul 11 (gmul 3 c) ^^^ gmul 13 (gmul 2 c) ^^^ gmul 9 c) ^^^
        (gmul 14 d ^^^ gmul 11 d ^^^ gmul 13 (gmul 3 d) ^^^ gmul 9 (gmul 2 d)) := by ac_rfl
    _ = a := by
      rw [circulant_zero, circulant_one, circulant_two, circulant_three]
      simp

end Gf256

end Tqos
