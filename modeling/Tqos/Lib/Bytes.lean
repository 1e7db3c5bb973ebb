import Mathlib.Data.Nat.Digits.Defs

/-!
# Numbers as bytes

A number of `w` bytes in memory, least significant byte first, and the number a string of bytes
spells. Reading back what was written gives the number up to the width.
-/

namespace Tqos

/-- The `w` lowest bytes of `n`, the lowest first. -/
def bytesLE : ℕ → ℕ → List UInt8
  | 0, _ => []
  | w + 1, n => UInt8.ofNat n :: bytesLE w (n / 256)

/-- The number whose bytes, the lowest first, are `l`. -/
def natLE (l : List UInt8) : ℕ := Nat.ofDigits 256 (l.map UInt8.toNat)

@[simp] theorem length_bytesLE (w n : ℕ) : (bytesLE w n).length = w := by
  induction w generalizing n with
  | zero => rfl
  | succ w ih => rw [bytesLE, List.length_cons, ih]

theorem natLE_cons (b : UInt8) (l : List UInt8) : natLE (b :: l) = b.toNat + 256 * natLE l := by
  simp [natLE, Nat.ofDigits_cons]

/-- **Reading back what was written** gives the number modulo the width. -/
theorem natLE_bytesLE (w n : ℕ) : natLE (bytesLE w n) = n % 256 ^ w := by
  induction w generalizing n with
  | zero => exact (Nat.mod_one n).symm
  | succ w ih =>
    have hb : (UInt8.ofNat n).toNat = n % 256 := UInt8.toNat_ofNat'
    rw [bytesLE, natLE_cons, ih, hb, pow_succ' 256 w, Nat.mod_mul]

/-- Only the number modulo the width is written. -/
theorem bytesLE_congr {w n m : ℕ} (h : n % 256 ^ w = m % 256 ^ w) : bytesLE w n = bytesLE w m := by
  induction w generalizing n m with
  | zero => rfl
  | succ w ih =>
    rw [pow_succ' 256 w, Nat.mod_mul, Nat.mod_mul] at h
    have hlow : n % 256 = m % 256 := by omega
    have hrest : n / 256 % 256 ^ w = m / 256 % 256 ^ w := by omega
    rw [bytesLE, bytesLE, ih hrest]
    congr 1
    exact UInt8.toNat_inj.mp (by rw [UInt8.toNat_ofNat', UInt8.toNat_ofNat', hlow])

/-- The low bytes, and the others. -/
theorem bytesLE_add (v w n : ℕ) : bytesLE (v + w) n = bytesLE v n ++ bytesLE w (n / 256 ^ v) := by
  induction v generalizing n with
  | zero => rw [Nat.zero_add, pow_zero, Nat.div_one, bytesLE, List.nil_append]
  | succ v ih =>
    rw [Nat.succ_add, bytesLE, ih, bytesLE, List.cons_append, Nat.div_div_eq_div_mul,
      pow_succ' 256 v]

/-- An integer is cut to 16 bits. -/
theorem cast_toNat_ofInt (n : ℤ) : ((UInt16.ofInt n).toNat : ℤ) = n % 65536 := by
  rw [UInt16.ofInt, UInt16.toNat_ofNat']
  omega

/-- A 16-bit number in memory. -/
def le16 (v : UInt16) : List UInt8 := bytesLE 2 v.toNat

/-- A 32-bit number in memory. -/
def le32 (v : UInt32) : List UInt8 := bytesLE 4 v.toNat

@[simp] theorem length_le16 (v : UInt16) : (le16 v).length = 2 := length_bytesLE _ _

@[simp] theorem length_le32 (v : UInt32) : (le32 v).length = 4 := length_bytesLE _ _

@[simp] theorem ofNat_natLE_le16 (v : UInt16) : UInt16.ofNat (natLE (le16 v)) = v := by
  have hv : v.toNat < 256 ^ 2 := by simpa using v.toNat_lt
  rw [le16, natLE_bytesLE, Nat.mod_eq_of_lt hv, UInt16.ofNat_toNat]

@[simp] theorem ofNat_natLE_le32 (v : UInt32) : UInt32.ofNat (natLE (le32 v)) = v := by
  have hv : v.toNat < 256 ^ 4 := by simpa using v.toNat_lt
  rw [le32, natLE_bytesLE, Nat.mod_eq_of_lt hv, UInt32.ofNat_toNat]

end Tqos
