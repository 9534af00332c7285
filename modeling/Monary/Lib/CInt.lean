import Mathlib

/-!
# Fixed-width integers of C

`int` and `unsigned int` of 32 bits as integers and natural numbers: the conversions `toInt32` and
`toUInt32`, and a product of two `int`s that is undefined where it overflows (`mulInt32`).
-/

namespace CInt

/-- Conversion to `int`: the value modulo `2^32`, in `[-2^31, 2^31)`. -/
def toInt32 (n : Int) : Int := Int.bmod n (2 ^ 32)

/-- Conversion to `unsigned int`. -/
def toUInt32 (n : Int) : Nat := (n % 2 ^ 32).toNat

/-- Conversion of a 64-bit pattern to `int64_t`. -/
def toInt64 (n : Int) : Int := Int.bmod n (2 ^ 64)

/-- The product of two `int`s, if it is one. -/
def mulInt32 (a b : Int) : Option Int :=
  if -2 ^ 31 ≤ a * b ∧ a * b < 2 ^ 31 then some (a * b) else none

theorem toInt32_natCast {n : Nat} (h : n < 2 ^ 31) : toInt32 n = n :=
  Int.bmod_eq_of_le (by omega) (by omega)

theorem toInt32_natCast_of_le {n : Nat} (h : 2 ^ 31 ≤ n) (h' : n < 2 ^ 32) :
    toInt32 n = (n : Int) - 2 ^ 32 := by
  rw [toInt32, Int.bmod_def]
  omega

theorem toUInt32_natCast (n : Nat) : toUInt32 n = n % 2 ^ 32 := by
  rw [toUInt32]
  omega

theorem toUInt32_of_lt {n : Nat} (h : n < 2 ^ 32) : toUInt32 n = n := by
  rw [toUInt32_natCast, Nat.mod_eq_of_lt h]

theorem toUInt32_lt (n : Int) : toUInt32 n < 2 ^ 32 := by
  rw [toUInt32]
  omega

/-- Back and forth between the two 32-bit types. -/
theorem toUInt32_toInt32 (n : Int) : toUInt32 (toInt32 n) = toUInt32 n := by
  rw [toUInt32, toInt32, toUInt32]
  congr 1
  have := Int.bmod_emod (x := n) (m := 2 ^ 32)
  omega

/-- A natural number that is one as an `int`. -/
theorem toInt32_eq_natCast_iff {n : Nat} : toInt32 n = n ↔ n < 2 ^ 31 := by
  refine ⟨fun h => ?_, toInt32_natCast⟩
  have hlt := Int.bmod_lt (x := n) (m := 2 ^ 32) (by norm_num)
  rw [toInt32] at h
  omega

/-- A product that is taken modulo `2^32` does not depend on whether its factor is signed. -/
theorem toUInt32_toInt32_mul (n : Int) (m : Int) : toUInt32 (toInt32 n * m) = toUInt32 (n * m) := by
  rw [toUInt32, toInt32, toUInt32, Int.mul_emod, Int.mul_emod n]
  have h : Int.bmod n (2 ^ 32) % 2 ^ 32 = n % 2 ^ 32 := by
    have := Int.bmod_emod (x := n) (m := 2 ^ 32)
    omega
  rw [h]

/-- The product of two numbers as `int`s is not above their product. -/
theorem toInt32_mul_le {a b : Nat} (ha : a < 2 ^ 32) (hb : b < 2 ^ 32) : toInt32 a * toInt32 b ≤ (a * b : Nat) := by
  rw [Nat.cast_mul]
  rcases lt_or_ge a (2 ^ 31) with ha' | ha' <;> rcases lt_or_ge b (2 ^ 31) with hb' | hb'
  · rw [toInt32_natCast ha', toInt32_natCast hb']
  · rw [toInt32_natCast ha', toInt32_natCast_of_le hb' hb]
    exact mul_le_mul_of_nonneg_left (by omega) (by omega)
  · rw [toInt32_natCast_of_le ha' ha, toInt32_natCast hb']
    exact mul_le_mul_of_nonneg_right (by omega) (by omega)
  · rw [toInt32_natCast_of_le ha' ha, toInt32_natCast_of_le hb' hb, ← neg_mul_neg]
    exact mul_le_mul (by omega) (by omega) (by omega) (by omega)

theorem mulInt32_eq_some {a b p : Int} :
    mulInt32 a b = some p ↔ p = a * b ∧ -2 ^ 31 ≤ a * b ∧ a * b < 2 ^ 31 := by
  rw [mulInt32, Option.ite_none_right_eq_some, Option.some.injEq]
  constructor
  · rintro ⟨h, rfl⟩
    exact ⟨rfl, h⟩
  · rintro ⟨rfl, h⟩
    exact ⟨h, rfl⟩

end CInt
