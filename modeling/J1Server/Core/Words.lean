import Mathlib.Tactic.Ring

/-! # Machine words

The casts of the source between its signed types. -/

namespace Core

def toInt32 (x : Int) : Int := x.bmod (2 ^ 32)
def toInt64 (x : Int) : Int := x.bmod (2 ^ 64)
def toUInt64 (x : Int) : Nat := (x % 2 ^ 64).toNat

theorem toInt32_eq_iff (x : Int) : toInt32 x = x ↔ -2 ^ 31 ≤ x ∧ x < 2 ^ 31 := by
  simp only [toInt32, Int.bmod_def]
  omega

theorem toInt64_eq_iff (x : Int) : toInt64 x = x ↔ -2 ^ 63 ≤ x ∧ x < 2 ^ 63 := by
  simp only [toInt64, Int.bmod_def]
  omega

theorem toInt32_bounds (x : Int) : -2 ^ 31 ≤ toInt32 x ∧ toInt32 x < 2 ^ 31 := by
  simp only [toInt32, Int.bmod_def]
  omega

theorem toInt64_bounds (x : Int) : -2 ^ 63 ≤ toInt64 x ∧ toInt64 x < 2 ^ 63 := by
  simp only [toInt64, Int.bmod_def]
  omega

/-- A number that is not negative does not grow when it is cut to 32 bits. -/
theorem toInt32_le {x : Int} (h : 0 ≤ x) : toInt32 x ≤ x := by
  simp only [toInt32, Int.bmod_def]
  omega

end Core
