import Mathlib.Algebra.Group.Int.Defs
import Mathlib.Algebra.Group.Nat.Defs
import Mathlib.Tactic.Common

/-! Conversions between the integer types of a machine with 64 bits. -/
namespace Chtho.Lib

/-- As a `size_t`. -/
def toSize (v : Int) : Nat := (v % 2 ^ 64).toNat

/-- As an `int`. -/
def toInt (v : Int) : Int := v.bmod (2 ^ 32)

variable {v : Int} {n : Nat}

theorem toSize_eq (h : 0 ≤ v) (hlt : v < 2 ^ 64) : toSize v = v.toNat := by
  rw [toSize, Int.emod_eq_of_lt h hlt]

/-- A sum of sizes wraps. -/
theorem toSize_eq_mod (n : Nat) : toSize n = n % 2 ^ 64 := by
  unfold toSize
  omega

theorem toSize_natCast (hlt : n < 2 ^ 64) : toSize n = n := by
  rw [toSize_eq_mod, Nat.mod_eq_of_lt hlt]

/-- A size cast to `int` and back keeps its lower 31 bits; all above become like bit 31. -/
theorem toSize_toInt (n : Nat) :
    toSize (toInt n) = if n % 2 ^ 32 < 2 ^ 31 then n % 2 ^ 32 else 2 ^ 64 - 2 ^ 32 + n % 2 ^ 32 := by
  unfold toSize toInt
  rw [Int.bmod_def]
  split <;> split <;> omega

end Chtho.Lib
