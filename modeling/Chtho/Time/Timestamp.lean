import Chtho.Lib.Bytes

/-! `Timestamp`: microseconds since the epoch, and the `timespec` a timer is armed with.

A timestamp is its `usSinceE_`. It stays far from the ends of `int64_t`, so it is an
integer. Division and remainder are C's, which round toward zero. -/
namespace Chtho

structure Timespec where
  sec : Int
  nsec : Int
deriving DecidableEq, Repr

def usPerSec : Int := 1000 * 1000

namespace Timestamp

def valid (t : Int) : Bool := decide (t > 0)

def secsSinceE (t : Int) : Int := t.tdiv usPerSec

/-- The microseconds, negative before the epoch. -/
def us (t : Int) : Int := t.tmod usPerSec

/-- Seconds and microseconds, as by `%ld.%06ld`. -/
def toString (t : Int) : Lib.Bytes :=
  Lib.decimal (t.tdiv usPerSec) ++ [Lib.chr '.'] ++ Lib.decimalPadded 6 (t.tmod usPerSec)

def toSpec (uss : Int) : Timespec := ⟨uss.tdiv usPerSec, uss.tmod usPerSec * 1000⟩

/-- `operator-`: at least 100 microseconds. -/
def sub (t rhs : Int) : Timespec :=
  let us := t - rhs
  toSpec (if us < 100 then 100 else us)

end Timestamp

namespace Timespec

/-- What the kernel takes for a time to wait: it is not negative, and the nanoseconds are
less than a second. -/
def Accepted (ts : Timespec) : Prop := 0 ≤ ts.sec ∧ 0 ≤ ts.nsec ∧ ts.nsec < 1000000000

instance (ts : Timespec) : Decidable ts.Accepted :=
  inferInstanceAs (Decidable (0 ≤ ts.sec ∧ 0 ≤ ts.nsec ∧ ts.nsec < 1000000000))

/-- The microseconds of a time to wait. -/
def us (ts : Timespec) : Int := ts.sec * usPerSec + ts.nsec.tdiv 1000

end Timespec

variable {uss : Int}

theorem accepted_toSpec (h : 0 ≤ uss) : (Timestamp.toSpec uss).Accepted := by
  unfold Timestamp.toSpec Timespec.Accepted usPerSec
  simp only [Int.tmod_eq_emod_of_nonneg h, Int.tdiv_eq_ediv_of_nonneg h]
  omega

theorem us_toSpec (h : 0 ≤ uss) : (Timestamp.toSpec uss).us = uss := by
  unfold Timestamp.toSpec Timespec.us usPerSec
  have hmod : 0 ≤ uss % (1000 * 1000) * 1000 := by omega
  simp only [Int.tmod_eq_emod_of_nonneg h, Int.tdiv_eq_ediv_of_nonneg h, Int.tdiv_eq_ediv_of_nonneg hmod]
  omega

/-- A difference is taken by the kernel as it is, and never as a request to disarm. -/
theorem accepted_sub (t rhs : Int) : (Timestamp.sub t rhs).Accepted ∧ Timestamp.sub t rhs ≠ ⟨0, 0⟩ := by
  have hpos : 0 < if t - rhs < 100 then 100 else t - rhs := by
    split <;> omega
  refine ⟨accepted_toSpec (Int.le_of_lt hpos), fun hzero => ?_⟩
  have hus := us_toSpec (Int.le_of_lt hpos)
  rw [show Timestamp.toSpec _ = ⟨0, 0⟩ from hzero] at hus
  exact absurd hus (Int.ne_of_lt hpos)

theorem us_sub (t rhs : Int) : (Timestamp.sub t rhs).us = if t - rhs < 100 then 100 else t - rhs := by
  refine us_toSpec ?_
  split <;> omega

end Chtho
