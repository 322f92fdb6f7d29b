import Mathlib.Data.Int.Order.Basic

/-!
# Clock readings

`struct timeval`, as `gettimeofday` fills it in: seconds and microseconds. A
routine that needs one number works it out as seconds times a million plus
microseconds.
-/

/-- `struct timeval`. -/
structure Timeval where
  /-- Seconds. -/
  tvSec : ℤ
  /-- Microseconds. -/
  tvUsec : ℤ
  deriving DecidableEq, Repr

/-- A reading of the clock: there is no whole second in its microseconds. -/
structure Reading extends Timeval where
  tvUsec_nonneg : 0 ≤ tvUsec := by decide
  tvUsec_lt : tvUsec < 1000000 := by decide

namespace Timeval

/-- The reading as one number of microseconds. -/
def micros (tv : Timeval) : ℤ := tv.tvSec * 1000000 + tv.tvUsec

/-- What a program computes for the time between two readings, field by field. -/
def elapsed (t₀ t₁ : Timeval) : ℤ := (t₁.tvSec - t₀.tvSec) * 1000000 + (t₁.tvUsec - t₀.tvUsec)

end Timeval
