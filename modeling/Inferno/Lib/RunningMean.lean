import Mathlib.Algebra.BigOperators.Group.List.Basic
import Mathlib.Algebra.Order.Field.Basic
import Mathlib.Algebra.Order.Field.Rat
import Mathlib.Tactic.FieldSimp
import Mathlib.Tactic.Linarith
import Mathlib.Tactic.Ring

/-!
# Running means of integers

A mean that is kept as an integer and moved, for each new value, by the integral part of
the new value's share. Each step loses less than one; as long as no value is below the
mean, what the losses add up to is less than half of the number of values and one
(`Approximates.push`).
-/

namespace RunningMean

/-- `mean` is among the values, and not far from their mean. -/
structure Approximates (mean : ℤ) (vs : List ℤ) : Prop where
  lower : ∃ v ∈ vs, v ≤ mean
  upper : ∃ v ∈ vs, mean ≤ v
  near : |(mean : ℚ) - (vs.sum : ℚ) / vs.length| < ((vs.length : ℚ) + 1) / 2

variable {mean : ℤ} {vs : List ℤ}

/-- How far a number is from the mean, without fractions. -/
theorem near_iff (hvs : vs ≠ []) :
    |(mean : ℚ) - (vs.sum : ℚ) / vs.length| < ((vs.length : ℚ) + 1) / 2 ↔
      |2 * (mean * vs.length - vs.sum)| < vs.length * (vs.length + 1) := by
  have hpos : (0 : ℚ) < vs.length := by
    exact_mod_cast List.length_pos_iff.mpr hvs
  have hfrac : (mean : ℚ) - (vs.sum : ℚ) / vs.length = (mean * vs.length - vs.sum) / vs.length := by
    field_simp
  rw [hfrac, abs_div, abs_of_pos hpos, div_lt_div_iff₀ hpos two_pos, abs_mul, abs_two]
  constructor
  · intro h
    have hint : (|mean * vs.length - vs.sum| : ℤ) * 2 < (vs.length + 1) * vs.length := by
      exact_mod_cast h
    linarith
  · intro h
    have hint : (|mean * vs.length - vs.sum| : ℤ) * 2 < (vs.length + 1) * vs.length := by
      linarith
    exact_mod_cast hint

theorem Approximates.singleton (v : ℤ) : Approximates v [v] where
  lower := ⟨v, List.mem_singleton_self v, le_rfl⟩
  upper := ⟨v, List.mem_singleton_self v, le_rfl⟩
  near := by simp

/-- **One more value**, if it is not below the mean. -/
theorem Approximates.push (h : Approximates mean vs) {v : ℤ} (hv : mean ≤ v) :
    Approximates (mean + (v - mean) / (vs.length + 1 : ℕ)) (vs ++ [v]) := by
  obtain ⟨u, hu, hlower⟩ := h.lower
  have hvs : vs ≠ [] := List.ne_nil_of_mem hu
  have hnear := (near_iff hvs).mp h.near
  set n : ℕ := vs.length + 1 with hn
  have hpos : (0 : ℤ) < n := by omega
  have hshare : 0 ≤ (v - mean) / n := Int.ediv_nonneg (by omega) hpos.le
  have hself : (v - mean) / n ≤ v - mean := Int.ediv_le_self _ (by omega)
  refine ⟨⟨u, List.mem_append_left _ hu, by omega⟩, ⟨v, by simp, by omega⟩, (near_iff (by simp)).mpr ?_⟩
  -- what the division leaves over is what is lost
  have hdiv := Int.mul_ediv_add_emod (v - mean) n
  have hloss := Int.emod_nonneg (v - mean) hpos.ne'
  have hlt := Int.emod_lt_of_pos (v - mean) hpos
  set q := (v - mean) / n
  set r := (v - mean) % n
  have hlength : ((vs ++ [v]).length : ℤ) = n := by simp [hn]
  rw [hlength, List.sum_append, List.sum_singleton]
  have hlen : (vs.length : ℤ) = n - 1 := by omega
  rw [hlen] at hnear
  have herror : (mean + q) * n - (vs.sum + v) = (mean * (n - 1) - vs.sum) - r := by
    linarith
  rw [herror, abs_lt]
  rw [abs_lt] at hnear
  constructor <;> nlinarith [hnear.1, hnear.2]

end RunningMean
