import Mathlib.Algebra.Group.Nat.Defs
import Mathlib.Data.Int.Order.Basic

/-!
# Conversions between numbers

The conversions that C++ makes on its own when an expression mixes `int`, `size_t` of 64
bits and `double`. A result that an `int` cannot hold is undefined behaviour, both of
arithmetic and of a conversion from `double`: here it is `none`. A conversion from a wider
integer type keeps the low 32 bits (`narrow`).

An integer below `9007199254740992`, which is `2 ^ 53`, is a `double` (`toDouble_of_lt`),
and a larger one is rounded to one that is no smaller than that (`le_toDouble`).
-/

namespace Conversions

/-- An integer as an `int`. -/
def toInt (x : ℤ) : Option ℤ := if -2147483648 ≤ x ∧ x < 2147483648 then some x else none

/-- A wider integer as an `int`: what is congruent to it. -/
def narrow (x : ℤ) : ℤ := x.bmod 4294967296

/-- An `int` as a `size_t`. -/
def toSize (x : ℤ) : ℕ := (x % 18446744073709551616).toNat

/-- A `size_t` as a `double`: to the nearest with 53 bits, to the even one of two. -/
def toDouble (n : ℕ) : ℕ :=
  let unit := 2 ^ (n.log2 - 52)
  if 2 * (n % unit) < unit ∨ 2 * (n % unit) = unit ∧ n / unit % 2 = 0 then n / unit * unit
  else (n / unit + 1) * unit

/-- A number that an `int` holds stays as it is. -/
theorem narrow_of_range {x : ℤ} (h : -2147483648 ≤ x) (h' : x < 2147483648) : narrow x = x :=
  Int.bmod_eq_of_le (by omega) (by omega)

theorem narrow_lt (x : ℤ) : narrow x < 2147483648 := by
  rw [narrow, Int.bmod_def]
  omega

/-- A number that is no smaller than zero does not get larger. -/
theorem narrow_le {x : ℤ} (h : 0 ≤ x) : narrow x ≤ x := by
  rw [narrow, Int.bmod_def]
  omega

theorem toInt_of_range {x : ℤ} (h : -2147483648 ≤ x) (h' : x < 2147483648) : toInt x = some x := if_pos ⟨h, h'⟩

/-- A number that is no smaller than zero does not change. -/
theorem toSize_of_nonneg {x : ℤ} (h : 0 ≤ x) (h' : x < 2147483648) : toSize x = x.toNat := by
  rw [toSize, Int.emod_eq_of_lt h (by omega)]

/-- One that is gets very large. -/
theorem le_toSize_of_neg {x : ℤ} (h : x < 0) (h' : -2147483648 ≤ x) : 18446744071562067968 ≤ toSize x := by
  rw [toSize]
  omega

/-- What was narrowed and comes back as it was had not changed. -/
theorem narrow_eq_of_toSize {n : ℕ} (h : n < 9223372036854775808) (heq : toSize (narrow n) = n) : narrow n = n := by
  have hlt := narrow_lt n
  have hge : -2147483648 ≤ narrow n := by
    rw [narrow, Int.bmod_def]
    omega
  by_cases hneg : narrow n < 0
  · have hlarge := le_toSize_of_neg hneg hge
    omega
  · rw [toSize_of_nonneg (not_lt.mp hneg) hlt] at heq
    omega

/-- Small numbers are exact. -/
theorem toDouble_of_lt {n : ℕ} (h : n < 9007199254740992) : toDouble n = n := by
  have hlog : n.log2 - 52 = 0 := by
    by_cases hn : n = 0
    · subst hn
      rfl
    · have := (Nat.log2_lt (k := 53) hn).mpr h
      omega
  simp [toDouble, hlog, Nat.mod_one]

/-- Large numbers stay large. -/
theorem le_toDouble {n : ℕ} (h : 9007199254740992 ≤ n) : 9007199254740992 ≤ toDouble n := by
  have hn : n ≠ 0 := by omega
  have hlog := (Nat.le_log2 (k := 53) hn).mpr h
  have hself := Nat.log2_self_le hn
  have hunit : 2 ^ 53 ≤ n / 2 ^ (n.log2 - 52) * 2 ^ (n.log2 - 52) := by
    have hpow : 2 ^ 52 * 2 ^ (n.log2 - 52) = 2 ^ n.log2 := by
      rw [← Nat.pow_add]
      congr 1
      omega
    have hquot : 2 ^ 52 ≤ n / 2 ^ (n.log2 - 52) := by
      rw [Nat.le_div_iff_mul_le (Nat.two_pow_pos _), hpow]
      exact hself
    calc 2 ^ 53 ≤ 2 ^ n.log2 := Nat.pow_le_pow_right (by omega) hlog
      _ = 2 ^ 52 * 2 ^ (n.log2 - 52) := hpow.symm
      _ ≤ n / 2 ^ (n.log2 - 52) * 2 ^ (n.log2 - 52) := Nat.mul_le_mul_right _ hquot
  simp only [toDouble]
  split_ifs
  · exact hunit
  · exact Nat.le_trans hunit (Nat.mul_le_mul_right _ (Nat.le_succ _))

end Conversions
