import Mathlib.Data.Int.Notation
import Mathlib.Data.Nat.Cast.Defs

/-!
# What system calls return

A call returns a descriptor or `-1`, or `0` or `-1`, and a program tells the one from the other by a test that it
has chosen (`Detects`). `Attempt` is the variable that a routine keeps a descriptor in, with the calls that it has
made and what else it keeps.
-/

namespace SysResults

/-- What a call returns that gives a descriptor. -/
def descriptorResult : Option ℕ → ℤ
  | none => -1
  | some fd => fd

/-- What a call returns that gives none. -/
def result (succeeds : Bool) : ℤ := if succeeds then 0 else -1

/-- A test of results that tells `-1` from what is not negative. -/
structure Detects (failed : ℤ → Bool) : Prop where
  minusOne : failed (-1) = true
  natural : ∀ n : ℕ, failed n = false

theorem Detects.eq_minusOne : Detects fun errval => errval = -1 := ⟨rfl, fun n => by simp⟩

theorem Detects.lt_zero : Detects fun errval => errval < 0 := ⟨rfl, fun n => by simp⟩

theorem Detects.descriptorResult {failed : ℤ → Bool} (h : Detects failed) (descriptor : Option ℕ) :
    failed (descriptorResult descriptor) = descriptor.isNone := by
  cases descriptor with
  | none => exact h.minusOne
  | some fd => exact h.natural fd

theorem Detects.result {failed : ℤ → Bool} (h : Detects failed) (succeeds : Bool) :
    failed (result succeeds) = !succeeds := by
  cases succeeds with
  | false => exact h.minusOne
  | true => exact h.natural 0

/-- A routine's variable for a descriptor, what else it keeps, and what it has called. -/
structure Attempt (κ ρ : Type) where
  sock : ℤ
  kept : ρ
  calls : List κ

/-- Another call. -/
def Attempt.call {κ ρ : Type} (v : Attempt κ ρ) (c : κ) : Attempt κ ρ := { v with calls := v.calls ++ [c] }

/-- A call that gives a descriptor. -/
def Attempt.assign {κ ρ : Type} (v : Attempt κ ρ) (c : κ) (descriptor : Option ℕ) : Attempt κ ρ :=
  { v.call c with sock := descriptorResult descriptor }

variable {κ ρ : Type} (v : Attempt κ ρ) (c : κ) (descriptor : Option ℕ)

@[simp] theorem Attempt.calls_call : (v.call c).calls = v.calls ++ [c] := rfl

@[simp] theorem Attempt.sock_call : (v.call c).sock = v.sock := rfl

@[simp] theorem Attempt.kept_call : (v.call c).kept = v.kept := rfl

@[simp] theorem Attempt.calls_assign : (v.assign c descriptor).calls = v.calls ++ [c] := rfl

@[simp] theorem Attempt.sock_assign : (v.assign c descriptor).sock = SysResults.descriptorResult descriptor := rfl

@[simp] theorem Attempt.kept_assign : (v.assign c descriptor).kept = v.kept := rfl

end SysResults
