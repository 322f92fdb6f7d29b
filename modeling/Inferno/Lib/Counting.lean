import Mathlib.Algebra.BigOperators.Group.Finset.Basic
import Mathlib.Algebra.BigOperators.Intervals

/-!
# Loops that count up to a length

`while(total < len) total += …`, over the items of a list or of a stream. An item adds its
`value`, which may be negative, and has to `fit` the total before it. The loop ends on the items
as far as `Reaches` says, and on a stream whose items add nothing from some point on it ends
before that point or never (`exists_reaches_iff`).
-/

namespace Counting

variable {α : Type*} (value : α → ℤ) (fits : ℤ → α → Prop) (len : ℤ)

/-- The loop ends on these items, or on some of them. -/
def Reaches : ℤ → List α → Prop
  | total, [] => len ≤ total
  | total, a :: as => len ≤ total ∨ fits total a ∧ Reaches (total + value a) as

/-- The first items of a stream. -/
def firstItems (s : ℕ → α) (n : ℕ) : List α := (List.range n).map s

/-- What they add up to. -/
def total (s : ℕ → α) (n : ℕ) : ℤ := ∑ i ∈ Finset.range n, value (s i)

variable {value fits len}

theorem firstItems_succ (s : ℕ → α) (n : ℕ) : firstItems s (n + 1) = s 0 :: firstItems (fun i => s (i + 1)) n := by
  rw [firstItems, List.range_succ_eq_map, List.map_cons, List.map_map]
  rfl

theorem total_succ (s : ℕ → α) (n : ℕ) : total value s (n + 1) = value (s 0) + total value (fun i => s (i + 1)) n := by
  rw [total, Finset.sum_range_succ', add_comm]
  rfl

/-- Items that add nothing do not bring the total any further. -/
theorem total_le_of_nonpos {s : ℕ → α} {n k : ℕ} (hs : ∀ i ≥ n, value (s i) ≤ 0) (h : n ≤ k) :
    total value s k ≤ total value s n := by
  induction k, h using Nat.le_induction with
  | base => exact le_rfl
  | succ k hk ih =>
    have hlast := hs k hk
    rw [total, Finset.sum_range_succ, ← total]
    omega

/-- The loop ends on the first items of a stream if some of them reach the length, and all the ones
before fit. -/
theorem reaches_firstItems_iff (start : ℤ) (s : ℕ → α) (n : ℕ) :
    Reaches value fits len start (firstItems s n) ↔
      ∃ k ≤ n, len ≤ start + total value s k ∧ ∀ j < k, fits (start + total value s j) (s j) := by
  induction n generalizing start s with
  | zero => simp [firstItems, Reaches, total]
  | succ n ih =>
    rw [firstItems_succ, Reaches, ih]
    constructor
    · rintro (hdone | ⟨hfits, k, hk, hlen, hall⟩)
      · exact ⟨0, Nat.zero_le _, by simpa [total] using hdone, by simp⟩
      · refine ⟨k + 1, by omega, by rwa [total_succ, ← add_assoc], fun j hj => ?_⟩
        cases j with
        | zero => simpa [total] using hfits
        | succ j =>
          rw [total_succ, ← add_assoc]
          exact hall j (by omega)
    · rintro ⟨k, hk, hlen, hall⟩
      cases k with
      | zero => exact Or.inl (by simpa [total] using hlen)
      | succ k =>
        have hfits : fits start (s 0) := by simpa [total] using hall 0 (by omega)
        refine Or.inr ⟨hfits, k, by omega, by rwa [total_succ, ← add_assoc] at hlen, fun j hj => ?_⟩
        have hj' := hall (j + 1) (by omega)
        rwa [total_succ, ← add_assoc] at hj'

/-- **A stream that dries up**: the loop ends, with totals in `I` all the way, exactly if it does so
before. -/
theorem exists_reaches_iff {I : ℤ → Prop} {s : ℕ → α} {N : ℕ} (hs : ∀ i ≥ N, value (s i) ≤ 0) :
    (∃ n, Reaches value fits len 0 (firstItems s n) ∧ ∀ k ≤ n, I (total value s k)) ↔
      ∃ k ≤ N, len ≤ total value s k ∧ ∀ j ≤ k, I (total value s j) ∧ (j < k → fits (total value s j) (s j)) := by
  simp only [reaches_firstItems_iff, zero_add]
  constructor
  · rintro ⟨n, ⟨k, hk, hlen, hall⟩, hrange⟩
    rcases le_total k N with hkN | hNk
    · exact ⟨k, hkN, hlen, fun j hj => ⟨hrange j (by omega), fun hlt => hall j hlt⟩⟩
    · refine ⟨N, le_rfl, hlen.trans (total_le_of_nonpos hs hNk), fun j hj => ⟨hrange j (by omega), fun hlt => ?_⟩⟩
      exact hall j (by omega)
  · rintro ⟨k, -, hlen, hall⟩
    exact ⟨k, ⟨k, le_rfl, hlen, fun j hj => (hall j hj.le).2 hj⟩, fun j hj => (hall j hj).1⟩

end Counting
