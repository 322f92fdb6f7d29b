import Inferno.ServerAI.Nearest
import Mathlib.Analysis.Real.Sqrt

/-!
# Distances

`Graph::get_distance` takes the root of a `double` and gives an `int`, so it could give the integer
part of every distance that an `int` holds. But the sum of squares is put into an `int` before, and that
holds only squares of distances below 46341.

## What is proved

* `Coords.distance_exact_iff` — the distance of two points is the exact one exactly if the sum of squares is an
  `int`, or no `int` is.
* `Coords.squared_le_intMax` — between points in a cube of side 26754 it is.
* `getDistance_exact_iff` — the same for both overloads.

## Scope

`pow` and `sqrt` are exact. A difference or a sum that an `int` does not hold is undefined.
-/

namespace Inferno.ServerAI

open Conversions

/-- The Euclidean distance between two points. -/
noncomputable def Coords.euclidean (p q : Coords) : ℝ :=
  √(((p.x.toInt : ℝ) - q.x.toInt) ^ 2 + ((p.y.toInt : ℝ) - q.y.toInt) ^ 2 + ((p.z.toInt : ℝ) - q.z.toInt) ^ 2)

/-- What a distance between two points should be: its integer part, if an `int` holds it. -/
def Coords.Exact (p q : Coords) (distance : Option ℤ) : Prop :=
  ⌊p.euclidean q⌋ ≤ intMax → distance = some ⌊p.euclidean q⌋

/-! ### The sum of squares -/

/-- **The integer part** of a distance is the root of the squared distance, rounded down. -/
theorem Coords.floor_euclidean (p q : Coords) : ⌊p.euclidean q⌋ = rounded (p.squared q) := by
  obtain ⟨n, hn⟩ := Int.eq_ofNat_of_zero_le (p.squared_nonneg q)
  have hsum : p.euclidean q = √(n : ℝ) := by
    rw [Coords.euclidean]
    congr 1
    rw [← Int.cast_natCast n, ← hn, Coords.squared]
    push_cast
    ring
  rw [hsum, Real.floor_real_sqrt_eq_nat_sqrt, hn, rounded, Int.toNat_natCast]

/-- What was converted to an `int` is one. -/
theorem toInt_eq_some_iff {x y : ℤ} : toInt x = some y ↔ y = x ∧ -2147483648 ≤ x ∧ x ≤ intMax := by
  rw [toInt, intMax]
  split_ifs with hrange
  · rw [Option.some.injEq]
    constructor
    · rintro rfl
      exact ⟨rfl, hrange.1, by omega⟩
    · exact fun h => h.1.symm
  · constructor
    · exact fun h => by cases h
    · exact fun h => absurd ⟨h.2.1, by omega⟩ hrange

/-- A distance is defined only if the sum of squares fits. -/
theorem Coords.squared_le_of_distance {p q : Coords} {d : ℤ} (h : p.distance q = some d) : p.squared q ≤ intMax := by
  simp only [Coords.distance, Option.bind_eq_bind, Option.bind_eq_some_iff, toInt_eq_some_iff] at h
  obtain ⟨dx, ⟨rfl, -⟩, dy, ⟨rfl, -⟩, dz, ⟨rfl, -⟩, sum, ⟨rfl, -, hfit⟩, -⟩ := h
  exact hfit

/-- **When a distance is the exact one.** -/
theorem Coords.distance_exact_iff (p q : Coords) :
    p.Exact q (p.distance q) ↔ p.squared q ≤ intMax ∨ intMax < ⌊p.euclidean q⌋ := by
  constructor
  · intro hexact
    rcases le_or_gt ⌊p.euclidean q⌋ intMax with hle | hlt
    · exact Or.inl (Coords.squared_le_of_distance (hexact hle))
    · exact Or.inr hlt
  · rintro (hfit | hlt) hle
    · rw [Coords.distance_eq hfit, Coords.floor_euclidean]
    · exact absurd hle (not_le.mpr hlt)

/-- **Points that are not far apart**: in a cube of side 26754 the sum of squares fits. -/
theorem Coords.squared_le_intMax {p q : Coords} (hx : |p.x.toInt - q.x.toInt| ≤ 26754)
    (hy : |p.y.toInt - q.y.toInt| ≤ 26754) (hz : |p.z.toInt - q.z.toInt| ≤ 26754) : p.squared q ≤ intMax := by
  have hsquare : ∀ d : ℤ, |d| ≤ 26754 → d ^ 2 ≤ 26754 ^ 2 := fun d hd => sq_le_sq.mpr (by simpa using hd)
  have hx := hsquare _ hx
  have hy := hsquare _ hy
  have hz := hsquare _ hz
  rw [Coords.squared, intMax]
  linarith

/-! ### The overloads -/

/-- **When `get_distance` gives the exact distance**, of two ids and of an id and a point: when the
sum of squares is an `int`, or the distance is not. -/
theorem getDistance_exact_iff {g : Graph} {h : Heap} {id₀ id₁ : UInt16} {e₀ e₁ : VertexPtr × ListPtr}
    (h₀ : g.at h id₀ = some e₀) (h₁ : g.at h id₁ = some e₁) (p : Coords) :
    ((h.getCoords e₀.1).Exact (h.getCoords e₁.1) (g.getDistance h id₀ id₁) ↔
        (h.getCoords e₀.1).squared (h.getCoords e₁.1) ≤ intMax ∨
          intMax < ⌊(h.getCoords e₀.1).euclidean (h.getCoords e₁.1)⌋) ∧
      ((h.getCoords e₀.1).Exact p (g.getDistanceToPoint h id₀ p) ↔
        (h.getCoords e₀.1).squared p ≤ intMax ∨ intMax < ⌊(h.getCoords e₀.1).euclidean p⌋) := by
  have hids : g.getDistance h id₀ id₁ = (h.getCoords e₀.1).distance (h.getCoords e₁.1) := by
    simp only [Graph.getDistance, h₀, h₁, Option.bind_eq_bind, Option.bind_some]
  have hpoint : g.getDistanceToPoint h id₀ p = (h.getCoords e₀.1).distance p := by
    simp only [Graph.getDistanceToPoint, h₀, Option.bind_eq_bind, Option.bind_some]
  rw [hids, hpoint]
  exact ⟨Coords.distance_exact_iff _ _, Coords.distance_exact_iff _ _⟩

/-- Vertices at (0, 0, 0) and (46341, 0, 0). -/
def farCorner : Heap := ⟨2, [⟨0, 0, 0, 0⟩, ⟨46341, 0, 0, 1⟩], [[], []], [[(0, 0), (1, 1)]]⟩

/-- Two vertices of a graph, and a point next to the first. -/
theorem getDistance_exact_iff_corner :
    ((farCorner.getCoords 0).Exact (farCorner.getCoords 1) (Graph.getDistance ⟨0⟩ farCorner 0 1) ↔
        (farCorner.getCoords 0).squared (farCorner.getCoords 1) ≤ intMax ∨
          intMax < ⌊(farCorner.getCoords 0).euclidean (farCorner.getCoords 1)⌋) ∧
      ((farCorner.getCoords 0).Exact ⟨1, 2, 2⟩ (Graph.getDistanceToPoint ⟨0⟩ farCorner 0 ⟨1, 2, 2⟩) ↔
        (farCorner.getCoords 0).squared ⟨1, 2, 2⟩ ≤ intMax ∨
          intMax < ⌊(farCorner.getCoords 0).euclidean ⟨1, 2, 2⟩⌋) :=
  getDistance_exact_iff (show Graph.at ⟨0⟩ farCorner 0 = some (0, 0) from rfl)
    (show Graph.at ⟨0⟩ farCorner 1 = some (1, 1) from rfl) ⟨1, 2, 2⟩

/-- The distance 46341 is not found, though an `int` holds it. -/
theorem distance_46341_undefined :
    ⌊(farCorner.getCoords 0).euclidean (farCorner.getCoords 1)⌋ = 46341 ∧
      Graph.getDistance ⟨0⟩ farCorner 0 1 = none ∧
      ¬ (farCorner.getCoords 0).Exact (farCorner.getCoords 1) (Graph.getDistance ⟨0⟩ farCorner 0 1) := by
  have hfloor : ⌊(farCorner.getCoords 0).euclidean (farCorner.getCoords 1)⌋ = 46341 := by
    rw [Coords.floor_euclidean]
    decide +kernel
  have hnone : Graph.getDistance ⟨0⟩ farCorner 0 1 = none := by decide +kernel
  refine ⟨hfloor, hnone, fun hexact => ?_⟩
  rw [Coords.Exact, hfloor, hnone] at hexact
  exact absurd (hexact (by decide)) (by simp)

end Inferno.ServerAI
