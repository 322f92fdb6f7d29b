import Inferno.Lib.Conversions
import Inferno.Lib.FirstMin
import Inferno.ServerAI.Adjacency
import Mathlib.Data.Int.ConditionallyCompleteOrder
import Mathlib.Data.Nat.Sqrt

/-!
# Nearest vertices

`Graph::get_distance` and `Graph::get_closest_vertex`, each of them twice: for a vertex of the
graph and for a point. A distance is an `int`, so it is the root of the sum of squares rounded
down, and vertices at different distances from a point can have the same.

## What is proved

* `getClosestVertex_firstMin` — the closest vertex of an adjacency list is the first entry with the
  smallest distance.
* `getClosestVertexToPoint_nearest_iff` — the closest vertex to a point is one of the nearest
  exactly if every vertex that is not, but whose distance is rounded to the same, comes
  behind one that is.

## Scope

`pow` and `sqrt` are exact. A difference or a sum that an `int` does not hold is undefined.
-/

namespace Inferno.ServerAI

open Conversions Minima

/-- What `get_coords` gives. -/
structure Coords where
  x : Int32
  y : Int32
  z : Int32
  deriving DecidableEq, Repr

/-- `Vertex::get_coords`. -/
def Heap.getCoords (h : Heap) (v : VertexPtr) : Coords :=
  (h.vertices[v]?.map fun v => ⟨v.x, v.y, v.z⟩).getD ⟨0, 0, 0⟩

/-- The squared distance between two points. -/
def Coords.squared (p q : Coords) : ℤ :=
  (p.x.toInt - q.x.toInt) ^ 2 + (p.y.toInt - q.y.toInt) ^ 2 + (p.z.toInt - q.z.toInt) ^ 2

/-- What both `get_distance`s work out from the coordinates. -/
def Coords.distance (p q : Coords) : Option ℤ := do
  let dx ← toInt (p.x.toInt - q.x.toInt)
  let dy ← toInt (p.y.toInt - q.y.toInt)
  let dz ← toInt (p.z.toInt - q.z.toInt)
  let summation ← toInt (dx ^ 2 + dy ^ 2 + dz ^ 2)
  return Nat.sqrt summation.toNat

/-- `Graph::get_distance`, of two ids. -/
def Graph.getDistance (g : Graph) (h : Heap) (id₀ id₁ : UInt16) : Option ℤ := do
  let (v₀, _) ← g.at h id₀
  let (v₁, _) ← g.at h id₁
  (h.getCoords v₀).distance (h.getCoords v₁)

/-- `Graph::get_distance`, of an id and a point. -/
def Graph.getDistanceToPoint (g : Graph) (h : Heap) (id : UInt16) (p : Coords) : Option ℤ := do
  let (v, _) ← g.at h id
  (h.getCoords v).distance p

/-- `INT_MAX`. -/
def intMax : ℤ := 2147483647

/-- `Graph::get_closest_vertex`, of the vertices next to one. -/
def Graph.getClosestVertex (g : Graph) (h : Heap) (vertId : UInt16) : Option UInt16 := do
  let (vert, adjacencyList) ← g.at h vertId
  let (_, closestId) ← scan (fun current => g.getDistance h (h.getId current) (h.getId vert)) h.getId
    (intMax, vertId) (h.list adjacencyList)
  return closestId

/-- `Graph::get_closest_vertex`, of all vertices to a point; `closestId` is what the variable holds. -/
def Graph.getClosestVertexToPoint (g : Graph) (h : Heap) (closestId : UInt16) (p : Coords) : Option UInt16 := do
  let (_, closestId) ← scan (fun entry => g.getDistanceToPoint h (h.getId entry.1) p) (fun entry => h.getId entry.1)
    (intMax, closestId) (h.vector g.graph)
  return closestId

/-! ### Distances -/

/-- A number whose square is an `int` is one. -/
theorem toInt_of_sq_le {d : ℤ} (h : d ^ 2 ≤ intMax) : toInt d = some d := by
  have hpos : d ≤ d ^ 2 := Int.le_self_sq d
  have hneg : -d ≤ (-d) ^ 2 := Int.le_self_sq (-d)
  rw [neg_sq] at hneg
  rw [intMax] at h
  exact toInt_of_range (by omega) (by omega)

theorem Coords.squared_nonneg (p q : Coords) : 0 ≤ p.squared q :=
  add_nonneg (add_nonneg (sq_nonneg _) (sq_nonneg _)) (sq_nonneg _)

theorem Coords.squared_comm (p q : Coords) : p.squared q = q.squared p := by
  simp only [Coords.squared]
  ring

/-- A squared distance, as far as an `int` distance tells. -/
def rounded (s : ℤ) : ℤ := Nat.sqrt s.toNat

theorem rounded_monotone : Monotone rounded :=
  fun _ _ h => Int.ofNat_le.mpr (Nat.sqrt_le_sqrt (Int.toNat_le_toNat h))

/-- Two squared distances are the same, as far as it tells, if the larger is below the next square. -/
theorem rounded_eq_iff {s t : ℤ} (hs : 0 ≤ s) (h : s < t) : rounded t = rounded s ↔ t < (rounded s + 1) ^ 2 := by
  lift s to ℕ using hs
  lift t to ℕ using by omega
  have hlt : s < t := by omega
  simp only [rounded, Int.toNat_natCast]
  have hle : Nat.sqrt s ≤ Nat.sqrt t := Nat.sqrt_le_sqrt hlt.le
  constructor
  · intro heq
    have heq : Nat.sqrt t = Nat.sqrt s := by omega
    rw [← heq]
    exact_mod_cast Nat.lt_succ_sqrt' t
  · intro hnext
    have hnext : t < (Nat.sqrt s + 1) ^ 2 := by exact_mod_cast hnext
    have := Nat.sqrt_lt'.mpr hnext
    omega

/-- **A distance** whose square fits is its root, rounded down. -/
theorem Coords.distance_eq {p q : Coords} (hfit : p.squared q ≤ intMax) :
    p.distance q = some (rounded (p.squared q)) := by
  have hx := sq_nonneg (p.x.toInt - q.x.toInt)
  have hy := sq_nonneg (p.y.toInt - q.y.toInt)
  have hz := sq_nonneg (p.z.toInt - q.z.toInt)
  have hsum : toInt (p.squared q) = some (p.squared q) := by
    have hnonneg := p.squared_nonneg q
    rw [intMax] at hfit
    exact toInt_of_range (by omega) (by omega)
  simp only [Coords.squared] at hfit hsum
  rw [Coords.distance, toInt_of_sq_le (by linarith), toInt_of_sq_le (by linarith), toInt_of_sq_le (by linarith)]
  simp only [Option.bind_eq_bind, Option.bind_some, hsum]
  rfl

/-- It is smaller than what the searches start from. -/
theorem rounded_lt_intMax {s : ℤ} (hfit : s ≤ intMax) : rounded s < intMax := by
  have hle : Nat.sqrt s.toNat < 46341 := by
    rw [Nat.sqrt_lt']
    rw [intMax] at hfit
    omega
  rw [rounded, intMax]
  omega

/-! ### Neighbours -/

variable {g : Graph} {h : Heap}

/-- The ids of a graph's vertices equal their positions. -/
def Graph.IdsArePositions (g : Graph) (h : Heap) : Prop := ∀ p : g.Position h, (h.getId (g.vertex h p)).toNat = p

instance : Decidable (g.IdsArePositions h) := inferInstanceAs (Decidable (∀ _ : g.Position h, _))

/-- An entry is found by its vertex's id. -/
theorem Graph.IdsArePositions.at_getId (hids : g.IdsArePositions h) {entry : VertexPtr × ListPtr}
    (hentry : entry ∈ h.vector g.graph) : g.at h (h.getId entry.1) = some entry := by
  obtain ⟨p, rfl⟩ := List.get_of_mem hentry
  rw [Graph.at, show (h.getId ((h.vector g.graph).get p).1).toNat = p from hids p]
  exact List.getElem?_eq_getElem p.isLt

/-- The squared distance between the vertices of two ids. -/
def Graph.squared (g : Graph) (h : Heap) (id₀ id₁ : UInt16) : Option ℤ := do
  let (v₀, _) ← g.at h id₀
  let (v₁, _) ← g.at h id₁
  return (h.getCoords v₀).squared (h.getCoords v₁)

/-- A distance whose square fits is its root, rounded down, from either end. -/
theorem Graph.getDistance_eq {id₀ id₁ : UInt16} {s : ℤ} (hs : s ∈ g.squared h id₀ id₁) (hfit : s ≤ intMax) :
    g.getDistance h id₀ id₁ = some (rounded s) ∧ g.getDistance h id₁ id₀ = some (rounded s) := by
  simp only [Graph.squared, Option.bind_eq_bind, Option.mem_def, Option.bind_eq_some_iff, Option.pure_def,
    Option.some.injEq] at hs
  obtain ⟨e₀, h₀, e₁, h₁, rfl⟩ := hs
  simp only [Graph.getDistance, h₀, h₁, Option.bind_eq_bind, Option.bind_some]
  refine ⟨Coords.distance_eq hfit, ?_⟩
  rw [Coords.squared_comm] at hfit ⊢
  exact Coords.distance_eq hfit

/-- The search of an adjacency list. -/
theorem Graph.getClosestVertex_eq (hids : g.IdsArePositions h) {vertId : UInt16}
    (hvalid : vertId.toNat < (h.vector g.graph).length) :
    g.getClosestVertex h vertId = (scan (fun current => g.getDistance h (h.getId current) vertId) h.getId
      (intMax, vertId) (g.adjacency h ⟨vertId.toNat, hvalid⟩)).map Prod.snd := by
  have hat : g.at h vertId = some ((h.vector g.graph).get ⟨vertId.toNat, hvalid⟩) := List.getElem?_eq_getElem hvalid
  have hself : h.getId ((h.vector g.graph).get ⟨vertId.toNat, hvalid⟩).1 = vertId :=
    UInt16.toNat_inj.mp (hids ⟨vertId.toNat, hvalid⟩)
  simp only [Graph.getClosestVertex, hat, Option.bind_eq_bind, Option.bind_some, hself]
  exact Option.map_eq_bind.symm

/-- **The closest neighbour** of a vertex is the first entry of its list with the smallest distance
to it, and the vertex itself if its list is empty. -/
theorem getClosestVertex_firstMin (hids : g.IdsArePositions h) (vertId : UInt16)
    (hvalid : vertId.toNat < (h.vector g.graph).length)
    (hfit : ∀ v ∈ g.adjacency h ⟨vertId.toNat, hvalid⟩, ∃ s ∈ g.squared h (h.getId v) vertId, s ≤ intMax) :
    ∃ distance : VertexPtr → ℤ,
      (∀ v ∈ g.adjacency h ⟨vertId.toNat, hvalid⟩, g.getDistance h (h.getId v) vertId = some (distance v) ∧
        g.getDistance h vertId (h.getId v) = some (distance v)) ∧
      ((g.adjacency h ⟨vertId.toNat, hvalid⟩ = [] ∧ g.getClosestVertex h vertId = some vertId) ∨
        ∃ v, FirstMin distance (g.adjacency h ⟨vertId.toNat, hvalid⟩) v ∧
          g.getClosestVertex h vertId = some (h.getId v)) := by
  rw [Graph.getClosestVertex_eq hids hvalid]
  generalize g.adjacency h ⟨vertId.toNat, hvalid⟩ = l at hfit
  have hdistance : ∀ v ∈ l, ∃ d < intMax, g.getDistance h (h.getId v) vertId = some d ∧
      g.getDistance h vertId (h.getId v) = some d := by
    intro v hv
    obtain ⟨s, hs, hle⟩ := hfit v hv
    exact ⟨_, rounded_lt_intMax hle, Graph.getDistance_eq hs hle⟩
  have hsome : ∀ v ∈ l, g.getDistance h (h.getId v) vertId = some ((g.getDistance h (h.getId v) vertId).getD 0) := by
    intro v hv
    obtain ⟨d, -, hd, -⟩ := hdistance v hv
    rw [hd, Option.getD_some]
  refine ⟨fun v => (g.getDistance h (h.getId v) vertId).getD 0, fun v hv => ⟨hsome v hv, ?_⟩, ?_⟩
  · obtain ⟨d, -, hd, hd'⟩ := hdistance v hv
    simp only [hd, hd', Option.getD_some]
  · by_cases hl : l = []
    · exact Or.inl ⟨hl, by rw [hl]; rfl⟩
    · obtain ⟨v, hv, hscan⟩ := scan_eq hsome (fun v hv => by
        obtain ⟨d, hlt, hd, -⟩ := hdistance v hv
        rw [hd, Option.getD_some]
        exact hlt) hl h.getId vertId
      exact Or.inr ⟨v, hv, by rw [hscan]; rfl⟩

/-- A vertex with two neighbours, and one of them twice. -/
def corner : Heap :=
  ⟨3, [⟨0, 0, 0, 0⟩, ⟨3, 4, 0, 1⟩, ⟨1, 1, 1, 2⟩], [[1, 2, 2], [0], [0, 0]], [[(0, 0), (1, 1), (2, 2)]]⟩

/-- The one that is there twice is the closer. -/
theorem getClosestVertex_corner :
    ∃ distance : VertexPtr → ℤ,
      (∀ v ∈ Graph.adjacency ⟨0⟩ corner ⟨(0 : UInt16).toNat, by decide⟩,
        Graph.getDistance ⟨0⟩ corner (corner.getId v) 0 = some (distance v) ∧
          Graph.getDistance ⟨0⟩ corner 0 (corner.getId v) = some (distance v)) ∧
      ((Graph.adjacency ⟨0⟩ corner ⟨(0 : UInt16).toNat, by decide⟩ = [] ∧
          Graph.getClosestVertex ⟨0⟩ corner 0 = some 0) ∨
        ∃ v, FirstMin distance (Graph.adjacency ⟨0⟩ corner ⟨(0 : UInt16).toNat, by decide⟩) v ∧
          Graph.getClosestVertex ⟨0⟩ corner 0 = some (corner.getId v)) :=
  getClosestVertex_firstMin (g := ⟨0⟩) (h := corner) (by decide) 0 (by decide) (by decide)

/-! ### Points -/

/-- The squared distance of an entry's vertex from a point. -/
def Heap.squaredTo (h : Heap) (p : Coords) (entry : VertexPtr × ListPtr) : ℤ := (h.getCoords entry.1).squared p

/-- The search returns the id of a vertex that no other is nearer than. -/
def Graph.FindsNearest (g : Graph) (h : Heap) (closestId : UInt16) (p : Coords) : Prop :=
  ∃ id entry, g.getClosestVertexToPoint h closestId p = some id ∧ g.at h id = some entry ∧
    ∀ other ∈ h.vector g.graph, h.squaredTo p entry ≤ h.squaredTo p other

/-- Every vertex that is farther than the nearest, but whose squared distance is below the next
perfect square after theirs, has a nearest one before it. -/
def Graph.NearTiesBehind (g : Graph) (h : Heap) (p : Coords) : Prop :=
  ∀ pre entry post, h.vector g.graph = pre ++ entry :: post →
    ∀ nearest ∈ h.vector g.graph, (∀ other ∈ h.vector g.graph, h.squaredTo p nearest ≤ h.squaredTo p other) →
      h.squaredTo p nearest < h.squaredTo p entry →
        h.squaredTo p entry < (Nat.sqrt (h.squaredTo p nearest).toNat + 1 : ℤ) ^ 2 →
          ∃ before ∈ pre, h.squaredTo p before = h.squaredTo p nearest

/-- **When the nearest vertex to a point is found**: when near ties are behind it. -/
theorem getClosestVertexToPoint_nearest_iff (hids : g.IdsArePositions h) (hne : h.vector g.graph ≠ []) (p : Coords)
    (hfit : ∀ entry ∈ h.vector g.graph, h.squaredTo p entry ≤ intMax) (closestId : UInt16) :
    g.FindsNearest h closestId p ↔ g.NearTiesBehind h p := by
  have hcost : ∀ entry ∈ h.vector g.graph,
      g.getDistanceToPoint h (h.getId entry.1) p = some (rounded (h.squaredTo p entry)) := by
    intro entry hentry
    simp only [Graph.getDistanceToPoint, hids.at_getId hentry, Option.bind_eq_bind, Option.bind_some]
    exact Coords.distance_eq (hfit entry hentry)
  obtain ⟨first, hfirst, hscan⟩ := scan_eq hcost (fun entry hentry => rounded_lt_intMax (hfit entry hentry)) hne
    (fun entry => h.getId entry.1) closestId
  have hclosest : g.getClosestVertexToPoint h closestId p = some (h.getId first.1) := by
    simp only [Graph.getClosestVertexToPoint, hscan, Option.bind_eq_bind, Option.bind_some]
    rfl
  have hfinds : g.FindsNearest h closestId p ↔
      ∀ other ∈ h.vector g.graph, h.squaredTo p first ≤ h.squaredTo p other := by
    rw [Graph.FindsNearest, hclosest]
    constructor
    · rintro ⟨id, entry, hid, hat, hmin⟩
      cases hid
      rw [hids.at_getId hfirst.mem] at hat
      cases hat
      exact hmin
    · exact fun hmin => ⟨_, first, rfl, hids.at_getId hfirst.mem, hmin⟩
  rw [hfinds, hfirst.least_iff rounded_monotone, Graph.NearTiesBehind]
  refine forall_congr' fun pre => forall_congr' fun entry => forall_congr' fun post => forall_congr' fun _ =>
    forall_congr' fun nearest => forall_congr' fun _ => forall_congr' fun _ => forall_congr' fun hlt => ?_
  have hnonneg : 0 ≤ h.squaredTo p nearest := Coords.squared_nonneg _ _
  rw [rounded_eq_iff hnonneg hlt]
  rfl

/-- Two vertices at squared distances `1` and `3` from `(0, 0, 0)`, the nearest first. -/
theorem nearest_iff_first :
    Graph.FindsNearest ⟨0⟩ ⟨2, [⟨1, 0, 0, 0⟩, ⟨1, 1, 1, 1⟩], [[], []], [[(0, 0), (1, 1)]]⟩ 0 ⟨0, 0, 0⟩ ↔
      Graph.NearTiesBehind ⟨0⟩ ⟨2, [⟨1, 0, 0, 0⟩, ⟨1, 1, 1, 1⟩], [[], []], [[(0, 0), (1, 1)]]⟩ ⟨0, 0, 0⟩ :=
  getClosestVertexToPoint_nearest_iff (by decide) (by decide) _ (by decide) 0

/-- With the nearest behind the other, the other is found. -/
theorem farther_found :
    ¬ Graph.FindsNearest ⟨0⟩ ⟨2, [⟨1, 1, 1, 0⟩, ⟨1, 0, 0, 1⟩], [[], []], [[(0, 0), (1, 1)]]⟩ 0 ⟨0, 0, 0⟩ := by
  have hfound : Graph.getClosestVertexToPoint ⟨0⟩ ⟨2, [⟨1, 1, 1, 0⟩, ⟨1, 0, 0, 1⟩], [[], []], [[(0, 0), (1, 1)]]⟩ 0
      ⟨0, 0, 0⟩ = some 0 := by decide +kernel
  rintro ⟨id, entry, hid, hat, hmin⟩
  obtain rfl := Option.some.inj (hfound.symm.trans hid)
  obtain rfl : (0, 0) = entry := Option.some.inj hat
  exact absurd (hmin (1, 1) (by decide)) (by decide)

end Inferno.ServerAI
