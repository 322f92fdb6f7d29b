import Inferno.Lib.Answers
import Inferno.ServerAI.Nearest

/-!
# Plain maps

What a `Graph` is for: points, numbered in the order in which they were added, and edges between them. A `PlainMap`
is that and nothing else. In a `Graph` it is spread over vertices, lists and a vector, which point to each other, and
over a counter of sixteen bits that gives the vertices their numbers.

## What is proved

* `graph_refines` — a graph answers whatever calls are made as the plain map does, exactly as long as no more than
  65536 vertices are added, and `Vertex::count` is at zero when it is made.

## Scope

Other objects may be there before the graph. An exception is not told from a distance that an `int` does not hold.
-/

namespace Inferno.ServerAI

open Answering Minima

/-- A call of a method. -/
inductive GraphCall where
  | addVertex (p : Coords)
  | addEdge (id₀ id₁ : UInt16)
  | getDistance (id₀ id₁ : UInt16)
  | getDistanceToPoint (id : UInt16) (p : Coords)
  /-- Of the vertices next to one. -/
  | getClosestVertex (vertId : UInt16)
  /-- Of all vertices to a point; `closestId` is what the variable holds. -/
  | getClosestVertexToPoint (closestId : UInt16) (p : Coords)

/-- What a call gives. -/
inductive Answer where
  /-- Nothing, as it should be. -/
  | done
  | number (id : ℕ)
  | distance (d : ℤ)
  /-- An exception, or a distance that an `int` does not hold. -/
  | failed
  deriving DecidableEq, Repr

def Answer.ofId : Option ℕ → Answer
  | none => .failed
  | some id => .number id

def Answer.ofDistance : Option ℤ → Answer
  | none => .failed
  | some d => .distance d

/-- A call on a graph. -/
def Graph.call (g : Graph) (h : Heap) : GraphCall → Answer × Heap
  | .addVertex p => (.number (g.addVertex h p.x p.y p.z).2.1.toNat, (g.addVertex h p.x p.y p.z).2.2)
  | .addEdge id₀ id₁ =>
    match g.addEdge h id₀ id₁ with
    | none => (.failed, h)
    | some h' => (.done, h')
  | .getDistance id₀ id₁ => (.ofDistance (g.getDistance h id₀ id₁), h)
  | .getDistanceToPoint id p => (.ofDistance (g.getDistanceToPoint h id p), h)
  | .getClosestVertex vertId => (.ofId ((g.getClosestVertex h vertId).map UInt16.toNat), h)
  | .getClosestVertexToPoint closestId p => (.ofId ((g.getClosestVertexToPoint h closestId p).map UInt16.toNat), h)

/-! ### The plain map -/

/-- Points, and edges between their numbers, in the order in which they were added. -/
structure PlainMap where
  points : List Coords
  edges : List (ℕ × ℕ)
  edges_lt : ∀ e ∈ edges, e.1 < points.length ∧ e.2 < points.length

namespace PlainMap

/-- No points. -/
def empty : PlainMap := ⟨[], [], by simp⟩

/-- One more point. -/
def addPoint (m : PlainMap) (p : Coords) : PlainMap where
  points := m.points ++ [p]
  edges := m.edges
  edges_lt e he := by
    have := m.edges_lt e he
    rw [List.length_append]
    omega

/-- One more edge. -/
def link (m : PlainMap) (i j : ℕ) (h : i < m.points.length ∧ j < m.points.length) : PlainMap where
  points := m.points
  edges := m.edges ++ [(i, j)]
  edges_lt := by
    simp only [List.mem_append, List.mem_singleton]
    rintro e (he | rfl)
    · exact m.edges_lt e he
    · exact h

/-- The other ends of the edges of a point, in order; an edge from the point to itself has two. -/
def neighbours (m : PlainMap) (i : ℕ) : List ℕ :=
  m.edges.flatMap fun e => (if e.1 = i then [e.2] else []) ++ if e.2 = i then [e.1] else []

/-- The distance between a point of the map and any point. -/
def distanceTo (m : PlainMap) (i : ℕ) (p : Coords) : Option ℤ := m.points[i]?.bind fun q => q.distance p

/-- The distance between two points of the map. -/
def distance (m : PlainMap) (i j : ℕ) : Option ℤ := m.points[j]?.bind fun p => m.distanceTo i p

/-- The first of the points with the smallest distance to `p`, and `default` if there is no point. -/
def closestTo (m : PlainMap) (default : ℕ) (p : Coords) : Option ℕ :=
  (scan (fun i => m.distanceTo i p) id (intMax, default) (List.range m.points.length)).map Prod.snd

/-- The first of the neighbours with the smallest distance to a point, and the point if there is none. -/
def closestNeighbour (m : PlainMap) (i : ℕ) : Option ℕ :=
  if i < m.points.length then (scan (fun j => m.distance j i) id (intMax, i) (m.neighbours i)).map Prod.snd else none

/-- A call on a plain map. -/
def call (m : PlainMap) : GraphCall → Answer × PlainMap
  | .addVertex p => (.number m.points.length, m.addPoint p)
  | .addEdge id₀ id₁ =>
    if h : id₀.toNat < m.points.length ∧ id₁.toNat < m.points.length then
      (.done, m.link id₀.toNat id₁.toNat h)
    else (.failed, m)
  | .getDistance id₀ id₁ => (.ofDistance (m.distance id₀.toNat id₁.toNat), m)
  | .getDistanceToPoint id p => (.ofDistance (m.distanceTo id.toNat p), m)
  | .getClosestVertex vertId => (.ofId (m.closestNeighbour vertId.toNat), m)
  | .getClosestVertexToPoint closestId p => (.ofId (m.closestTo closestId.toNat p), m)

theorem neighbours_lt {m : PlainMap} {i j : ℕ} (hj : j ∈ m.neighbours i) : j < m.points.length := by
  obtain ⟨e, he, hj⟩ := List.mem_flatMap.mp hj
  have hlt := m.edges_lt e he
  rcases List.mem_append.mp hj with hj | hj
  · split_ifs at hj
    · exact List.mem_singleton.mp hj ▸ hlt.2
    · cases hj
  · split_ifs at hj
    · exact List.mem_singleton.mp hj ▸ hlt.1
    · cases hj

/-- A new point has no neighbours. -/
theorem neighbours_of_le {m : PlainMap} {i : ℕ} (hi : m.points.length ≤ i) : m.neighbours i = [] := by
  apply List.flatMap_eq_nil_iff.mpr
  intro e he
  have hlt := m.edges_lt e he
  rw [if_neg (by omega), if_neg (by omega)]
  rfl

theorem neighbours_link (m : PlainMap) {i j : ℕ} (h : i < m.points.length ∧ j < m.points.length) (k : ℕ) :
    (m.link i j h).neighbours k = m.neighbours k ++ (if i = k then [j] else []) ++ if j = k then [i] else [] := by
  simp [neighbours, link]

end PlainMap

/-! ### What a graph has to do with it -/

/-- A graph that stands for a plain map: its vertices and lists are numbered on from `v₀` and `l₀`, and the
vertices' ids are the numbers of the points. -/
structure Graph.Represents (g : Graph) (v₀ l₀ : ℕ) (h : Heap) (m : PlainMap) : Prop where
  lt : g.graph < h.vectors.length
  size_le : m.points.length ≤ 65536
  count : h.count = UInt16.ofNat m.points.length
  numVertices : h.vertices.length = v₀ + m.points.length
  numLists : h.lists.length = l₀ + m.points.length
  entries : h.vector g.graph = (List.range m.points.length).map fun i => (v₀ + i, l₀ + i)
  vertices : ∀ i p, m.points[i]? = some p → h.vertices[v₀ + i]? = some ⟨p.x, p.y, p.z, UInt16.ofNat i⟩
  lists : ∀ i < m.points.length, h.lists[l₀ + i]? = some ((m.neighbours i).map (v₀ + ·))

variable {g : Graph} {v₀ l₀ : ℕ} {h : Heap} {m : PlainMap}

namespace Graph.Represents

/-- What is at a position. -/
theorem at_eq (hr : g.Represents v₀ l₀ h m) (id : UInt16) :
    g.at h id = if id.toNat < m.points.length then some (v₀ + id.toNat, l₀ + id.toNat) else none := by
  rw [Graph.at, hr.entries, List.getElem?_map]
  split_ifs with hlt
  · rw [List.getElem?_range hlt, Option.map_some]
  · rw [List.getElem?_eq_none (by simpa using hlt), Option.map_none]

theorem getCoords (hr : g.Represents v₀ l₀ h m) {i : ℕ} {p : Coords} (hp : m.points[i]? = some p) :
    h.getCoords (v₀ + i) = p := by
  rw [Heap.getCoords, hr.vertices i p hp]
  rfl

/-- A vertex's id is its point's number. -/
theorem toNat_getId (hr : g.Represents v₀ l₀ h m) {i : ℕ} (hi : i < m.points.length) :
    (h.getId (v₀ + i)).toNat = i := by
  have hsize := hr.size_le
  rw [Heap.getId, hr.vertices i m.points[i] (List.getElem?_eq_getElem hi), Option.map_some, Option.getD_some,
    UInt16.toNat_ofNat']
  omega

theorem getDistanceToPoint (hr : g.Represents v₀ l₀ h m) (id : UInt16) (p : Coords) :
    g.getDistanceToPoint h id p = m.distanceTo id.toNat p := by
  rw [Graph.getDistanceToPoint, hr.at_eq, PlainMap.distanceTo]
  split_ifs with hlt
  · have hpoint := List.getElem?_eq_getElem hlt
    rw [hpoint]
    simp only [Option.bind_eq_bind, Option.bind_some, hr.getCoords hpoint]
  · rw [List.getElem?_eq_none (not_lt.mp hlt)]
    rfl

theorem getDistance (hr : g.Represents v₀ l₀ h m) (id₀ id₁ : UInt16) :
    g.getDistance h id₀ id₁ = m.distance id₀.toNat id₁.toNat := by
  rw [Graph.getDistance, PlainMap.distance, hr.at_eq id₁]
  split_ifs with hlt
  · have hpoint := List.getElem?_eq_getElem hlt
    rw [hpoint, Option.bind_some, ← hr.getDistanceToPoint, Graph.getDistanceToPoint]
    simp only [Option.bind_eq_bind, Option.bind_some, hr.getCoords hpoint]
  · rw [List.getElem?_eq_none (not_lt.mp hlt)]
    cases g.at h id₀ <;> rfl

theorem getClosestVertexToPoint (hr : g.Represents v₀ l₀ h m) (closestId : UInt16) (p : Coords) :
    (g.getClosestVertexToPoint h closestId p).map UInt16.toNat = m.closestTo closestId.toNat p := by
  have hscan : (scan (fun entry => g.getDistanceToPoint h (h.getId entry.1) p) (fun entry => h.getId entry.1)
      (intMax, closestId) (h.vector g.graph)).map (Prod.map id UInt16.toNat) =
        scan (fun i => m.distanceTo i p) id (intMax, closestId.toNat) (List.range m.points.length) := by
    rw [hr.entries]
    apply scan_map
    · intro i hi
      rw [hr.getDistanceToPoint, hr.toNat_getId (List.mem_range.mp hi)]
    · exact fun i hi => hr.toNat_getId (List.mem_range.mp hi)
  rw [PlainMap.closestTo, ← hscan, Graph.getClosestVertexToPoint]
  generalize (scan _ _ _ _ : Option (ℤ × UInt16)) = found
  cases found <;> rfl

theorem getClosestVertex (hr : g.Represents v₀ l₀ h m) (vertId : UInt16) :
    (g.getClosestVertex h vertId).map UInt16.toNat = m.closestNeighbour vertId.toNat := by
  rw [Graph.getClosestVertex, hr.at_eq, PlainMap.closestNeighbour]
  split_ifs with hlt
  · have hscan : (scan (fun current => g.getDistance h (h.getId current) (h.getId (v₀ + vertId.toNat))) h.getId
        (intMax, vertId) (h.list (l₀ + vertId.toNat))).map (Prod.map id UInt16.toNat) =
          scan (fun j => m.distance j vertId.toNat) id (intMax, vertId.toNat) (m.neighbours vertId.toNat) := by
      rw [Heap.list, List.getD_eq_getElem?_getD, hr.lists _ hlt, Option.getD_some]
      refine scan_map (fun j hj => ?_) (fun j hj => hr.toNat_getId (PlainMap.neighbours_lt hj)) _ _
      rw [hr.getDistance, hr.toNat_getId (PlainMap.neighbours_lt hj), hr.toNat_getId hlt]
    rw [← hscan]
    simp only [Option.bind_eq_bind, Option.bind_some]
    generalize (scan _ _ _ _ : Option (ℤ × UInt16)) = found
    cases found <;> rfl
  · rfl

/-- `add_vertex` gives a point the next number. -/
theorem addVertex (hr : g.Represents v₀ l₀ h m) (hsize : m.points.length < 65536) (p : Coords) :
    (g.addVertex h p.x p.y p.z).2.1.toNat = m.points.length ∧
      g.Represents v₀ l₀ (g.addVertex h p.x p.y p.z).2.2 (m.addPoint p) := by
  have hlen : (m.addPoint p).points.length = m.points.length + 1 := List.length_append
  rw [Graph.addVertex_eq]
  refine ⟨?_, ⟨?_, ?_, ?_, ?_, ?_, ?_, ?_, ?_⟩⟩
  · rw [hr.count, UInt16.toNat_ofNat']
    omega
  · simpa using hr.lt
  · omega
  · simp only [hr.count, hlen, UInt16.ofNat_add]
    rfl
  · simp only [List.length_append, List.length_singleton, hr.numVertices, hlen]
    omega
  · simp only [List.length_append, List.length_singleton, hr.numLists, hlen]
    omega
  · rw [vector_modify rfl hr.lt, if_pos rfl, hr.entries, hlen, List.range_succ, List.map_append, hr.numVertices,
      hr.numLists]
    rfl
  · intro i q hq
    rw [PlainMap.addPoint, List.getElem?_append] at hq
    split_ifs at hq with hi
    · rw [List.getElem?_append_left (by rw [hr.numVertices]; omega)]
      exact hr.vertices i q hq
    · have hlast := (List.getElem?_eq_some_iff.mp hq).1
      rw [List.length_singleton] at hlast
      obtain rfl : i = m.points.length := by omega
      simp only [Nat.sub_self, List.getElem?_cons_zero, Option.some.injEq] at hq
      rw [List.getElem?_append_right (by rw [hr.numVertices]), hr.numVertices, Nat.sub_self, hr.count, hq]
      rfl
  · intro i hi
    by_cases hlt : i < m.points.length
    · rw [List.getElem?_append_left (by rw [hr.numLists]; omega)]
      exact hr.lists i hlt
    · have hlast : l₀ + i = h.lists.length := by
        rw [hr.numLists]
        omega
      have hnone : (m.addPoint p).neighbours i = [] := m.neighbours_of_le (not_lt.mp hlt)
      rw [hlast, List.getElem?_append_right le_rfl, Nat.sub_self, hnone]
      rfl

/-- `add_edge` throws if one of its ids is no number of a point, and joins the two otherwise. -/
theorem addEdge (hr : g.Represents v₀ l₀ h m) (id₀ id₁ : UInt16) :
    if hlt : id₀.toNat < m.points.length ∧ id₁.toNat < m.points.length then
      ∃ h', g.addEdge h id₀ id₁ = some h' ∧ g.Represents v₀ l₀ h' (m.link id₀.toNat id₁.toNat hlt)
    else g.addEdge h id₀ id₁ = none := by
  split_ifs with hlt
  · refine ⟨(h.pushVertex (l₀ + id₀.toNat) (v₀ + id₁.toNat)).pushVertex (l₀ + id₁.toNat) (v₀ + id₀.toNat), ?_, ?_⟩
    · rw [Graph.addEdge_eq_some_iff]
      exact ⟨_, _, by rw [hr.at_eq, if_pos hlt.1], by rw [hr.at_eq, if_pos hlt.2], rfl⟩
    · refine ⟨hr.lt, hr.size_le, hr.count, hr.numVertices, ?_, hr.entries, hr.vertices, fun i hi => ?_⟩
      · simpa [Heap.pushVertex, PlainMap.link] using hr.numLists
      · have hlist := hr.lists i hi
        rw [PlainMap.neighbours_link]
        simp only [Heap.pushVertex, List.getElem?_modify, hlist, Option.map_eq_map, Option.map_some,
          Nat.add_left_cancel_iff, List.map_append]
        split_ifs <;> simp
  · rw [Graph.addEdge, hr.at_eq, hr.at_eq]
    split_ifs with h₀ h₁
    · exact absurd ⟨h₀, h₁⟩ hlt
    · rfl
    · rfl
    · rfl

end Graph.Represents

/-! ### Calls -/

/-- How many vertices some calls add. -/
def added (calls : List GraphCall) : ℕ :=
  calls.countP fun
    | .addVertex _ => true
    | _ => false

theorem added_cons (c : GraphCall) (calls : List GraphCall) : added (c :: calls) = added [c] + added calls :=
  (congrArg added List.singleton_append).symm.trans List.countP_append

theorem added_replicate (k : ℕ) (p : Coords) : added (List.replicate k (.addVertex p)) = k := by
  rw [added, List.countP_replicate, if_pos rfl]

/-- **One call**: the graph answers it as the plain map does, and goes on to stand for it. -/
theorem Graph.Represents.call (hr : g.Represents v₀ l₀ h m) (c : GraphCall)
    (hsize : m.points.length + added [c] ≤ 65536) :
    (g.call h c).1 = (m.call c).1 ∧ g.Represents v₀ l₀ (g.call h c).2 (m.call c).2 := by
  cases c with
  | addVertex p =>
    obtain ⟨hid, hr'⟩ := hr.addVertex hsize p
    exact ⟨congrArg Answer.number hid, hr'⟩
  | addEdge id₀ id₁ =>
    have hadd := hr.addEdge id₀ id₁
    simp only [Graph.call, PlainMap.call]
    split_ifs at hadd ⊢ with hlt
    · obtain ⟨h', hadd, hr'⟩ := hadd
      rw [hadd]
      exact ⟨rfl, hr'⟩
    · rw [hadd]
      exact ⟨rfl, hr⟩
  | getDistance id₀ id₁ => exact ⟨congrArg Answer.ofDistance (hr.getDistance id₀ id₁), hr⟩
  | getDistanceToPoint id p => exact ⟨congrArg Answer.ofDistance (hr.getDistanceToPoint id p), hr⟩
  | getClosestVertex vertId => exact ⟨congrArg Answer.ofId (hr.getClosestVertex vertId), hr⟩
  | getClosestVertexToPoint closestId p => exact ⟨congrArg Answer.ofId (hr.getClosestVertexToPoint closestId p), hr⟩

theorem length_points_call (m : PlainMap) (c : GraphCall) :
    (m.call c).2.points.length = m.points.length + added [c] := by
  cases c with
  | addVertex p => exact List.length_append
  | addEdge id₀ id₁ =>
    simp only [PlainMap.call]
    split_ifs <;> rfl
  | getDistance | getDistanceToPoint | getClosestVertex | getClosestVertexToPoint => rfl

theorem length_points_after (m : PlainMap) (calls : List GraphCall) :
    (after PlainMap.call m calls).points.length = m.points.length + added calls := by
  induction calls generalizing m with
  | nil => rfl
  | cons c calls ih =>
    rw [added_cons, ← Nat.add_assoc, ← length_points_call]
    exact ih _

/-- **Any calls**, as long as there are not too many vertices. -/
theorem Graph.Represents.answers (hr : g.Represents v₀ l₀ h m) {calls : List GraphCall}
    (hsize : m.points.length + added calls ≤ 65536) :
    answers g.call h calls = answers PlainMap.call m calls ∧
      g.Represents v₀ l₀ (after g.call h calls) (after PlainMap.call m calls) := by
  apply answers_eq (R := fun h m => g.Represents v₀ l₀ h m)
    (F := fun (m : PlainMap) calls => m.points.length + added calls ≤ 65536) _ hr hsize
  intro h m c calls hr hfits
  rw [added_cons] at hfits
  obtain ⟨hanswer, hr'⟩ := hr.call c (by omega)
  refine ⟨hanswer, hr', ?_⟩
  rw [length_points_call]
  omega

/-- `Graph()` stands for the map without points if the counter is at zero. -/
theorem represents_empty (hcount : h.count = 0) :
    Graph.Represents ⟨(h.newVector []).1⟩ h.vertices.length h.lists.length (h.newVector []).2 .empty where
  lt := by simp [Heap.newVector]
  size_le := Nat.zero_le _
  count := hcount
  numVertices := rfl
  numLists := rfl
  entries := by simp [Heap.newVector, Heap.vector, PlainMap.empty]
  vertices i p hp := by cases hp
  lists i hi := absurd hi (Nat.not_lt_zero _)

/-- **A graph is a plain map** to whoever adds no more than `n` vertices, and that whatever the calls are, exactly if
`Vertex::count` is zero when it is made and `n` is not above 65536. -/
theorem graph_refines (h : Heap) {n : ℕ} (hn : 0 < n) :
    (∀ calls, added calls ≤ n → answers (Graph.call ⟨(h.newVector []).1⟩) (h.newVector []).2 calls =
      answers PlainMap.call .empty calls) ↔ h.count = 0 ∧ n ≤ 65536 := by
  constructor
  · intro hsame
    have hcount : h.count = 0 := by
      have hfirst := hsame [.addVertex ⟨0, 0, 0⟩] hn
      simp only [answers, Graph.call, PlainMap.call, Graph.addVertex_eq, PlainMap.empty, List.length_nil,
        List.cons.injEq, Answer.number.injEq, and_true] at hfirst
      exact UInt16.toNat_inj.mp hfirst
    refine ⟨hcount, ?_⟩
    by_contra hlt
    -- one vertex too many has the id of the first
    obtain ⟨calls, hcalls⟩ : ∃ calls, added calls = 65536 := ⟨_, added_replicate 65536 ⟨0, 0, 0⟩⟩
    have hmore : added (calls ++ [.addVertex ⟨0, 0, 0⟩]) = 65537 := by
      rw [added, List.countP_append, ← added, hcalls]
      rfl
    have hlen := length_points_after .empty calls
    rw [hcalls, PlainMap.empty, List.length_nil, Nat.zero_add] at hlen
    obtain ⟨hanswers, hr⟩ := (represents_empty hcount).answers (show 0 + added calls ≤ 65536 by omega)
    have hlast := hsame (calls ++ [.addVertex ⟨0, 0, 0⟩]) (by omega)
    rw [answers_append, answers_append, hanswers] at hlast
    have hsame' := List.append_cancel_left hlast
    simp only [answers, Graph.call, PlainMap.call, Graph.addVertex_eq, List.cons.injEq, Answer.number.injEq,
      and_true, hr.count] at hsame'
    rw [PlainMap.empty, hlen] at hsame'
    exact absurd hsame' (by decide)
  · rintro ⟨hcount, hle⟩ calls hadded
    refine ((represents_empty hcount).answers ?_).1
    rw [PlainMap.empty, List.length_nil]
    omega

/-- The first graph of a process is one for 65536 vertices. -/
theorem graph_refines_first :
    (∀ calls, added calls ≤ 65536 →
      answers (Graph.call ⟨(Heap.newVector ⟨0, [], [], []⟩ []).1⟩) (Heap.newVector ⟨0, [], [], []⟩ []).2 calls =
        answers PlainMap.call .empty calls) ↔ (0 : UInt16) = 0 ∧ 65536 ≤ 65536 :=
  graph_refines ⟨0, [], [], []⟩ (by decide)

end Inferno.ServerAI
