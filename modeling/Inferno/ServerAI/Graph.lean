import Inferno.Lib.Runs
import Mathlib.Data.List.GetD
import Mathlib.Order.Nat

/-!
# The map graph

`Vertex` and `Graph`. Vertices, adjacency lists and the vectors that graphs keep their
entries in are objects of one process, and a pointer is the number of its object. A
vertex takes its id from the static counter `Vertex::count`, which every `Vertex` of the
process advances; a graph finds a vertex by its id's position in the vector.

A run is any interleaving of what a program may do with them: make vertices of its own,
make graphs, over new vectors or over its own, and add vertices and edges.

## What is proved

* `Process.Sound.of_run` — the counter is the number of vertices made so far, up to its
  sixteen bits, and every entry of a vector points to one of them.
* `idsAddress_iff` — the ids that `add_vertex` returned stand for the vertices it made in
  exactly those runs in which it was never called on a graph that has not as many entries
  as there are vertices, up to sixteen bits.

## Scope

The constructor that loads two files is a `Graph()` and calls of `add_vertex` and `add_edge`.
No object is deleted.
-/

namespace Inferno.ServerAI

open Machine

/-- A `Vertex*`. -/
abbrev VertexPtr := ℕ

/-- A `std::list<Vertex*>*`. -/
abbrev ListPtr := ℕ

/-- A `std::vector< std::pair< Vertex*, std::list<Vertex*>* > >*`. -/
abbrev VectorPtr := ℕ

/-- `class Vertex`. -/
structure Vertex where
  x : Int32
  y : Int32
  z : Int32
  id : UInt16
  deriving DecidableEq, Repr

/-- The objects of a process, and the counter. -/
structure Heap where
  /-- `Vertex::count`. -/
  count : UInt16
  vertices : List Vertex
  lists : List (List VertexPtr)
  vectors : List (List (VertexPtr × ListPtr))

/-- The entries of a vector. -/
def Heap.vector (h : Heap) (p : VectorPtr) : List (VertexPtr × ListPtr) := h.vectors.getD p []

/-- `new Vertex(x, y, z)`. -/
def Heap.newVertex (h : Heap) (x y z : Int32) : VertexPtr × Heap :=
  (h.vertices.length, { h with vertices := h.vertices ++ [⟨x, y, z, h.count⟩], count := h.count + 1 })

/-- A new list with some contents. -/
def Heap.newList (h : Heap) (contents : List VertexPtr) : ListPtr × Heap :=
  (h.lists.length, { h with lists := h.lists ++ [contents] })

/-- A new vector with some entries. -/
def Heap.newVector (h : Heap) (entries : List (VertexPtr × ListPtr)) : VectorPtr × Heap :=
  (h.vectors.length, { h with vectors := h.vectors ++ [entries] })

/-- `push_back` on a vector. -/
def Heap.pushEntry (h : Heap) (p : VectorPtr) (entry : VertexPtr × ListPtr) : Heap :=
  { h with vectors := h.vectors.modify p (· ++ [entry]) }

/-- `push_back` on a list. -/
def Heap.pushVertex (h : Heap) (l : ListPtr) (v : VertexPtr) : Heap :=
  { h with lists := h.lists.modify l (· ++ [v]) }

/-- `Vertex::get_id`. -/
def Heap.getId (h : Heap) (v : VertexPtr) : UInt16 := (h.vertices[v]?.map Vertex.id).getD 0

/-- `class Graph`. -/
structure Graph where
  graph : VectorPtr
  deriving DecidableEq, Repr

/-- `graph->at(id)`, or `none` for the exception. -/
def Graph.at (g : Graph) (h : Heap) (id : UInt16) : Option (VertexPtr × ListPtr) := (h.vector g.graph)[id.toNat]?

/-- `Graph::add_vertex`: the vertex it makes, and the id it returns. -/
def Graph.addVertex (g : Graph) (h : Heap) (x y z : Int32) : VertexPtr × UInt16 × Heap :=
  let (v, h) := h.newVertex x y z
  let (adjList, h) := h.newList []
  let h := h.pushEntry g.graph (v, adjList)
  (v, h.getId v, h)

/-- `Graph::add_edge`, or `none` for an exception, which comes before any change. -/
def Graph.addEdge (g : Graph) (h : Heap) (id₀ id₁ : UInt16) : Option Heap := do
  let (v₀, adj₀) ← g.at h id₀
  let (v₁, adj₁) ← g.at h id₁
  return (h.pushVertex adj₀ v₁).pushVertex adj₁ v₀

/-! ### Programs with graphs -/

/-- A call of `add_vertex` that has returned. -/
structure Call where
  /-- The number of the graph it was made on. -/
  graph : ℕ
  /-- The vertex it made. -/
  vertex : VertexPtr
  x : Int32
  y : Int32
  z : Int32
  /-- The id it returned. -/
  id : UInt16
  deriving DecidableEq

/-- A process: its objects, its graphs, and the calls of `add_vertex` so far. -/
structure Process where
  heap : Heap
  graphs : List Graph
  calls : List Call

/-- Before `main`. -/
def Process.start : Process := ⟨⟨0, [], [], []⟩, [], []⟩

/-- What a program does. -/
inductive Event where
  /-- `new Vertex(x, y, z)`. -/
  | newVertex (x y z : Int32)
  /-- A vector of the program's own, of vertices it has, each with a new list. -/
  | newVector (entries : List (VertexPtr × List VertexPtr))
  /-- `Graph()`. -/
  | newGraph
  /-- `Graph(initial_graph)`. -/
  | newGraphOver (initialGraph : VectorPtr)
  /-- `add_vertex` on the `g`-th graph. -/
  | addVertex (g : ℕ) (x y z : Int32)
  /-- `add_edge` on the `g`-th graph. If it throws, the program goes on. -/
  | addEdge (g : ℕ) (id₀ id₁ : UInt16)

/-- The entries of a program's own vector. -/
def Heap.newEntries (h : Heap) : List (VertexPtr × List VertexPtr) → List (VertexPtr × ListPtr) × Heap
  | [] => ([], h)
  | (v, contents) :: entries =>
    let (l, h) := h.newList contents
    let (rest, h) := h.newEntries entries
    ((v, l) :: rest, h)

/-- One event, or `none` if a pointer it needs does not exist. -/
def step (s : Process) : Event → Option Process
  | .newVertex x y z => some { s with heap := (s.heap.newVertex x y z).2 }
  | .newVector entries =>
    if ∀ entry ∈ entries, entry.1 < s.heap.vertices.length then
      let (entries, h) := s.heap.newEntries entries
      some { s with heap := (h.newVector entries).2 }
    else none
  | .newGraph =>
    let (p, h) := s.heap.newVector []
    some { s with heap := h, graphs := s.graphs ++ [⟨p⟩] }
  | .newGraphOver p =>
    if p < s.heap.vectors.length then some { s with graphs := s.graphs ++ [⟨p⟩] } else none
  | .addVertex g x y z => do
    let gr ← s.graphs[g]?
    let (v, id, h) := gr.addVertex s.heap x y z
    return { s with heap := h, calls := s.calls ++ [⟨g, v, x, y, z, id⟩] }
  | .addEdge g id₀ id₁ => do
    let gr ← s.graphs[g]?
    return { s with heap := (gr.addEdge s.heap id₀ id₁).getD s.heap }

/-! ### What a step does to the objects -/

/-- `add_vertex` puts the new vertex at the end of the graph's vector, and returns the counter. -/
theorem Graph.addVertex_eq (g : Graph) (h : Heap) (x y z : Int32) :
    g.addVertex h x y z = (h.vertices.length, h.count,
      { count := h.count + 1
        vertices := h.vertices ++ [⟨x, y, z, h.count⟩]
        lists := h.lists ++ [[]]
        vectors := h.vectors.modify g.graph (· ++ [(h.vertices.length, h.lists.length)]) }) := by
  simp [Graph.addVertex, Heap.newVertex, Heap.newList, Heap.pushEntry, Heap.getId]

/-- Making the entries of a vector only makes lists. -/
theorem Heap.newEntries_spec (h : Heap) (entries : List (VertexPtr × List VertexPtr)) :
    (h.newEntries entries).1.map Prod.fst = entries.map Prod.fst ∧
      ∃ lists, (h.newEntries entries).2 = { h with lists := lists } := by
  induction entries generalizing h with
  | nil => exact ⟨rfl, h.lists, rfl⟩
  | cons entry entries ih =>
    obtain ⟨v, contents⟩ := entry
    obtain ⟨hfst, lists, hlists⟩ := ih (h.newList contents).2
    refine ⟨?_, lists, ?_⟩
    · simp only [Heap.newEntries, List.map_cons]
      rw [hfst]
    · simp only [Heap.newEntries]
      rw [hlists]
      rfl

/-- An edge only changes lists. -/
theorem Graph.addEdge_spec (g : Graph) (h : Heap) (id₀ id₁ : UInt16) :
    ∃ lists, (g.addEdge h id₀ id₁).getD h = { h with lists := lists } := by
  cases h₀ : g.at h id₀ with
  | none => exact ⟨h.lists, by simp [Graph.addEdge, h₀]⟩
  | some e₀ =>
    cases h₁ : g.at h id₁ with
    | none => exact ⟨h.lists, by simp [Graph.addEdge, h₀, h₁]⟩
    | some e₁ => exact ⟨_, by simp [Graph.addEdge, h₀, h₁]; rfl⟩

/-- **What a step does**: it makes a vertex outside all graphs, or one at the end of a graph's
vector, or it makes vectors of old vertices, and graphs. -/
theorem step_cases {s s' : Process} {e : Event} (h : step s e = some s') :
    (∃ x y z, e = .newVertex x y z ∧ s' = { s with heap := (s.heap.newVertex x y z).2 }) ∨
    (∃ g gr x y z, e = .addVertex g x y z ∧ s.graphs[g]? = some gr ∧
      s' = { s with heap := (gr.addVertex s.heap x y z).2.2
                    calls := s.calls ++ [⟨g, s.heap.vertices.length, x, y, z, s.heap.count⟩] }) ∨
    ((∀ g x y z, e ≠ .addVertex g x y z) ∧ s'.calls = s.calls ∧ s'.heap.count = s.heap.count ∧
      s'.heap.vertices = s.heap.vertices ∧
      (∃ vecs, s'.heap.vectors = s.heap.vectors ++ vecs ∧
        ∀ vec ∈ vecs, ∀ entry ∈ vec, entry.1 < s.heap.vertices.length) ∧
      ∃ gs, s'.graphs = s.graphs ++ gs ∧ ∀ g ∈ gs, g.graph < s'.heap.vectors.length) := by
  cases e with
  | newVertex x y z =>
    cases h
    exact Or.inl ⟨x, y, z, rfl, rfl⟩
  | newVector entries =>
    simp only [step] at h
    split_ifs at h with hentries
    cases h
    obtain ⟨hfst, lists, hlists⟩ := s.heap.newEntries_spec entries
    refine Or.inr (Or.inr ⟨by simp, rfl, ?_, ?_, ⟨[(s.heap.newEntries entries).1], ?_, ?_⟩, [], by simp, by simp⟩)
    · simp [Heap.newVector, hlists]
    · simp [Heap.newVector, hlists]
    · simp [Heap.newVector, hlists]
    · rintro vec hvec entry hentry
      obtain rfl := List.mem_singleton.mp hvec
      have hmem : entry.1 ∈ entries.map Prod.fst := hfst ▸ List.mem_map_of_mem hentry
      obtain ⟨e, he, heq⟩ := List.mem_map.mp hmem
      rw [← heq]
      exact hentries e he
  | newGraph =>
    cases h
    refine Or.inr (Or.inr ⟨by simp, rfl, rfl, rfl, ⟨[[]], rfl, by simp⟩, [⟨s.heap.vectors.length⟩], rfl, ?_⟩)
    simp
  | newGraphOver p =>
    simp only [step] at h
    split_ifs at h with hp
    cases h
    exact Or.inr (Or.inr ⟨by simp, rfl, rfl, rfl, ⟨[], by simp, by simp⟩, [⟨p⟩], rfl, by simpa using hp⟩)
  | addVertex g x y z =>
    simp only [step, Option.bind_eq_bind, Option.bind_eq_some_iff] at h
    obtain ⟨gr, hgr, h⟩ := h
    rw [Graph.addVertex_eq] at h
    cases h
    refine Or.inr (Or.inl ⟨g, gr, x, y, z, rfl, hgr, ?_⟩)
    rw [Graph.addVertex_eq]
  | addEdge g id₀ id₁ =>
    simp only [step, Option.bind_eq_bind, Option.bind_eq_some_iff] at h
    obtain ⟨gr, -, h⟩ := h
    cases h
    obtain ⟨lists, hlists⟩ := gr.addEdge_spec s.heap id₀ id₁
    rw [hlists]
    exact Or.inr (Or.inr ⟨by simp, rfl, rfl, rfl, ⟨[], by simp, by simp⟩, [], by simp, by simp⟩)

/-- What is at a place of a vector with one more entry. -/
theorem getElem?_concat_eq_some_iff {α : Type*} {l : List α} {a b : α} {i : ℕ} :
    (l ++ [a])[i]? = some b ↔ l[i]? = some b ∨ i = l.length ∧ a = b := by
  rcases Nat.lt_trichotomy i l.length with hi | rfl | hi
  · rw [List.getElem?_append_left hi]
    simp [Nat.ne_of_lt hi]
  · simp
  · rw [List.getElem?_eq_none (by rw [List.length_append]; exact hi), List.getElem?_eq_none hi.le]
    simp [Nat.ne_of_gt hi]

/-- The entries of a vector that is there before new ones are made. -/
theorem vector_append {h h' : Heap} {vecs : List (List (VertexPtr × ListPtr))}
    (hvecs : h'.vectors = h.vectors ++ vecs) {p : VectorPtr} (hp : p < h.vectors.length) :
    h'.vector p = h.vector p := by
  simp only [Heap.vector, hvecs, List.getD_eq_getElem?_getD, List.getElem?_append_left hp]

/-- The entries of a vector after one is put at the end of another, or of itself. -/
theorem vector_modify {h h' : Heap} {q : VectorPtr} {entry : VertexPtr × ListPtr}
    (hvecs : h'.vectors = h.vectors.modify q (· ++ [entry])) {p : VectorPtr} (hp : p < h.vectors.length) :
    h'.vector p = if q = p then h.vector p ++ [entry] else h.vector p := by
  simp only [Heap.vector, hvecs, List.getD_eq_getElem?_getD, List.getElem?_modify]
  by_cases hq : q = p
  · simp [hq, List.getElem?_eq_getElem hp]
  · simp [hq]

/-! ### What every run keeps -/

/-- The objects are in order: the counter counts the vertices, and nothing points to a vertex
that was never made. -/
structure Process.Sound (s : Process) : Prop where
  count : s.heap.count.toNat = s.heap.vertices.length % 65536
  entries : ∀ vec ∈ s.heap.vectors, ∀ entry ∈ vec, entry.1 < s.heap.vertices.length
  graphs : ∀ g ∈ s.graphs, g.graph < s.heap.vectors.length
  /-- Every call was made on a graph, and made a vertex with its coordinates. -/
  calls : ∀ c ∈ s.calls, c.graph < s.graphs.length ∧ s.heap.vertices[c.vertex]? = some ⟨c.x, c.y, c.z, c.id⟩
  /-- Different calls made different vertices. -/
  distinct : s.calls.Pairwise fun c c' => c.vertex ≠ c'.vertex

theorem Process.Sound.start : Process.start.Sound :=
  ⟨rfl, by simp [Process.start], by simp [Process.start], by simp [Process.start], List.Pairwise.nil⟩

/-- The vertex of a call is one of those made so far. -/
theorem Process.Sound.vertex_lt {s : Process} (hs : s.Sound) {c : Call} (hc : c ∈ s.calls) :
    c.vertex < s.heap.vertices.length := by
  obtain ⟨hlt, -⟩ := List.getElem?_eq_some_iff.mp (hs.calls c hc).2
  exact hlt

/-- The counter after one more vertex. -/
theorem Process.Sound.count_succ {s : Process} (hs : s.Sound) (v : Vertex) :
    (s.heap.count + 1).toNat = (s.heap.vertices ++ [v]).length % 65536 := by
  have hcount := hs.count
  rw [UInt16.toNat_add, List.length_append, List.length_singleton, hcount, UInt16.toNat_one]
  omega

/-- Every step keeps the objects in order. -/
theorem Process.Sound.step {s s' : Process} {e : Event} (hs : s.Sound) (h : step s e = some s') : s'.Sound := by
  rcases step_cases h with ⟨x, y, z, -, rfl⟩ | ⟨g, gr, x, y, z, -, hgr, rfl⟩ |
    ⟨-, hcalls, hcount, hvertices, ⟨vecs, hvecs, hold⟩, gs, hgs, hnew⟩
  · refine ⟨hs.count_succ _, fun vec hvec entry hentry => ?_, hs.graphs, fun c hc => ?_, hs.distinct⟩
    · simp only [Heap.newVertex, List.length_append, List.length_singleton]
      exact Nat.lt_succ_of_lt (hs.entries vec hvec entry hentry)
    · refine ⟨(hs.calls c hc).1, ?_⟩
      simp only [Heap.newVertex]
      rw [List.getElem?_append_left (hs.vertex_lt hc)]
      exact (hs.calls c hc).2
  · rw [Graph.addVertex_eq]
    refine ⟨hs.count_succ _, fun vec hvec entry hentry => ?_, fun g hg => ?_, fun c hc => ?_, ?_⟩
    · rw [List.length_append, List.length_singleton, Nat.lt_succ_iff]
      obtain ⟨i, hi⟩ := List.mem_iff_getElem?.mp hvec
      rw [List.getElem?_modify] at hi
      obtain ⟨old, hget, rfl⟩ := Option.map_eq_some_iff.mp hi
      have hmem := List.mem_of_getElem? hget
      split_ifs at hentry
      · rcases List.mem_append.mp hentry with hentry | hentry
        · exact (hs.entries old hmem entry hentry).le
        · exact (congrArg Prod.fst (List.mem_singleton.mp hentry)).le
      · exact (hs.entries old hmem entry hentry).le
    · rw [List.length_modify]
      exact hs.graphs g hg
    · rcases List.mem_append.mp hc with hc | hc
      · rw [List.getElem?_append_left (hs.vertex_lt hc)]
        exact hs.calls c hc
      · obtain rfl := List.mem_singleton.mp hc
        exact ⟨(List.getElem?_eq_some_iff.mp hgr).1, List.getElem?_concat_length⟩
    · refine List.pairwise_append.mpr ⟨hs.distinct, List.pairwise_singleton _ _, fun c hc c' hc' => ?_⟩
      obtain rfl := List.mem_singleton.mp hc'
      exact (hs.vertex_lt hc).ne
  · refine ⟨?_, fun vec hvec entry hentry => ?_, fun g hg => ?_, fun c hc => ?_, ?_⟩
    · rw [hcount, hvertices]
      exact hs.count
    · rw [hvertices]
      rw [hvecs] at hvec
      rcases List.mem_append.mp hvec with hvec | hvec
      · exact hs.entries vec hvec entry hentry
      · exact hold vec hvec entry hentry
    · rw [hgs] at hg
      rcases List.mem_append.mp hg with hg | hg
      · rw [hvecs, List.length_append]
        exact (hs.graphs g hg).trans_le (Nat.le_add_right _ _)
      · exact hnew g hg
    · rw [hcalls] at hc
      rw [hgs, hvertices, List.length_append]
      exact ⟨(hs.calls c hc).1.trans_le (Nat.le_add_right _ _), (hs.calls c hc).2⟩
    · rw [hcalls]
      exact hs.distinct

/-- **The objects are in order in every state of a run.** -/
theorem Process.Sound.of_run {es : List Event} {s : Process} (h : run ServerAI.step .start es = some s) : s.Sound :=
  run_history (P := fun _ s => s.Sound) Process.Sound.start (fun _ _ _ _ _ ih hstep => ih.step hstep) h

/-! ### When ids stand for their vertices -/

/-- The id that a call returned leads to the vertex it made. -/
def Process.Named (s : Process) (c : Call) : Prop :=
  ∃ gr adj, s.graphs[c.graph]? = some gr ∧ gr.at s.heap c.id = some (c.vertex, adj)

/-- Every id that `add_vertex` returned leads to the vertex that the call made, which has the
coordinates it was given, and different calls on a graph returned different ids. -/
def Process.IdsAddress (s : Process) : Prop :=
  (∀ c ∈ s.calls, ∃ gr v adj, s.graphs[c.graph]? = some gr ∧ gr.at s.heap c.id = some (v, adj) ∧ v = c.vertex ∧
      ∃ id, s.heap.vertices[v]? = some ⟨c.x, c.y, c.z, id⟩) ∧
    s.calls.Pairwise fun c c' => c.graph = c'.graph → c.id ≠ c'.id

/-- When `add_vertex` is called on a graph, it has as many entries as vertices were made in the
process, up to sixteen bits. -/
def Fits (s : Process) : Event → Prop
  | .addVertex g _ _ _ => ∀ gr ∈ s.graphs[g]?, (s.heap.vector gr.graph).length = s.heap.vertices.length % 65536
  | _ => True

/-- It is enough that the ids lead to the vertices: the coordinates are right in any case, and
one id cannot lead to two vertices. -/
theorem Process.Sound.idsAddress_iff_named {s : Process} (hs : s.Sound) :
    s.IdsAddress ↔ ∀ c ∈ s.calls, s.Named c := by
  constructor
  · rintro ⟨haddress, -⟩ c hc
    obtain ⟨gr, v, adj, hgr, hat, rfl, -⟩ := haddress c hc
    exact ⟨gr, adj, hgr, hat⟩
  · intro hnamed
    refine ⟨fun c hc => ?_, ?_⟩
    · obtain ⟨gr, adj, hgr, hat⟩ := hnamed c hc
      exact ⟨gr, c.vertex, adj, hgr, hat, rfl, c.id, (hs.calls c hc).2⟩
    · refine hs.distinct.imp_of_mem fun hc hc' hne hgraph hid => ?_
      obtain ⟨gr, adj, hgr, hat⟩ := hnamed _ hc
      obtain ⟨gr', adj', hgr', hat'⟩ := hnamed _ hc'
      rw [hgraph, hgr', Option.some.injEq] at hgr
      rw [hid, ← hgr, hat', Option.some.injEq, Prod.mk.injEq] at hat
      exact hne hat.1.symm

/-- A step leaves it as it was whether an id leads to its vertex. -/
theorem named_step {s s' : Process} {e : Event} (hs : s.Sound) (h : step s e = some s') {c : Call}
    (hc : c ∈ s.calls) : s'.Named c ↔ s.Named c := by
  have hlt := (hs.calls c hc).1
  rcases step_cases h with ⟨x, y, z, -, rfl⟩ | ⟨g, gr, x, y, z, -, hgr, rfl⟩ |
    ⟨-, -, -, -, ⟨vecs, hvecs, -⟩, gs, hgs, -⟩
  · exact Iff.rfl
  · refine exists_congr fun gr' => exists_congr fun adj => and_congr_right fun hgr' => ?_
    have hp := hs.graphs gr' (List.mem_of_getElem? hgr')
    simp only [Graph.at, Graph.addVertex_eq]
    rw [vector_modify rfl hp]
    split_ifs with hq
    · -- the entry that is added is another vertex's
      have hother : (s.heap.vertices.length, s.heap.lists.length) ≠ (c.vertex, adj) := by
        intro heq
        exact (hs.vertex_lt hc).ne' (Prod.mk.inj heq).1
      rw [getElem?_concat_eq_some_iff]
      exact or_iff_left fun h => hother h.2
    · rfl
  · refine exists_congr fun gr' => exists_congr fun adj => ?_
    rw [hgs, List.getElem?_append_left hlt]
    refine and_congr_right fun hgr' => ?_
    rw [Graph.at, Graph.at, vector_append hvecs (hs.graphs gr' (List.mem_of_getElem? hgr'))]

/-- The id that a call returns leads to its vertex if it fits. -/
theorem named_addVertex {s s' : Process} {g : ℕ} {gr : Graph} {x y z : Int32} (hs : s.Sound)
    (hgr : s.graphs[g]? = some gr)
    (hs' : s' = { s with heap := (gr.addVertex s.heap x y z).2.2
                         calls := s.calls ++ [⟨g, s.heap.vertices.length, x, y, z, s.heap.count⟩] }) :
    s'.Named ⟨g, s.heap.vertices.length, x, y, z, s.heap.count⟩ ↔ Fits s (.addVertex g x y z) := by
  have hmem := List.mem_of_getElem? hgr
  have hvec : s'.heap.vector gr.graph =
      s.heap.vector gr.graph ++ [(s.heap.vertices.length, s.heap.lists.length)] := by
    rw [hs', Graph.addVertex_eq, vector_modify rfl (hs.graphs gr hmem), if_pos rfl]
  have hfits : Fits s (.addVertex g x y z) ↔ (s.heap.vector gr.graph).length = s.heap.count.toNat := by
    simp [Fits, hgr, hs.count]
  have hnamed : s'.Named ⟨g, s.heap.vertices.length, x, y, z, s.heap.count⟩ ↔
      ∃ adj, (s'.heap.vector gr.graph)[s.heap.count.toNat]? = some (s.heap.vertices.length, adj) := by
    rw [Process.Named, hs']
    simp [hgr, Graph.at]
  rw [hnamed, hfits, hvec]
  constructor
  · rintro ⟨adj, hget⟩
    rcases getElem?_concat_eq_some_iff.mp hget with hget | ⟨hlen, -⟩
    · -- an entry that was there before is an older vertex's
      obtain ⟨vec, hvec, hentry⟩ : ∃ vec ∈ s.heap.vectors, (s.heap.vertices.length, adj) ∈ vec := by
        refine ⟨s.heap.vector gr.graph, ?_, List.mem_of_getElem? hget⟩
        rw [Heap.vector, List.getD_eq_getElem _ _ (hs.graphs gr hmem)]
        exact List.getElem_mem _
      exact absurd (hs.entries vec hvec _ hentry) (Nat.lt_irrefl _)
    · exact hlen.symm
  · intro hlen
    exact ⟨s.heap.lists.length, by rw [← hlen, List.getElem?_concat_length]⟩

/-- **When ids stand for their vertices**: when every call of `add_vertex` fits. -/
theorem idsAddress_iff {es : List Event} {s : Process} (h : run step .start es = some s) :
    s.IdsAddress ↔ EachStep step Fits .start es := by
  rw [(Process.Sound.of_run h).idsAddress_iff_named]
  refine run_history (P := fun es s => (∀ c ∈ s.calls, s.Named c) ↔ EachStep step Fits .start es) ?_ ?_ h
  · exact iff_of_true (by simp [Process.start]) eachStep_nil
  · intro es e s s' hrun ih hstep
    have hs := Process.Sound.of_run hrun
    have hold : (∀ c ∈ s.calls, s'.Named c) ↔ ∀ c ∈ s.calls, s.Named c :=
      forall₂_congr fun c hc => named_step hs hstep hc
    rw [eachStep_concat hrun, ← ih, ← hold]
    have hcalls : (∀ c ∈ s'.calls, s'.Named c) ↔ (∀ c ∈ s.calls, s'.Named c) ∧ Fits s e := by
      rcases step_cases hstep with ⟨x, y, z, rfl, rfl⟩ | ⟨g, gr, x, y, z, rfl, hgr, rfl⟩ | ⟨hno, hcalls, -⟩
      · simp [Fits]
      · rw [← named_addVertex hs hgr rfl]
        simp only [List.forall_mem_append, List.forall_mem_singleton]
      · have hfits : Fits s e := by
          cases e with
          | addVertex g x y z => exact absurd rfl (hno g x y z)
          | newVertex | newVector | newGraph | newGraphOver | addEdge => trivial
        rw [hcalls]
        exact (and_iff_left hfits).symm
    exact hcalls

/-- A graph that has the first vertices of its process. -/
theorem idsAddress_of_first_vertices :
    ∃ s, run step .start [.newGraph, .addVertex 0 1 2 3, .addVertex 0 4 5 6] = some s ∧
      (s.IdsAddress ↔ EachStep step Fits .start [.newGraph, .addVertex 0 1 2 3, .addVertex 0 4 5 6]) :=
  ⟨_, rfl, idsAddress_iff rfl⟩

/-- After a vertex of its own, as `main` makes one, a program adds `(1, 2, 3)` to a graph. The id
that it gets, `1`, is none of the graph's. -/
theorem stray_vertex_shifts_ids :
    ∃ s, run step .start [.newVertex 100 100 100, .newGraph, .addVertex 0 1 2 3] = some s ∧ ¬ s.IdsAddress := by
  refine ⟨_, rfl, fun h => ?_⟩
  obtain ⟨gr, v, adj, hgr, hat, -⟩ := h.1 _ (List.mem_singleton_self _)
  cases hgr
  cases hat

end Inferno.ServerAI
