import Inferno.ServerAI.AlFile

/-!
# Adjacency lists

What `add_vertex` and `add_edge` make of the adjacency lists of a graph. `add_edge` looks both of
its ids up twice before it changes anything, and `at` throws if there is no such position; so here
it is also written as the calls it makes, which leave the objects as they are when one of them
throws (`Graph.addEdgeCalls`).

No two entries of a process have one list (`Heap.ListsApart`): `add_vertex` makes one, and so
does a program for each entry of a vector of its own. So an edge of one graph does not show in
another, unless they are over one vector.

## What is proved

* `undirected_of_run` — a graph built with `Graph()` is undirected, whatever a program does with
  it and with others, and an `add_edge` that throws has changed nothing.
-/

namespace Inferno.ServerAI

open Machine

/-- The contents of a list. -/
def Heap.list (h : Heap) (l : ListPtr) : List VertexPtr := h.lists.getD l []

/-- The adjacency list of a position. -/
def Graph.adjacency (g : Graph) (h : Heap) (p : g.Position h) : List VertexPtr := h.list ((h.vector g.graph).get p).2

/-- Each of two positions has the other's vertex in its list as often as the other has its own, and
there are only vertices of the graph in the lists. -/
structure Graph.Undirected (g : Graph) (h : Heap) : Prop where
  symmetric : ∀ i j : g.Position h, (g.adjacency h i).count (g.vertex h j) = (g.adjacency h j).count (g.vertex h i)
  entries : ∀ i : g.Position h, ∀ v ∈ g.adjacency h i, ∃ j : g.Position h, g.vertex h j = v

/-! ### The calls of `add_edge` -/

/-- `std::out_of_range`. -/
inductive OutOfRange where
  | outOfRange
  deriving DecidableEq

/-- `graph->at(id)`, which throws. -/
def Graph.atCall (g : Graph) (id : UInt16) : EStateM OutOfRange Heap (VertexPtr × ListPtr) := do
  match g.at (← get) id with
  | some entry => return entry
  | none => throw .outOfRange

/-- `Graph::add_edge`, call after call. -/
def Graph.addEdgeCalls (g : Graph) (id₀ id₁ : UInt16) : EStateM OutOfRange Heap Unit := do
  let v₀ := (← g.atCall id₀).1
  let v₁ := (← g.atCall id₁).1
  let adj₀ := (← g.atCall id₀).2
  let adj₁ := (← g.atCall id₁).2
  modify (Heap.pushVertex · adj₀ v₁)
  modify (Heap.pushVertex · adj₁ v₀)

/-- What a call of `at` gives. -/
theorem Graph.run_atCall (g : Graph) (h : Heap) (id : UInt16) :
    (g.atCall id).run h = match g.at h id with
      | some entry => .ok entry h
      | none => .error .outOfRange h := by
  simp only [Graph.atCall, EStateM.run_bind, EStateM.run_get]
  cases g.at h id <;> rfl

/-- **What the calls come to**: the edge, or an exception and the objects as they were. -/
theorem Graph.run_addEdgeCalls (g : Graph) (h : Heap) (id₀ id₁ : UInt16) :
    (g.addEdgeCalls id₀ id₁).run h = match g.addEdge h id₀ id₁ with
      | some h' => .ok () h'
      | none => .error .outOfRange h := by
  simp only [Graph.addEdgeCalls, EStateM.run_bind, Graph.run_atCall, Graph.addEdge]
  cases h₀ : g.at h id₀ with
  | none => simp
  | some e₀ =>
    cases h₁ : g.at h id₁ with
    | none => simp [h₁]
    | some e₁ => simp [h₀, h₁]

/-- What a step does to the objects is what the calls leave. -/
theorem Graph.addEdge_getD (g : Graph) (h : Heap) (id₀ id₁ : UInt16) :
    (g.addEdge h id₀ id₁).getD h = match (g.addEdgeCalls id₀ id₁).run h with
      | .ok _ h' => h'
      | .error _ h' => h' := by
  rw [Graph.run_addEdgeCalls]
  cases g.addEdge h id₀ id₁ <;> rfl

/-- **What an edge changes**: the lists of its two positions. -/
theorem Graph.addEdge_eq_some_iff {g : Graph} {h h' : Heap} {id₀ id₁ : UInt16} :
    g.addEdge h id₀ id₁ = some h' ↔ ∃ e₀ e₁, g.at h id₀ = some e₀ ∧ g.at h id₁ = some e₁ ∧
      h' = (h.pushVertex e₀.2 e₁.1).pushVertex e₁.2 e₀.1 := by
  simp only [Graph.addEdge, Option.bind_eq_bind, Option.bind_eq_some_iff, Option.pure_def, Option.some.injEq]
  constructor
  · rintro ⟨e₀, h₀, e₁, h₁, heq⟩
    exact ⟨e₀, e₁, h₀, h₁, heq.symm⟩
  · rintro ⟨e₀, e₁, h₀, h₁, heq⟩
    exact ⟨e₀, h₀, e₁, h₁, heq.symm⟩

/-- A call with an id behind the last position throws. -/
theorem Graph.addEdgeCalls_of_behind (g : Graph) (h : Heap) {id₀ id₁ : UInt16}
    (hid : (h.vector g.graph).length ≤ id₀.toNat ∨ (h.vector g.graph).length ≤ id₁.toNat) :
    (g.addEdgeCalls id₀ id₁).run h = .error .outOfRange h := by
  have hnone : g.addEdge h id₀ id₁ = none := by
    rcases hid with hid | hid
    · have h₀ : g.at h id₀ = none := List.getElem?_eq_none hid
      simp [Graph.addEdge, h₀]
    · have h₁ : g.at h id₁ = none := List.getElem?_eq_none hid
      cases h₀ : g.at h id₀ <;> simp [Graph.addEdge, h₀, h₁]
  rw [Graph.run_addEdgeCalls, hnone]

/-! ### The objects after a step -/

/-- **What a step does to the objects**: nothing, a vertex, a vector, or a change to a graph that the process has. -/
theorem heap_cases {s s' : Process} {e : Event} (h : step s e = some s') :
    s'.heap = s.heap ∨ (∃ x y z, s'.heap = (s.heap.newVertex x y z).2) ∨
      (∃ entries, s'.heap = ((s.heap.newEntries entries).2.newVector (s.heap.newEntries entries).1).2) ∨
      ∃ g ∈ s.graphs, (∃ x y z, s'.heap = (g.addVertex s.heap x y z).2.2) ∨
        ∃ id₀ id₁, g.addEdge s.heap id₀ id₁ = some s'.heap := by
  cases e with
  | newVertex x y z =>
    cases h
    exact Or.inr (Or.inl ⟨x, y, z, rfl⟩)
  | newVector entries =>
    simp only [ServerAI.step] at h
    split_ifs at h
    cases h
    exact Or.inr (Or.inr (Or.inl ⟨entries, rfl⟩))
  | newGraph =>
    cases h
    exact Or.inr (Or.inr (Or.inl ⟨[], rfl⟩))
  | newGraphOver p =>
    simp only [ServerAI.step] at h
    split_ifs at h
    cases h
    exact Or.inl rfl
  | addVertex g x y z =>
    simp only [ServerAI.step, Option.bind_eq_bind, Option.bind_eq_some_iff] at h
    obtain ⟨gr, hgr, h⟩ := h
    cases h
    exact Or.inr (Or.inr (Or.inr ⟨gr, List.mem_of_getElem? hgr, Or.inl ⟨x, y, z, rfl⟩⟩))
  | addEdge g id₀ id₁ =>
    simp only [ServerAI.step, Option.bind_eq_bind, Option.bind_eq_some_iff] at h
    obtain ⟨gr, hgr, h⟩ := h
    cases h
    cases hadd : gr.addEdge s.heap id₀ id₁ with
    | none => exact Or.inl rfl
    | some h' => exact Or.inr (Or.inr (Or.inr ⟨gr, List.mem_of_getElem? hgr, Or.inr ⟨id₀, id₁, hadd⟩⟩))

/-! ### No list is shared -/

/-- What is at a place of a vector. -/
def Heap.Entry (h : Heap) (p : VectorPtr) (i : ℕ) (e : VertexPtr × ListPtr) : Prop := (h.vector p)[i]? = some e

/-- The entries of a process with one more vector. -/
theorem entry_concat {h h' : Heap} {vec : List (VertexPtr × ListPtr)} (hvecs : h'.vectors = h.vectors ++ [vec])
    {p : VectorPtr} {i : ℕ} {e : VertexPtr × ListPtr} :
    h'.Entry p i e ↔ h.Entry p i e ∨ p = h.vectors.length ∧ vec[i]? = some e := by
  rcases Nat.lt_trichotomy p h.vectors.length with hp | rfl | hp
  · rw [Heap.Entry, vector_append hvecs hp]
    simp [Heap.Entry, hp.ne]
  · simp [Heap.Entry, Heap.vector, hvecs]
  · have hnone : (h.vectors ++ [vec])[p]? = none := List.getElem?_eq_none (by simpa using Nat.succ_le_of_lt hp)
    simp [Heap.Entry, Heap.vector, hvecs, hp.ne', List.getElem?_eq_none hp.le, hnone]

/-- The entries of a process with one more entry at the end of a vector. -/
theorem entry_push {h h' : Heap} {q : VectorPtr} {entry : VertexPtr × ListPtr}
    (hvecs : h'.vectors = h.vectors.modify q (· ++ [entry])) (hq : q < h.vectors.length)
    {p : VectorPtr} {i : ℕ} {e : VertexPtr × ListPtr} :
    h'.Entry p i e ↔ h.Entry p i e ∨ p = q ∧ i = (h.vector q).length ∧ e = entry := by
  by_cases hp : p < h.vectors.length
  · rw [Heap.Entry, vector_modify hvecs hp]
    split_ifs with hqp
    · subst hqp
      rw [getElem?_concat_eq_some_iff]
      simp [Heap.Entry, eq_comm]
    · simp [Heap.Entry, Ne.symm hqp]
  · have hne : p ≠ q := fun heq => hp (heq ▸ hq)
    have hnone : (h.vectors.modify q (· ++ [entry]))[p]? = none :=
      List.getElem?_eq_none (by simpa using not_lt.mp hp)
    simp [Heap.Entry, Heap.vector, hvecs, hne, List.getElem?_eq_none (not_lt.mp hp), hnone]

/-- The entries of a process, each in its place, have different lists. -/
structure Heap.ListsApart (h : Heap) : Prop where
  lt : ∀ {p i e}, h.Entry p i e → e.2 < h.lists.length
  inj : ∀ {p q i j e e'}, h.Entry p i e → h.Entry q j e' → e.2 = e'.2 → p = q ∧ i = j

theorem Heap.ListsApart.start : Process.start.heap.ListsApart :=
  ⟨by simp [Process.start, Heap.Entry, Heap.vector], by simp [Process.start, Heap.Entry, Heap.vector]⟩

/-- They do after a step that gives new entries new lists. -/
theorem Heap.ListsApart.grow {h h' : Heap} (ha : h.ListsApart) (new : VectorPtr → ℕ → VertexPtr × ListPtr → Prop)
    (hentry : ∀ {p i e}, h'.Entry p i e → h.Entry p i e ∨ new p i e) (hlists : h.lists.length ≤ h'.lists.length)
    (hnew : ∀ {p i e}, new p i e → h.lists.length ≤ e.2 ∧ e.2 < h'.lists.length)
    (hinj : ∀ {p q i j e e'}, new p i e → new q j e' → e.2 = e'.2 → p = q ∧ i = j) : h'.ListsApart := by
  constructor
  · intro p i e he
    rcases hentry he with he | he
    · exact (ha.lt he).trans_le hlists
    · exact (hnew he).2
  · intro p q i j e e' he he' heq
    rcases hentry he with he | he
    · rcases hentry he' with he' | he'
      · exact ha.inj he he' heq
      · exact absurd heq ((ha.lt he).trans_le (hnew he').1).ne
    · rcases hentry he' with he' | he'
      · exact absurd heq ((ha.lt he').trans_le (hnew he).1).ne'
      · exact hinj he he' heq

/-- The entries that a program makes of its own have lists that are numbered on from the last. -/
theorem Heap.newEntries_lists (h : Heap) (entries : List (VertexPtr × List VertexPtr)) :
    (∀ i e, (h.newEntries entries).1[i]? = some e → e.2 = h.lists.length + i ∧ i < entries.length) ∧
      (h.newEntries entries).2.lists = h.lists ++ entries.map Prod.snd := by
  induction entries generalizing h with
  | nil => simp [Heap.newEntries]
  | cons entry entries ih =>
    obtain ⟨v, contents⟩ := entry
    obtain ⟨hlist, hlists⟩ := ih (h.newList contents).2
    have hlength : (h.newList contents).2.lists.length = h.lists.length + 1 := by simp [Heap.newList]
    refine ⟨fun i e he => ?_, ?_⟩
    · cases i with
      | zero =>
        simp only [Heap.newEntries, List.getElem?_cons_zero, Option.some.injEq] at he
        subst he
        exact ⟨rfl, Nat.succ_pos _⟩
      | succ i =>
        obtain ⟨hi, hlt⟩ := hlist i e he
        rw [hi, hlength, List.length_cons]
        omega
    · simp only [Heap.newEntries]
      rw [hlists]
      simp [Heap.newList]

/-- The objects after a program has made a vector of its own. -/
theorem Heap.newVector_newEntries (h : Heap) (entries : List (VertexPtr × List VertexPtr)) :
    ((h.newEntries entries).2.newVector (h.newEntries entries).1).2.vectors = h.vectors ++ [(h.newEntries entries).1] ∧
      ((h.newEntries entries).2.newVector (h.newEntries entries).1).2.lists = h.lists ++ entries.map Prod.snd := by
  obtain ⟨-, hlists⟩ := h.newEntries_lists entries
  obtain ⟨-, lists, hheap⟩ := h.newEntries_spec entries
  refine ⟨?_, hlists⟩
  simp only [Heap.newVector, hheap]

/-- Different entries have different lists. -/
theorem Heap.ListsApart.snd_eq_iff {h : Heap} (ha : h.ListsApart) {p q : VectorPtr} {i j : ℕ}
    {e e' : VertexPtr × ListPtr} (he : h.Entry p i e) (he' : h.Entry q j e') : e.2 = e'.2 ↔ p = q ∧ i = j := by
  refine ⟨fun heq => ha.inj he he' heq, ?_⟩
  rintro ⟨rfl, rfl⟩
  rw [Option.some.inj (he.symm.trans he')]

/-- A vector that a program makes of its own has new lists. -/
theorem Heap.ListsApart.newEntries {h : Heap} (ha : h.ListsApart) (entries : List (VertexPtr × List VertexPtr)) :
    ((h.newEntries entries).2.newVector (h.newEntries entries).1).2.ListsApart := by
  obtain ⟨hlist, -⟩ := h.newEntries_lists entries
  obtain ⟨hvecs, hlists⟩ := h.newVector_newEntries entries
  have hlength : ((h.newEntries entries).2.newVector (h.newEntries entries).1).2.lists.length =
      h.lists.length + entries.length := by rw [hlists, List.length_append, List.length_map]
  refine ha.grow (fun p i e => p = h.vectors.length ∧ (h.newEntries entries).1[i]? = some e)
    (entry_concat hvecs).mp ?_ ?_ ?_
  · rw [hlength]
    exact Nat.le_add_right _ _
  · rintro p i e ⟨-, he⟩
    obtain ⟨hi, hlt⟩ := hlist i e he
    rw [hlength, hi]
    exact ⟨Nat.le_add_right _ _, Nat.add_lt_add_left hlt _⟩
  · rintro p q i j e e' ⟨rfl, he⟩ ⟨rfl, he'⟩ heq
    rw [(hlist i e he).1, (hlist j e' he').1] at heq
    exact ⟨rfl, Nat.add_left_cancel heq⟩

/-- `add_vertex` makes a list for its vertex. -/
theorem Heap.ListsApart.addVertex {h : Heap} (ha : h.ListsApart) {g : Graph} (hg : g.graph < h.vectors.length)
    (x y z : Int32) : (g.addVertex h x y z).2.2.ListsApart := by
  rw [Graph.addVertex_eq]
  refine ha.grow (fun p i e => p = g.graph ∧ i = (h.vector g.graph).length ∧ e = (h.vertices.length, h.lists.length))
    (entry_push rfl hg).mp ?_ ?_ ?_
  · simp
  · rintro p i e ⟨-, -, rfl⟩
    simp
  · rintro p q i j e e' ⟨rfl, rfl, -⟩ ⟨rfl, rfl, -⟩ -
    exact ⟨rfl, rfl⟩

/-- `add_edge` makes none. -/
theorem Heap.ListsApart.addEdge {h h' : Heap} (ha : h.ListsApart) {g : Graph} {id₀ id₁ : UInt16}
    (hadd : g.addEdge h id₀ id₁ = some h') : h'.ListsApart := by
  obtain ⟨e₀, e₁, -, -, rfl⟩ := Graph.addEdge_eq_some_iff.mp hadd
  exact ha.grow (fun _ _ _ => False) Or.inl (by simp [Heap.pushVertex]) False.elim False.elim

/-- **Every step keeps the lists apart.** -/
theorem Heap.ListsApart.step {s s' : Process} {e : Event} (ha : s.heap.ListsApart) (hs : s.Sound)
    (h : step s e = some s') : s'.heap.ListsApart := by
  rcases heap_cases h with heq | ⟨x, y, z, heq⟩ | ⟨entries, heq⟩ | ⟨g, hg, ⟨x, y, z, heq⟩ | ⟨id₀, id₁, hadd⟩⟩
  · rw [heq]
    exact ha
  · rw [heq]
    exact ⟨ha.lt, ha.inj⟩
  · rw [heq]
    exact ha.newEntries entries
  · rw [heq]
    exact ha.addVertex (hs.graphs g hg) x y z
  · exact ha.addEdge hadd

/-! ### Undirected vectors -/

/-- A vector whose entries have different vertices, each in the list of another as often as the other
way round. -/
structure Heap.Mutual (h : Heap) (p : VectorPtr) : Prop where
  lt : p < h.vectors.length
  distinct : ∀ {i j e e'}, h.Entry p i e → h.Entry p j e' → e.1 = e'.1 → i = j
  symmetric : ∀ {i j e e'}, h.Entry p i e → h.Entry p j e' → (h.list e.2).count e'.1 = (h.list e'.2).count e.1
  entries : ∀ {i e}, h.Entry p i e → ∀ v ∈ h.list e.2, ∃ j e', h.Entry p j e' ∧ e'.1 = v

/-- Different entries have different vertices. -/
theorem Heap.Mutual.fst_eq_iff {h : Heap} {p : VectorPtr} (hb : h.Mutual p) {i j : ℕ} {e e' : VertexPtr × ListPtr}
    (he : h.Entry p i e) (he' : h.Entry p j e') : e.1 = e'.1 ↔ i = j := by
  refine ⟨fun heq => hb.distinct he he' heq, ?_⟩
  rintro rfl
  rw [Option.some.inj (he.symm.trans he')]

/-- It stays one if its entries and their lists do not change. -/
theorem Heap.Mutual.frame {h h' : Heap} {p : VectorPtr} (hb : h.Mutual p) (hlt : p < h'.vectors.length)
    (hvec : h'.vector p = h.vector p) (hlists : ∀ {i e}, h.Entry p i e → h'.list e.2 = h.list e.2) : h'.Mutual p := by
  have hentry : ∀ {i e}, h'.Entry p i e ↔ h.Entry p i e := by
    intro i e
    rw [Heap.Entry, Heap.Entry, hvec]
  refine ⟨hlt, fun he he' => ?_, fun he he' => ?_, fun he v hv => ?_⟩
  · exact hb.distinct (hentry.mp he) (hentry.mp he')
  · rw [hlists (hentry.mp he), hlists (hentry.mp he')]
    exact hb.symmetric (hentry.mp he) (hentry.mp he')
  · rw [hlists (hentry.mp he)] at hv
    obtain ⟨j, e', he', rfl⟩ := hb.entries (hentry.mp he) v hv
    exact ⟨j, e', hentry.mpr he', rfl⟩

/-- New lists leave the old ones alone. -/
theorem list_append {h h' : Heap} {lists : List (List VertexPtr)} (hlists : h'.lists = h.lists ++ lists) {l : ListPtr}
    (hl : l < h.lists.length) : h'.list l = h.list l := by
  simp only [Heap.list, hlists, List.getD_eq_getElem?_getD, List.getElem?_append_left hl]

/-- A list after `push_back` on it, or on another. -/
theorem Heap.list_pushVertex (h : Heap) {l' : ListPtr} (hl' : l' < h.lists.length) (v : VertexPtr) (l : ListPtr) :
    (h.pushVertex l' v).list l = h.list l ++ if l' = l then [v] else [] := by
  simp only [Heap.list, Heap.pushVertex, List.getD_eq_getElem?_getD, List.getElem?_modify]
  split_ifs with heq
  · subst heq
    simp [List.getElem?_eq_getElem hl']
  · simp

/-- A list after the two `push_back`s of an edge. -/
theorem Heap.ListsApart.list_addEdge {h : Heap} (ha : h.ListsApart) {p : VectorPtr} {i j : ℕ}
    {e₀ e₁ : VertexPtr × ListPtr} (h₀ : h.Entry p i e₀) (h₁ : h.Entry p j e₁) (l : ListPtr) :
    ((h.pushVertex e₀.2 e₁.1).pushVertex e₁.2 e₀.1).list l =
      h.list l ++ (if e₀.2 = l then [e₁.1] else []) ++ if e₁.2 = l then [e₀.1] else [] := by
  have hlt : e₁.2 < (h.pushVertex e₀.2 e₁.1).lists.length := by
    simpa [Heap.pushVertex] using ha.lt h₁
  rw [Heap.list_pushVertex _ hlt, Heap.list_pushVertex _ (ha.lt h₀)]

/-- What an entry points to was made. -/
theorem Process.Sound.entry_lt {s : Process} (hs : s.Sound) {p : VectorPtr} {i : ℕ} {e : VertexPtr × ListPtr}
    (he : s.heap.Entry p i e) : e.1 < s.heap.vertices.length := by
  have hmem := List.mem_of_getElem? he
  by_cases hp : p < s.heap.vectors.length
  · rw [Heap.vector, List.getD_eq_getElem _ _ hp] at hmem
    exact hs.entries _ (List.getElem_mem hp) e hmem
  · rw [Heap.vector, List.getD_eq_default _ _ (not_lt.mp hp)] at hmem
    cases hmem

/-- **`add_vertex` keeps a graph undirected**: nothing has the new vertex in its list yet, and its
own is empty. -/
theorem Heap.Mutual.addVertex {s : Process} {g : Graph} {x y z : Int32} (hb : s.heap.Mutual g.graph) (hs : s.Sound)
    (ha : s.heap.ListsApart) : (g.addVertex s.heap x y z).2.2.Mutual g.graph := by
  rw [Graph.addVertex_eq]
  generalize hheap : Heap.mk _ _ _ _ = h'
  have hvecs : h'.vectors = s.heap.vectors.modify g.graph
      (· ++ [(s.heap.vertices.length, s.heap.lists.length)]) := by rw [← hheap]
  have hlists : h'.lists = s.heap.lists ++ [[]] := by rw [← hheap]
  have hentry : ∀ {i e}, h'.Entry g.graph i e ↔ s.heap.Entry g.graph i e ∨
      i = (s.heap.vector g.graph).length ∧ e = (s.heap.vertices.length, s.heap.lists.length) := by
    intro i e
    simp [entry_push hvecs hb.lt]
  have hold : ∀ {i e}, s.heap.Entry g.graph i e → h'.list e.2 = s.heap.list e.2 :=
    fun he => list_append hlists (ha.lt he)
  have hnew : h'.list s.heap.lists.length = [] := by simp [Heap.list, hlists]
  -- no list has the new vertex, for the vertices in lists are the graph's
  have hcount : ∀ {i e}, s.heap.Entry g.graph i e → (s.heap.list e.2).count s.heap.vertices.length = 0 := by
    intro i e he
    refine List.count_eq_zero.mpr fun hmem => ?_
    obtain ⟨j, e', he', hfst⟩ := hb.entries he _ hmem
    exact absurd (hs.entry_lt he') (by rw [hfst]; exact Nat.lt_irrefl _)
  refine ⟨?_, fun he he' heq => ?_, fun he he' => ?_, fun he v hv => ?_⟩
  · rw [hvecs, List.length_modify]
    exact hb.lt
  · rcases hentry.mp he with he | ⟨rfl, rfl⟩
    · rcases hentry.mp he' with he' | ⟨rfl, rfl⟩
      · exact hb.distinct he he' heq
      · exact absurd heq (hs.entry_lt he).ne
    · rcases hentry.mp he' with he' | ⟨rfl, rfl⟩
      · exact absurd heq.symm (hs.entry_lt he').ne
      · rfl
  · rcases hentry.mp he with he | ⟨rfl, rfl⟩
    · rcases hentry.mp he' with he' | ⟨rfl, rfl⟩
      · rw [hold he, hold he']
        exact hb.symmetric he he'
      · rw [hold he, hnew, hcount he, List.count_nil]
    · rcases hentry.mp he' with he' | ⟨rfl, rfl⟩
      · rw [hold he', hnew, hcount he', List.count_nil]
      · rfl
  · rcases hentry.mp he with he | ⟨rfl, rfl⟩
    · rw [hold he] at hv
      obtain ⟨j, e', he', rfl⟩ := hb.entries he v hv
      exact ⟨j, e', hentry.mpr (Or.inl he'), rfl⟩
    · rw [hnew] at hv
      cases hv

/-- How often a vertex is in a list of one vertex, or of none. -/
theorem count_ite_singleton (c : Prop) [Decidable c] (v w : VertexPtr) :
    (if c then [v] else []).count w = if c ∧ v = w then 1 else 0 := by
  by_cases hc : c
  · by_cases hv : v = w <;> simp [hc, hv]
  · simp [hc]

/-- **`add_edge` keeps a graph undirected**: the two `push_back`s add the same to both sides, even if
they are on one list. -/
theorem Heap.Mutual.addEdge {h h' : Heap} {g : Graph} {id₀ id₁ : UInt16} (hb : h.Mutual g.graph) (ha : h.ListsApart)
    (hadd : g.addEdge h id₀ id₁ = some h') : h'.Mutual g.graph := by
  obtain ⟨e₀, e₁, h₀, h₁, rfl⟩ := Graph.addEdge_eq_some_iff.mp hadd
  have h₀ : h.Entry g.graph id₀.toNat e₀ := h₀
  have h₁ : h.Entry g.graph id₁.toNat e₁ := h₁
  refine ⟨hb.lt, hb.distinct, fun {i j e e'} he he' => ?_, fun he v hv => ?_⟩
  · have he : h.Entry g.graph i e := he
    have he' : h.Entry g.graph j e' := he'
    rw [ha.list_addEdge h₀ h₁, ha.list_addEdge h₀ h₁, List.count_append, List.count_append, List.count_append,
      List.count_append, hb.symmetric he he', Nat.add_right_comm]
    -- an entry is known by its list, and in this vector by its vertex
    simp only [count_ite_singleton, ha.snd_eq_iff h₀ he, ha.snd_eq_iff h₁ he, ha.snd_eq_iff h₀ he',
      ha.snd_eq_iff h₁ he', hb.fst_eq_iff h₀ he, hb.fst_eq_iff h₁ he, hb.fst_eq_iff h₀ he', hb.fst_eq_iff h₁ he',
      true_and, and_comm]
  · rw [ha.list_addEdge h₀ h₁, List.mem_append, List.mem_append] at hv
    rcases hv with (hv | hv) | hv
    · exact hb.entries he v hv
    · split_ifs at hv
      · exact ⟨_, e₁, h₁, (List.mem_singleton.mp hv).symm⟩
      · cases hv
    · split_ifs at hv
      · exact ⟨_, e₀, h₀, (List.mem_singleton.mp hv).symm⟩
      · cases hv

/-- An edge of a graph over another vector leaves it alone, for no list is shared. -/
theorem Heap.Mutual.addEdge_elsewhere {h h' : Heap} {p : VectorPtr} {g : Graph} {id₀ id₁ : UInt16} (hb : h.Mutual p)
    (ha : h.ListsApart) (hadd : g.addEdge h id₀ id₁ = some h') (hp : g.graph ≠ p) : h'.Mutual p := by
  obtain ⟨e₀, e₁, h₀, h₁, rfl⟩ := Graph.addEdge_eq_some_iff.mp hadd
  have h₀ : h.Entry g.graph id₀.toNat e₀ := h₀
  have h₁ : h.Entry g.graph id₁.toNat e₁ := h₁
  refine hb.frame hb.lt rfl fun he => ?_
  rw [ha.list_addEdge h₀ h₁, if_neg fun heq => hp (ha.inj h₀ he heq).1, if_neg fun heq => hp (ha.inj h₁ he heq).1,
    List.append_nil, List.append_nil]

/-- A vertex of a graph over another vector leaves it alone. -/
theorem Heap.Mutual.addVertex_elsewhere {h : Heap} {p : VectorPtr} {g : Graph} (hb : h.Mutual p) (ha : h.ListsApart)
    (hp : g.graph ≠ p) (x y z : Int32) : (g.addVertex h x y z).2.2.Mutual p := by
  rw [Graph.addVertex_eq]
  refine hb.frame ?_ ?_ fun he => list_append rfl (ha.lt he)
  · rw [List.length_modify]
    exact hb.lt
  · rw [vector_modify rfl hb.lt, if_neg hp]

/-- So does a new vector. -/
theorem Heap.Mutual.newEntries {h : Heap} {p : VectorPtr} (hb : h.Mutual p) (ha : h.ListsApart)
    (entries : List (VertexPtr × List VertexPtr)) :
    ((h.newEntries entries).2.newVector (h.newEntries entries).1).2.Mutual p := by
  obtain ⟨hvecs, hlists⟩ := h.newVector_newEntries entries
  refine hb.frame ?_ (vector_append hvecs hb.lt) fun he => list_append hlists (ha.lt he)
  rw [hvecs, List.length_append]
  exact hb.lt.trans_le (Nat.le_add_right _ _)

/-- **Every step keeps a graph undirected**, on whichever graph it is. -/
theorem Heap.Mutual.step {s s' : Process} {e : Event} {p : VectorPtr} (hb : s.heap.Mutual p) (hs : s.Sound)
    (ha : s.heap.ListsApart) (h : step s e = some s') : s'.heap.Mutual p := by
  rcases heap_cases h with heq | ⟨x, y, z, heq⟩ | ⟨entries, heq⟩ | ⟨g, hg, ⟨x, y, z, heq⟩ | ⟨id₀, id₁, hadd⟩⟩
  · rw [heq]
    exact hb
  · rw [heq]
    exact hb.frame hb.lt rfl fun _ => rfl
  · rw [heq]
    exact hb.newEntries ha entries
  · rw [heq]
    by_cases hp : g.graph = p
    · subst hp
      exact hb.addVertex hs ha
    · exact hb.addVertex_elsewhere ha hp x y z
  · by_cases hp : g.graph = p
    · subst hp
      exact hb.addEdge ha hadd
    · exact hb.addEdge_elsewhere ha hadd hp

/-! ### Graphs -/

/-- A graph is undirected if its vector is. -/
theorem Heap.Mutual.undirected {h : Heap} {g : Graph} (hb : h.Mutual g.graph) : g.Undirected h := by
  have hentry : ∀ i : g.Position h, h.Entry g.graph i ((h.vector g.graph).get i) :=
    fun i => List.getElem?_eq_getElem i.isLt
  refine ⟨fun i j => hb.symmetric (hentry i) (hentry j), fun i v hv => ?_⟩
  obtain ⟨j, e, he, rfl⟩ := hb.entries (hentry i) v hv
  obtain ⟨hj, hget⟩ := List.getElem?_eq_some_iff.mp he
  exact ⟨⟨j, hj⟩, congrArg Prod.fst hget⟩

/-- Graphs keep their numbers. -/
theorem graphs_step {s s' : Process} {e : Event} (h : step s e = some s') {n : ℕ} {g : Graph}
    (hg : s.graphs[n]? = some g) : s'.graphs[n]? = some g := by
  rcases step_cases h with ⟨x, y, z, -, rfl⟩ | ⟨_, gr, x, y, z, -, -, rfl⟩ | ⟨-, -, -, -, -, gs, hgs, -⟩
  · exact hg
  · exact hg
  · rw [hgs, List.getElem?_append_left (List.getElem?_eq_some_iff.mp hg).1]
    exact hg

/-- `Graph()` makes a graph over a vector without entries. -/
theorem newGraph_step {s s' : Process} (h : step s .newGraph = some s') :
    s'.graphs[s.graphs.length]? = some ⟨s.heap.vectors.length⟩ ∧ s'.heap.Mutual s.heap.vectors.length := by
  cases h
  have hentry : ∀ {i e}, ¬ Heap.Entry (s.heap.newVector []).2 s.heap.vectors.length i e := by
    intro i e
    simp [Heap.Entry, Heap.vector, Heap.newVector]
  refine ⟨List.getElem?_concat_length, ?_, fun he => ?_, fun he => ?_, fun he => ?_⟩
  · simp
  · exact absurd he hentry
  · exact absurd he hentry
  · exact absurd he hentry

/-- The lists are apart in every state of a run. -/
theorem Heap.ListsApart.of_run {es : List Event} {s : Process} (h : run ServerAI.step .start es = some s) :
    s.heap.ListsApart := by
  refine run_history (P := fun _ s => s.heap.ListsApart) Heap.ListsApart.start ?_ h
  intro es e s s' hrun ih hstep
  exact ih.step (.of_run hrun) hstep

/-- **A graph built with `Graph()` is undirected**, after any calls of `add_vertex` and `add_edge` on
it and whatever else the program does before and after; and an `add_edge` with an id behind its last
position throws, and leaves all objects as they were. -/
theorem undirected_of_run {pre es : List Event} {s₀ s : Process} (hpre : run step .start pre = some s₀)
    (hrun : run step s₀ (.newGraph :: es) = some s) :
    ∃ g, s.graphs[s₀.graphs.length]? = some g ∧ g.Undirected s.heap ∧
      ∀ id₀ id₁ : UInt16, (s.heap.vector g.graph).length ≤ id₀.toNat ∨ (s.heap.vector g.graph).length ≤ id₁.toNat →
        (g.addEdgeCalls id₀ id₁).run s.heap = .error .outOfRange s.heap := by
  rw [← List.singleton_append] at hrun
  obtain ⟨s₁, hnew, hrest⟩ := run_prefix hrun
  have hstep : step s₀ .newGraph = some s₁ := by simpa [run, step] using hnew
  obtain ⟨hgraph, hmutual⟩ := newGraph_step hstep
  have hkept : s.Sound ∧ s.heap.ListsApart ∧ s.heap.Mutual s₀.heap.vectors.length ∧
      s.graphs[s₀.graphs.length]? = some ⟨s₀.heap.vectors.length⟩ := by
    refine run_history (P := fun _ s => s.Sound ∧ s.heap.ListsApart ∧ s.heap.Mutual s₀.heap.vectors.length ∧
      s.graphs[s₀.graphs.length]? = some ⟨s₀.heap.vectors.length⟩) ?_ ?_ hrest
    · have hs := Process.Sound.of_run hpre
      exact ⟨hs.step hstep, (Heap.ListsApart.of_run hpre).step hs hstep, hmutual, hgraph⟩
    · rintro es e s s' - ⟨hs, ha, hb, hg⟩ hstep
      exact ⟨hs.step hstep, ha.step hs hstep, hb.step hs ha hstep, graphs_step hstep hg⟩
  obtain ⟨-, -, hb, hg⟩ := hkept
  exact ⟨_, hg, hb.undirected, fun id₀ id₁ hid => Graph.addEdgeCalls_of_behind _ _ hid⟩

/-- A graph with an edge between its two vertices, a double one, and a loop. -/
theorem undirected_multigraph :
    ∃ s, run step .start [.newGraph, .addVertex 0 1 2 3, .addVertex 0 4 5 6, .addEdge 0 0 1, .addEdge 0 1 0,
        .addEdge 0 1 1, .addEdge 0 1 2] = some s ∧
      ∃ g, s.graphs[0]? = some g ∧ g.Undirected s.heap ∧
        ∀ id₀ id₁ : UInt16, (s.heap.vector g.graph).length ≤ id₀.toNat ∨ (s.heap.vector g.graph).length ≤ id₁.toNat →
          (g.addEdgeCalls id₀ id₁).run s.heap = .error .outOfRange s.heap := by
  obtain ⟨s, hs⟩ : ∃ s, run step .start [.newGraph, .addVertex 0 1 2 3, .addVertex 0 4 5 6, .addEdge 0 0 1,
    .addEdge 0 1 0, .addEdge 0 1 1, .addEdge 0 1 2] = some s := ⟨_, rfl⟩
  exact ⟨s, hs, undirected_of_run (run_nil _) hs⟩

end Inferno.ServerAI
