import Inferno.Lib.Strtok
import Inferno.ServerAI.Graph
import Mathlib.Data.List.Nodup

/-!
# Loading edges

`Graph::parse_al_file`. Its loop body takes two numbers from a line and adds the edge between
them. Both calls of `strtok` are given the line, where the second should go on from the
first, and the first has put a NUL behind the first number. So both numbers are the first.

## What is proved

* `Linked.addEdge` — `add_edge` puts each endpoint in the list of the other.
* `loads_iff` — so a file is loaded exactly if all of its edges are from a vertex to itself.
* `Graph.loaded_addVertices` — what they are loaded into: a new vertex with an empty list for each line of
  the other file.

## Scope

`getline` gives each line in turn; that the loop does not end is left out. A call of `atoi` without
a token, and an exception of `add_edge`, end the loop.
-/

namespace Inferno.ServerAI

open CStr

/-- What ends a loop over the lines of a file before its time. -/
inductive Fault where
  /-- `atoi(NULL)`. -/
  | nullToken
  /-- What `at` throws in `add_edge`. -/
  | outOfRange
  deriving DecidableEq, Repr

/-- A token of a line, as a number: `atoi(strtok(s, ",\n"))`. -/
def nextInt (t : Strtok) (s : Option ℕ) : Except Fault (ℤ × Strtok) :=
  match t.call [44, 10] s with
  | (none, _) => .error .nullToken
  | (some token, t) => .ok (atoi (t.line.drop token), t)

/-- The loop body of `parse_al_file`: the numbers that it reads, the objects and the line after it. -/
def Graph.alBody (g : Graph) (h : Heap) (t : Strtok) : Except Fault (List ℤ × Heap × Strtok) := do
  let (id₀, t) ← nextInt t (some 0)
  let (id₁, t) ← nextInt t (some 0)
  match g.addEdge h (UInt16.ofInt id₀) (UInt16.ofInt id₁) with
  | none => .error .outOfRange
  | some h => return ([id₀, id₁], h, t)

/-- The loop, over some lines; with each is where `strtok` was last. -/
def Graph.parseAlLines (g : Graph) : Heap → List (List UInt8 × ℕ) → Option Heap
  | h, [] => some h
  | h, (line, saved) :: lines =>
    match g.alBody h ⟨line, saved⟩ with
    | .error _ => none
    | .ok (_, h, _) => g.parseAlLines h lines

variable {g : Graph} {h : Heap}

/-- A position of a graph. -/
abbrev Graph.Position (g : Graph) (h : Heap) : Type := Fin (h.vector g.graph).length

/-- An edge, and what is in memory when its line is read: behind the line, and where `strtok`
was last. -/
structure Graph.FileEdge (g : Graph) (h : Heap) where
  a : g.Position h
  b : g.Position h
  after : List UInt8
  saved : ℕ

/-- The line of an edge. -/
def Graph.FileEdge.line (e : g.FileEdge h) : List UInt8 :=
  decimal e.a ++ 44 :: decimal e.b ++ 10 :: 0 :: e.after

/-- Its endpoints. -/
def Graph.FileEdge.ends (e : g.FileEdge h) : g.Position h × g.Position h := (e.a, e.b)

/-- The vertex at a position. -/
def Graph.vertex (g : Graph) (h : Heap) (p : g.Position h) : VertexPtr := ((h.vector g.graph).get p).1

/-- The other endpoints of the edges that mention a position, in their order. -/
def Graph.others (g : Graph) (h : Heap) (edges : List (g.Position h × g.Position h)) (p : g.Position h) :
    List VertexPtr :=
  edges.flatMap fun (a, b) => (if a = p then [g.vertex h b] else []) ++ if b = p then [g.vertex h a] else []

/-- A graph whose vertices have been loaded and whose edges have not. -/
structure Graph.Unlinked (g : Graph) (h : Heap) : Prop where
  size_le : (h.vector g.graph).length ≤ 65536
  vertices : ((h.vector g.graph).map Prod.fst).Nodup
  lists : ((h.vector g.graph).map Prod.snd).Nodup
  empty : ∀ entry ∈ h.vector g.graph, h.lists[entry.2]? = some []

/-- The graph with these edges, made from what it was in `h`. -/
structure Graph.Linked (g : Graph) (h : Heap) (edges : List (g.Position h × g.Position h)) (h' : Heap) : Prop where
  vectors : h'.vectors = h.vectors
  vertices : h'.vertices = h.vertices
  lists : ∀ p : g.Position h, h'.lists[((h.vector g.graph).get p).2]? = some (g.others h edges p)

/-- The loop adds exactly the edges of the file. -/
def Graph.Loads (g : Graph) (h : Heap) (edges : List (g.FileEdge h)) : Prop :=
  ∃ h', g.parseAlLines h (edges.map fun e => (e.line, e.saved)) = some h' ∧
    g.Linked h (edges.map Graph.FileEdge.ends) h'

/-! ### A line -/

/-- A digit is no delimiter. -/
theorem plain_of_isdigit {b : UInt8} (hb : isdigit b) : b ≠ 0 ∧ b ∉ [44, 10] := by
  have hplain : ∀ d ∈ [0, 44, 10], ¬ isdigit d := by simp [isdigit]
  have hout : b ∉ [0, 44, 10] := fun hmem => hplain b hmem hb
  exact ⟨fun hzero => hout (hzero ▸ List.mem_cons_self), fun hmem => hout (List.mem_cons_of_mem _ hmem)⟩

/-- **What is read of a line**: the first number, twice. -/
theorem Graph.alBody_line {h' h'' : Heap} (e : g.FileEdge h)
    (hadd : g.addEdge h' (UInt16.ofInt (e.a : ℕ)) (UInt16.ofInt (e.a : ℕ)) = some h'') :
    ∃ t, g.alBody h' ⟨e.line, e.saved⟩ = .ok ([(e.a : ℤ), (e.a : ℤ)], h'', t) := by
  have htoken : ∀ b ∈ decimal e.a, b ≠ 0 ∧ b ∉ [44, 10] := fun b hb => plain_of_isdigit (isdigit_of_mem_decimal hb)
  have hline : e.line = decimal e.a ++ 44 :: (decimal e.b ++ 10 :: 0 :: e.after) := by
    rw [Graph.FileEdge.line, List.append_assoc, List.cons_append]
  obtain ⟨saved, hfirst⟩ := Strtok.call_start (decimal_ne_nil _) htoken (Or.inr (by simp : (44 : UInt8) ∈ [44, 10]))
    (decimal e.b ++ 10 :: 0 :: e.after) e.saved
  obtain ⟨saved', hsecond⟩ := Strtok.call_start (decimal_ne_nil _) htoken (Or.inl rfl)
    (decimal e.b ++ 10 :: 0 :: e.after) saved
  refine ⟨⟨decimal e.a ++ 0 :: (decimal e.b ++ 10 :: 0 :: e.after), saved'⟩, ?_⟩
  simp only [Graph.alBody, nextInt, hline, hfirst, hsecond, List.drop_zero, atoi_decimal, bind, Except.bind, hadd]
  rfl

/-! ### An edge -/

theorem Graph.Linked.start (hg : g.Unlinked h) : g.Linked h [] h where
  vectors := rfl
  vertices := rfl
  lists p := hg.empty _ (List.get_mem _ p)

/-- The number of a position, narrowed to sixteen bits, is the position. -/
theorem Graph.Unlinked.at_position (hg : g.Unlinked h) (p : g.Position h) :
    g.at h (UInt16.ofInt (p : ℕ)) = some ((h.vector g.graph).get p) := by
  have hlt : (p : ℕ) < 65536 := lt_of_lt_of_le p.isLt hg.size_le
  have hid : (UInt16.ofInt (p : ℕ)).toNat = p := by
    rw [UInt16.ofInt, UInt16.toNat_ofNat']
    omega
  rw [Graph.at, hid]
  exact List.getElem?_eq_getElem p.isLt

/-- What no two entries have in common tells the positions apart. -/
theorem eq_of_nodup_map {f : VertexPtr × ListPtr → ℕ} (hf : ((h.vector g.graph).map f).Nodup) {p q : g.Position h}
    (hpq : f ((h.vector g.graph).get p) = f ((h.vector g.graph).get q)) : p = q := by
  have hentry := List.inj_on_of_nodup_map hf (List.get_mem _ p) (List.get_mem _ q) hpq
  exact (List.Nodup.get_inj_iff (List.Nodup.of_map f hf)).mp hentry

/-- What a list is after `push_back` on the list of a position. -/
theorem Graph.Unlinked.pushVertex (hg : g.Unlinked h) {h' : Heap} (q : g.Position h) (v : VertexPtr)
    (p : g.Position h) {l : List VertexPtr} (hl : h'.lists[((h.vector g.graph).get p).2]? = some l) :
    (h'.pushVertex ((h.vector g.graph).get q).2 v).lists[((h.vector g.graph).get p).2]? =
      some (l ++ if q = p then [v] else []) := by
  rw [Heap.pushVertex, List.getElem?_modify, hl]
  by_cases hqp : q = p
  · simp [hqp]
  · have hne : ((h.vector g.graph).get q).2 ≠ ((h.vector g.graph).get p).2 :=
      fun heq => hqp (eq_of_nodup_map hg.lists heq)
    simp only [Option.map_eq_map, Option.map_some, if_neg hne, if_neg hqp, List.append_nil]

/-- **`add_edge` adds its edge**: each endpoint goes to the end of the other's list. -/
theorem Graph.Linked.addEdge (hg : g.Unlinked h) {edges : List (g.Position h × g.Position h)} {h' : Heap}
    (hlinked : g.Linked h edges h') (a b : g.Position h) :
    ∃ h'', g.addEdge h' (UInt16.ofInt (a : ℕ)) (UInt16.ofInt (b : ℕ)) = some h'' ∧
      g.Linked h (edges ++ [(a, b)]) h'' := by
  have hat : ∀ id, g.at h' id = g.at h id := by
    intro id
    simp only [Graph.at, Heap.vector, hlinked.vectors]
  have hadd : g.addEdge h' (UInt16.ofInt (a : ℕ)) (UInt16.ofInt (b : ℕ)) =
      some ((h'.pushVertex ((h.vector g.graph).get a).2 (g.vertex h b)).pushVertex
        ((h.vector g.graph).get b).2 (g.vertex h a)) := by
    simp only [Graph.addEdge, hat, hg.at_position]
    rfl
  refine ⟨_, hadd, hlinked.vectors, hlinked.vertices, fun p => ?_⟩
  have hlist := hg.pushVertex a (g.vertex h b) p (hlinked.lists p)
  rw [hg.pushVertex b (g.vertex h a) p hlist, Graph.others, Graph.others, List.flatMap_append, List.append_assoc]
  simp

/-! ### A file -/

/-- **What the loop adds**: for each edge one from its first endpoint to itself. -/
theorem Graph.Linked.parseAlLines (hg : g.Unlinked h) {edges : List (g.Position h × g.Position h)} {h' : Heap}
    (hlinked : g.Linked h edges h') (file : List (g.FileEdge h)) :
    ∃ h'', g.parseAlLines h' (file.map fun e => (e.line, e.saved)) = some h'' ∧
      g.Linked h (edges ++ file.map fun e => (e.a, e.a)) h'' := by
  induction file generalizing edges h' with
  | nil => exact ⟨h', rfl, by simpa using hlinked⟩
  | cons e file ih =>
    obtain ⟨h₁, hadd, hlinked₁⟩ := hlinked.addEdge hg e.a e.a
    obtain ⟨h₂, hparse, hlinked₂⟩ := ih hlinked₁
    refine ⟨h₂, ?_, ?_⟩
    · obtain ⟨t, hbody⟩ := Graph.alBody_line e hadd
      simp only [List.map_cons, Graph.parseAlLines, hbody]
      exact hparse
    · rw [List.append_assoc] at hlinked₂
      exact hlinked₂

/-- **When a file is loaded**: when all of its edges are from a vertex to itself. -/
theorem loads_iff (hg : g.Unlinked h) (file : List (g.FileEdge h)) : g.Loads h file ↔ ∀ e ∈ file, e.a = e.b := by
  obtain ⟨h', hparse, hlinked⟩ := (Graph.Linked.start hg).parseAlLines hg file
  rw [List.nil_append] at hlinked
  constructor
  · rintro ⟨h'', hparse', hloaded⟩ e he
    obtain rfl : h' = h'' := Option.some.inj (hparse.symm.trans hparse')
    -- at the second endpoint the first should be, and only the second is
    have hlist := Option.some.inj ((hlinked.lists e.b).symm.trans (hloaded.lists e.b))
    have hmem : g.vertex h e.a ∈ g.others h (file.map Graph.FileEdge.ends) e.b := by
      refine List.mem_flatMap.mpr ⟨e.ends, List.mem_map_of_mem he, ?_⟩
      simp [Graph.FileEdge.ends]
    rw [← hlist] at hmem
    obtain ⟨⟨a, b⟩, hends, hmem⟩ := List.mem_flatMap.mp hmem
    obtain ⟨e', -, heq⟩ := List.mem_map.mp hends
    cases heq
    have hvertex : e'.a = e.b ∧ g.vertex h e.a = g.vertex h e'.a := by
      by_cases hab : e'.a = e.b
      · simpa [hab] using hmem
      · simp [hab] at hmem
    exact eq_of_nodup_map hg.vertices (hvertex.2.trans (congrArg (g.vertex h) hvertex.1))
  · intro hloops
    refine ⟨h', hparse, ?_⟩
    have hsame : file.map (fun e => (e.a, e.a)) = file.map Graph.FileEdge.ends :=
      List.map_congr_left fun e he => by rw [Graph.FileEdge.ends, ← hloops e he]
    rw [← hsame]
    exact hlinked

/-! ### The graph of a vertex file -/

/-- `add_vertex`, of some coordinates in turn. -/
def Graph.addVertices (g : Graph) (h : Heap) (coords : List (Int32 × Int32 × Int32)) : Heap :=
  coords.foldl (fun h c => (g.addVertex h c.1 c.2.1 c.2.2).2.2) h

/-- What a graph, and the objects, should be after the vertices with these coordinates were loaded:
each has an entry of its own at the end of the graph, with an empty list, and what was there before is as it
was. -/
structure Graph.Loaded (g : Graph) (h : Heap) (coords : List (Int32 × Int32 × Int32)) (h' : Heap) : Prop where
  entries : h'.vector g.graph = h.vector g.graph ++
    (List.range coords.length).map fun i => (h.vertices.length + i, h.lists.length + i)
  vertices : h'.vertices = h.vertices ++ coords.mapIdx fun i c => ⟨c.1, c.2.1, c.2.2, h.count + UInt16.ofNat i⟩
  lists : h'.lists = h.lists ++ List.replicate coords.length []
  others : ∀ p < h.vectors.length, p ≠ g.graph → h'.vector p = h.vector p

/-- One more vertex. -/
theorem Graph.Loaded.concat {g : Graph} {h h' : Heap} {coords : List (Int32 × Int32 × Int32)}
    (hl : g.Loaded h coords h') (hg : g.graph < h.vectors.length) (hlen : h'.vectors.length = h.vectors.length)
    (hcount : h'.count = h.count + UInt16.ofNat coords.length) (c : Int32 × Int32 × Int32) :
    g.Loaded h (coords ++ [c]) (g.addVertex h' c.1 c.2.1 c.2.2).2.2 := by
  rw [Graph.addVertex_eq]
  have hvertices : h'.vertices.length = h.vertices.length + coords.length := by simp [hl.vertices]
  have hlists : h'.lists.length = h.lists.length + coords.length := by simp [hl.lists]
  constructor
  · rw [vector_modify rfl (hlen ▸ hg), if_pos rfl, hl.entries, hvertices, hlists, List.length_append,
      List.length_singleton, List.range_succ, List.map_append, List.append_assoc]
    rfl
  · simp only [hl.vertices, List.mapIdx_concat, hcount, List.append_assoc]
  · simp only [hl.lists, List.length_append, List.length_singleton, List.replicate_succ', List.append_assoc]
  · intro p hp hne
    rw [vector_modify rfl (hlen ▸ hp), if_neg (Ne.symm hne), hl.others p hp hne]

/-- **What `add_vertex` makes of some coordinates.** -/
theorem Graph.loaded_addVertices {g : Graph} {h : Heap} (hg : g.graph < h.vectors.length)
    (coords : List (Int32 × Int32 × Int32)) : g.Loaded h coords (g.addVertices h coords) := by
  have hall : g.Loaded h coords (g.addVertices h coords) ∧ (g.addVertices h coords).vectors.length = h.vectors.length ∧
      (g.addVertices h coords).count = h.count + UInt16.ofNat coords.length := by
    induction coords using List.reverseRecOn with
    | nil => exact ⟨⟨by simp [Graph.addVertices], by simp [Graph.addVertices], by simp [Graph.addVertices],
        fun _ _ _ => rfl⟩, rfl, by simp [Graph.addVertices]⟩
    | append_singleton coords c ih =>
      obtain ⟨hl, hlen, hcount⟩ := ih
      have hstep : g.addVertices h (coords ++ [c]) = (g.addVertex (g.addVertices h coords) c.1 c.2.1 c.2.2).2.2 := by
        simp [Graph.addVertices]
      rw [hstep]
      refine ⟨hl.concat hg hlen hcount c, ?_, ?_⟩
      · simpa [Graph.addVertex_eq] using hlen
      · simp only [Graph.addVertex_eq, hcount, List.length_append, List.length_singleton, UInt16.ofNat_add]
        rw [UInt16.add_assoc]
        rfl
  exact hall.1

/-- What the constructor does before it loads the edges: a graph over a new vector, and `add_vertex`
for each line of the other file. -/
def loadVertices (h : Heap) (coords : List (Int32 × Int32 × Int32)) : Graph × Heap :=
  let (p, h) := h.newVector []
  (⟨p⟩, Graph.addVertices ⟨p⟩ h coords)

/-- A graph gets new vertices and new lists, in order. -/
theorem vector_loadVertices (h : Heap) (coords : List (Int32 × Int32 × Int32)) :
    (loadVertices h coords).2.vector (loadVertices h coords).1.graph =
        (List.range coords.length).map (fun i => (h.vertices.length + i, h.lists.length + i)) ∧
      (loadVertices h coords).2.lists = h.lists ++ List.replicate coords.length [] := by
  have hg : (⟨h.vectors.length⟩ : Graph).graph < (h.newVector []).2.vectors.length := by
    simp [Heap.newVector]
  have hnew : (h.newVector []).2.vector h.vectors.length = [] := by
    simp [Heap.newVector, Heap.vector]
  have hl := Graph.loaded_addVertices hg coords
  refine ⟨?_, hl.lists⟩
  have hentries := hl.entries
  rw [hnew, List.nil_append] at hentries
  exact hentries

/-- **What the constructor loads edges into** has no edges, if the vertex file has at most 65536 lines. -/
theorem unlinked_loadVertices (h : Heap) (coords : List (Int32 × Int32 × Int32)) (hlen : coords.length ≤ 65536) :
    (loadVertices h coords).1.Unlinked (loadVertices h coords).2 := by
  obtain ⟨hvec, hlists⟩ := vector_loadVertices h coords
  refine ⟨?_, ?_, ?_, ?_⟩
  · rw [hvec, List.length_map, List.length_range]
    exact hlen
  · rw [hvec, List.map_map]
    refine List.Nodup.map (fun i j hij => ?_) List.nodup_range
    simpa using hij
  · rw [hvec, List.map_map]
    refine List.Nodup.map (fun i j hij => ?_) List.nodup_range
    simpa using hij
  · intro entry hentry
    rw [hvec] at hentry
    obtain ⟨i, hi, rfl⟩ := List.mem_map.mp hentry
    rw [hlists, List.getElem?_append_right (Nat.le_add_right _ _), Nat.add_sub_cancel_left,
      List.getElem?_replicate, if_pos (List.mem_range.mp hi)]

/-- A graph of two vertices. -/
def twoVertices : Graph × Heap := loadVertices ⟨0, [], [], []⟩ [(1, 2, 3), (4, 5, 6)]

/-- An edge from its first vertex to one of them. -/
def edgeTo (b : twoVertices.1.Position twoVertices.2) : twoVertices.1.FileEdge twoVertices.2 :=
  ⟨⟨0, by decide⟩, b, [], 0⟩

/-- A file with an edge from the first vertex to itself. -/
theorem loads_loop :
    twoVertices.1.Loads twoVertices.2 [edgeTo ⟨0, by decide⟩] ↔
      ∀ e ∈ [edgeTo ⟨0, by decide⟩], e.a = e.b :=
  loads_iff (unlinked_loadVertices _ _ (by decide)) _

/-- The edge from the first vertex to the second does not reach the second. -/
theorem edge_not_loaded : ¬ twoVertices.1.Loads twoVertices.2 [edgeTo ⟨1, by decide⟩] := by
  rintro ⟨h', hparse', hloaded⟩
  have hg : twoVertices.1.Unlinked twoVertices.2 := unlinked_loadVertices _ _ (by decide)
  obtain ⟨h', hparse, hlinked⟩ := (Graph.Linked.start hg).parseAlLines hg [edgeTo ⟨1, by decide⟩]
  obtain rfl := Option.some.inj (hparse.symm.trans hparse')
  have hlist := Option.some.inj ((hlinked.lists ⟨1, by decide⟩).symm.trans (hloaded.lists ⟨1, by decide⟩))
  cases hlist

end Inferno.ServerAI
