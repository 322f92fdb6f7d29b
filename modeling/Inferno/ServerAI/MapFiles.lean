import Inferno.Lib.Lines
import Inferno.ServerAI.AlFile

/-!
# Map files

`Graph::parse_vl_file` and `Graph::parse_al_file`: the body of the first, and the loop around either of them.
`line` and `len` are never initialized; what `line` points to before the first `getline` is any buffer.

## What is proved

* `vlLines_loaded` — the vertices of a file are those that were printed to it, in order, with
  empty lists, and nothing else changes.

## Scope

`getline` finds room for the line. A call of `atoi` without a token ends the process.
-/

namespace Inferno.ServerAI

open CStr

/-- The loop body of `parse_vl_file`: the numbers that it reads, the objects and the line after it. -/
def Graph.vlBody (g : Graph) (h : Heap) (t : Strtok) : Except Fault (List ℤ × Heap × Strtok) := do
  let (x, t) ← nextInt t (some 0)
  let (y, t) ← nextInt t none
  let (z, t) ← nextInt t none
  return ([x, y, z], (g.addVertex h (Int32.ofInt x) (Int32.ofInt y) (Int32.ofInt z)).2.2, t)

/-- Where a loop is. -/
inductive LoopStatus where
  | running
  /-- It has returned `true`. -/
  | returned
  | faulted (f : Fault)
  deriving DecidableEq, Repr

/-- A loop over the lines of a file that could be opened. -/
structure LineLoop where
  /-- The lines that `getline` has not read. -/
  rest : List (List UInt8)
  /-- `line`, and where `strtok` is. -/
  line : Strtok
  heap : Heap
  /-- The executions of the body: what was in `line`, and the numbers read from it. -/
  bodies : List (List UInt8 × List ℤ)
  status : LoopStatus

/-- The loop is entered. -/
def LineLoop.start (file : List UInt8) (line : Strtok) (h : Heap) : LineLoop := ⟨lines file, line, h, [], .running⟩

/-- `while(getline(&line, &len, file))`, once. -/
def LineLoop.iterate (body : Heap → Strtok → Except Fault (List ℤ × Heap × Strtok)) (s : LineLoop) : LineLoop :=
  match s.status with
  | .running =>
    let (bytes, rest, buffer) := getline s.rest s.line.line
    if bytes = 0 then { s with rest := rest, status := .returned }
    else
      match body s.heap ⟨buffer, s.line.saved⟩ with
      | .error f => { s with rest := rest, status := .faulted f }
      | .ok (numbers, heap, line) => ⟨rest, line, heap, s.bodies ++ [(cstr buffer, numbers)], .running⟩
  | _ => s

/-! ### What a body has read -/

theorem bind_eq_ok_iff {ε α β : Type} {x : Except ε α} {f : α → Except ε β} {b : β} :
    (x >>= f) = .ok b ↔ ∃ a, x = .ok a ∧ f a = .ok b := by
  cases x with
  | error e => exact iff_of_false (fun h => by cases h) (by simp)
  | ok a =>
    constructor
    · exact fun h => ⟨a, rfl, h⟩
    · rintro ⟨a', ha, h⟩
      cases ha
      exact h

/-- A number that was read was a token. -/
theorem nextInt_eq_ok_iff {t t' : Strtok} {s : Option ℕ} {x : ℤ} :
    nextInt t s = .ok (x, t') ↔ ∃ token, t.call [44, 10] s = (some token, t') ∧ x = atoi (t'.line.drop token) := by
  rw [nextInt]
  split
  · next hcall => simp [hcall]
  · next token t₁ hcall =>
    rw [hcall]
    constructor
    · rintro h
      cases h
      exact ⟨token, rfl, rfl⟩
    · rintro ⟨token', heq, rfl⟩
      cases heq
      rfl

/-- The body of `parse_vl_file` gets to its end if there are three tokens. -/
theorem Graph.vlBody_eq_ok_iff {g : Graph} {h h' : Heap} {t t' : Strtok} {numbers : List ℤ} :
    g.vlBody h t = .ok (numbers, h', t') ↔
      ∃ x t₁ y t₂ z, nextInt t (some 0) = .ok (x, t₁) ∧ nextInt t₁ none = .ok (y, t₂) ∧ nextInt t₂ none = .ok (z, t') ∧
        numbers = [x, y, z] ∧ h' = (g.addVertex h (Int32.ofInt x) (Int32.ofInt y) (Int32.ofInt z)).2.2 := by
  simp only [Graph.vlBody, bind_eq_ok_iff, Prod.exists, pure, Except.pure, Except.ok.injEq, Prod.mk.injEq]
  constructor
  · rintro ⟨x, t₁, h₁, y, t₂, h₂, z, t₃, h₃, hnumbers, hheap, rfl⟩
    exact ⟨x, t₁, y, t₂, z, h₁, h₂, h₃, hnumbers.symm, hheap.symm⟩
  · rintro ⟨x, t₁, y, t₂, z, h₁, h₂, h₃, hnumbers, hheap⟩
    exact ⟨x, t₁, h₁, y, t₂, h₂, z, t', h₃, hnumbers.symm, hheap.symm, rfl⟩

/-- That of `parse_al_file` if there is one, and an edge for it. -/
theorem Graph.alBody_eq_ok_iff {g : Graph} {h h' : Heap} {t t' : Strtok} {numbers : List ℤ} :
    g.alBody h t = .ok (numbers, h', t') ↔
      ∃ id₀ t₁ id₁, nextInt t (some 0) = .ok (id₀, t₁) ∧ nextInt t₁ (some 0) = .ok (id₁, t') ∧ numbers = [id₀, id₁] ∧
        g.addEdge h (UInt16.ofInt id₀) (UInt16.ofInt id₁) = some h' := by
  simp only [Graph.alBody, bind_eq_ok_iff, Prod.exists]
  constructor
  · rintro ⟨id₀, t₁, h₀, id₁, t₂, h₁, hadd⟩
    split at hadd
    · cases hadd
    · next hsome =>
      cases hadd
      exact ⟨id₀, t₁, id₁, h₀, h₁, rfl, hsome⟩
  · rintro ⟨id₀, t₁, id₁, h₀, h₁, rfl, hadd⟩
    refine ⟨id₀, t₁, h₀, id₁, t', h₁, ?_⟩
    simp only [hadd]
    rfl

/-! ### Numbers in a line -/

/-- What is in a printed number is no delimiter. -/
theorem plain_of_mem_decimalInt {z : ℤ} {b : UInt8} (hb : b ∈ decimalInt z) : b ≠ 0 ∧ b ∉ [44, 10] := by
  rcases mem_decimalInt hb with rfl | hdigit
  · decide
  · exact plain_of_isdigit hdigit

/-- **A printed number** that a delimiter follows is read, and a NUL put behind it. -/
theorem nextInt_decimalInt (done : List UInt8) {saved : ℕ} {s : Option ℕ} (hs : s.getD saved = done.length) (z : ℤ)
    {d : UInt8} (hd : d ∈ [44, 10]) (rest : List UInt8) :
    nextInt ⟨done ++ (decimalInt z ++ d :: rest), saved⟩ s =
      .ok (z, ⟨done ++ (decimalInt z ++ 0 :: rest), (done ++ decimalInt z).length + 1⟩) := by
  have hne : ¬ (d :: rest).headD 0 = 0 := by
    rintro rfl
    exact absurd hd (by decide)
  have hskipped : ∀ b ∈ ([] : List UInt8), b ∈ [44, 10] := by simp
  have hcall := Strtok.call_split done hskipped (decimalInt_ne_nil z) (fun b hb => plain_of_mem_decimalInt hb)
    (show (d :: rest).headD 0 = 0 ∨ _ from Or.inr hd) hs
  rw [if_neg hne] at hcall
  simp only [List.nil_append, List.append_nil, List.set_cons_zero] at hcall
  simp only [nextInt, hcall, List.drop_left, atoi_decimalInt]

/-- The line of a vertex. -/
def vertexLine (c : Int32 × Int32 × Int32) : List UInt8 :=
  decimalInt c.1.toInt ++ 44 :: (decimalInt c.2.1.toInt ++ 44 :: (decimalInt c.2.2.toInt ++ [10]))

/-- **What is made of the line of a vertex**: the vertex. -/
theorem Graph.vlBody_vertexLine (g : Graph) (h : Heap) (c : Int32 × Int32 × Int32) (after : List UInt8) (saved : ℕ) :
    ∃ t, g.vlBody h ⟨vertexLine c ++ after, saved⟩ =
      .ok ([c.1.toInt, c.2.1.toInt, c.2.2.toInt], (g.addVertex h c.1 c.2.1 c.2.2).2.2, t) := by
  obtain ⟨x, y, z⟩ := c
  have hcomma : (44 : UInt8) ∈ [44, 10] := by decide
  have hnewline : (10 : UInt8) ∈ [44, 10] := by decide
  have hx := nextInt_decimalInt [] (show (some 0).getD saved = ([] : List UInt8).length from rfl) x.toInt hcomma
    (decimalInt y.toInt ++ 44 :: (decimalInt z.toInt ++ 10 :: after))
  have hy := nextInt_decimalInt (decimalInt x.toInt ++ [0])
    (show none.getD ((decimalInt x.toInt).length + 1) = (decimalInt x.toInt ++ [0]).length by simp) y.toInt hcomma
    (decimalInt z.toInt ++ 10 :: after)
  have hz := nextInt_decimalInt (decimalInt x.toInt ++ 0 :: (decimalInt y.toInt ++ [0]))
    (show none.getD ((decimalInt x.toInt).length + ((decimalInt y.toInt).length + 1) + 1) = _ by simp; omega) z.toInt
    hnewline after
  simp only [List.nil_append, List.append_assoc, List.cons_append, List.length_append, List.length_cons] at hx hy hz
  have hline : vertexLine (x, y, z) ++ after =
      decimalInt x.toInt ++ 44 :: (decimalInt y.toInt ++ 44 :: (decimalInt z.toInt ++ 10 :: after)) := by
    simp [vertexLine]
  rw [hline]
  refine ⟨_, Graph.vlBody_eq_ok_iff.mpr ⟨x.toInt, _, y.toInt, _, z.toInt, hx, hy, hz, rfl, ?_⟩⟩
  simp only [Int32.ofInt_toInt]

/-! ### The lines of a vertex file -/

/-- The line of a vertex ends with its only newline. -/
theorem lines_vertexLine (c : Int32 × Int32 × Int32) (rest : List UInt8) :
    lines (vertexLine c ++ rest) = vertexLine c :: lines rest := by
  obtain ⟨x, y, z⟩ := c
  have hnumber : ∀ n : ℤ, 10 ∉ decimalInt n := fun n h => (plain_of_mem_decimalInt h).2 (by decide)
  have hs : 10 ∉ decimalInt x.toInt ++ 44 :: (decimalInt y.toInt ++ 44 :: decimalInt z.toInt) := by
    simp [hnumber]
  have hline := lines_append hs rest
  simp only [List.append_assoc, List.cons_append] at hline
  simp only [vertexLine, List.append_assoc, List.cons_append, List.nil_append, hline]

theorem lines_flatMap_vertexLine (coords : List (Int32 × Int32 × Int32)) :
    lines (coords.flatMap vertexLine) = coords.map vertexLine := by
  induction coords with
  | nil => rfl
  | cons c coords ih => rw [List.flatMap_cons, lines_vertexLine, ih, List.map_cons]

/-- The numbers of a vertex. -/
def numbersOf (c : Int32 × Int32 × Int32) : List ℤ := [c.1.toInt, c.2.1.toInt, c.2.2.toInt]

/-- One iteration, with the line of a vertex before it. -/
theorem LineLoop.iterate_vertexLine {g : Graph} {s : LineLoop} {c : Int32 × Int32 × Int32} {rest : List (List UInt8)}
    (hrunning : s.status = .running) (hrest : s.rest = vertexLine c :: rest) :
    (s.iterate g.vlBody).status = .running ∧ (s.iterate g.vlBody).rest = rest ∧
      (s.iterate g.vlBody).heap = (g.addVertex s.heap c.1 c.2.1 c.2.2).2.2 ∧
      (s.iterate g.vlBody).bodies.map Prod.snd = s.bodies.map Prod.snd ++ [numbersOf c] := by
  obtain ⟨_, line, heap, bodies, _⟩ := s
  cases hrunning
  cases hrest
  have hbytes : ((vertexLine c).length : ℤ) ≠ 0 := by
    simp only [vertexLine, List.length_append, List.length_cons]
    omega
  obtain ⟨t, hbody⟩ := g.vlBody_vertexLine heap c (0 :: line.line.drop ((vertexLine c).length + 1)) line.saved
  have hbuffer : copyAt line.line 0 (vertexLine c ++ [0]) =
      vertexLine c ++ 0 :: line.line.drop ((vertexLine c).length + 1) := by
    simp [copyAt]
  simp only [LineLoop.iterate, getline, if_neg hbytes, hbuffer, hbody]
  refine ⟨trivial, trivial, trivial, ?_⟩
  rw [List.map_append]
  rfl

/-- **An iteration for each line.** -/
theorem LineLoop.iterate_vertexLines {g : Graph} (coords : List (Int32 × Int32 × Int32)) {s : LineLoop}
    (hrunning : s.status = .running) {rest : List (List UInt8)} (hrest : s.rest = coords.map vertexLine ++ rest) :
    ((LineLoop.iterate g.vlBody)^[coords.length] s).status = .running ∧
      ((LineLoop.iterate g.vlBody)^[coords.length] s).rest = rest ∧
      ((LineLoop.iterate g.vlBody)^[coords.length] s).heap = g.addVertices s.heap coords ∧
      ((LineLoop.iterate g.vlBody)^[coords.length] s).bodies.map Prod.snd =
        s.bodies.map Prod.snd ++ coords.map numbersOf := by
  induction coords generalizing s with
  | nil => exact ⟨hrunning, hrest, rfl, by simp⟩
  | cons c coords ih =>
    obtain ⟨hrunning', hrest', hheap, hbodies⟩ := LineLoop.iterate_vertexLine (g := g) hrunning hrest
    obtain ⟨h₁, h₂, h₃, h₄⟩ := ih hrunning' hrest'
    rw [List.length_cons, Function.iterate_succ_apply]
    refine ⟨h₁, h₂, ?_, ?_⟩
    · rw [h₃, hheap]
      rfl
    · rw [h₄, hbodies, List.map_cons, List.append_assoc, List.singleton_append]

/-! ### The vertices of a file -/

/-- **The vertices of a file are loaded**, one in each execution of the loop body of `parse_vl_file`,
with the coordinates that were printed. -/
theorem vlLines_loaded {g : Graph} {h : Heap} (hg : g.graph < h.vectors.length)
    (coords : List (Int32 × Int32 × Int32)) (line : Strtok) :
    ∃ s, (LineLoop.iterate g.vlBody)^[coords.length] (.start (coords.flatMap vertexLine) line h) = s ∧
      s.status = .running ∧ s.rest = [] ∧ s.bodies.map Prod.snd = coords.map numbersOf ∧ g.Loaded h coords s.heap := by
  have hrest : (LineLoop.start (coords.flatMap vertexLine) line h).rest = coords.map vertexLine ++ [] := by
    rw [List.append_nil]
    exact lines_flatMap_vertexLine coords
  obtain ⟨hrunning, hrest', hheap, hbodies⟩ := LineLoop.iterate_vertexLines (g := g) coords rfl hrest
  refine ⟨_, rfl, hrunning, hrest', hbodies, ?_⟩
  rw [hheap]
  exact Graph.loaded_addVertices hg coords

/-- Two vertices for an empty graph, with the largest and the smallest number among their coordinates. -/
theorem vlLines_loaded_extremes :
    ∃ s, (LineLoop.iterate (Graph.vlBody ⟨0⟩))^[2]
        (.start ([(1, -2, 2147483647), (0, -2147483648, 10)].flatMap vertexLine) ⟨[], 0⟩ ⟨0, [], [], [[]]⟩) = s ∧
      s.status = .running ∧ s.rest = [] ∧
      s.bodies.map Prod.snd = [(1, -2, 2147483647), (0, -2147483648, 10)].map numbersOf ∧
      Graph.Loaded ⟨0⟩ ⟨0, [], [], [[]]⟩ [(1, -2, 2147483647), (0, -2147483648, 10)] s.heap :=
  vlLines_loaded (g := ⟨0⟩) (h := ⟨0, [], [], [[]]⟩) (by decide) [(1, -2, 2147483647), (0, -2147483648, 10)] ⟨[], 0⟩

end Inferno.ServerAI
