import Inferno.ServerAI.MapFiles

/-!
# Loading a map

The constructor `Graph(vl_path, al_path)`. Each of its loops has `getline(…)` itself for a condition, which
is `-1` at the end of the file, so neither of them returns. What the body finds in `line` from there on
is what it left there: in a vertex line the first number and a NUL behind it, in an edge line the same.

## What is proved

* `never_readsAll` — no file makes either loop return.
* `vlLoop_nullToken` — instead `parse_vl_file` calls `atoi` without a token, at the latest in its second
  execution of the body behind the end of the file.
* `alLoop_endless` — and `parse_al_file` adds its last edge again and again.
* `malformed_rejected_iff` — a pair of files with something wrong in it is rejected by an exception
  exactly if the first of them cannot be opened.
-/

namespace Inferno.ServerAI

open CStr

/-- The loop returns `true` after it has executed its body once for each line. -/
def ReadsAll (body : Heap → Strtok → Except Fault (List ℤ × Heap × Strtok)) (file : List UInt8) (line : Strtok)
    (h : Heap) : Prop :=
  ∃ n, ((LineLoop.iterate body)^[n] (.start file line h)).status = .returned ∧
    ((LineLoop.iterate body)^[n] (.start file line h)).bodies.length = (lines file).length

/-- `enum graph_exception`, and what `at` throws. -/
inductive GraphException where
  | vlParseException
  | alParseException
  | outOfRange
  deriving DecidableEq, Repr

/-- Where the constructor is. -/
inductive Progress where
  | running
  | built
  | threw (e : GraphException)
  /-- It has called `atoi(NULL)`. -/
  | nullToken
  deriving DecidableEq, Repr

/-- What the constructor has come to: `added` are the lines that it has taken edges from, and the
numbers that it has read from them. -/
structure Construction where
  progress : Progress
  added : List (List UInt8 × List ℤ)

/-- Where the constructor is in one of its loops, given what comes after it. -/
def LineLoop.progress (s : LineLoop) (next : Progress) : Progress :=
  match s.status with
  | .running => .running
  | .returned => next
  | .faulted .nullToken => .nullToken
  | .faulted .outOfRange => .threw .outOfRange

/-- `Graph::Graph(vl_path, al_path)`, after at most `n` iterations of each loop. A file that cannot be opened
is `none`; `vlLine` and `alLine` are what the two variables `line` point to. -/
def Graph.ofFiles (n : ℕ) (h : Heap) (vl al : Option (List UInt8)) (vlLine alLine : Strtok) : Construction :=
  let (p, h) := h.newVector []
  match vl with
  | none => ⟨.threw .vlParseException, []⟩
  | some vl =>
    let s := (LineLoop.iterate (Graph.vlBody ⟨p⟩))^[n] (.start vl vlLine h)
    match s.status, al with
    | .returned, none => ⟨.threw .alParseException, []⟩
    | .returned, some al =>
      let s := (LineLoop.iterate (Graph.alBody ⟨p⟩))^[n] (.start al alLine s.heap)
      ⟨s.progress .built, s.bodies⟩
    | _, _ => ⟨s.progress .running, []⟩

/-! ### Malformed files -/

/-- The spelling of an integer. -/
def Spells (s : List UInt8) (z : ℤ) : Prop :=
  ∃ digits, digits ≠ [] ∧ (∀ b ∈ digits, isdigit b) ∧
    ((s = digits ∨ s = 43 :: digits) ∧ z = digitsValue digits ∨ s = 45 :: digits ∧ z = -(digitsValue digits : ℤ))

/-- The line of a vertex: three integers. -/
def IsVertexLine (line : List UInt8) : Prop :=
  ∃ a b c x y z, Spells a x ∧ Spells b y ∧ Spells c z ∧
    (line = a ++ 44 :: (b ++ 44 :: c) ∨ line = a ++ 44 :: (b ++ 44 :: (c ++ [10])))

/-- The line of an edge between two integers. -/
def NamesEdge (line : List UInt8) (x y : ℤ) : Prop :=
  ∃ a b, Spells a x ∧ Spells b y ∧ (line = a ++ 44 :: b ∨ line = a ++ 44 :: (b ++ [10]))

/-- The lines of a file, if it can be opened. -/
def fileLines (file : Option (List UInt8)) : List (List UInt8) := (file.map lines).getD []

/-- Some vertex line does not consist of three integers, or some edge line not of two integers that are
positions of loaded vertices. -/
def Malformed (vl al : Option (List UInt8)) : Prop :=
  (∃ line ∈ fileLines vl, ¬ IsVertexLine line) ∨
    ∃ line ∈ fileLines al, ¬ ∃ x y : ℕ, x < (fileLines vl).length ∧ y < (fileLines vl).length ∧ NamesEdge line x y

/-- The constructor throws, does not call `atoi` without a token, and has added no edge but between the
vertices that its line names. -/
structure Rejected (h : Heap) (vl al : Option (List UInt8)) (vlLine alLine : Strtok) : Prop where
  throws : ∃ n e, (Graph.ofFiles n h vl al vlLine alLine).progress = .threw e
  token : ∀ n, (Graph.ofFiles n h vl al vlLine alLine).progress ≠ .nullToken
  named : ∀ n, ∀ edge ∈ (Graph.ofFiles n h vl al vlLine alLine).added,
    ∃ x y : ℕ, NamesEdge edge.1 x y ∧ edge.2.map (fun id => (UInt16.ofInt id).toNat) = [x, y]

/-! ### Neither loop returns -/

variable {body : Heap → Strtok → Except Fault (List ℤ × Heap × Strtok)}

variable (body) in
/-- What an iteration does: the body is executed, and ends or does not. -/
theorem LineLoop.iterate_running {s : LineLoop} (hrunning : s.status = .running)
    (hrest : ∀ line ∈ s.rest, line ≠ []) :
    ∃ buffer, (∃ f, body s.heap ⟨buffer, s.line.saved⟩ = .error f ∧
        s.iterate body = { s with rest := (getline s.rest s.line.line).2.1, status := .faulted f }) ∨
      ∃ numbers heap line, body s.heap ⟨buffer, s.line.saved⟩ = .ok (numbers, heap, line) ∧
        s.iterate body =
          ⟨(getline s.rest s.line.line).2.1, line, heap, s.bodies ++ [(cstr buffer, numbers)], .running⟩ := by
  have hbytes := getline_ne_zero hrest s.line.line
  refine ⟨(getline s.rest s.line.line).2.2, ?_⟩
  simp only [LineLoop.iterate, hrunning, if_neg hbytes]
  cases hbody : body s.heap ⟨(getline s.rest s.line.line).2.2, s.line.saved⟩ with
  | error f => exact Or.inl ⟨f, rfl, rfl⟩
  | ok r =>
    obtain ⟨numbers, heap, line⟩ := r
    exact Or.inr ⟨numbers, heap, line, rfl, rfl⟩

/-- A loop that does not run does nothing. -/
theorem LineLoop.iterate_of_not_running {s : LineLoop} (h : s.status ≠ .running) : s.iterate body = s := by
  rw [LineLoop.iterate]
  split
  · next hrunning => exact absurd hrunning h
  · rfl

/-- The loop is not at its end, and what `getline` will give it are lines. -/
structure LineLoop.Open (s : LineLoop) : Prop where
  status : s.status ≠ .returned
  rest : ∀ line ∈ s.rest, line ≠ []

theorem LineLoop.Open.start (file : List UInt8) (line : Strtok) (h : Heap) : (LineLoop.start file line h).Open :=
  ⟨by simp [LineLoop.start], fun _ hmem => ne_nil_of_mem_lines hmem⟩

theorem LineLoop.Open.iterate {s : LineLoop} (h : s.Open) : (s.iterate body).Open := by
  by_cases hrunning : s.status = .running
  · have hrest : ∀ line ∈ (getline s.rest s.line.line).2.1, line ≠ [] := fun line hmem =>
      h.rest line (mem_of_mem_getline hmem)
    obtain ⟨buffer, ⟨f, -, heq⟩ | ⟨numbers, heap, line, -, heq⟩⟩ :=
      LineLoop.iterate_running body hrunning h.rest
    · rw [heq]
      exact ⟨by simp, hrest⟩
    · rw [heq]
      exact ⟨by simp, hrest⟩
  · rw [LineLoop.iterate_of_not_running hrunning]
    exact h

variable (body) in
/-- **A loop does not come to its end**, however often it goes round. -/
theorem LineLoop.open_iterate (file : List UInt8) (line : Strtok) (h : Heap) (n : ℕ) :
    ((LineLoop.iterate body)^[n] (.start file line h)).Open :=
  Function.Iterate.rec LineLoop.Open (LineLoop.Open.start file line h) (fun _ ih => ih.iterate) n

/-- **No file makes either loop return**, after as many executions of its body as there are lines or
after any other number. -/
theorem never_readsAll (g : Graph) (h : Heap) (vl al : List UInt8) (vlLine alLine : Strtok) :
    ¬ ReadsAll g.vlBody vl vlLine h ∧ ¬ ReadsAll g.alBody al alLine h := by
  constructor
  · rintro ⟨n, hreturned, -⟩
    exact (LineLoop.open_iterate g.vlBody vl vlLine h n).status hreturned
  · rintro ⟨n, hreturned, -⟩
    exact (LineLoop.open_iterate g.alBody al alLine h n).status hreturned

/-- A line with the numbers 1, 2 and 3, which is read, and not at the end of the file. -/
theorem vertex_line_not_readsAll :
    IsVertexLine [49, 44, 50, 44, 51, 10] ∧
      ((LineLoop.iterate (Graph.vlBody ⟨0⟩))^[2] (.start [49, 44, 50, 44, 51, 10] ⟨[], 0⟩ ⟨0, [], [], [[]]⟩)).status =
        .faulted .nullToken ∧
      ¬ ReadsAll (Graph.vlBody ⟨0⟩) [49, 44, 50, 44, 51, 10] ⟨[], 0⟩ ⟨0, [], [], [[]]⟩ := by
  refine ⟨⟨[49], [50], [51], 1, 2, 3, ?_, ?_, ?_, Or.inr rfl⟩, by decide, ?_⟩
  · exact ⟨[49], by simp, List.forall_mem_singleton.mpr rfl, Or.inl ⟨Or.inl rfl, rfl⟩⟩
  · exact ⟨[50], by simp, List.forall_mem_singleton.mpr rfl, Or.inl ⟨Or.inl rfl, rfl⟩⟩
  · exact ⟨[51], by simp, List.forall_mem_singleton.mpr rfl, Or.inl ⟨Or.inl rfl, rfl⟩⟩
  · rintro ⟨n, hreturned, -⟩
    exact (LineLoop.open_iterate _ _ _ _ n).status hreturned

/-! ### Vertex lines -/

/-- **What the body of `parse_vl_file` has left in `line` it cannot read again**, for there is a NUL
behind its first number. -/
theorem Graph.vlBody_again {g : Graph} {h h' : Heap} {t t' : Strtok} {numbers : List ℤ}
    (hbody : g.vlBody h t = .ok (numbers, h', t')) (h'' : Heap) : g.vlBody h'' t' = .error .nullToken := by
  obtain ⟨x, t₁, y, t₂, z, h₁, h₂, h₃, -, -⟩ := Graph.vlBody_eq_ok_iff.mp hbody
  obtain ⟨p₁, hcall₁, -⟩ := nextInt_eq_ok_iff.mp h₁
  obtain ⟨p₂, hcall₂, -⟩ := nextInt_eq_ok_iff.mp h₂
  obtain ⟨p₃, hcall₃, -⟩ := nextInt_eq_ok_iff.mp h₃
  obtain ⟨htake₂, hle₂⟩ := Strtok.take_call hcall₂
  obtain ⟨htake₃, -⟩ := Strtok.take_call hcall₃
  rw [Option.getD_none] at htake₂ hle₂ htake₃
  have hkept : t'.line.take t₁.saved = t₁.line.take t₁.saved := by
    rw [← htake₂, ← Nat.min_eq_left hle₂, ← List.take_take, htake₃, List.take_take]
  obtain ⟨t'', hfirst, hnone⟩ := Strtok.call_again (by decide) hcall₁ hcall₂ hkept
  have hread : nextInt t' (some 0) = .ok (_, t'') := nextInt_eq_ok_iff.mpr ⟨p₁, hfirst, rfl⟩
  have hfault : nextInt t'' none = .error .nullToken := by
    rw [nextInt]
    split
    · rfl
    · next hsome =>
      rw [hsome] at hnone
      cases hnone
  simp only [Graph.vlBody, hread, hfault, bind, Except.bind]

/-- A number that was not read was no token. -/
theorem eq_nullToken_of_nextInt {t : Strtok} {s : Option ℕ} {f : Fault} (h : nextInt t s = .error f) :
    f = .nullToken := by
  rw [nextInt] at h
  split at h
  · exact (Except.error.inj h).symm
  · cases h

/-- The body of `parse_vl_file` has no other fault. -/
theorem Graph.fault_of_vlBody {g : Graph} {h : Heap} {t : Strtok} {f : Fault} (hbody : g.vlBody h t = .error f) :
    f = .nullToken := by
  rw [Graph.vlBody] at hbody
  cases hx : nextInt t (some 0) with
  | error e =>
    rw [hx] at hbody
    cases hbody
    exact eq_nullToken_of_nextInt hx
  | ok x =>
    obtain ⟨x, t₁⟩ := x
    cases hy : nextInt t₁ none with
    | error e =>
      simp only [hx, hy, bind, Except.bind] at hbody
      cases hbody
      exact eq_nullToken_of_nextInt hy
    | ok y =>
      obtain ⟨y, t₂⟩ := y
      cases hz : nextInt t₂ none with
      | error e =>
        simp only [hx, hy, hz, bind, Except.bind] at hbody
        cases hbody
        exact eq_nullToken_of_nextInt hz
      | ok z =>
        simp only [hx, hy, hz, bind, Except.bind] at hbody
        cases hbody

/-- A loop that has faulted stays where it is. -/
theorem LineLoop.iterate_faulted {s : LineLoop} {f : Fault}
    (h : s.status = .faulted f) (n : ℕ) : ((LineLoop.iterate body)^[n] s).status = .faulted f := by
  have hstays : s.iterate body = s := LineLoop.iterate_of_not_running (by simp [h])
  rw [Function.iterate_fixed hstays]
  exact h

/-- At the end of the file the body is executed at most once before it finds only what it has left. -/
theorem vlLoop_eof {g : Graph} {s : LineLoop} (hrunning : s.status = .running) (hrest : s.rest = []) :
    ((LineLoop.iterate g.vlBody)^[2] s).status = .faulted .nullToken := by
  have hlines : ∀ line ∈ s.rest, line ≠ [] := by simp [hrest]
  rw [Function.iterate_succ_apply]
  obtain ⟨buffer, ⟨f, hbody, heq⟩ | ⟨numbers, heap, line, hbody, heq⟩⟩ :=
    LineLoop.iterate_running g.vlBody hrunning hlines
  · rw [heq, Graph.fault_of_vlBody hbody]
    exact LineLoop.iterate_faulted rfl 1
  · -- the line that is left has been read
    have hfault := Graph.vlBody_again hbody heap
    rw [heq, hrest, Function.iterate_one]
    simp [LineLoop.iterate, getline, hfault]

/-- **`parse_vl_file` calls `atoi` without a token**: before the end of the file if a line has less than three,
and if not when it has come to its end, or once more after that if there were no lines. -/
theorem vlLoop_nullToken (g : Graph) (h : Heap) (file : List UInt8) (line : Strtok) :
    ((LineLoop.iterate g.vlBody)^[(lines file).length + 2] (.start file line h)).status = .faulted .nullToken := by
  suffices hloop : ∀ (rest : List (List UInt8)) (s : LineLoop), s.status = .running → s.rest = rest →
      (∀ line ∈ rest, line ≠ []) → ((LineLoop.iterate g.vlBody)^[rest.length + 2] s).status = .faulted .nullToken from
    hloop _ _ rfl rfl fun _ hmem => ne_nil_of_mem_lines hmem
  intro rest
  induction rest with
  | nil => exact fun s hrunning hrest _ => vlLoop_eof hrunning hrest
  | cons l rest ih =>
    intro s hrunning hrest hlines
    have hnext : (getline s.rest s.line.line).2.1 = rest := by rw [hrest, getline]
    rw [List.length_cons, Nat.add_right_comm, Function.iterate_succ_apply]
    obtain ⟨buffer, ⟨f, hbody, heq⟩ | ⟨numbers, heap, line, hbody, heq⟩⟩ :=
      LineLoop.iterate_running g.vlBody hrunning (hrest ▸ hlines)
    · rw [heq, Graph.fault_of_vlBody hbody]
      exact LineLoop.iterate_faulted rfl _
    · rw [heq, hnext]
      exact ih _ rfl rfl fun line hmem => hlines line (List.mem_cons_of_mem _ hmem)

/-! ### Edge lines -/

/-- **What the body of `parse_al_file` has left in `line` it reads again**, with the same edge. -/
theorem Graph.alBody_again {g : Graph} {h h' : Heap} {t t' : Strtok} {numbers : List ℤ}
    (hbody : g.alBody h t = .ok (numbers, h', t')) : ∃ h'', g.alBody h' t' = .ok (numbers, h'', t') := by
  obtain ⟨id₀, t₁, id₁, h₀, h₁, rfl, hadd⟩ := Graph.alBody_eq_ok_iff.mp hbody
  obtain ⟨p, hcall₀, rfl⟩ := nextInt_eq_ok_iff.mp h₀
  obtain ⟨q, hcall₁, rfl⟩ := nextInt_eq_ok_iff.mp h₁
  obtain ⟨t₂, hcall, hline, hrepeat⟩ := Strtok.call_repeat hcall₀
  rw [hcall₁] at hcall
  obtain ⟨hq, rfl⟩ := Prod.mk.inj hcall
  obtain rfl := Option.some.inj hq
  -- the first number is read twice now, as it was before
  have hread : nextInt t' (some 0) = .ok (atoi (t'.line.drop q), t') := nextInt_eq_ok_iff.mpr ⟨q, hrepeat, rfl⟩
  rw [← hline] at hadd ⊢
  have hat : ∀ id, g.at h' id = g.at h id := by
    intro id
    obtain ⟨lists, hlists⟩ :=
      g.addEdge_spec h (UInt16.ofInt (atoi (t'.line.drop q))) (UInt16.ofInt (atoi (t'.line.drop q)))
    rw [hadd, Option.getD_some] at hlists
    rw [hlists]
    rfl
  cases hadd' : g.addEdge h' (UInt16.ofInt (atoi (t'.line.drop q))) (UInt16.ofInt (atoi (t'.line.drop q))) with
  | some h'' => exact ⟨h'', Graph.alBody_eq_ok_iff.mpr ⟨_, t', _, hread, hread, rfl, hadd'⟩⟩
  | none =>
    cases hentry : g.at h (UInt16.ofInt (atoi (t'.line.drop q))) with
    | none => simp [Graph.addEdge, hentry] at hadd
    | some entry => simp [Graph.addEdge, hat, hentry] at hadd'

/-- At the end of the file `parse_al_file` goes on. -/
theorem alLoop_eof {g : Graph} {s : LineLoop} (hrunning : s.status = .running) (hrest : s.rest = []) {h : Heap}
    {t : Strtok} {numbers : List ℤ} (hbody : g.alBody h t = .ok (numbers, s.heap, s.line)) (n : ℕ) :
    ((LineLoop.iterate g.alBody)^[n] s).status = .running ∧
      ((LineLoop.iterate g.alBody)^[n] s).bodies.map Prod.snd = s.bodies.map Prod.snd ++ List.replicate n numbers := by
  induction n generalizing s h t with
  | zero => exact ⟨hrunning, by simp⟩
  | succ n ih =>
    obtain ⟨h'', hagain⟩ := Graph.alBody_again hbody
    have hiterate : s.iterate g.alBody =
        ⟨[], s.line, h'', s.bodies ++ [(cstr s.line.line, numbers)], .running⟩ := by
      simp [LineLoop.iterate, hrunning, hrest, getline, hagain]
    rw [Function.iterate_succ_apply, hiterate]
    obtain ⟨hstatus, hbodies⟩ :=
      ih (s := ⟨[], s.line, h'', s.bodies ++ [(cstr s.line.line, numbers)], .running⟩) rfl rfl hagain
    refine ⟨hstatus, ?_⟩
    rw [hbodies, List.map_append, List.append_assoc, List.replicate_succ]
    rfl

/-- A loop that still runs has read a line in each iteration, up to the last. -/
theorem LineLoop.rest_iterate {file : List UInt8} {line : Strtok} {h : Heap} {n : ℕ}
    (hrunning : ((LineLoop.iterate body)^[n] (.start file line h)).status = .running) :
    ((LineLoop.iterate body)^[n] (.start file line h)).rest = (lines file).drop n := by
  induction n with
  | zero => rfl
  | succ n ih =>
    rw [Function.iterate_succ_apply'] at hrunning ⊢
    by_cases hbefore : ((LineLoop.iterate body)^[n] (.start file line h)).status = .running
    · have hrest : ∀ buffer, (getline ((lines file).drop n) buffer).2.1 = (lines file).drop (n + 1) := by
        intro buffer
        rw [← List.drop_drop]
        cases (lines file).drop n <;> rfl
      obtain ⟨buffer, ⟨f, -, heq⟩ | ⟨numbers, heap, line', -, heq⟩⟩ :=
        LineLoop.iterate_running body hbefore (LineLoop.open_iterate body file line h n).rest
      · rw [heq] at hrunning
        cases hrunning
      · rw [heq]
        simp only [ih hbefore, hrest]
    · rw [LineLoop.iterate_of_not_running hbefore] at hrunning
      exact absurd hrunning hbefore

/-- **`parse_al_file` does not end either**, once it has read the lines of a file that has some: it adds the
edge of the last one again and again. -/
theorem alLoop_endless (g : Graph) (h : Heap) {file : List UInt8} (hfile : lines file ≠ []) (line : Strtok)
    {s : LineLoop} (hs : s = (LineLoop.iterate g.alBody)^[(lines file).length] (.start file line h))
    (hrunning : s.status = .running) :
    ∃ numbers, ∀ n, ((LineLoop.iterate g.alBody)^[n] s).status = .running ∧
      ((LineLoop.iterate g.alBody)^[n] s).bodies.map Prod.snd = s.bodies.map Prod.snd ++ List.replicate n numbers := by
  have hrest : s.rest = [] := by
    rw [hs] at hrunning ⊢
    rw [LineLoop.rest_iterate hrunning, List.drop_length]
  obtain ⟨k, hk⟩ := Nat.exists_eq_succ_of_ne_zero (List.length_pos_iff.mpr hfile).ne'
  rw [hk, Function.iterate_succ_apply'] at hs
  have hopen := LineLoop.open_iterate g.alBody file line h k
  generalize (LineLoop.iterate g.alBody)^[k] (.start file line h) = before at hs hopen
  by_cases hbefore : before.status = .running
  · obtain ⟨buffer, ⟨f, -, heq⟩ | ⟨numbers, heap, line', hbody, heq⟩⟩ :=
      LineLoop.iterate_running g.alBody hbefore hopen.rest
    · rw [hs, heq] at hrunning
      cases hrunning
    · have hlast : g.alBody before.heap ⟨buffer, before.line.saved⟩ = .ok (numbers, s.heap, s.line) := by
        rw [hbody, hs, heq]
      exact ⟨numbers, alLoop_eof hrunning hrest hlast⟩
  · rw [hs, LineLoop.iterate_of_not_running hbefore] at hrunning
    exact absurd hrunning hbefore

/-! ### Malformed files -/

/-- **Which files are rejected**: those of which the first cannot be opened. -/
theorem malformed_rejected_iff (h : Heap) (vl al : Option (List UInt8)) (vlLine alLine : Strtok) :
    (Malformed vl al → Rejected h vl al vlLine alLine) ↔ (Malformed vl al → vl = none) := by
  refine forall_congr' fun _ => ?_
  cases vl with
  | none => exact iff_of_true ⟨⟨0, _, rfl⟩, fun n => by simp [Graph.ofFiles], fun n => by simp [Graph.ofFiles]⟩ rfl
  | some vl =>
    refine iff_of_false (fun hrejected => ?_) (by simp)
    -- the vertex file takes the constructor to a call of `atoi` without a token
    refine hrejected.token ((lines vl).length + 2) ?_
    simp only [Graph.ofFiles, vlLoop_nullToken, LineLoop.progress]

/-- The line of a vertex has two commas. -/
theorem IsVertexLine.two_le_count {line : List UInt8} (h : IsVertexLine line) : 2 ≤ line.count 44 := by
  obtain ⟨a, b, c, -, -, -, -, -, -, rfl | rfl⟩ := h <;> simp only [List.count_append, List.count_cons_self] <;> omega

/-- Of a vertex file whose line has two numbers the third is asked of a null token. -/
theorem short_line_not_rejected :
    Malformed (some [49, 44, 50, 10]) (some []) ∧
      ¬ Rejected ⟨0, [], [], []⟩ (some [49, 44, 50, 10]) (some []) ⟨[], 0⟩ ⟨[], 0⟩ := by
  refine ⟨Or.inl ⟨[49, 44, 50, 10], by decide, fun h => ?_⟩, fun h => h.token 1 (by decide)⟩
  exact absurd h.two_le_count (by decide)

end Inferno.ServerAI
