import Inferno.Login.ServiceLoop
import Mathlib.Data.List.Basic

/-!
# The accept loop

`LoginServer::start` in the parent, with the children that it forks. A child gets a copy of every
descriptor that the parent has open. It closes its copy of `data_conn` when it has served the
client, and the rest when it ends; the parent goes on to the next `accept` and closes nothing. A
client sees the end of its connection when no process has it open any more.

A run is any order of the parent's iterations and its children's steps, whatever `accept` and `fork`
return.

## What is proved

* `AcceptLoop.not_ended` — the parent holds every connection that it has accepted, so no client sees
  the end of its own.
* `tidy_iff_refused` — the parent holds no connection after an iteration, and a client whose child
  has ended sees the end, in exactly the runs in which no `accept` succeeds.
-/

namespace Inferno.Login

open Machine

/-- A connection that a process has open: the descriptor, and how many were accepted before it. -/
structure Conn where
  descriptor : ℤ
  number : ℕ
  deriving DecidableEq, Repr

/-- The process has ended. -/
def ServiceChild.Ended (c : ServiceChild) : Prop := c.place = .exited ∨ c.place = .terminated

instance (c : ServiceChild) : Decidable c.Ended := inferInstanceAs (Decidable (_ ∨ _))

/-- A child as a process: `data_conn`, what it does, and the connections that it has open. -/
structure Forked where
  dataConn : Conn
  child : ServiceChild
  conns : List Conn

/-- What is left open, of the connections of a child that has come to `child`. -/
def Forked.left (f : Forked) (child : ServiceChild) : List Conn :=
  if child.Ended then []
  else if child.dataConn then f.conns
  else f.conns.filter (·.descriptor ≠ f.dataConn.descriptor)

/-- One step of a child. -/
def Forked.step (f : Forked) (e : ServiceStep) : Option Forked :=
  (f.child.step e).map fun child => { f with child := child, conns := f.left child }

/-- The parent and its children. -/
structure AcceptLoop where
  /-- Open in the parent. -/
  conns : List Conn
  accepted : ℕ
  children : List Forked

/-- The loop is entered. -/
def AcceptLoop.start : AcceptLoop := ⟨[], 0, []⟩

/-- What happens next. -/
inductive AcceptEvent where
  /-- An iteration of the parent: what `accept` returns, and whether `fork` makes a child. -/
  | iteration (dataConn : ℤ) (forked : Bool)
  /-- The `i`-th child goes on. -/
  | child (i : ℕ) (e : ServiceStep)

/-- One event. `accept` returns `-1` or a descriptor that is not in use. -/
def AcceptLoop.step (s : AcceptLoop) : AcceptEvent → Option AcceptLoop
  | .iteration dataConn forked =>
    if dataConn = -1 then some s
    else if dataConn < 0 ∨ dataConn ∈ s.conns.map Conn.descriptor then none
    else
      let conn : Conn := ⟨dataConn, s.accepted⟩
      let conns := s.conns ++ [conn]
      some ⟨conns, s.accepted + 1, if forked then s.children ++ [⟨conn, .start, conns⟩] else s.children⟩
  | .child i e =>
    match s.children[i]? with
    | none => none
    | some f => (f.step e).map fun f' => { s with children := s.children.set i f' }

/-- No process has the connection open. -/
def AcceptLoop.Ended (s : AcceptLoop) (number : ℕ) : Prop :=
  (∀ c ∈ s.conns, c.number ≠ number) ∧ ∀ f ∈ s.children, ∀ c ∈ f.conns, c.number ≠ number

/-- The parent has no connection open, and a client whose child has ended sees the end. -/
structure AcceptLoop.Tidy (s : AcceptLoop) : Prop where
  parent : s.conns = []
  client : ∀ f ∈ s.children, f.child.Ended → s.Ended f.dataConn.number

/-- If `accept` is called, it fails. -/
def Refused (_ : AcceptLoop) : AcceptEvent → Prop
  | .iteration dataConn _ => dataConn = -1
  | .child _ _ => True

/-! ### What the parent holds -/

/-- The parent holds all that it has accepted, and its children serve nothing else. -/
structure AcceptLoop.Sound (s : AcceptLoop) : Prop where
  conns : s.conns.map Conn.number = List.range s.accepted
  children : ∀ f ∈ s.children, f.dataConn ∈ s.conns

theorem AcceptLoop.Sound.start : AcceptLoop.start.Sound := ⟨rfl, by simp [AcceptLoop.start]⟩

/-- **What can happen**: nothing, one more connection, or a step of a child. -/
theorem AcceptLoop.step_cases {s s' : AcceptLoop} {a : AcceptEvent} (h : s.step a = some s') :
    (∃ forked, a = .iteration (-1) forked) ∧ s' = s ∨
    (∃ dataConn forked, a = .iteration dataConn forked ∧ dataConn ≠ -1 ∧
      s'.conns = s.conns ++ [⟨dataConn, s.accepted⟩] ∧ s'.accepted = s.accepted + 1 ∧
      ∀ f ∈ s'.children, f ∈ s.children ∨ f.dataConn = ⟨dataConn, s.accepted⟩) ∨
    ∃ i e f f', a = .child i e ∧ f ∈ s.children ∧ f'.dataConn = f.dataConn ∧
      s' = { s with children := s.children.set i f' } := by
  cases a with
  | iteration dataConn forked =>
    simp only [AcceptLoop.step] at h
    split_ifs at h with hfailed hused hforked
    · subst hfailed
      exact Or.inl ⟨⟨forked, rfl⟩, (Option.some.inj h).symm⟩
    · obtain rfl := Option.some.inj h
      refine Or.inr (Or.inl ⟨dataConn, forked, rfl, hfailed, rfl, rfl, fun f hf => ?_⟩)
      rcases List.mem_append.mp hf with hf | hf
      · exact Or.inl hf
      · exact Or.inr (by rw [List.mem_singleton.mp hf])
    · obtain rfl := Option.some.inj h
      exact Or.inr (Or.inl ⟨dataConn, forked, rfl, hfailed, rfl, rfl, fun f hf => Or.inl hf⟩)
  | child i e =>
    simp only [AcceptLoop.step] at h
    cases hf : s.children[i]? with
    | none => simp [hf] at h
    | some f =>
      simp only [hf, Option.map_eq_some_iff, Forked.step] at h
      obtain ⟨f', ⟨child, -, rfl⟩, rfl⟩ := h
      exact Or.inr (Or.inr ⟨i, e, f, { f with child := child, conns := f.left child }, rfl,
        List.mem_of_getElem? hf, rfl, rfl⟩)

theorem AcceptLoop.Sound.step {s s' : AcceptLoop} {a : AcceptEvent} (hs : s.Sound) (h : s.step a = some s') :
    s'.Sound := by
  rcases step_cases h with ⟨-, rfl⟩ | ⟨dataConn, forked, -, -, hconns, haccepted, hchildren⟩ |
    ⟨i, e, f, f', -, hf, hdata, rfl⟩
  · exact hs
  · constructor
    · rw [hconns, haccepted, List.map_append, hs.conns, List.range_succ]
      rfl
    · intro f hf
      rw [hconns, List.mem_append]
      rcases hchildren f hf with hf | hf
      · exact Or.inl (hs.children f hf)
      · exact Or.inr (List.mem_singleton.mpr hf)
  · refine ⟨hs.conns, fun g hg => ?_⟩
    rcases List.mem_or_eq_of_mem_set hg with hg | rfl
    · exact hs.children g hg
    · rw [hdata]
      exact hs.children f hf

/-- **No client sees the end of its connection**, whether or not its child has ended. -/
theorem AcceptLoop.not_ended {as : List AcceptEvent} {s : AcceptLoop} (h : run AcceptLoop.step .start as = some s)
    {number : ℕ} (hnumber : number < s.accepted) : ¬ s.Ended number := by
  have hs : s.Sound := run_history (P := fun _ s => s.Sound) .start (fun _ _ _ _ _ hs hstep => hs.step hstep) h
  rintro ⟨hparent, -⟩
  obtain ⟨c, hc, rfl⟩ : ∃ c ∈ s.conns, c.number = number := by
    rw [← List.mem_map, hs.conns]
    exact List.mem_range.mpr hnumber
  exact hparent c hc rfl

/-! ### When it holds nothing -/

/-- Nothing is open if nothing was accepted. -/
theorem AcceptLoop.Sound.tidy_iff {s : AcceptLoop} (hs : s.Sound) : s.Tidy ↔ s.accepted = 0 := by
  constructor
  · intro h
    have hrange := hs.conns
    rw [h.parent] at hrange
    exact List.range_eq_nil.mp hrange.symm
  · intro h
    have hconns : s.conns = [] := by
      rw [← List.map_eq_nil_iff, hs.conns, h, List.range_zero]
    refine ⟨hconns, fun f hf => ?_⟩
    have hmem := hs.children f hf
    simp [hconns] at hmem

/-- What an event does to the number of connections. -/
theorem AcceptLoop.accepted_step {s s' : AcceptLoop} {a : AcceptEvent} (h : s.step a = some s')
    (hs : s.accepted = 0) : s'.accepted = 0 ↔ Refused s a := by
  rcases step_cases h with ⟨⟨forked, rfl⟩, rfl⟩ | ⟨dataConn, forked, rfl, hfailed, -, haccepted, -⟩ |
    ⟨i, e, f, f', rfl, -, -, rfl⟩
  · exact iff_of_true hs rfl
  · exact iff_of_false (by omega) hfailed
  · exact iff_of_true hs trivial

/-- **When the parent holds no connection**: when it never accepts one. -/
theorem tidy_iff_refused {as : List AcceptEvent} {s : AcceptLoop} (h : run AcceptLoop.step .start as = some s) :
    EachState AcceptLoop.step AcceptLoop.Tidy .start as ↔ EachStep AcceptLoop.step Refused .start as := by
  apply eachState_iff_eachStep (I := AcceptLoop.Sound) .start _ _ _ h
  · exact AcceptLoop.Sound.start.tidy_iff.mpr rfl
  · exact fun s a s' hs hstep => hs.step hstep
  · intro s a s' hs htidy hstep
    rw [(hs.step hstep).tidy_iff]
    exact AcceptLoop.accepted_step hstep (hs.tidy_iff.mp htidy)

/-- An `accept` fails, and the next does not. -/
theorem tidy_iff_refused_twice :
    EachState AcceptLoop.step AcceptLoop.Tidy .start [.iteration (-1) false, .iteration 4 true] ↔
      EachStep AcceptLoop.step Refused .start [.iteration (-1) false, .iteration 4 true] :=
  tidy_iff_refused (s := ⟨[⟨4, 0⟩], 1, [⟨⟨4, 0⟩, .start, [⟨4, 0⟩]⟩]⟩) rfl

/-- A child signs its client up, closes the connection and exits. The parent has it open, and the
client waits. -/
theorem client_waits :
    ∃ as s, run AcceptLoop.step .start as = some s ∧ (∃ f ∈ s.children, f.child.place = .exited ∧ f.conns = []) ∧
      s.conns = [⟨4, 0⟩] ∧ ¬ EachState AcceptLoop.step AcceptLoop.Tidy .start as := by
  let as : List AcceptEvent :=
    [.iteration 4 true, .child 0 (.request [0, 0] (.data [0, 1]) 2), .child 0 (.routine (.returned true)),
      .child 0 .close, .child 0 .exit]
  have hrun : run AcceptLoop.step .start as =
      some ⟨[⟨4, 0⟩], 1, [⟨⟨4, 0⟩, ⟨.exited, [.signupUser], false⟩, []⟩]⟩ := rfl
  refine ⟨as, _, hrun, ⟨_, List.mem_singleton_self _, rfl, rfl⟩, rfl, fun htidy => ?_⟩
  have hparent := (htidy as [] _ (List.append_nil as).symm hrun).parent
  cases hparent

end Inferno.Login
