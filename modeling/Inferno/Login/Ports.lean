import Inferno.Lib.Runs
import Mathlib.Data.Int.Order.Basic
import Mathlib.Data.List.Basic

/-!
# Secure ports

`LoginServer::login_user` and `LoginServer::recv_password` each begin by taking a
port from a counter, under a mutex, and sending it to the client. `LoginServer::start`
handles each connection in a forked child, so what a call takes its port from is the
copy of the counter that its child got from the parent. The parent never takes one.

A run is any interleaving of the parent and its children; a child goes from one
`Stage` to the next.

## What is proved

* `Advertises.eq` — every call of `login_user` advertises the same port, and so does
  every call of `recv_password`.
* `distinct_iff` — overlapping calls advertise different ports in exactly those runs in
  which no two overlapping calls get as far as advertising one.

## Scope

What a call does after it has sent its port, and the mutexes (a child has one thread),
are left out.
-/

namespace Inferno.Login

open Machine

/-- The members of `LoginServer` that ports are taken from. -/
structure Counters where
  nextRegistrationPort : ℤ
  nextLoginPort : ℤ
  deriving DecidableEq

/-- As the constructor sets them. -/
def Counters.constructed : Counters := ⟨13000, 14000⟩

/-- `next += 1; if(next <= 14000) next = 13000;`. -/
def advance (next : ℤ) : ℤ := if next + 1 ≤ 14000 then 13000 else next + 1

/-- The calls that take a port. -/
inductive Handler where
  | loginUser
  | recvPassword
  deriving DecidableEq

/-- The critical section: the port taken and the counters after it. -/
def Handler.takePort (c : Counters) : Handler → ℤ × Counters
  | .loginUser => (c.nextLoginPort, { c with nextLoginPort := advance c.nextLoginPort })
  | .recvPassword => (c.nextRegistrationPort, { c with nextRegistrationPort := advance c.nextRegistrationPort })

/-- The number the client is sent: `(short)std::stoi(addr)`. -/
def sslPort (addr : ℤ) : Int16 := Int16.ofInt addr

/-! ### The parent and its children -/

/-- How far a child is. -/
inductive Stage where
  /-- In `get_request_type`. -/
  | connected
  /-- In `signup_user`, which has not called `recv_password` yet. -/
  | signingUp
  /-- In a call that has not taken its port. -/
  | entered (h : Handler)
  /-- In a call that has taken its port and not sent it. -/
  | holding (h : Handler) (addr : ℤ)
  /-- In a call that has sent its port. -/
  | advertised (h : Handler) (addr : ℤ)
  /-- The call has returned, or there was none. -/
  | left
  deriving DecidableEq

/-- The call a child is in. -/
def Stage.call : Stage → Option Handler
  | .entered h | .holding h _ | .advertised h _ => some h
  | _ => none

/-- A child of `start`, with its own copy of the counters. -/
structure Child where
  server : Counters
  stage : Stage
  deriving DecidableEq

/-- What a child does next. -/
inductive Action where
  /-- `get_request_type` returns. -/
  | request (reqType : ℤ)
  /-- `signup_user` has the username, and calls `recv_password`. -/
  | username
  /-- A call goes through its critical section. -/
  | takePort
  /-- A call sends its port, and `send` returns `bytes`. -/
  | send (bytes : ℤ)
  /-- A call returns. -/
  | leave

/-- One step of a child. -/
def Child.step (c : Child) : Action → Option Child
  | .request reqType =>
    match c.stage with
    | .connected =>
      some { c with stage := if reqType = 0 then .entered .loginUser else if reqType = 1 then .signingUp else .left }
    | _ => none
  | .username =>
    match c.stage with
    | .signingUp => some { c with stage := .entered .recvPassword }
    | _ => none
  | .takePort =>
    match c.stage with
    | .entered h => some ⟨(h.takePort c.server).2, .holding h (h.takePort c.server).1⟩
    | _ => none
  | .send bytes =>
    match c.stage with
    | .holding h addr => some { c with stage := if bytes < 0 then .left else .advertised h addr }
    | _ => none
  | .leave =>
    match c.stage with
    | .advertised _ _ => some { c with stage := .left }
    | _ => none

/-- The process that runs `start`, and the children it has forked. -/
structure Processes where
  parent : Counters
  children : List Child

/-- What happens next. -/
inductive ForkEvent where
  /-- The parent goes through its loop; without a connection, or if `fork` fails, there is
  no child. -/
  | accept (forked : Bool)
  /-- The `i`-th child takes a step. -/
  | child (i : ℕ) (a : Action)

/-- One step of one of the processes. -/
def forkStep (s : Processes) : ForkEvent → Option Processes
  | .accept forked => some { s with children := s.children ++ if forked then [⟨s.parent, .connected⟩] else [] }
  | .child i a => do
    let c ← s.children[i]?
    let c' ← c.step a
    return { s with children := s.children.set i c' }

/-- `start`, before its first connection. -/
def Processes.start : Processes := ⟨.constructed, []⟩

/-- The state after some events. -/
abbrev runFork (es : List ForkEvent) : Option Processes := run forkStep .start es

/-- The `i`-th child is in a call. -/
def Processes.InCall (s : Processes) (i : ℕ) (h : Handler) : Prop := ∃ c ∈ s.children[i]?, c.stage.call = some h

/-- At some time in the run the `i`-th and the `j`-th child are both in a call. -/
def Overlap (es : List ForkEvent) (i j : ℕ) (h : Handler) : Prop :=
  ∃ pre post s, es = pre ++ post ∧ runFork pre = some s ∧ s.InCall i h ∧ s.InCall j h

/-- In the run the `i`-th child sends a port to its client. -/
def Advertises (es : List ForkEvent) (i : ℕ) (h : Handler) (port : Int16) : Prop :=
  ∃ pre bytes post s c addr, es = pre ++ .child i (.send bytes) :: post ∧ runFork pre = some s ∧
    s.children[i]? = some c ∧ c.stage = .holding h addr ∧ 0 ≤ bytes ∧ port = sslPort addr

/-- Calls that overlap never advertise the same port. -/
def Distinct (es : List ForkEvent) : Prop :=
  ∀ i j h p q, i ≠ j → Overlap es i j h → Advertises es i h p → Advertises es j h q → p ≠ q

/-- Of two calls that overlap at most one gets as far as advertising a port. -/
def OneAtATime (es : List ForkEvent) : Prop :=
  ∀ i j h p q, i ≠ j → Overlap es i j h → Advertises es i h p → ¬ Advertises es j h q

/-! ### The port a call advertises -/

/-- What every child keeps: until its call takes a port its counters are the parent's, and
the port is then the one they give. -/
def Child.Copied (c : Child) : Prop :=
  match c.stage with
  | .connected | .signingUp | .entered _ => c.server = .constructed
  | .holding h addr | .advertised h addr => addr = (h.takePort .constructed).1
  | .left => True

theorem Child.Copied.step {c c' : Child} {a : Action} (hc : c.Copied) (h : c.step a = some c') : c'.Copied := by
  obtain ⟨server, stage⟩ := c
  cases a with
  | request reqType =>
    cases stage <;> cases h
    simp only [Child.Copied] at hc ⊢
    split_ifs <;> trivial
  | username =>
    cases stage <;> cases h
    exact hc
  | takePort =>
    cases stage <;> cases h
    obtain rfl : server = .constructed := hc
    rfl
  | send bytes =>
    cases stage <;> cases h
    simp only [Child.Copied] at hc ⊢
    split_ifs <;> trivial
  | leave =>
    cases stage <;> cases h
    trivial

/-- **The counters never move for the next child**: the parent's stay as the constructor set
them, and every child has a copy of them. -/
theorem copied_of_run {es : List ForkEvent} {s : Processes} (h : runFork es = some s) :
    s.parent = .constructed ∧ ∀ c ∈ s.children, c.Copied := by
  refine run_history (P := fun _ s => s.parent = .constructed ∧ ∀ c ∈ s.children, c.Copied)
    ⟨rfl, by simp [Processes.start]⟩ ?_ h
  rintro es e s s' - ⟨hparent, hchildren⟩ hstep
  cases e with
  | accept forked =>
    cases hstep
    refine ⟨hparent, fun c hc => ?_⟩
    rcases List.mem_append.mp hc with hc | hc
    · exact hchildren c hc
    · cases forked with
      | false => simp at hc
      | true =>
        obtain rfl := List.mem_singleton.mp hc
        exact hparent
  | child i a =>
    simp only [forkStep, Option.bind_eq_bind, Option.bind_eq_some_iff] at hstep
    obtain ⟨c, hc, c', hc', hs'⟩ := hstep
    cases hs'
    refine ⟨hparent, fun x hx => ?_⟩
    rcases List.mem_or_eq_of_mem_set hx with hx | rfl
    · exact hchildren x hx
    · exact (hchildren c (List.mem_of_getElem? hc)).step hc'

/-- **Every call advertises the port the constructor's counters give.** -/
theorem Advertises.eq {es : List ForkEvent} {i : ℕ} {h : Handler} {port : Int16} (ha : Advertises es i h port) :
    port = sslPort (h.takePort .constructed).1 := by
  obtain ⟨pre, bytes, post, s, c, addr, -, hrun, hc, hstage, -, rfl⟩ := ha
  have hcopied := (copied_of_run hrun).2 c (List.mem_of_getElem? hc)
  rw [Child.Copied, hstage] at hcopied
  rw [hcopied]

/-- **When overlapping calls advertise different ports.** -/
theorem distinct_iff (es : List ForkEvent) : Distinct es ↔ OneAtATime es := by
  constructor
  · intro hd i j h p q hij hover hp hq
    exact hd i j h p q hij hover hp hq (hp.eq.trans hq.eq.symm)
  · intro ho i j h p q hij hover hp hq
    exact absurd hq (ho i j h p q hij hover hp)

/-- Two clients log in at the same time, and both are sent port 14000. -/
theorem both_sent_14000 :
    ¬ Distinct [.accept true, .accept true, .child 0 (.request 0), .child 1 (.request 0), .child 0 .takePort,
      .child 1 .takePort, .child 0 (.send 2), .child 1 (.send 2)] := by
  intro h
  refine h 0 1 .loginUser 14000 14000 (by decide) ?_ ?_ ?_ rfl
  · exact ⟨[.accept true, .accept true, .child 0 (.request 0), .child 1 (.request 0)], _, _, rfl, rfl,
      ⟨_, rfl, rfl⟩, ⟨_, rfl, rfl⟩⟩
  · exact ⟨[.accept true, .accept true, .child 0 (.request 0), .child 1 (.request 0), .child 0 .takePort,
      .child 1 .takePort], 2, _, _, _, 14000, rfl, rfl, rfl, rfl, by decide, by decide⟩
  · exact ⟨[.accept true, .accept true, .child 0 (.request 0), .child 1 (.request 0), .child 0 .takePort,
      .child 1 .takePort, .child 0 (.send 2)], 2, _, _, _, 14000, rfl, rfl, rfl, rfl, by decide, by decide⟩

end Inferno.Login
