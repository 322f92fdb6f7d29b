import Inferno.Lib.Runs
import Mathlib.Data.Finset.Insert

/-!
# The port registry

`Socket::open_ports`, the static set of the ports that sockets have taken. It is changed
in one place, the constructors of the base class `Socket`, before the derived class's
constructor tries to initialize the socket. When that fails, the constructor throws; when
a socket is done with, its destructor closes it. Neither touches the set.

## What is proved

* `exact_iff` — the registry is exactly the ports in use in all states of those runs in which no
  socket fails to initialize once its port is taken, and none is destroyed.

## Scope

What `initialize_server` and `initialize_client` do is not modelled here, only whether they
succeed.
-/

namespace Inferno.Sockets

open Machine

/-- `enum errorcode`, as far as constructors throw it. -/
inductive ErrorCode where
  | portException
  | initializeException
  deriving DecidableEq, Repr

/-- `enum init_code`. The constructor that is given a hostname initializes as a client. -/
inductive InitCode where
  | initAsServer
  | initAsClient
  deriving DecidableEq, Repr

/-- The concrete classes. `Unreliable_UDP_Socket`'s constructors are `UDP_Socket`'s. -/
inductive Kind where
  | unreliableUDPSocket
  | secureSocket
  deriving DecidableEq, Repr

/-- What the routines that `initialize` calls return. -/
structure InitResults where
  sslInitialize : Bool
  initializeServer : Bool
  initializeClient : Bool
  deriving DecidableEq, Repr

/-- `initialize`, of either class. -/
def Kind.initialize (kind : Kind) (code : InitCode) (r : InitResults) : Bool :=
  let opened := match code with
    | .initAsServer => r.initializeServer
    | .initAsClient => r.initializeClient
  match kind with
  | .unreliableUDPSocket => opened
  | .secureSocket => r.sslInitialize && opened

/-- `Socket::is_port_available`. -/
def isPortAvailable (openPorts : Finset UInt16) (reqPort : UInt16) : Bool :=
  if reqPort ∈ openPorts then false else true

/-- The two constructors of `Socket`: the set they leave, or what they throw before they change
it. -/
def Socket.construct (openPorts : Finset UInt16) (reqPort : UInt16) : Except ErrorCode (Finset UInt16) :=
  if reqPort ∈ openPorts ∨ reqPort < 1000 then .error .portException else .ok (insert reqPort openPorts)

/-- The constructors of the concrete classes: the set they leave, and what they throw, if
anything. -/
def Kind.construct (kind : Kind) (openPorts : Finset UInt16) (code : InitCode) (reqPort : UInt16)
    (r : InitResults) : Finset UInt16 × Option ErrorCode :=
  match Socket.construct openPorts reqPort with
  | .error e => (openPorts, some e)
  | .ok openPorts => if kind.initialize code r then (openPorts, none) else (openPorts, some .initializeException)

/-- The registry, and the ports of the sockets whose constructors have returned, `none` for one
that has been destroyed since. -/
structure Registry where
  openPorts : Finset UInt16
  sockets : List (Option UInt16)

/-- Before `main`. -/
def Registry.start : Registry := ⟨∅, []⟩

/-- What a program does. -/
inductive Event where
  | construct (kind : Kind) (code : InitCode) (reqPort : UInt16) (r : InitResults)
  /-- The `i`-th socket is destroyed. -/
  | destroy (i : ℕ)

/-- One event; a socket is destroyed once. -/
def step (s : Registry) : Event → Option Registry
  | .construct kind code reqPort r =>
    match kind.construct s.openPorts code reqPort r with
    | (openPorts, none) => some ⟨openPorts, s.sockets ++ [some reqPort]⟩
    | (openPorts, some _) => some ⟨openPorts, s.sockets⟩
  | .destroy i =>
    match s.sockets[i]? with
    | some (some _) => some { s with sockets := s.sockets.set i none }
    | _ => none

/-- A port is unavailable exactly if there is a socket with it. -/
def Registry.Exact (s : Registry) : Prop := ∀ p, isPortAvailable s.openPorts p = false ↔ some p ∈ s.sockets

/-- A constructor that takes the port succeeds, and nothing is destroyed. -/
def Keeps (s : Registry) : Event → Prop
  | .construct kind code reqPort r => reqPort ∈ s.openPorts ∨ reqPort < 1000 ∨ kind.initialize code r
  | .destroy _ => False

/-- What a constructor does: it throws and leaves everything as it was, or it takes the port, and
then there is a socket, or not. -/
theorem step_construct {s s' : Registry} {kind : Kind} {code : InitCode} {p : UInt16} {r : InitResults}
    (h : step s (.construct kind code p r) = some s') :
    (p ∈ s.openPorts ∨ p < 1000) ∧ s' = s ∨
      ¬ (p ∈ s.openPorts ∨ p < 1000) ∧
        s' = ⟨insert p s.openPorts, s.sockets ++ if kind.initialize code r then [some p] else []⟩ := by
  simp only [step, Kind.construct, Socket.construct] at h
  by_cases htaken : p ∈ s.openPorts ∨ p < 1000
  · rw [if_pos htaken] at h
    cases h
    exact Or.inl ⟨htaken, rfl⟩
  · rw [if_neg htaken] at h
    refine Or.inr ⟨htaken, ?_⟩
    by_cases hinit : kind.initialize code r = true
    · simp only [hinit, if_true] at h ⊢
      cases h
      rfl
    · simp only [hinit] at h ⊢
      cases h
      simp

/-- What a destructor does. -/
theorem step_destroy {s s' : Registry} {i : ℕ} (h : step s (.destroy i) = some s') :
    ∃ p, s.sockets[i]? = some (some p) ∧ s' = { s with sockets := s.sockets.set i none } := by
  simp only [step] at h
  split at h
  · next p hp =>
    cases h
    exact ⟨p, hp, rfl⟩
  · cases h

/-- No two sockets have one port, and every socket's is in the registry. -/
def Registry.Sound (s : Registry) : Prop := ∀ p, s.sockets.count (some p) ≤ if p ∈ s.openPorts then 1 else 0

/-- After a socket is destroyed there is one fewer with its port. -/
theorem count_destroy {s : Registry} {i : ℕ} {p : UInt16} (hp : s.sockets[i]? = some (some p)) (q : UInt16) :
    (s.sockets.set i none).count (some q) = s.sockets.count (some q) - if p = q then 1 else 0 := by
  obtain ⟨hi, hget⟩ := List.getElem?_eq_some_iff.mp hp
  rw [List.count_set hi, hget]
  simp

theorem Registry.Sound.step {s s' : Registry} {e : Event} (hs : s.Sound) (h : step s e = some s') : s'.Sound := by
  intro q
  have hq := hs q
  cases e with
  | construct kind code p r =>
    rcases step_construct h with ⟨-, rfl⟩ | ⟨htaken, rfl⟩
    · exact hq
    · have hnew : p ∉ s.openPorts := fun hp => htaken (Or.inl hp)
      have hcount : (if kind.initialize code r then [some p] else []).count (some q) ≤ if q = p then 1 else 0 := by
        split_ifs with hinit hqp
        · simp [hqp]
        · simp [Ne.symm hqp]
        · simp
        · simp
      rw [List.count_append]
      by_cases hqp : q = p
      · subst hqp
        rw [if_neg hnew] at hq
        rw [if_pos rfl] at hcount
        rw [if_pos (Finset.mem_insert_self _ _)]
        omega
      · rw [if_neg hqp] at hcount
        simp only [Finset.mem_insert, hqp, false_or]
        omega
  | destroy i =>
    obtain ⟨p, hp, rfl⟩ := step_destroy h
    rw [count_destroy hp q]
    exact (Nat.sub_le _ _).trans hq

/-- **In every state of a run the registry has every socket's port, and each once.** -/
theorem Registry.Sound.of_run {es : List Event} {s : Registry} (h : run Sockets.step .start es = some s) : s.Sound :=
  run_history (P := fun _ s => s.Sound) (fun p => by simp [Registry.start]) (fun _ _ _ _ _ ih hstep => ih.step hstep) h

/-- Exactness, in terms of the set. -/
theorem Registry.exact_iff_mem {s : Registry} : s.Exact ↔ ∀ p, p ∈ s.openPorts ↔ some p ∈ s.sockets := by
  refine forall_congr' fun p => ?_
  rw [isPortAvailable]
  split_ifs with hp <;> simp [hp]

/-- A step leaves the registry exact if it keeps it. -/
theorem exact_step_iff {s s' : Registry} {e : Event} (hs : s.Sound) (hexact : s.Exact) (h : step s e = some s') :
    s'.Exact ↔ Keeps s e := by
  rw [Registry.exact_iff_mem] at hexact ⊢
  cases e with
  | construct kind code p r =>
    rcases step_construct h with ⟨htaken, rfl⟩ | ⟨htaken, rfl⟩
    · exact iff_of_true hexact (htaken.elim Or.inl fun hp => Or.inr (Or.inl hp))
    · by_cases hinit : kind.initialize code r = true
      · refine iff_of_true (fun q => ?_) (Or.inr (Or.inr hinit))
        simp [hinit, hexact q, or_comm]
      · refine iff_of_false (fun hall => ?_) ?_
        · have hp := (hall p).mp (Finset.mem_insert_self _ _)
          simp only [hinit] at hp
          exact htaken (Or.inl ((hexact p).mpr (by simpa using hp)))
        · rintro (hp | hp | hp)
          · exact htaken (Or.inl hp)
          · exact htaken (Or.inr hp)
          · exact hinit hp
  | destroy i =>
    obtain ⟨p, hp, rfl⟩ := step_destroy h
    refine iff_of_false (fun hall => ?_) id
    -- the port is in the registry, and the only socket that had it is gone
    have hopen : p ∈ s.openPorts := (hexact p).mpr (List.mem_of_getElem? hp)
    have hmem := List.count_pos_iff.mpr ((hall p).mp hopen)
    have hone := hs p
    rw [if_pos hopen] at hone
    rw [count_destroy hp p, if_pos rfl] at hmem
    omega

/-- **When the registry is exact**: as long as no socket fails to initialize once it has its
port, and none is destroyed. -/
theorem exact_iff {es : List Event} {s : Registry} (h : run Sockets.step .start es = some s) :
    EachState step Registry.Exact .start es ↔ EachStep step Keeps .start es := by
  apply eachState_iff_eachStep (I := Registry.Sound) _ _ _ _ h
  · exact fun p => by simp [Registry.start]
  · exact fun p => by simp [Registry.start, isPortAvailable]
  · exact fun s e s' hs hstep => hs.step hstep
  · exact fun s e s' hs hexact hstep => exact_step_iff hs hexact hstep

/-- Two sockets are constructed, and a third that asks for the port of the first throws. -/
theorem exact_of_two_sockets :
    EachState step Registry.Exact .start
        [.construct .unreliableUDPSocket .initAsServer 8000 ⟨true, true, true⟩,
          .construct .secureSocket .initAsClient 8001 ⟨true, true, true⟩,
          .construct .secureSocket .initAsServer 8000 ⟨true, true, true⟩] ↔
      EachStep step Keeps .start
        [.construct .unreliableUDPSocket .initAsServer 8000 ⟨true, true, true⟩,
          .construct .secureSocket .initAsClient 8001 ⟨true, true, true⟩,
          .construct .secureSocket .initAsServer 8000 ⟨true, true, true⟩] :=
  exact_iff rfl

/-- A socket is constructed with port 8000 and destroyed, and the port stays unavailable. -/
theorem port_not_released :
    ¬ EachState step Registry.Exact .start
        [.construct .unreliableUDPSocket .initAsServer 8000 ⟨true, true, true⟩, .destroy 0] := by
  intro h
  have hexact := h _ [] _ (List.append_nil _).symm rfl
  exact absurd ((hexact 8000).mp (by decide)) (by decide)

end Inferno.Sockets
