import Inferno.Lib.HeapList
import Inferno.Lib.SysResults
import Mathlib.Tactic.SplitIfs

/-!
# Stream sockets

`LoginServer::initialize` and `Session::start`, which open the sockets that the login server and a chat session accept
connections on, and `setup_TCP_connection`, which opens one to a server. All go through a list of addresses, as
the datagram sockets do, until they have a socket that they can use. A server asks for its address to be reusable
first, and if that fails it returns from the middle of the loop.

## What is proved

* `streams_tidy_iff` — `initialize` frees its list, leaves no socket open but one that it has bound, and finds
  that one if there is one, exactly if no `setsockopt` fails; so does `start`, if `listen` does not fail either;
  and `setup_TCP_connection` exactly if it gets no list, or comes to a connection.

## Scope

As for the datagram sockets, an address is what comes of trying it. What is printed is left out.
-/

namespace Inferno.Sockets.Stream

open HeapList SysResults

/-- A `struct addrinfo`, with what comes of it when it is tried. -/
structure Address where
  /-- What `socket` returns, if not `-1`. -/
  descriptor : Option ℕ
  /-- Whether `setsockopt` succeeds. -/
  reuses : Bool
  /-- Whether `bind` succeeds, or `connect`. -/
  attaches : Bool
  deriving DecidableEq, Repr

/-- What `socket` returns. -/
def Address.socketResult (a : Address) : ℤ := descriptorResult a.descriptor

/-- The calls that concern descriptors. -/
inductive Call where
  | socket (a : Address)
  | setsockopt (fd : ℤ)
  | bind (fd : ℤ)
  | connect (fd : ℤ)
  | listen (fd : ℤ)
  | close (fd : ℤ)
  deriving DecidableEq, Repr

/-- The descriptors that are open after a call, of those that `socket` has given. -/
def Call.leaves (opened : List ℤ) : Call → List ℤ
  | .socket a => if a.descriptor.isSome then opened ++ [a.socketResult] else opened
  | .close fd => opened.erase fd
  | _ => opened

/-- What a routine keeps beside its socket. -/
structure Kept where
  /-- What was put in `*conn`. -/
  conn : Option ℤ
  /-- It has returned from the middle of the loop. -/
  returned : Bool

/-- `sock`, or the member `conn_socket`, and what has been called. -/
abbrev Attempt : Type := SysResults.Attempt Call Kept

/-- Nothing has been called yet; `sock` is what is in the variable. -/
def Attempt.start (sock : ℤ) : Attempt := ⟨sock, ⟨none, false⟩, []⟩

/-- `sock = socket(…)`. -/
def Attempt.socket (v : Attempt) (a : Address) : Attempt := v.assign (.socket a) a.descriptor

/-- The descriptors that are open. -/
def Attempt.opened (v : Attempt) : List ℤ := v.calls.foldl Call.leaves []

/-- A routine on its way. -/
abbrev Routine : Type := State Address Attempt

/-- The loop body of a server: whether it breaks out of the loop, or returns. `failed` is how it tests a result. -/
def serverBody (failed : ℤ → Bool) (s : Routine) (a : Address) : Except Fault (Bool × Routine) :=
  let v := s.vars.socket a
  if failed v.sock then .ok (false, { s with vars := v })
  else
    let v := v.call (.setsockopt v.sock)
    if failed (result a.reuses) then .ok (true, { s with vars := { v with kept.returned := true } })
    else
      let v := v.call (.bind v.sock)
      if failed (result a.attaches) then .ok (false, { s with vars := v.call (.close v.sock) })
      else .ok (true, { s with vars := v })

/-- `LoginServer::initialize`; `info` is what `getaddrinfo` gives. -/
def loginServerInitialize (sock : ℤ) (info : Option (List Address)) : Except Fault (Bool × Routine) :=
  let s := State.start info (.start sock)
  match info with
  | none => .ok (false, s)
  | some availableAddrs => do
    let (i, s) ← walk (serverBody fun errval => errval = -1) s availableAddrs
    if s.vars.kept.returned then return (false, s)
    let s ← s.free
    if i.isEmpty then return (false, s) else return (true, s)

/-- `Session::start`, up to `enter_main_loop`: whether it comes there. -/
def Session.start (connSocket : ℤ) (info : Option (List Address)) (listens : Bool) : Except Fault (Bool × Routine) :=
  let s := State.start info (.start connSocket)
  match info with
  | none => .ok (false, s)
  | some serverinfo => do
    let (i, s) ← walk (serverBody fun errval => errval < 0) s serverinfo
    if s.vars.kept.returned then return (false, s)
    let s ← s.free
    if i.isEmpty then return (false, s)
    let s := { s with vars := s.vars.call (.listen s.vars.sock) }
    if result listens < 0 then return (false, s)
    return (true, s)

/-- The loop body of `setup_TCP_connection`. -/
def clientBody (s : Routine) (a : Address) : Except Fault (Bool × Routine) :=
  let v := s.vars.socket a
  if v.sock = -1 then .ok (false, { s with vars := v })
  else
    let v := v.call (.connect v.sock)
    if result a.attaches = -1 then .ok (false, { s with vars := v.call (.close v.sock) })
    else .ok (true, { s with vars := v })

/-- `setup_TCP_connection`; `sock` is what is in its local variable. -/
def setupTCPConnection (sock : ℤ) (info : Option (List Address)) : Except Fault (Bool × Routine) :=
  let s := State.start info (.start sock)
  match info with
  | none => .ok (false, s)
  | some serverinfo => do
    let (i, s) ← walk clientBody s serverinfo
    if i.isEmpty then return (false, s)
    -- `inet_ntop(i->ai_family, …)`
    let _ ← s.read i
    let s ← s.free
    return (true, { s with vars := { s.vars with kept.conn := some s.vars.sock } })

/-- A routine is tidy: it ends without a fault, frees the list that it obtained, succeeds if there is an address to be
`found`, and keeps the socket for that open and no other. -/
def Tidy (found : Option Address) (info : Option (List Address)) (outcome : Except Fault (Bool × Routine)) : Prop :=
  ∃ success s, outcome = .ok (success, s) ∧ s.freed = info.isSome ∧ success = found.isSome ∧
    s.vars.opened = found.toList.map Address.socketResult ∧ ∀ a, found = some a → s.vars.sock = a.socketResult

/-- A server can use it. -/
def Address.usable (a : Address) : Bool := a.descriptor.isSome && a.reuses && a.attaches

/-- A server tries no address behind it. -/
def Address.decides (a : Address) : Bool := a.descriptor.isSome && (!a.reuses || a.attaches)

/-- `setsockopt` does not fail for the address at which a server stops. -/
def Reuses (info : Option (List Address)) : Prop :=
  ∀ a, (info.getD []).find? Address.decides = some a → a.reuses

/-- A client can use it. -/
def Address.connects (a : Address) : Bool := a.descriptor.isSome && a.attaches

/-! ### One address -/

/-- What an address does to the variables of a server. -/
def tryServer (v : Attempt) (a : Address) : Bool × Attempt :=
  let v := v.socket a
  if a.descriptor.isNone then (false, v)
  else
    let v := v.call (.setsockopt v.sock)
    if !a.reuses then (true, { v with kept.returned := true })
    else
      let v := v.call (.bind v.sock)
      if !a.attaches then (false, v.call (.close v.sock)) else (true, v)

/-- And to those of a client. -/
def tryClient (v : Attempt) (a : Address) : Bool × Attempt :=
  let v := v.socket a
  if a.descriptor.isNone then (false, v)
  else
    let v := v.call (.connect v.sock)
    if !a.attaches then (false, v.call (.close v.sock)) else (true, v)

theorem serverBody_ok {failed : ℤ → Bool} (hfailed : Detects failed) (s : Routine) (a : Address) :
    serverBody failed s a = .ok ((tryServer s.vars a).1, { s with vars := (tryServer s.vars a).2 }) := by
  have hsocket : failed (s.vars.socket a).sock = a.descriptor.isNone := hfailed.descriptorResult a.descriptor
  simp only [serverBody, tryServer, hsocket, hfailed.result]
  split_ifs <;> rfl

theorem clientBody_ok (s : Routine) (a : Address) :
    clientBody s a = .ok ((tryClient s.vars a).1, { s with vars := (tryClient s.vars a).2 }) := by
  have hsocket : (s.vars.socket a).sock = -1 ↔ a.descriptor.isNone = true := by
    rw [← Detects.eq_minusOne.descriptorResult a.descriptor, decide_eq_true_eq]
    rfl
  have hconnect : result a.attaches = -1 ↔ (!a.attaches) = true := by
    rw [← Detects.eq_minusOne.result a.attaches, decide_eq_true_eq]
  simp only [clientBody, tryClient, hsocket, hconnect]
  split_ifs <;> rfl

/-- **One address, in a server** that has no socket open: it goes on with none open, or stops with the one that it has
opened, which it has returned with if `setsockopt` has failed. -/
theorem tryServer_cases {v : Attempt} (hopened : v.opened = []) (hreturned : v.kept.returned = false) (a : Address) :
    (tryServer v a).1 = a.decides ∧ (tryServer v a).2.sock = a.socketResult ∧
      (tryServer v a).2.opened = (if a.decides then [a.socketResult] else []) ∧
      (tryServer v a).2.kept.returned = (a.decides && !a.reuses) := by
  obtain ⟨descriptor, reuses, attaches⟩ := a
  simp only [Attempt.opened] at hopened
  cases descriptor with
  | none =>
    simp [tryServer, Address.decides, Address.socketResult, Attempt.socket, Attempt.opened, Call.leaves, hopened,
      hreturned]
  | some fd =>
    cases reuses <;> cases attaches <;>
      simp [tryServer, Address.decides, Address.socketResult, Attempt.socket, Attempt.opened, Call.leaves, hopened,
        hreturned]

/-- **One address, in a client.** -/
theorem tryClient_cases {v : Attempt} (hopened : v.opened = []) (a : Address) :
    (tryClient v a).1 = a.connects ∧ (tryClient v a).2.sock = a.socketResult ∧
      (tryClient v a).2.kept.conn = v.kept.conn ∧
      (tryClient v a).2.opened = if a.connects then [a.socketResult] else [] := by
  obtain ⟨descriptor, reuses, attaches⟩ := a
  simp only [Attempt.opened] at hopened
  cases descriptor with
  | none =>
    simp [tryClient, Address.connects, Address.socketResult, Attempt.socket, Attempt.opened, Call.leaves, hopened]
  | some fd =>
    cases attaches <;>
      simp [tryClient, Address.connects, Address.socketResult, Attempt.socket, Attempt.opened, Call.leaves, hopened]

/-! ### The loops -/

/-- **The loop of a server** ends at the address at which it stops, with the socket for that, or with none. -/
theorem scan_tryServer {v : Attempt} (hopened : v.opened = []) (hreturned : v.kept.returned = false)
    (as : List Address) :
    (scan tryServer v as).1 = as.dropWhile (!·.decides) ∧
      match as.find? Address.decides with
      | none => (scan tryServer v as).2.opened = [] ∧ (scan tryServer v as).2.kept.returned = false
      | some a => (scan tryServer v as).2.sock = a.socketResult ∧
          (scan tryServer v as).2.opened = [a.socketResult] ∧ (scan tryServer v as).2.kept.returned = !a.reuses := by
  induction as generalizing v with
  | nil => exact ⟨rfl, hopened, hreturned⟩
  | cons a as ih =>
    obtain ⟨hfst, hsock, hleft, hends⟩ := tryServer_cases hopened hreturned a
    rw [scan, hfst, List.find?_cons]
    cases hdecides : a.decides with
    | true =>
      rw [hdecides] at hleft hends
      rw [if_pos rfl, List.dropWhile_cons_of_neg (by simp [hdecides])]
      exact ⟨rfl, hsock, hleft, hends⟩
    | false =>
      rw [hdecides] at hleft hends
      rw [if_neg Bool.false_ne_true, List.dropWhile_cons_of_pos (by simp [hdecides])]
      exact ih hleft hends

/-- **The loop of a client.** -/
theorem scan_tryClient {v : Attempt} (hopened : v.opened = []) (as : List Address) :
    (scan tryClient v as).1 = as.dropWhile (!·.connects) ∧ (scan tryClient v as).2.kept.conn = v.kept.conn ∧
      (scan tryClient v as).2.opened = (as.find? Address.connects).toList.map Address.socketResult ∧
      ∀ a, as.find? Address.connects = some a → (scan tryClient v as).2.sock = a.socketResult := by
  induction as generalizing v with
  | nil => exact ⟨rfl, rfl, hopened, fun a ha => by cases ha⟩
  | cons a as ih =>
    obtain ⟨hfst, hsock, hconn, hleft⟩ := tryClient_cases hopened a
    rw [scan, hfst, List.find?_cons]
    cases hconnects : a.connects with
    | true =>
      rw [hconnects] at hleft
      rw [if_pos rfl, List.dropWhile_cons_of_neg (by simp [hconnects])]
      refine ⟨rfl, hconn, hleft, ?_⟩
      rintro _ ⟨⟩
      exact hsock
    | false =>
      rw [hconnects] at hleft
      rw [if_neg Bool.false_ne_true, List.dropWhile_cons_of_pos (by simp [hconnects]), ← hconn]
      exact ih hleft

/-- **The loop of a server over its list**, which it leaves alone. -/
theorem walk_serverBody {failed : ℤ → Bool} (hfailed : Detects failed) (sock : ℤ) (as : List Address) :
    walk (serverBody failed) (State.start (some as) (.start sock)) as =
      .ok (as.dropWhile (!·.decides), ⟨some as, false, (scan tryServer (.start sock) as).2⟩) := by
  rw [walk_start (serverBody_ok hfailed), (scan_tryServer (v := .start sock) rfl rfl as).1]

/-! ### The routines -/

/-- The address at which a server stops is the first that it can use, if `setsockopt` does not fail there. -/
theorem find?_usable {as : List Address} {a : Address} (ha : as.find? Address.decides = some a)
    (hreuses : a.reuses = true) : as.find? Address.usable = some a := by
  induction as with
  | nil => cases ha
  | cons b as ih =>
    rw [List.find?_cons] at ha ⊢
    cases hdecides : b.decides with
    | true =>
      rw [hdecides] at ha
      obtain rfl := Option.some.inj ha
      have husable : b.usable = true := by
        simpa [Address.decides, Address.usable, hreuses] using hdecides
      rw [husable]
    | false =>
      rw [hdecides] at ha
      have husable : b.usable = false := by
        cases hopens : b.descriptor.isSome <;> cases hattaches : b.attaches <;>
          simp_all [Address.decides, Address.usable]
      rw [husable]
      exact ih ha

/-- If it stops nowhere, there is none that it can use. -/
theorem find?_usable_eq_none {as : List Address} (h : as.find? Address.decides = none) :
    as.find? Address.usable = none := by
  rw [List.find?_eq_none] at h ⊢
  intro a ha husable
  apply h a ha
  simp only [Address.decides, Address.usable, Bool.and_eq_true] at husable ⊢
  simp [husable]

/-- **What `initialize` does**: it finds nothing and frees the list, or it finds something and frees the list, or it
returns from the middle of the loop and leaves the list and the socket as they are. -/
theorem initialize_cases (sock : ℤ) (as : List Address) :
    (∃ v, as.find? Address.usable = none ∧ Reuses (some as) ∧
      loginServerInitialize sock (some as) = .ok (false, ⟨some as, true, v⟩) ∧ v.opened = []) ∨
    (∃ a v, as.find? Address.usable = some a ∧ Reuses (some as) ∧
      loginServerInitialize sock (some as) = .ok (true, ⟨some as, true, v⟩) ∧
      v.opened = [a.socketResult] ∧ v.sock = a.socketResult) ∨
    ∃ v, ¬ Reuses (some as) ∧ loginServerInitialize sock (some as) = .ok (false, ⟨some as, false, v⟩) := by
  obtain ⟨-, hcase⟩ := scan_tryServer (v := .start sock) rfl rfl as
  have hempty := isEmpty_dropWhile Address.decides as
  rw [Reuses, Option.getD_some]
  cases hfind : as.find? Address.decides with
  | none =>
    rw [hfind] at hcase hempty
    refine Or.inl ⟨_, find?_usable_eq_none hfind, fun a ha => (by cases ha), ?_, hcase.1⟩
    simp only [loginServerInitialize, walk_serverBody .eq_minusOne, hcase.2, State.free, hempty, bind, Except.bind]
    rfl
  | some a =>
    rw [hfind] at hcase hempty
    obtain ⟨hsock, hopened, hreturned⟩ := hcase
    cases hreuses : a.reuses with
    | true =>
      rw [hreuses] at hreturned
      refine Or.inr (Or.inl ⟨a, _, find?_usable hfind hreuses, ?_, ?_, hopened, hsock⟩)
      · rintro _ ⟨⟩
        exact hreuses
      · simp only [loginServerInitialize, walk_serverBody .eq_minusOne, hreturned, State.free, hempty, bind,
          Except.bind]
        rfl
    | false =>
      rw [hreuses] at hreturned
      refine Or.inr (Or.inr ⟨(scan tryServer (.start sock) as).2, fun h => ?_, ?_⟩)
      · rw [h a rfl] at hreuses
        cases hreuses
      · simp only [loginServerInitialize, walk_serverBody .eq_minusOne, hreturned, bind, Except.bind]
        rfl

/-- **`start` is `initialize`, and then `listen`** on the socket that it has found. -/
theorem start_eq (connSocket : ℤ) (info : Option (List Address)) (listens : Bool) :
    Session.start connSocket info listens = (loginServerInitialize connSocket info).map fun r =>
      if r.1 then (listens, { r.2 with vars := r.2.vars.call (.listen r.2.vars.sock) }) else r := by
  cases info with
  | none => rfl
  | some as =>
    simp only [Session.start, loginServerInitialize, walk_serverBody .eq_minusOne, walk_serverBody .lt_zero, bind,
      Except.bind]
    cases (scan tryServer (.start connSocket) as).2.kept.returned with
    | true => rfl
    | false =>
      cases as.dropWhile (!·.decides) with
      | nil => rfl
      | cons a rest => cases listens <;> rfl

/-- `listen` opens and closes nothing. -/
theorem opened_listen (v : Attempt) (fd : ℤ) : Attempt.opened (v.call (.listen fd)) = v.opened := by
  rw [Attempt.opened, Attempt.calls_call, List.foldl_append]
  rfl

/-- An outcome is tidy if what it consists of is. -/
theorem tidy_ok {found : Option Address} {info : Option (List Address)} {success : Bool} {s : Routine} :
    Tidy found info (.ok (success, s)) ↔ s.freed = info.isSome ∧ success = found.isSome ∧
      s.vars.opened = found.toList.map Address.socketResult ∧ ∀ a, found = some a → s.vars.sock = a.socketResult := by
  constructor
  · rintro ⟨success', s', hok, h⟩
    cases hok
    exact h
  · exact fun h => ⟨_, _, rfl, h⟩

/-- **When `initialize` is tidy**: when no `setsockopt` fails where it stops. -/
theorem initialize_tidy_iff (sock : ℤ) (info : Option (List Address)) :
    Tidy ((info.getD []).find? Address.usable) info (loginServerInitialize sock info) ↔ Reuses info := by
  cases info with
  | none => exact iff_of_true (tidy_ok.mpr ⟨rfl, rfl, rfl, fun a ha => by cases ha⟩) (fun a ha => by cases ha)
  | some as =>
    rw [Option.getD_some]
    rcases initialize_cases sock as with ⟨v, hfind, hreuses, hok, hopened⟩ |
      ⟨a, v, hfind, hreuses, hok, hopened, hsock⟩ | ⟨v, hnot, hok⟩
    · rw [hok, hfind]
      exact iff_of_true (tidy_ok.mpr ⟨rfl, rfl, hopened, fun a ha => by cases ha⟩) hreuses
    · rw [hok, hfind]
      refine iff_of_true (tidy_ok.mpr ⟨rfl, rfl, hopened, ?_⟩) hreuses
      rintro _ ⟨⟩
      exact hsock
    · -- the list has not been freed
      rw [hok]
      exact iff_of_false (fun h => by cases (tidy_ok.mp h).1) hnot

/-- **When `start` is**: when `listen` does not fail either, if it comes to that. -/
theorem start_tidy_iff (connSocket : ℤ) (info : Option (List Address)) (listens : Bool) :
    Tidy (((info.getD []).find? Address.usable).filter fun _ => listens) info
        (Session.start connSocket info listens) ↔
      Reuses info ∧ (((info.getD []).find? Address.usable).isSome → listens = true) := by
  rw [start_eq]
  cases info with
  | none =>
    exact iff_of_true (tidy_ok.mpr ⟨rfl, rfl, rfl, fun a ha => by cases ha⟩) ⟨fun a ha => (by cases ha), by simp⟩
  | some as =>
    rw [Option.getD_some]
    rcases initialize_cases connSocket as with ⟨v, hfind, hreuses, hok, hopened⟩ |
      ⟨a, v, hfind, hreuses, hok, hopened, hsock⟩ | ⟨v, hnot, hok⟩
    · rw [hok, hfind, Except.map, if_neg Bool.false_ne_true]
      exact iff_of_true (tidy_ok.mpr ⟨rfl, rfl, hopened, fun a ha => by cases ha⟩) ⟨hreuses, by simp⟩
    · rw [hok, hfind, Except.map, if_pos rfl, tidy_ok, opened_listen, hopened]
      cases listens with
      | false =>
        -- the socket has not been closed
        exact iff_of_false (fun h => by cases h.2.2.1) fun h => by cases h.2 rfl
      | true =>
        refine iff_of_true ⟨rfl, rfl, rfl, ?_⟩ ⟨hreuses, fun _ => rfl⟩
        rintro _ ⟨⟩
        exact hsock
    · rw [hok, Except.map, if_neg Bool.false_ne_true]
      exact iff_of_false (fun h => by cases (tidy_ok.mp h).1) fun h => hnot h.1

/-- **What `setup_TCP_connection` does**: it frees the list only if it comes to a connection. -/
theorem setupTCPConnection_cases (sock : ℤ) (as : List Address) :
    ∃ v : Attempt, v.opened = (as.find? Address.connects).toList.map Address.socketResult ∧
      (∀ a, as.find? Address.connects = some a → v.sock = a.socketResult) ∧
      v.kept.conn = (as.find? Address.connects).map Address.socketResult ∧
      setupTCPConnection sock (some as) =
        .ok ((as.find? Address.connects).isSome, ⟨some as, (as.find? Address.connects).isSome, v⟩) := by
  have hwalk := walk_start clientBody_ok (.start sock) as
  obtain ⟨hfst, hconn, hopened, hsock⟩ := scan_tryClient (v := .start sock) rfl as
  have hempty := isEmpty_dropWhile Address.connects as
  rw [hfst] at hwalk
  cases hfind : as.find? Address.connects with
  | none =>
    rw [hfind] at hopened hempty
    refine ⟨_, hopened, fun a ha => (by cases ha), hconn, ?_⟩
    simp only [setupTCPConnection, hwalk, hempty, bind, Except.bind]
    rfl
  | some a =>
    have hfirst := hsock a hfind
    rw [hfind] at hopened hempty
    refine ⟨{ (scan tryClient (.start sock) as).2 with kept.conn := some (scan tryClient (.start sock) as).2.sock },
      hopened, ?_, by rw [hfirst]; rfl, ?_⟩
    · rintro _ ⟨⟩
      exact hfirst
    · cases hi : as.dropWhile (!·.connects) with
      | nil =>
        rw [hi] at hempty
        cases hempty
      | cons b rest =>
        rw [hi] at hwalk
        simp only [setupTCPConnection, hwalk, bind, Except.bind]
        rfl

/-- **When `setup_TCP_connection` is tidy**, and what it leaves in any case: the connection, in `*conn`, and no
other. -/
theorem setupTCPConnection_tidy_iff (sock : ℤ) (info : Option (List Address)) :
    (Tidy ((info.getD []).find? Address.connects) info (setupTCPConnection sock info) ↔
        (info.isSome → ((info.getD []).find? Address.connects).isSome)) ∧
      ∃ success s, setupTCPConnection sock info = .ok (success, s) ∧
        s.vars.kept.conn = ((info.getD []).find? Address.connects).map Address.socketResult ∧
        s.vars.opened = s.vars.kept.conn.toList := by
  cases info with
  | none =>
    exact ⟨iff_of_true (tidy_ok.mpr ⟨rfl, rfl, rfl, fun a ha => by cases ha⟩) (by simp), _, _, rfl, rfl, rfl⟩
  | some as =>
    obtain ⟨v, hopened, hsock, hconn, hok⟩ := setupTCPConnection_cases sock as
    rw [Option.getD_some, hok, tidy_ok]
    refine ⟨?_, _, _, rfl, hconn, ?_⟩
    · constructor
      · exact fun h _ => h.1
      · exact fun h => ⟨h rfl, rfl, hopened, hsock⟩
    · rw [hopened, hconn]
      cases as.find? Address.connects <;> rfl

/-- **When the three routines are tidy.** -/
theorem streams_tidy_iff (sock : ℤ) (info : Option (List Address)) (listens : Bool) :
    (Tidy ((info.getD []).find? Address.usable) info (loginServerInitialize sock info) ↔ Reuses info) ∧
      (Tidy (((info.getD []).find? Address.usable).filter fun _ => listens) info (Session.start sock info listens) ↔
        Reuses info ∧ (((info.getD []).find? Address.usable).isSome → listens = true)) ∧
      (Tidy ((info.getD []).find? Address.connects) info (setupTCPConnection sock info) ↔
        (info.isSome → ((info.getD []).find? Address.connects).isSome)) ∧
      ∃ success s, setupTCPConnection sock info = .ok (success, s) ∧
        s.vars.kept.conn = ((info.getD []).find? Address.connects).map Address.socketResult ∧
        s.vars.opened = s.vars.kept.conn.toList :=
  ⟨initialize_tidy_iff sock info, start_tidy_iff sock info listens, setupTCPConnection_tidy_iff sock info⟩

end Inferno.Sockets.Stream
