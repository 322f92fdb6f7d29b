import Inferno.Lib.Clock
import Inferno.Lib.Runs
import Inferno.Login.AuthDatagram
import Mathlib.Logic.Function.Basic

/-!
# Handing a login over to the other servers

`LoginServer::chat_server_auth` and `LoginServer::match_server_auth`: send the auth
datagram, then poll the socket for an ACK, and send again after every half second
without one, at most eleven times. The two are the same text on `chat_sock` and
`chat_addr`, and on `match_sock` and `match_addr`.

A call is the `sendto` before its loop and then one iteration of the loop after
another. The address it sends to is also where `recvfrom` writes the address of
the sender, so it is part of the server's state and outlives the call. What the
members hold of an address is left open here (`Peers.stepWith`): it may be the address
itself (`authStep`), or the bytes that there is room for (`Login.PeerAddresses`).

## Scope

The log file is left out.
-/

namespace Inferno.Login

open Machine

/-- The two sockets of the login server, `chat_sock` and `match_sock`. -/
inductive Sock where
  | chatSock
  | matchSock
  deriving DecidableEq

/-- A call that waits for its ACK: what it sends, and the variables `tries` and `t0`. -/
structure Waiting where
  contents : Bytes
  tries : ℕ
  t0 : Timeval
  deriving DecidableEq

/-- Where the server is. -/
inductive Status where
  /-- No call has been made. -/
  | idle
  /-- A call is in its loop. -/
  | waiting (sock : Sock) (w : Waiting)
  /-- The last call has returned. -/
  | returned (result : Bool)
  deriving DecidableEq

/-- The login server, towards the other servers: what the members `chat_addr` and
`match_addr` hold, and the call in progress. -/
structure Peers (C : Type*) where
  addr : Sock → C
  status : Status

/-- What the system calls give in one iteration of the loop. -/
structure Poll (A : Type*) where
  /-- `recvfrom`: the sender and the datagram, or `none` if there is nothing to take. -/
  received : Option (A × Bytes)
  t1 : Timeval
  /-- What `sendto` returns, if the iteration sends again. -/
  sent : ℤ
  /-- The clock's reading after that. -/
  t0 : Timeval

variable {A C : Type*}

/-- `elapsed_time`: a difference of `long`s in an `int`. -/
def elapsedTime (t0 t1 : Timeval) : ℤ := (Timeval.elapsed t0 t1).bmod 4294967296

/-- `bytes > 0`, after the `recvfrom` of at most `sizeof(short)` bytes. -/
def Poll.acked (p : Poll A) : Bool :=
  match p.received with
  | none => false
  | some (_, datagram) => 0 < min datagram.length 2

/-- The member after the `recvfrom`, if `store` is what that does with the address of a sender. -/
def Poll.stored (store : C → A → C) (p : Poll A) (addr : C) : C :=
  match p.received with
  | none => addr
  | some (sender, _) => store addr sender

/-- Whether the iteration sends again. -/
def Poll.retries (p : Poll A) (t0 : Timeval) : Bool := !p.acked && 500000 < elapsedTime t0 p.t1

/-- One iteration of the loop of a call. -/
def Waiting.iterate (sock : Sock) (w : Waiting) (p : Poll A) : Status :=
  if p.acked then .returned true
  else if p.retries w.t0 then
    if p.sent ≤ 0 then .returned false
    else if 10 < w.tries + 1 then .returned false
    else .waiting sock ⟨w.contents, w.tries + 1, p.t0⟩
  else if 10 < w.tries then .returned false
  else .waiting sock w

/-- A call up to its loop, given what `sendto` returns. -/
def serverAuth (sock : Sock) (contents : Contents) (authToken username : Bytes) (sent : ℤ) (t0 : Timeval) : Status :=
  if sent ≤ 0 then .returned false else .waiting sock ⟨authContents contents authToken username, 0, t0⟩

/-- `LoginServer::chat_server_auth`. -/
def chatServerAuth : Contents → Bytes → Bytes → ℤ → Timeval → Status := serverAuth .chatSock

/-- `LoginServer::match_server_auth`. -/
def matchServerAuth : Contents → Bytes → Bytes → ℤ → Timeval → Status := serverAuth .matchSock

/-- What happens at the login server. -/
inductive AuthEvent (A : Type*) where
  /-- `chat_server_auth` is called, with `contents` in its array. -/
  | chatServerAuth (contents : Contents) (authToken username : Bytes) (sent : ℤ) (t0 : Timeval)
  /-- `match_server_auth` is called. -/
  | matchServerAuth (contents : Contents) (authToken username : Bytes) (sent : ℤ) (t0 : Timeval)
  /-- The call on a socket goes through its loop once. -/
  | poll (sock : Sock) (p : Poll A)

/-- The state of the server when a call has come to `status`; no second call is made
before the first returns. -/
def Peers.enter (s : Peers C) (status : Status) : Option (Peers C) :=
  match s.status with
  | .waiting _ _ => none
  | _ => some ⟨s.addr, status⟩

/-- One event. -/
def Peers.stepWith (store : C → A → C) (s : Peers C) : AuthEvent A → Option (Peers C)
  | .chatServerAuth contents authToken username sent t0 =>
    s.enter (chatServerAuth contents authToken username sent t0)
  | .matchServerAuth contents authToken username sent t0 =>
    s.enter (matchServerAuth contents authToken username sent t0)
  | .poll sock p =>
    match s.status with
    | .waiting sock' w =>
      if sock' = sock then
        some ⟨Function.update s.addr sock (p.stored store (s.addr sock)), w.iterate sock p⟩
      else none
    | _ => none

/-- A `sendto`, and what the member for its socket holds. -/
structure Sending (C : Type*) where
  sock : Sock
  dst : C
  contents : Bytes

/-- The `sendto`s of an event. -/
def Peers.sendsWith (store : C → A → C) (s : Peers C) : AuthEvent A → List (Sending C)
  | .chatServerAuth contents authToken username _ _ =>
    [⟨.chatSock, s.addr .chatSock, authContents contents authToken username⟩]
  | .matchServerAuth contents authToken username _ _ =>
    [⟨.matchSock, s.addr .matchSock, authContents contents authToken username⟩]
  | .poll sock p =>
    match s.status with
    | .waiting _ w => if p.retries w.t0 then [⟨sock, p.stored store (s.addr sock), w.contents⟩] else []
    | _ => []

/-- One event, where the members hold addresses. -/
def authStep : Peers A → AuthEvent A → Option (Peers A) := Peers.stepWith fun _ sender => sender

/-- The `sendto`s of one. -/
def Peers.sends : Peers A → AuthEvent A → List (Sending A) := Peers.sendsWith fun _ sender => sender

/-- The server as its constructor leaves it, with what it put into the two members. -/
def Peers.constructed (configured : Sock → C) : Peers C := ⟨configured, .idle⟩

/-! ### The tries of a call -/

/-- An iteration returns `true` exactly if it takes a datagram that is not empty. -/
theorem iterate_eq_true_iff {sock : Sock} {w : Waiting} {p : Poll A} :
    w.iterate sock p = .returned true ↔ ∃ x ∈ p.received, x.2 ≠ [] := by
  have hacked : p.acked = true ↔ ∃ x ∈ p.received, x.2 ≠ [] := by
    simp only [Poll.acked]
    cases p.received with
    | none => simp
    | some x =>
      obtain ⟨sender, datagram⟩ := x
      rw [decide_eq_true_eq, Nat.lt_min, List.length_pos_iff]
      simp
  rw [← hacked]
  simp only [Waiting.iterate]
  split_ifs <;> simp_all

/-- What the state of a call says of the number of polls that have timed out, `n`, if `ok` is
that nothing has gone wrong. -/
def Counts (n : ℕ) (ok : Prop) : Status → Prop
  | .idle => n = 0
  | .waiting _ w => w.tries = n ∧ n ≤ 10
  | .returned true => n ≤ 10
  | .returned false => ok → 11 ≤ n

/-- An iteration keeps count. -/
theorem counts_iterate {sock : Sock} {w : Waiting} {p : Poll A} {n : ℕ} {ok ok' : Prop}
    (h : Counts n ok (.waiting sock w)) (hsent : ok' → p.retries w.t0 = true → 0 < p.sent) :
    Counts (n + if p.retries w.t0 then 1 else 0) ok' (w.iterate sock p) := by
  obtain ⟨rfl, hle⟩ := h
  simp only [Waiting.iterate]
  by_cases hacked : p.acked = true
  · have hretries : p.retries w.t0 = false := by simp [Poll.retries, hacked]
    simpa [hacked, hretries, Counts] using hle
  · rw [if_neg hacked]
    by_cases hretries : p.retries w.t0 = true
    · simp only [hretries, if_true]
      split_ifs with hle0 htries
      · exact fun hok => absurd (hsent hok hretries) (not_lt.mpr hle0)
      · exact fun _ => by omega
      · exact ⟨rfl, by omega⟩
    · rw [if_neg hretries, if_neg hretries, if_neg (by omega)]
      exact ⟨rfl, hle⟩

end Inferno.Login
