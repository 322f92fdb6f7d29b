import Inferno.Login.ServerAuth
import Inferno.Sockets.UnreliableUDP

/-!
# The addresses of the other servers

`chat_addr` and `match_addr` are each a `struct sockaddr`, which is 16 bytes, with `chat_addrlen` and
`match_addrlen` for the length of the address. `setup_UDP_client_connection` puts the first 16 bytes of the
resolved address there and its whole length, which is 28 if it is an IPv6 address; and each `recvfrom` of a
call puts the address of the sender there.

## What is proved

* `holds_of_run` — a member holds the address of the last datagram taken from its socket, as far as there is
  room for it.
* `configured_iff` — every token goes to the configured server in exactly those runs in which, whenever one is
  sent, the resolved address is an IPv4 address and the last datagram taken from that socket came from there.

## Scope

Both addresses have been resolved. A socket takes datagrams from addresses of its own family alone, which is that
of the resolved address. What `recvfrom` stores behind the 16 bytes of a member is not followed: that
happens with IPv6 addresses alone, and only after a first `sendto`, which has gone wrong already.
-/

namespace Inferno.Login

open Machine CStr Inferno.Sockets

/-- `chat_addr` with `chat_addrlen`, or `match_addr` with `match_addrlen`. -/
structure PeerAddr where
  addr : Bytes
  length_addr : addr.length = 16
  addrlen : ℕ

/-- What `setup_UDP_client_connection` makes of the address it has resolved: `*addr = *(i->ai_addr)` and
`*len = i->ai_addrlen`. -/
def PeerAddr.setup (resolved : Address) : PeerAddr where
  addr := resolved.bytes.take 16
  length_addr := by
    rw [List.length_take]
    rcases resolved.length_bytes with h | h <;> omega
  addrlen := resolved.bytes.length

/-- What `recvfrom` makes of it: at most `addrlen` bytes of the sender's address, and its length. -/
def PeerAddr.store (m : PeerAddr) (sender : Address) : PeerAddr where
  addr := copyAt m.addr 0 ((sender.bytes.take m.addrlen).take 16)
  length_addr := length_copyAt_take _ _ m.length_addr
  addrlen := sender.bytes.length

/-- The address that `sendto` is given, if all of it is in the member. -/
def PeerAddr.destination (m : PeerAddr) : Option Bytes := if m.addrlen ≤ 16 then some (m.addr.take m.addrlen) else none

/-- The sender of the datagram that an event takes from a socket. -/
def AuthEvent.sender {A : Type*} (sock : Sock) : AuthEvent A → Option A
  | .poll sock' p => if sock' = sock then p.received.map Prod.fst else none
  | _ => none

/-- Whoever sends to a socket has an address of the socket's family. -/
def AuthEvent.sameFamily (resolved : Sock → Address) : AuthEvent Address → Bool
  | .poll sock p => p.received.all fun x => x.1.bytes.length = (resolved sock).bytes.length
  | _ => true

/-- One event at the server that has resolved the addresses `resolved`. -/
def Peers.step (resolved : Sock → Address) (s : Peers PeerAddr) (e : AuthEvent Address) : Option (Peers PeerAddr) :=
  if e.sameFamily resolved then s.stepWith PeerAddr.store e else none

/-- The server as its constructor leaves it. -/
def Peers.resolved (resolved : Sock → Address) : Peers PeerAddr := .constructed fun sock => .setup (resolved sock)

/-- The sender of the last datagram taken from a socket. -/
def lastSender {A : Type*} (sock : Sock) (es : List (AuthEvent A)) : Option A :=
  (es.filterMap (AuthEvent.sender sock)).getLast?

/-- Every token of a run goes to the address that was resolved for its server. -/
def Configured (resolved : Sock → Address) (es : List (AuthEvent Address)) : Prop :=
  ∀ pre e post s s', es = pre ++ e :: post → run (Peers.step resolved) (.resolved resolved) pre = some s →
    s.step resolved e = some s' →
      ∀ x ∈ s.sendsWith PeerAddr.store e, x.dst.destination = some (resolved x.sock).bytes

/-- Whenever a token of a run is sent, the address resolved for its server is an IPv4 address, and the last datagram
taken from its socket, if there was one, came from there. -/
def LastFromServer (resolved : Sock → Address) (es : List (AuthEvent Address)) : Prop :=
  ∀ pre e post s s', es = pre ++ e :: post → run (Peers.step resolved) (.resolved resolved) pre = some s →
    s.step resolved e = some s' → ∀ x ∈ s.sendsWith PeerAddr.store e,
      (∃ bytes, resolved x.sock = .ipv4 bytes) ∧ ∀ a ∈ lastSender x.sock (pre ++ [e]), a = resolved x.sock

/-! ### What a member holds -/

/-- A member holds an address, as far as there is room for it. -/
structure PeerAddr.Holds (m : PeerAddr) (a : Address) : Prop where
  length : m.addrlen = a.bytes.length
  bytes : a.bytes.length = 16 → m.addr = a.bytes

theorem PeerAddr.holds_setup (a : Address) : (PeerAddr.setup a).Holds a :=
  ⟨rfl, fun h => List.take_of_length_le h.le⟩

/-- The next address takes the place of the one before. -/
theorem PeerAddr.Holds.store {m : PeerAddr} {a : Address} (h : m.Holds a) (b : Address) : (m.store b).Holds b := by
  refine ⟨rfl, fun hb => ?_⟩
  have hroom : 16 ≤ m.addrlen := by
    rw [h.length]
    rcases a.length_bytes with ha | ha <;> omega
  have hwhole : (b.bytes.take m.addrlen).take 16 = b.bytes := by
    rw [List.take_of_length_le (hb.trans_le hroom), List.take_of_length_le hb.le]
  show copyAt m.addr 0 ((b.bytes.take m.addrlen).take 16) = b.bytes
  rw [hwhole, copyAt, List.take_zero, List.nil_append, List.drop_of_length_le (by rw [m.length_addr, hb]),
    List.append_nil]

/-- **When `sendto` is given a resolved address**: when it is an IPv4 address and the member holds it. -/
theorem PeerAddr.Holds.destination_eq_iff {m : PeerAddr} {a resolved : Address} (h : m.Holds a)
    (hfamily : a.bytes.length = resolved.bytes.length) :
    m.destination = some resolved.bytes ↔ (∃ bytes, resolved = .ipv4 bytes) ∧ a = resolved := by
  cases resolved with
  | ipv6 bytes =>
    have hlong : ¬ m.addrlen ≤ 16 := by
      rw [h.length, hfamily]
      show ¬ bytes.toList.length ≤ 16
      rw [bytes.length_toList]
      decide
    rw [PeerAddr.destination, if_neg hlong]
    exact iff_of_false (by simp) (by simp)
  | ipv4 bytes =>
    have hlength : a.bytes.length = 16 := hfamily.trans bytes.length_toList
    have hdestination : m.destination = some a.bytes := by
      rw [PeerAddr.destination, h.length, if_pos hlength.le, h.bytes hlength, List.take_length]
    rw [hdestination, Option.some.injEq, and_iff_right ⟨bytes, rfl⟩]
    constructor
    · intro hbytes
      cases a with
      | ipv4 bytes' => exact congrArg Address.ipv4 (Vector.toList_inj.mp hbytes)
      | ipv6 bytes' =>
        have hlong : bytes'.toList.length = 16 := hlength
        rw [bytes'.length_toList] at hlong
        cases hlong
    · rintro rfl
      rfl

/-! ### Where the datagrams go -/

theorem lastSender_concat {A : Type*} (sock : Sock) (es : List (AuthEvent A)) (e : AuthEvent A) :
    lastSender sock (es ++ [e]) = (e.sender sock).or (lastSender sock es) := by
  rw [lastSender, List.filterMap_append, List.getLast?_append]
  cases h : e.sender sock with
  | none => rw [List.filterMap_cons_none h]; rfl
  | some a => rw [List.filterMap_cons_some h]; rfl

/-- The member of each socket after an event. -/
theorem addr_stepWith {A C : Type*} {store : C → A → C} {s s' : Peers C} {e : AuthEvent A}
    (h : s.stepWith store e = some s') (sock : Sock) :
    s'.addr sock = (e.sender sock).elim (s.addr sock) (store (s.addr sock)) := by
  have henter : ∀ status, s.enter status = some s' → s'.addr sock = s.addr sock := by
    intro status h
    rw [Peers.enter] at h
    split at h
    · cases h
    · cases h
      rfl
  cases e with
  | chatServerAuth => exact henter _ h
  | matchServerAuth => exact henter _ h
  | poll sock' p =>
    simp only [Peers.stepWith] at h
    split at h
    · split_ifs at h with hsock
      cases h
      by_cases hs : sock' = sock
      · subst hs
        cases hreceived : p.received <;> simp [AuthEvent.sender, Poll.stored, hreceived]
      · simp [AuthEvent.sender, hs, Function.update_of_ne (Ne.symm hs)]
    · cases h

/-- Every `sendto` of an event goes to what the member for its socket holds then. -/
theorem dst_of_mem_sendsWith {A C : Type*} {store : C → A → C} {s s' : Peers C} {e : AuthEvent A}
    (h : s.stepWith store e = some s') {x : Sending C} (hx : x ∈ s.sendsWith store e) : x.dst = s'.addr x.sock := by
  rw [addr_stepWith h]
  cases e with
  | chatServerAuth contents authToken username sent t0 =>
    obtain rfl := List.mem_singleton.mp hx
    rfl
  | matchServerAuth contents authToken username sent t0 =>
    obtain rfl := List.mem_singleton.mp hx
    rfl
  | poll sock p =>
    simp only [Peers.sendsWith] at hx
    split at hx
    · split_ifs at hx
      · obtain rfl := List.mem_singleton.mp hx
        cases hreceived : p.received <;> simp [AuthEvent.sender, Poll.stored, hreceived]
      · cases hx
    · cases hx

variable {resolved : Sock → Address}

/-- What a step does to the members. -/
theorem Peers.step_eq_some {s s' : Peers PeerAddr} {e : AuthEvent Address} (h : s.step resolved e = some s') :
    (∀ sock, ∀ a ∈ e.sender sock, a.bytes.length = (resolved sock).bytes.length) ∧
      s.stepWith PeerAddr.store e = some s' := by
  simp only [Peers.step, Option.ite_none_right_eq_some] at h
  obtain ⟨hfamily, hstep⟩ := h
  refine ⟨fun sock a ha => ?_, hstep⟩
  cases e with
  | chatServerAuth => cases ha
  | matchServerAuth => cases ha
  | poll sock' p =>
    simp only [AuthEvent.sender] at ha
    split_ifs at ha with hsock
    · subst hsock
      obtain ⟨x, hx, rfl⟩ := Option.map_eq_some_iff.mp (Option.mem_def.mp ha)
      simp only [AuthEvent.sameFamily, hx, Option.all_some, decide_eq_true_eq] at hfamily
      exact hfamily
    · cases ha

/-- **A member holds the address of the last datagram taken from its socket**, and the resolved one if there was
none, as far as there is room for it. -/
theorem holds_of_run {es : List (AuthEvent Address)} {s : Peers PeerAddr}
    (h : run (Peers.step resolved) (.resolved resolved) es = some s) (sock : Sock) :
    (s.addr sock).Holds ((lastSender sock es).getD (resolved sock)) ∧
      ((lastSender sock es).getD (resolved sock)).bytes.length = (resolved sock).bytes.length := by
  refine run_history
    (P := fun es s => (s.addr sock).Holds ((lastSender sock es).getD (resolved sock)) ∧
      ((lastSender sock es).getD (resolved sock)).bytes.length = (resolved sock).bytes.length)
    ⟨PeerAddr.holds_setup _, rfl⟩ ?_ h
  intro es e s s' _ ih hstep
  obtain ⟨hfamily, hstep⟩ := Peers.step_eq_some hstep
  rw [addr_stepWith hstep, lastSender_concat]
  cases hsender : e.sender sock with
  | none => exact ih
  | some a => exact ⟨ih.1.store a, hfamily sock a hsender⟩

/-- **When the tokens go only to the configured servers.** -/
theorem configured_iff (resolved : Sock → Address) (es : List (AuthEvent Address)) :
    Configured resolved es ↔ LastFromServer resolved es := by
  refine forall_congr' fun pre => forall_congr' fun e => forall_congr' fun post => forall_congr' fun s =>
    forall_congr' fun s' => forall_congr' fun hes => forall_congr' fun hrun => forall_congr' fun hstep =>
    forall_congr' fun x => forall_congr' fun hx => ?_
  obtain ⟨hholds, hfamily⟩ := holds_of_run (run_concat_eq_some.mpr ⟨s, hrun, hstep⟩) x.sock
  rw [dst_of_mem_sendsWith (Peers.step_eq_some hstep).2 hx, hholds.destination_eq_iff hfamily]
  refine and_congr_right fun _ => ?_
  cases lastSender x.sock (pre ++ [e]) <;> simp

/-- Two servers with IPv4 addresses, and two with IPv6 addresses. -/
def servers4 : Sock → Address
  | .chatSock => .ipv4 (.replicate 16 1)
  | .matchSock => .ipv4 (.replicate 16 2)

def servers6 : Sock → Address
  | .chatSock => .ipv6 (.replicate 28 1)
  | .matchSock => .ipv6 (.replicate 28 2)

/-- A datagram from elsewhere answers the first token, and the second token goes there; and to a server with an
IPv6 address not even the first one goes. -/
theorem token_sent_elsewhere :
    ¬ Configured servers4
        [.chatServerAuth .zeroed (List.replicate 64 97) [98, 111, 98] 67 ⟨0, 0⟩,
          .poll .chatSock ⟨some (.ipv4 (.replicate 16 9), [0, 0]), ⟨0, 0⟩, 0, ⟨0, 0⟩⟩,
          .chatServerAuth .zeroed (List.replicate 64 99) [98, 111, 98] 67 ⟨1, 0⟩] ∧
      ¬ Configured servers6 [.chatServerAuth .zeroed (List.replicate 64 97) [98, 111, 98] 67 ⟨0, 0⟩] := by
  constructor
  · intro h
    have hdst := h [.chatServerAuth .zeroed (List.replicate 64 97) [98, 111, 98] 67 ⟨0, 0⟩,
        .poll .chatSock ⟨some (.ipv4 (.replicate 16 9), [0, 0]), ⟨0, 0⟩, 0, ⟨0, 0⟩⟩]
      (.chatServerAuth .zeroed (List.replicate 64 99) [98, 111, 98] 67 ⟨1, 0⟩) [] _ _ rfl rfl rfl _
      (List.mem_singleton_self _)
    exact absurd hdst (by decide)
  · intro h
    have hdst := h [] (.chatServerAuth .zeroed (List.replicate 64 97) [98, 111, 98] 67 ⟨0, 0⟩) [] _ _ rfl rfl rfl _
      (List.mem_singleton_self _)
    exact absurd hdst (by decide)

end Inferno.Login
