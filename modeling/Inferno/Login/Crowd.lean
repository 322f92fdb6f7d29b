import Inferno.Login.LoginExchange
import Mathlib.Logic.Function.Basic

/-!
# Many logins at once

Every child of the server takes its secure port from the copy of a counter that nobody ever writes back, so all the
children who log somebody in listen on the same port, one after the other. A client dials the port that its own
child has sent to it, and comes to whichever child listens there. So the plain connection and the secure
one of a login may be with two children, and a child may tell its client of somebody else's password.

Children and clients are numbered, and the plain connection of the `i`-th client is with the `i`-th child. A run is
any interleaving of all of them; a child may accept any client, and what it meets then depends on who
that is.

## What is proved

* `crowd_agreement` — all the same a token does not go astray: if `login` returns `true`, the client has what was
  written on its own secure connection, by a child that has received what came on this, and there is no other client
  who has that. If what the client wrote came in whole pieces, it is the client's own name and password that
  were right.

## Scope

As for one login. A child that accepts a client who has given up before is taken not to have accepted one.
-/

namespace Inferno.Login

open CStr Machine Function

/-- What a child meets with a client on its secure connection; what comes before does not depend on that. -/
def LoginChild.meets (e : LoginChild) (reads : List Read) : LoginChild :=
  { e with login := { e.login with reads := reads } }

/-- What a child does before somebody is on its secure connection. -/
def LoginChild.opening (e : LoginChild) : List SessionEvent :=
  if !e.requested then [.status 0]
  else if !e.acknowledged then []
  else .status 1 :: e.login.setup.events (Handler.takePort .constructed .loginUser).1

/-- It listens on its secure port. -/
def LoginChild.listens (e : LoginChild) : Bool := e.requested && e.acknowledged && e.login.setup.opens

/-- A child in a crowd: the client on its secure connection, how much it has done, and what has arrived of what it has
sent on either connection. -/
structure CrowdChild where
  peer : Option ℕ
  count : ℕ
  stream : Bytes
  secure : Bytes

/-- A child when it has done the next thing, and what has arrived then. -/
def CrowdChild.next (c : CrowdChild) (stream secure : Bytes) : CrowdChild := ⟨c.peer, c.count + 1, stream, secure⟩

/-- The children, for each client the child that has accepted it, and the clients. -/
structure Crowd where
  children : ℕ → CrowdChild
  accepted : ℕ → Option ℕ
  clients : ℕ → LoginClient

/-- Everybody has connected; `sslPort` and `ack` are what is on the stacks of the clients. -/
def Crowd.start (sslPort ack : ℕ → Bytes) : Crowd :=
  ⟨fun _ => ⟨none, 0, [], []⟩, fun _ => none, fun j => .start (sslPort j) (ack j)⟩

/-- What happens next. -/
inductive CrowdEvent where
  /-- The `i`-th child does the next thing; what it sends may be lost. -/
  | server (i : ℕ) (arrives : Bool)
  /-- The `i`-th child accepts the `j`-th client. -/
  | accept (i j : ℕ)
  | client (j : ℕ) (e : LoginStep)

/-- It is a `SSL_connect` that succeeds. -/
def LoginStep.secures : LoginStep → Bool
  | .open (.secure true) => true
  | _ => false

/-- What arrives on the secure connection of a client. -/
def Crowd.secureOf (s : Crowd) (j : ℕ) : Bytes :=
  match s.accepted j with
  | none => []
  | some i => (s.children i).secure

section

variable (db : MySQL) (sha : Bytes → Fin 32 → UInt8) (table : List Row) (e : ℕ → LoginChild)
  (reads : ℕ → ℕ → List Read)

/-- All that the `i`-th child does, given who is on its secure connection. -/
def script (i : ℕ) : Option ℕ → List SessionEvent
  | none => (e i).opening
  | some j => ((e i).meets (reads i j)).events db sha table

/-- What it has done. -/
def Crowd.done (s : Crowd) (i : ℕ) : List SessionEvent :=
  (script db sha table e reads i (s.children i).peer).take (s.children i).count

/-- One step of somebody. A client is not secure before it has been accepted. -/
def Crowd.step (s : Crowd) : CrowdEvent → Option Crowd
  | .server i arrives =>
    let c := s.children i
    match (script db sha table e reads i c.peer)[c.count]? with
    | none => none
    | some ev =>
      let stream := if arrives then c.stream ++ ev.sent else c.stream
      let secure := if arrives then c.secure ++ ev.secureSent else c.secure
      some { s with children := update s.children i (c.next stream secure) }
  | .accept i j =>
    let c := s.children i
    if (e i).listens ∧ c.peer = none ∧ c.count = (e i).opening.length ∧ s.accepted j = none ∧
        (s.clients j).stage = .opening ∧ (s.clients j).client.stage = .connected then
      some { s with children := update s.children i { c with peer := some j },
                    accepted := update s.accepted j (some i) }
    else none
  | .client j a =>
    if a.secures ∧ s.accepted j = none then none
    else
      ((s.clients j).step (s.children j).stream (s.secureOf j) a).map fun client =>
        { s with clients := update s.clients j client }

end

variable {db : MySQL} {sha : Bytes → Fin 32 → UInt8} {table : List Row} {e : ℕ → LoginChild}
  {reads : ℕ → ℕ → List Read}

/-! ### The children -/

/-- **What a child does with a client begins as it would with anybody**, and if it does not listen there is nothing
more. -/
theorem opening_prefix (e : LoginChild) (reads : List Read) :
    ∃ rest, (e.meets reads).events db sha table = e.opening ++ rest ∧ (e.listens = false → rest = []) := by
  obtain ⟨requested, acknowledged, login⟩ := e
  cases requested with
  | false => exact ⟨[], rfl, fun _ => rfl⟩
  | true =>
    cases acknowledged with
    | false => exact ⟨[], rfl, fun _ => rfl⟩
    | true =>
      refine ⟨(({ login with reads := reads } : LoginEnv).login db sha table).1, rfl, fun hlistens => ?_⟩
      have hopens : login.setup.opens = false := hlistens
      simp [LoginEnv.login, hopens]

/-- What comes before is no token. -/
theorem token_notMem_opening (e : LoginChild) (t : Bytes) : .token t ∉ e.opening := by
  rw [LoginChild.opening]
  simp only [Setup.events]
  split_ifs <;> simp

/-- What a child has done, and one thing more. -/
theorem take_succ_of_getElem? {evs : List SessionEvent} {n : ℕ} {ev : SessionEvent} (h : evs[n]? = some ev) :
    evs.take (n + 1) = evs.take n ++ [ev] := by
  rw [List.take_add_one, h]
  rfl

/-- Behind a token a child does nothing. -/
theorem no_token_of_next {i : ℕ} {peer : Option ℕ} {n : ℕ} {ev : SessionEvent}
    (h : (script db sha table e reads i peer)[n]? = some ev) (t : Bytes) :
    .token t ∉ (script db sha table e reads i peer).take n := by
  intro ht
  cases peer with
  | none => exact token_notMem_opening _ _ (List.mem_of_mem_take ht)
  | some j =>
    have htodo := (todo_of_token (List.take_append_drop n _) ht).1
    rw [List.drop_eq_nil_iff] at htodo
    have hlt := (List.getElem?_eq_some_iff.mp h).1
    exact absurd hlt (not_lt.mpr htodo)

/-! ### All of them -/

/-- What is true in every state of a run: a child and a client agree on whether they are connected, and on that
connection nothing has been written, or the token. -/
structure Crowd.Sound (db : MySQL) (sha : Bytes → Fin 32 → UInt8) (table : List Row) (e : ℕ → LoginChild)
    (reads : ℕ → ℕ → List Read) (s : Crowd) : Prop where
  client : ∀ j, (s.clients j).Sound (s.secureOf j)
  matched : ∀ i j, (s.children i).peer = some j ↔ s.accepted j = some i
  secure : ∀ i, (s.children i).secure = [] ∨ .token (s.children i).secure ∈ s.done db sha table e reads i

theorem Crowd.Sound.start (sslPort ack : ℕ → Bytes) : (Crowd.start sslPort ack).Sound db sha table e reads where
  client j := .start (sslPort j) (ack j)
  matched i j := by simp [Crowd.start]
  secure _ := Or.inl rfl

/-- A child that nobody is connected to has written nothing. -/
theorem Crowd.Sound.secure_of_peer {s : Crowd} (hs : s.Sound db sha table e reads) {i : ℕ}
    (h : (s.children i).peer = none) : (s.children i).secure = [] := by
  rcases hs.secure i with hnil | htoken
  · exact hnil
  · rw [Crowd.done, h] at htoken
    exact absurd (List.mem_of_mem_take htoken) (token_notMem_opening _ _)

/-- **A child does the next thing.** -/
theorem Crowd.Sound.server {s : Crowd} (hs : s.Sound db sha table e reads) {i : ℕ} {ev : SessionEvent}
    (hev : (script db sha table e reads i (s.children i).peer)[(s.children i).count]? = some ev) (stream : Bytes)
    {arrived : Bytes} (harrived : arrived = [] ∨ arrived = ev.secureSent) :
    Crowd.Sound db sha table e reads
      { s with children := update s.children i ((s.children i).next stream ((s.children i).secure ++ arrived)) } where
  client j := by
    have hclient := hs.client j
    simp only [Crowd.secureOf] at hclient ⊢
    cases haccepted : s.accepted j with
    | none =>
      rw [haccepted] at hclient
      exact hclient
    | some i' =>
      rw [haccepted] at hclient
      simp only at hclient ⊢
      by_cases hi : i' = i
      · subst hi
        rw [update_self]
        exact hclient.append arrived
      · rw [update_of_ne hi]
        exact hclient
  matched i' j := by
    rw [← hs.matched i' j]
    simp only
    by_cases hi : i' = i
    · subst hi
      rw [update_self, CrowdChild.next]
    · rw [update_of_ne hi]
  secure i' := by
    simp only [Crowd.done]
    by_cases hi : i' = i
    · subst hi
      have hnil : (s.children i').secure = [] := by
        rcases hs.secure i' with hnil | htoken
        · exact hnil
        · exact absurd htoken (no_token_of_next hev _)
      simp only [update_self, CrowdChild.next, hnil, List.nil_append, take_succ_of_getElem? hev]
      rcases harrived with rfl | rfl
      · exact Or.inl rfl
      · cases ev <;> simp [SessionEvent.secureSent]
    · rw [update_of_ne hi]
      exact hs.secure i'

/-- **A child accepts a client**, which is with nobody yet, and nothing has been written. -/
theorem Crowd.Sound.accept {s : Crowd} (hs : s.Sound db sha table e reads) {i j : ℕ}
    (hpeer : (s.children i).peer = none) (hcount : (s.children i).count = (e i).opening.length)
    (haccepted : s.accepted j = none) :
    Crowd.Sound db sha table e reads { s with children := update s.children i { s.children i with peer := some j },
                                              accepted := update s.accepted j (some i) } where
  client j' := by
    have hclient := hs.client j'
    have hsecure : ∀ i', (update s.children i { s.children i with peer := some j } i').secure =
        (s.children i').secure := by
      intro i'
      by_cases hi : i' = i
      · subst hi
        rw [update_self]
      · rw [update_of_ne hi]
    simp only [Crowd.secureOf] at hclient ⊢
    by_cases hj : j' = j
    · subst hj
      rw [haccepted] at hclient
      simp only [update_self, hs.secure_of_peer hpeer]
      exact hclient
    · rw [update_of_ne hj]
      cases hold : s.accepted j' with
      | none =>
        rw [hold] at hclient
        exact hclient
      | some i' =>
        rw [hold] at hclient
        simp only [hsecure]
        exact hclient
  matched i' j' := by
    simp only
    have hold := hs.matched i' j'
    by_cases hi : i' = i
    · subst hi
      rw [update_self]
      by_cases hj : j' = j
      · subst hj
        simp
      · rw [update_of_ne hj, ← hold, hpeer]
        simp [Ne.symm hj]
    · rw [update_of_ne hi, hold]
      by_cases hj : j' = j
      · subst hj
        rw [update_self, haccepted]
        simp [Ne.symm hi]
      · rw [update_of_ne hj]
  secure i' := by
    have hbefore := hs.secure i'
    simp only [Crowd.done] at hbefore ⊢
    by_cases hi : i' = i
    · subst hi
      rw [update_self]
      exact Or.inl (hs.secure_of_peer hpeer)
    · rw [update_of_ne hi]
      exact hbefore

/-- **A client goes on.** -/
theorem Crowd.Sound.client_step {s : Crowd} (hs : s.Sound db sha table e reads) {j : ℕ} {a : LoginStep}
    {client : LoginClient} (h : (s.clients j).step (s.children j).stream (s.secureOf j) a = some client) :
    Crowd.Sound db sha table e reads { s with clients := update s.clients j client } where
  client j' := by
    show (update s.clients j client j').Sound (s.secureOf j')
    by_cases hj : j' = j
    · subst hj
      rw [update_self]
      exact (hs.client j').step h
    · rw [update_of_ne hj]
      exact hs.client j'
  matched := hs.matched
  secure := hs.secure

theorem Crowd.Sound.step {s s' : Crowd} {a : CrowdEvent} (hs : s.Sound db sha table e reads)
    (h : s.step db sha table e reads a = some s') : s'.Sound db sha table e reads := by
  cases a with
  | server i arrives =>
    simp only [Crowd.step] at h
    cases hev : (script db sha table e reads i (s.children i).peer)[(s.children i).count]? with
    | none =>
      rw [hev] at h
      cases h
    | some ev =>
      rw [hev] at h
      cases h
      cases arrives with
      | false => simpa using hs.server hev (s.children i).stream (Or.inl rfl)
      | true => exact hs.server hev _ (Or.inr rfl)
  | accept i j =>
    simp only [Crowd.step] at h
    split_ifs at h with hcan
    cases h
    exact hs.accept hcan.2.1 hcan.2.2.1 hcan.2.2.2.1
  | client j a =>
    simp only [Crowd.step] at h
    split_ifs at h
    obtain ⟨client, hclient, rfl⟩ := Option.map_eq_some_iff.mp h
    exact hs.client_step hclient

/-- **What a client has**, if `login` has returned `true`: the token of the child that has accepted it. -/
theorem Crowd.Sound.agreement {s : Crowd} (hs : s.Sound db sha table e reads) {j : ℕ}
    (h : (s.clients j).stage = .returned true) :
    ∃ i, (s.children i).peer = some j ∧ .token (s.clients j).buffer ∈ s.done db sha table e reads i ∧
      ((e i).meets (reads i j)).Authorised db sha table := by
  have hclient := hs.client j
  cases haccepted : s.accepted j with
  | none =>
    simp only [Crowd.secureOf, haccepted] at hclient
    exact absurd rfl (hclient.buffer_eq (Nat.zero_le _) h).2
  | some i =>
    simp only [Crowd.secureOf, haccepted] at hclient
    have hpeer := (hs.matched i j).mpr haccepted
    have hsecure := hs.secure i
    rw [Crowd.done, hpeer] at hsecure
    refine ⟨i, hpeer, ?_⟩
    rw [Crowd.done, hpeer]
    rcases hsecure with hnil | htoken
    · rw [hnil] at hclient
      exact absurd rfl (hclient.buffer_eq (Nat.zero_le _) h).2
    · obtain ⟨-, hlen, hauth⟩ := todo_of_token (List.take_append_drop _ _) htoken
      rw [(hclient.buffer_eq hlen.le h).1]
      exact ⟨htoken, hauth⟩

theorem Crowd.Sound.of_run {sslPort ack : ℕ → Bytes} {as : List CrowdEvent} {s : Crowd}
    (h : run (Crowd.step db sha table e reads) (.start sslPort ack) as = some s) : s.Sound db sha table e reads :=
  run_history (P := fun _ s => s.Sound db sha table e reads) (.start sslPort ack)
    (fun _ _ _ _ _ hs hstep => hs.step hstep) h

/-- Who is authorised with what a client has written, if it came in whole pieces: the client who typed it. -/
theorem authorised_typed {e : LoginChild} {reads : List Read} (c : Credentials)
    (cut : Cut (c.nameWritten ++ c.passwordWritten) [0, 18]) (hreads : reads = cut.reads.map .data)
    (hname : e.login.namelen.length = 2) (hpass : e.login.passLen.length = 2) (hwhole : cut.second.length = 16)
    (h : (e.meets reads).Authorised db sha table) :
    ∃ row rows, db.executeQuery (query c.username) table = some (row :: rows) ∧
      row.passwordHash = hashSHA256 sha c.password := by
  obtain ⟨name, password, row, rows, hreceives, hquery, hhash⟩ := h
  have htyped := receives_typed c cut (e := (e.meets reads).login) hreceives.1 hreads hname hpass hwhole
  obtain ⟨rfl, rfl⟩ := htyped.unique hreceives
  exact ⟨row, rows, hquery, hhash⟩

/-- **No token goes astray**, though all children share one port. If `login` has returned `true`, the client has the
token of a child that has accepted it and found what it received from it to be right. No other client has been accepted
by that child, and where the client's bytes came in whole pieces it was the client's own name and password. -/
theorem crowd_agreement {sslPort ack : ℕ → Bytes} {as : List CrowdEvent} {s : Crowd}
    (h : run (Crowd.step db sha table e reads) (.start sslPort ack) as = some s) {j : ℕ}
    (hj : (s.clients j).stage = .returned true) :
    ∃ i, .token (s.clients j).buffer ∈ s.done db sha table e reads i ∧ (∀ j', s.accepted j' = some i ↔ j' = j) ∧
      ((e i).meets (reads i j)).Authorised db sha table ∧
      ∀ (c : Credentials) (cut : Cut (c.nameWritten ++ c.passwordWritten) [0, 18]),
        reads i j = cut.reads.map .data → (e i).login.namelen.length = 2 → (e i).login.passLen.length = 2 →
          cut.second.length = 16 →
            ∃ row rows, db.executeQuery (query c.username) table = some (row :: rows) ∧
              row.passwordHash = hashSHA256 sha c.password := by
  have hs := Crowd.Sound.of_run h
  obtain ⟨i, hpeer, htoken, hauth⟩ := hs.agreement hj
  refine ⟨i, htoken, fun j' => ?_, hauth, fun c cut hreads hname hpass hwhole =>
    authorised_typed c cut hreads hname hpass hwhole hauth⟩
  rw [← hs.matched, hpeer, Option.some.injEq, eq_comm]

/-- Two clients, both `bob`. The first has not dialed yet when its child accepts the second, who then goes on. -/
def crossed : List CrowdEvent :=
  [.client 0 (.open (.request true)), .client 1 (.open (.request true)), .server 0 true, .server 0 true, .server 1 true,
    .server 1 true, .client 1 (.open (.recv (some 2))), .client 1 (.open (.recv (some 2))),
    .client 1 (.open (.prepare true)), .client 1 (.open (.connect true)), .accept 0 1, .client 1 (.open (.secure true)),
    .client 1 (.write true), .server 0 true, .server 0 true, .server 0 true, .client 1 (.recv none),
    .client 1 (.recv none), .server 0 true, .client 1 (.secureRecv (some 64))]

/-- How it ends. -/
def bothAfter : Crowd := (run (Crowd.step mysqlOr firstBytes [bobCredentials.row firstBytes] (fun _ => bobChild)
  fun _ _ => bobChild.login.reads) (.start (fun _ => [0, 0]) fun _ => [0, 0]) crossed).get rfl

/-- The second has the token that the first one's child has written. -/
theorem crowd_agreement_crossed : ∃ i,
    .token (bothAfter.clients 1).buffer ∈ bothAfter.done mysqlOr firstBytes [bobCredentials.row firstBytes]
      (fun _ => bobChild) (fun _ _ => bobChild.login.reads) i ∧
    (∀ j', bothAfter.accepted j' = some i ↔ j' = 1) ∧
    (bobChild.meets bobChild.login.reads).Authorised mysqlOr firstBytes [bobCredentials.row firstBytes] ∧
    ∀ (c : Credentials) (cut : Cut (c.nameWritten ++ c.passwordWritten) [0, 18]),
      bobChild.login.reads = cut.reads.map .data → bobChild.login.namelen.length = 2 →
        bobChild.login.passLen.length = 2 → cut.second.length = 16 →
          ∃ row rows, mysqlOr.executeQuery (query c.username) [bobCredentials.row firstBytes] = some (row :: rows) ∧
            row.passwordHash = hashSHA256 firstBytes c.password := by
  have hrun : run (Crowd.step mysqlOr firstBytes [bobCredentials.row firstBytes] (fun _ => bobChild)
      fun _ _ => bobChild.login.reads) (.start (fun _ => [0, 0]) fun _ => [0, 0]) crossed = some bothAfter := rfl
  exact crowd_agreement hrun (j := 1) rfl

end Inferno.Login
