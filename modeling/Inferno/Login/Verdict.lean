import Inferno.Login.Segments
import Inferno.Login.TestClient

/-!
# What the client hears of a sign-up

On one connection `signup` receives the acknowledgement of its request, the port, and how the
sign-up went, two bytes each and with nothing to tell them apart. `signup_user` has more to
send when it runs out of patience, and less when it fails. The client does not look at what
the last `recv` returns, nor has it given a value to the variable that the bytes go to.

A run is any interleaving of what a child of the server does, in its order, with the steps of
the client; at any step the connection may be lost.

## What is proved

* `reports_iff` — `signup` only returns `true` for a user who has been inserted in exactly those
  runs in which, whenever the last `recv` leaves a zero, it has given both bytes or the row is
  there anyway, and the server has the username as it was sent.

## Scope

What the server meets is given beforehand. It may be anything, also what this client does
not send.
-/

namespace Inferno.Login

open CStr Machine

/-- What a child of the server meets: `get_request_type`, and then `signup_user`. -/
structure ChildEnv where
  /-- Whether the `recv` of the service code fails or not. -/
  requested : Bool
  /-- Whether the `send` of its acknowledgement succeeds. -/
  acknowledged : Bool
  signup : SignupEnv

/-- What a child does with a client who signs up. -/
def childEvents (sha : Bytes → Fin 32 → UInt8) (e : ChildEnv) : List SessionEvent :=
  if !e.requested then [.status 0]
  else if !e.acknowledged then []
  else .status 1 :: (signupUser sha .constructed e.signup).events

/-- What is sent on the plain connection. -/
def SessionEvent.sent : SessionEvent → Bytes
  | .port p => shortBytes p
  | .status code => shortBytes code
  | _ => []

/-- What the server has done and has still to do, what has got to the connection, and the client. -/
structure Exchange where
  done : List SessionEvent
  todo : List SessionEvent
  stream : Bytes
  client : Client

/-- A client has connected; `sslPort` and `ack` are what is on its stack. -/
def Exchange.start (sha : Bytes → Fin 32 → UInt8) (e : ChildEnv) (sslPort ack : Bytes) : Exchange :=
  ⟨[], childEvents sha e, [], .start sslPort ack⟩

/-- What happens next. -/
inductive ExchangeEvent where
  /-- The server does the next thing; what it sends may be lost. -/
  | server (arrives : Bool)
  | client (e : ClientStep)

/-- One step of one of the parties. -/
def Exchange.step (s : Exchange) : ExchangeEvent → Option Exchange
  | .server arrives =>
    match s.todo with
    | [] => none
    | ev :: todo => some ⟨s.done ++ [ev], todo, if arrives then s.stream ++ ev.sent else s.stream, s.client⟩
  | .client e => (s.client.step .signup s.stream e).map fun client => { s with client := client }

/-- If `signup` has returned `true`, its user has been inserted. -/
def Reports (username : Bytes) (s : Exchange) : Prop :=
  s.client.stage = .returned true → ∃ row ∈ insertedRows s.done, row.username = username

/-- If the last `recv` leaves a zero in `ACK`, it gives both of its bytes or there is a row by now, and
the server's `recv`s of the username leave it in the buffer. -/
def Trusted (e : ChildEnv) (username : Bytes) (s : Exchange) : ExchangeEvent → Prop
  | .client (.recv n) =>
    s.client.stage = .secured → ∀ bytes, s.client.next s.stream n = some bytes →
      shortOf (copyAt s.client.ack 0 bytes) = 0 →
        (n = some 2 ∨ insertedRows s.done ≠ []) ∧ e.signup.LeavesName username
  | _ => True

/-! ### What a sign-up sends -/

variable {sha : Bytes → Fin 32 → UInt8} {e : ChildEnv}

/-- The second byte of each `short` is not zero. -/
def Quiet (stream : Bytes) : Prop := stream.length % 2 = 0 ∧ ∀ i, i % 2 = 1 → stream[i]? ≠ some 0

theorem Quiet.append {stream more : Bytes} (h : Quiet stream) (h' : Quiet more) : Quiet (stream ++ more) := by
  obtain ⟨heven, hodd⟩ := h
  obtain ⟨heven', hodd'⟩ := h'
  refine ⟨by rw [List.length_append]; omega, fun i hi => ?_⟩
  by_cases hlt : i < stream.length
  · rw [List.getElem?_append_left hlt]
    exact hodd i hi
  · rw [List.getElem?_append_right (not_lt.mp hlt)]
    exact hodd' _ (by omega)

/-- **What a sign-up does**: it sends `-1`s and the port, and if it gets that far tells of the row it
has inserted, which has the username that it was left with, or that there is none. -/
theorem signupUser_events (sha : Bytes → Fin 32 → UInt8) (server : Counters) (e : SignupEnv) :
    ∃ early late, (signupUser sha server e).events = early ++ late ∧
      (∀ ev ∈ early, ev = .status (-1) ∨ ev = .port (sslPort (Handler.takePort server .recvPassword).1)) ∧
      (late = [] ∨ late = [.status 1] ∨
        ∃ row, late = [.inserted row, .status 0] ∧ e.LeavesName row.username) := by
  have hopening : ∀ ev ∈ (recvPassword server e).2.1,
      ev = .port (sslPort (Handler.takePort server .recvPassword).1) := by
    intro ev hev
    rw [recvPassword_events, Setup.events] at hev
    split_ifs at hev
    · cases hev
    · exact List.mem_singleton.mp hev
  rcases signupUser_cases sha server e with ⟨why, -, hevents⟩ | ⟨namelen, hlen, events, result, hloop, hgoes⟩
  · exact ⟨[], [], hevents, by simp, Or.inl rfl⟩
  obtain ⟨n, hn⟩ := exists_recvName_fst namelen e.t0 0 (List.replicate 16 0) e.reads
  obtain rfl : events = List.replicate n (.status (-1)) := by rw [← hn, hloop]
  have hloop' : ∀ ev ∈ List.replicate n (SessionEvent.status (-1)),
      ev = .status (-1) ∨ ev = .port (sslPort (Handler.takePort server .recvPassword).1) :=
    fun ev hev => Or.inl (List.eq_of_mem_replicate hev)
  have hearly : ∀ ev ∈ List.replicate n (.status (-1)) ++ (recvPassword server e).2.1,
      ev = .status (-1) ∨ ev = .port (sslPort (Handler.takePort server .recvPassword).1) := by
    intro ev hev
    rcases List.mem_append.mp hev with hev | hev
    · exact hloop' ev hev
    · exact Or.inr (hopening ev hev)
  rcases hgoes with ⟨why, -, hevents⟩ | ⟨unameBuffer, rfl, ⟨outcome, -, hevents⟩ | ⟨password, -, hevents⟩⟩
  · exact ⟨_, [], hevents.trans (List.append_nil _).symm, hloop', Or.inl rfl⟩
  · exact ⟨_, [], hevents.trans (List.append_nil _).symm, hearly, Or.inl rfl⟩
  · refine ⟨_, _, hevents, hearly, ?_⟩
    cases e.executes with
    | false => exact Or.inr (Or.inl rfl)
    | true => exact Or.inr (Or.inr ⟨_, rfl, namelen, unameBuffer, hlen, by rw [hloop], rfl⟩)

theorem quiet_pair {a b : UInt8} (h : b ≠ 0) : Quiet [a, b] := by
  refine ⟨by simp, fun i hi => ?_⟩
  rcases i with _ | _ | i
  · cases hi
  · simpa using h
  · simp

/-- What a child of the server sends before it has inserted a row is `Quiet`. -/
theorem quiet_of_mem_childEvents (hrequested : e.requested) {done todo : List SessionEvent} {ev : SessionEvent}
    (h : done ++ ev :: todo = childEvents sha e) : insertedRows (done ++ [ev]) ≠ [] ∨ Quiet ev.sent := by
  obtain ⟨early, late, hevents, hearly, hlate⟩ := signupUser_events sha .constructed e.signup
  have hquiet : ∀ ev' ∈ SessionEvent.status 1 :: early, Quiet ev'.sent := by
    intro ev' hev'
    rcases List.mem_cons.mp hev' with rfl | hev'
    · exact quiet_pair (by decide)
    · rcases hearly ev' hev' with rfl | rfl
      · exact quiet_pair (by decide)
      · exact quiet_pair (by decide)
  rw [childEvents, hrequested, List.append_cons] at h
  simp only [Bool.not_true, Bool.false_eq_true, if_false] at h
  split_ifs at h
  · simp at h
  · rw [hevents, ← List.cons_append] at h
    have hmem : ev ∈ done ++ [ev] := List.mem_append_right _ (List.mem_singleton_self ev)
    rcases List.append_eq_append_iff.mp h with ⟨rest, hsent, -⟩ | ⟨told, htold, hrest⟩
    · apply Or.inr
      apply hquiet
      rw [hsent]
      exact List.mem_append_left _ hmem
    · rw [htold, List.mem_append] at hmem
      rcases hmem with hmem | hmem
      · exact Or.inr (hquiet ev hmem)
      · -- what it tells in the end: a zero only comes after the row
        cases told with
        | nil => cases hmem
        | cons first told =>
          rcases hlate with rfl | rfl | ⟨row, rfl, -⟩
          · cases hrest
          · obtain ⟨rfl, hnil⟩ := List.cons.inj hrest
            obtain ⟨rfl, -⟩ := List.append_eq_nil_iff.mp hnil.symm
            obtain rfl := List.mem_singleton.mp hmem
            exact Or.inr (quiet_pair (by decide))
          · obtain ⟨rfl, -⟩ := List.cons.inj hrest
            apply Or.inl
            rw [htold, insertedRows_append]
            simp [insertedRows]

/-- A row is inserted with the username that the child was left with. -/
theorem leavesName_of_inserted {row : Row} (h : row ∈ insertedRows (childEvents sha e)) :
    e.signup.LeavesName row.username := by
  obtain ⟨early, late, hevents, hearly, hlate⟩ := signupUser_events sha .constructed e.signup
  have hnone : insertedRows early = [] := by
    apply List.filterMap_eq_nil_iff.mpr
    intro ev hev
    rcases hearly ev hev with rfl | rfl <;> rfl
  have hrow : row ∈ insertedRows late := by
    rw [childEvents] at h
    split_ifs at h
    · cases h
    · cases h
    · replace h : row ∈ insertedRows (signupUser sha .constructed e.signup).events := h
      rwa [hevents, insertedRows_append, hnone] at h
  rcases hlate with rfl | rfl | ⟨row', rfl, hname⟩
  · cases hrow
  · cases hrow
  · obtain rfl := List.mem_singleton.mp hrow
    exact hname

/-! ### What the client receives -/

/-- What is true in every state of a run. -/
structure Exchange.Sound (sha : Bytes → Fin 32 → UInt8) (e : ChildEnv) (s : Exchange) : Prop where
  client : s.client.Sound s.stream
  events : s.done ++ s.todo = childEvents sha e
  length : s.stream.length ≤ 2 * s.done.length
  quiet : e.requested → insertedRows s.done ≠ [] ∨ Quiet s.stream

theorem SessionEvent.length_sent_le (ev : SessionEvent) : ev.sent.length ≤ 2 := by
  cases ev <;> simp [SessionEvent.sent, shortBytes]

theorem Exchange.Sound.start (sslPort ack : Bytes) : (Exchange.start sha e sslPort ack).Sound sha e where
  client := .start sslPort ack
  events := rfl
  length := le_rfl
  quiet _ := Or.inr ⟨rfl, by simp [Exchange.start]⟩

theorem Exchange.Sound.step {s s' : Exchange} {a : ExchangeEvent} (hs : s.Sound sha e) (h : s.step a = some s') :
    s'.Sound sha e := by
  cases a with
  | client c =>
    obtain ⟨client, hstep, rfl⟩ := Option.map_eq_some_iff.mp h
    exact ⟨hs.client.step hstep, hs.events, hs.length, hs.quiet⟩
  | server arrives =>
    obtain ⟨done, todo, stream, client⟩ := s
    cases todo with
    | nil => cases h
    | cons ev todo =>
      cases h
      have hlength := hs.length
      have hsent := ev.length_sent_le
      have hkeep : insertedRows done ≠ [] → insertedRows (done ++ [ev]) ≠ [] := by
        rw [insertedRows_append]
        exact fun hne => List.append_ne_nil_of_left_ne_nil hne _
      refine ⟨?_, ?_, ?_, fun hrequested => ?_⟩
      · cases arrives with
        | false => exact hs.client
        | true => exact hs.client.append ev.sent
      · rw [← List.append_cons]
        exact hs.events
      · simp only [List.length_append, List.length_singleton] at hlength ⊢
        cases arrives with
        | false =>
          simp only [Bool.false_eq_true, if_false]
          omega
        | true =>
          simp only [if_true, List.length_append]
          omega
      · rcases hs.quiet hrequested with hrow | hquiet
        · exact Or.inl (hkeep hrow)
        · rcases quiet_of_mem_childEvents hrequested hs.events with hrow | hmore
          · exact Or.inl hrow
          · cases arrives with
            | false => exact Or.inr hquiet
            | true => exact Or.inr (hquiet.append hmore)

/-- **Two zeros tell of a row**: when the last `recv` gives both bytes of `ACK` and they are zeros, the
server has inserted a row. -/
theorem inserted_of_zeros {s : Exchange} (hs : s.Sound sha e) (hstage : s.client.stage = .secured) {bytes : Bytes}
    (hnext : s.client.next s.stream (some 2) = some bytes) (hzero : shortOf (copyAt s.client.ack 0 bytes) = 0) :
    insertedRows s.done ≠ [] := by
  obtain ⟨hlen, -, hle, hbytes⟩ := Client.next_spec hnext hs.client.received_le
  have htwo := hs.client.secured (Or.inr hstage)
  have hlength := hs.length
  rw [Option.getD_some] at hlen
  have hstream : ∀ i < 2, s.stream[s.client.received + i]? = some 0 := by
    obtain ⟨hfst, hsnd⟩ := shortOf_eq_zero_iff.mp hzero
    intro i hi
    have hi' : i < bytes.length := by omega
    rw [← hbytes i hi']
    rw [List.getD_eq_getElem?_getD, getElem?_copyAt_zero, if_pos (by omega)] at hfst hsnd
    have hget : bytes[i]?.getD 0 = 0 := by
      interval_cases i
      · exact hfst
      · exact hsnd
    rw [List.getElem?_eq_getElem hi'] at hget ⊢
    exact congrArg some hget
  cases hrequested : e.requested with
  | false =>
    -- there is nothing behind the zero that says so
    have hevents := congrArg List.length hs.events
    rw [childEvents, hrequested, List.length_append] at hevents
    simp only [Bool.not_false, if_true, List.length_singleton] at hevents
    omega
  | true =>
    apply (hs.quiet hrequested).resolve_right
    rintro ⟨-, hodd⟩
    rcases Nat.mod_two_eq_zero_or_one s.client.received with heven | heven
    · exact hodd _ (by omega) (hstream 1 (by omega))
    · exact hodd _ heven (hstream 0 (by omega))

/-! ### When the client is right -/

/-- `signup` only returns `true` after its last `recv`. -/
theorem returned_true_iff {stream : Bytes} {c c' : Client} {a : ClientStep} (h : c.step .signup stream a = some c') :
    c'.stage = .returned true ↔ ∃ n bytes, a = .recv n ∧ c.stage = .secured ∧ c.next stream n = some bytes ∧
      shortOf (copyAt c.ack 0 bytes) = 0 := by
  rcases Client.step_cases h with ⟨n, bytes, rfl, hnext, htake⟩ | ⟨hno, stage, rfl, hmove⟩
  · rcases Client.take_cases htake with ⟨hstage, -, rfl⟩ | ⟨-, hstage, rfl⟩ | ⟨-, hstage, rfl⟩ | ⟨hstage, -, rfl⟩
    · rcases hstage with hstage | hstage <;> simp [hstage]
    · simp [hstage]
    · simp [hstage]
    · simp [hstage, hnext]
  · have hlast : stage ≠ .returned true := by
      rcases hmove with rfl | ⟨rfl | rfl, -⟩ | ⟨rfl, -⟩ | ⟨rfl, -⟩ | ⟨rfl, -⟩ <;> simp
    refine iff_of_false hlast ?_
    rintro ⟨n, bytes, ha, -⟩
    exact hno n ha

/-- The rows inserted so far have the username that the child was left with. -/
theorem Exchange.Sound.leavesName {s : Exchange} (hs : s.Sound sha e) {row : Row} (h : row ∈ insertedRows s.done) :
    e.signup.LeavesName row.username := by
  have hrow : row ∈ insertedRows (childEvents sha e) := by
    rw [← hs.events, insertedRows_append]
    exact List.mem_append_left _ h
  exact leavesName_of_inserted hrow

/-- A child is left with one username. -/
theorem SignupEnv.LeavesName.unique {e : SignupEnv} {name name' : Bytes} (h : e.LeavesName name)
    (h' : e.LeavesName name') : name = name' := by
  obtain ⟨namelen, unameBuffer, hlen, hname, rfl⟩ := h
  obtain ⟨namelen', unameBuffer', hlen', hname', rfl⟩ := h'
  obtain ⟨rfl, -⟩ := Prod.mk.inj (Except.ok.inj (hlen.symm.trans hlen'))
  rw [Except.ok.inj (hname.symm.trans hname')]

/-- A step keeps the client right if it is `Trusted`. -/
theorem reports_step_iff {username : Bytes} {s s' : Exchange} {a : ExchangeEvent} (hs : s.Sound sha e)
    (hreports : Reports username s) (h : s.step a = some s') : Reports username s' ↔ Trusted e username s a := by
  cases a with
  | server arrives =>
    obtain ⟨done, todo, stream, client⟩ := s
    cases todo with
    | nil => cases h
    | cons ev todo =>
      cases h
      refine iff_of_true (fun hreturned => ?_) trivial
      obtain ⟨row, hrow, hname⟩ := hreports hreturned
      refine ⟨row, ?_, hname⟩
      simp only [insertedRows_append]
      exact List.mem_append_left _ hrow
  | client c =>
    obtain ⟨client, hstep, rfl⟩ := Option.map_eq_some_iff.mp h
    have hreturned := returned_true_iff hstep
    by_cases hlast : client.stage = .returned true
    · obtain ⟨n, bytes, rfl, hstage, hnext, hzero⟩ := hreturned.mp hlast
      constructor
      · intro hright _ bytes' hnext' _
        obtain ⟨row, hrow, rfl⟩ := hright hlast
        exact ⟨Or.inr (List.ne_nil_of_mem hrow), hs.leavesName hrow⟩
      · intro htrusted _
        obtain ⟨hthere, hname⟩ := htrusted hstage bytes hnext hzero
        have hrows : insertedRows s.done ≠ [] := by
          rcases hthere with rfl | hrows
          · exact inserted_of_zeros hs hstage hnext hzero
          · exact hrows
        obtain ⟨row, hrow⟩ := List.exists_mem_of_ne_nil _ hrows
        exact ⟨row, hrow, (hs.leavesName hrow).unique hname⟩
    · refine iff_of_true (fun hdone => absurd hdone hlast) ?_
      cases c with
      | recv n =>
        intro hstage bytes hnext hzero
        exact absurd (hreturned.mpr ⟨n, bytes, rfl, hstage, hnext, hzero⟩) hlast
      | request | name | prepare | connect | secure => trivial

/-- **When `signup` is right that its user has been inserted.** -/
theorem reports_iff {username sslPort ack : Bytes} {as : List ExchangeEvent} {s : Exchange}
    (h : run Exchange.step (.start sha e sslPort ack) as = some s) :
    EachState Exchange.step (Reports username) (.start sha e sslPort ack) as ↔
      EachStep Exchange.step (Trusted e username) (.start sha e sslPort ack) as := by
  apply eachState_iff_eachStep (I := Exchange.Sound sha e) (.start sslPort ack) _ _ _ h
  · intro hreturned
    cases hreturned
  · exact fun s a s' hs hstep => hs.step hstep
  · exact fun s a s' hs hreports hstep => reports_step_iff hs hreports hstep

/-- A sign-up in which nothing is lost, until the client has written the password. -/
def untilSecured : List ExchangeEvent :=
  [.client (.request true), .client (.name true), .server true, .server true, .client (.recv (some 2)),
    .client (.recv (some 2)), .client (.prepare true), .client (.connect true), .client (.secure true)]

/-- `bob` signs up. -/
theorem reports_bob :
    EachState Exchange.step (Reports bobCredentials.username)
        (.start firstBytes ⟨true, true, .plain bobCredentials⟩ [0, 0] [0, 0])
        (untilSecured ++ [.server true, .server true, .client (.recv (some 2))]) ↔
      EachStep Exchange.step (Trusted ⟨true, true, .plain bobCredentials⟩ bobCredentials.username)
        (.start firstBytes ⟨true, true, .plain bobCredentials⟩ [0, 0] [0, 0])
        (untilSecured ++ [.server true, .server true, .client (.recv (some 2))]) :=
  reports_iff (s := (run Exchange.step (.start firstBytes ⟨true, true, .plain bobCredentials⟩ [0, 0] [0, 0])
    (untilSecured ++ [.server true, .server true, .client (.recv (some 2))])).get rfl) rfl

/-- The statement throws, the connection is lost before the client is told, and there are zeros where
`ACK` is. -/
theorem failure_reported_as_success :
    ¬ EachState Exchange.step (Reports bobCredentials.username)
      (.start firstBytes ⟨true, true, { SignupEnv.plain bobCredentials with executes := false }⟩ [0, 0] [0, 0])
      (untilSecured ++ [.server false, .client (.recv none)]) := by
  intro h
  obtain ⟨row, hrow, -⟩ := h _ [] ((run Exchange.step
    (.start firstBytes ⟨true, true, { SignupEnv.plain bobCredentials with executes := false }⟩ [0, 0] [0, 0])
    (untilSecured ++ [.server false, .client (.recv none)])).get rfl) (List.append_nil _).symm rfl (by decide +kernel)
  exact List.not_mem_nil hrow

end Inferno.Login
