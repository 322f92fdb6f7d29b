import Inferno.Login.LoginExchange

/-!
# A login in which both wait for each other

`login` of the test client waits for what the server sends, and `login_user` for what the client writes: the service
code on the plain connection, and on the secure one the username, and then the password. Here the server goes on once
the bytes that it is to read by then have been written, and `BIO_do_connect` succeeds once the server has sent its
port. Apart from that a run is any interleaving of the two, as before.

## What is proved

* `login_completes` — if the bytes of what the user has typed come in whole pieces, the user is there and the
  password is right, a run in which nothing fails or is lost comes to an end, and there `login` has returned `true`
  with the token, in whatever pieces that arrived. The two are never stuck with each waiting for the other.

## Scope

The pieces in which the server reads are given beforehand, but it does not get one before it has been written. A
server that has sent its port is taken to be listening by the time that the client dials it.
-/

namespace Inferno.Login

open CStr Machine

/-! ### What the client writes and the server reads -/

/-- The service code. -/
def Service.code : Service → Bytes
  | .login => shortBytes 0
  | .signup => shortBytes 1

/-- What has been written to the server, on the plain connection and on the secure one. -/
structure Written where
  plain : Bytes
  secure : Bytes

/-- More is written. -/
def Written.append (w more : Written) : Written := ⟨w.plain ++ more.plain, w.secure ++ more.secure⟩

/-- What is read has been written. -/
def Written.covers (w read : Written) : Bool := read.plain.isPrefixOf w.plain && read.secure.isPrefixOf w.secure

theorem Written.append_nil (w : Written) : w.append ⟨[], []⟩ = w := by
  simp [Written.append]

theorem Written.covers_iff {w read : Written} :
    w.covers read = true ↔ read.plain <+: w.plain ∧ read.secure <+: w.secure := by
  rw [Written.covers, Bool.and_eq_true, List.isPrefixOf_iff_prefix, List.isPrefixOf_iff_prefix]

/-- An exchange of the client with a child, and what the client has written. -/
structure Awaiting (σ : Type) where
  exchange : σ
  written : Written

/-- An exchange in which nothing has been written. -/
def Awaiting.start {σ : Type} (exchange : σ) : Awaiting σ := ⟨exchange, ⟨[], []⟩⟩

/-- One step of an exchange, if it is `ready` for that. -/
def Awaiting.step {σ α : Type} (step : σ → α → Option σ) (ready : Awaiting σ → α → Bool) (writes : σ → α → Written)
    (d : Awaiting σ) (a : α) : Option (Awaiting σ) :=
  if ready d a then
    (step d.exchange a).map fun exchange => ⟨exchange, d.written.append (writes exchange a)⟩
  else none

section Awaiting

variable {σ α : Type} {step : σ → α → Option σ} {ready : Awaiting σ → α → Bool} {writes : σ → α → Written}

theorem Awaiting.step_eq_some_iff {d d' : Awaiting σ} {a : α} :
    d.step step ready writes a = some d' ↔ ready d a ∧ step d.exchange a = some d'.exchange ∧
      d'.written = d.written.append (writes d'.exchange a) := by
  rw [Awaiting.step]
  split_ifs with hready
  · rw [Option.map_eq_some_iff]
    constructor
    · rintro ⟨exchange, hstep, rfl⟩
      exact ⟨hready, hstep, rfl⟩
    · rintro ⟨-, hstep, hwritten⟩
      exact ⟨d'.exchange, hstep, by rw [← hwritten]⟩
  · simp [hready]

theorem Awaiting.step_isSome {d : Awaiting σ} {a : α} (hready : ready d a) (h : (step d.exchange a).isSome) :
    (d.step step ready writes a).isSome := by
  rw [Awaiting.step, if_pos hready, Option.isSome_map]
  exact h

/-- A run in which they wait is one in which they need not. -/
theorem Awaiting.run_exchange {d d' : Awaiting σ} {as : List α}
    (h : run (Awaiting.step step ready writes) d as = some d') : run step d.exchange as = some d'.exchange :=
  run_map (f := Awaiting.exchange) (fun _ _ _ hstep => (Awaiting.step_eq_some_iff.mp hstep).2.1) h

end Awaiting

/-- The bytes of a length, and those that the loop behind it reads. -/
def fieldRead (junk : Bytes) : List Read → Bytes
  | [] => []
  | r :: reads => r.bytes ++ taken (shortOf (copyAt junk 0 r.bytes)) 0 reads

/-- What a child has read by the time that it does the next thing: the service code, the username behind its port,
and the password behind what it sends about the username. -/
def LoginChild.readBefore (e : LoginChild) (done : ℕ) : Written where
  plain := if e.requested then Service.login.code else []
  secure :=
    if done < 2 then []
    else
      fieldRead e.login.namelen e.login.reads ++
        if done < 4 then []
        else
          match receiveName e.login.namelen e.login.reads with
          | .error _ => []
          | .ok (_, reads) => fieldRead e.login.passLen reads

/-- What a step of the client that leads to `c` writes. -/
def LoginStep.writes (typed : Credentials) (c : LoginClient) : LoginStep → Written
  | .open (.request true) => ⟨Service.login.code, []⟩
  | .write true => ⟨[], typed.nameWritten⟩
  | .recv _ => ⟨[], if c.stage = .awaitsVerdict then typed.passwordWritten else []⟩
  | _ => ⟨[], []⟩

/-- What such a step of the exchange writes. -/
def LoginEvent.writes (typed : Credentials) (s : LoginExchange) : LoginEvent → Written
  | .server _ => ⟨[], []⟩
  | .client a => a.writes typed s.client

/-- Whether what the server reads is there, or the server for `BIO_do_connect`. -/
def LoginExchange.ready (e : LoginChild) (d : Awaiting LoginExchange) : LoginEvent → Bool
  | .server _ => d.written.covers (e.readBefore d.exchange.done.length)
  | .client (.open (.connect true)) => 2 ≤ d.exchange.done.length
  | .client _ => true

/-- One step of a login in which both wait for each other; `typed` is what the user has typed. -/
def awaitingLogin (typed : Credentials) (e : LoginChild) :
    Awaiting LoginExchange → LoginEvent → Option (Awaiting LoginExchange) :=
  Awaiting.step LoginExchange.step (LoginExchange.ready e) (LoginEvent.writes typed)

/-- A child that is asked to log in whoever has typed `c`, and does so without a failure. -/
structure LoginChild.LogsIn (e : LoginChild) (c : Credentials) : Prop where
  requested : e.requested
  acknowledged : e.acknowledged
  opens : e.login.setup.opens
  reads : ∃ cut : Cut (c.nameWritten ++ c.passwordWritten) [0, 18],
    e.login.reads = cut.reads.map .data ∧ cut.second.length = 16
  namelen : e.login.namelen.length = 2
  passLen : e.login.passLen.length = 2
  randBytes : e.login.randBytes.isSome

variable {db : MySQL} {sha : Bytes → Fin 32 → UInt8} {table : List Row} {e : LoginChild} {typed : Credentials}

theorem LoginChild.LogsIn.receives (h : e.LogsIn typed) : e.login.Receives typed.username typed.password := by
  obtain ⟨cut, hreads, hwhole⟩ := h.reads
  exact receives_typed typed cut h.opens hreads h.namelen h.passLen hwhole

/-- A loop reads what comes, and may leave some of it. -/
theorem prefix_taken (len received : ℤ) (pieces : List Bytes) :
    taken len received (pieces.map .data) <+: pieces.flatten := by
  induction pieces generalizing received with
  | nil => exact List.prefix_rfl
  | cons b pieces ih =>
    rw [List.map_cons, taken, List.flatten_cons]
    split_ifs
    · exact (List.prefix_append_right_inj b).mpr (ih _)
    · exact List.nil_prefix

theorem prefix_fieldRead (junk : Bytes) (pieces : List Bytes) :
    fieldRead junk (pieces.map .data) <+: pieces.flatten := by
  cases pieces with
  | nil => exact List.prefix_rfl
  | cons b pieces =>
    rw [List.map_cons, fieldRead, List.flatten_cons]
    exact (List.prefix_append_right_inj b).mpr (prefix_taken _ _ _)

theorem Cut.prefix_fieldRead {stream : Bytes} {fields : List ℕ} (cut : Cut stream fields) (junk : Bytes) :
    fieldRead junk (cut.reads.map .data) <+: stream := by
  have hbegins := Login.prefix_fieldRead junk cut.reads
  rwa [cut.flatten_eq] at hbegins

/-- A length that comes whole, and what the loop behind it reads. -/
theorem fieldRead_length {junk : Bytes} (hjunk : junk.length = 2) {n : ℕ} (hn : n < 256) (reads : List Read) :
    fieldRead junk (.data [0, UInt8.ofNat n] :: reads) = [0, UInt8.ofNat n] ++ taken n 0 reads := by
  have hshort := readShort_length hjunk hn reads
  rw [readShort, if_pos (show (Read.data [0, UInt8.ofNat n]).bytes.length ≤ 2 from le_rfl)] at hshort
  obtain ⟨hlen, -⟩ := Prod.mk.inj (Except.ok.inj hshort)
  rw [fieldRead, hlen]
  rfl

/-- **What the server reads of what the client writes**: the username, and then no more than the password. -/
theorem LoginChild.LogsIn.readBefore (h : e.LogsIn typed) (done : ℕ) :
    (e.readBefore done).plain = Service.login.code ∧ (done < 2 → (e.readBefore done).secure = []) ∧
      (done < 4 → (e.readBefore done).secure <+: typed.nameWritten) ∧
      (e.readBefore done).secure <+: typed.nameWritten ++ typed.passwordWritten := by
  obtain ⟨cut, hreads, hwhole⟩ := h.reads
  have hpos := typed.username_pos
  have hle := typed.username_le
  obtain ⟨bs, hcut, hbs, hreceive⟩ := receiveName_whole typed cut h.namelen hwhole
  rw [← hreads] at hreceive
  -- the loop for the username leaves off behind the padding
  have hname : fieldRead e.login.namelen e.login.reads = typed.nameWritten := by
    rw [hreads, hcut, List.map_cons, fieldRead_length h.namelen (by omega), List.map_cons, taken, if_pos (by omega),
      taken_of_le, List.append_nil]
    · rfl
    · simp only [Read.returned, typed.length_uname]
      omega
  have hpassword : fieldRead e.login.passLen (.data [0, UInt8.ofNat typed.password.length] :: bs.map .data) <+:
      typed.passwordWritten := by
    have hbegins := prefix_fieldRead e.login.passLen ([0, UInt8.ofNat typed.password.length] :: bs)
    rwa [List.flatten_cons, hbs] at hbegins
  simp only [LoginChild.readBefore, h.requested, hname, hreceive, if_true, true_and]
  refine ⟨fun hdone => if_pos hdone, fun hdone => ?_, ?_⟩
  · rw [if_pos hdone, List.append_nil]
    split_ifs
    · exact List.nil_prefix
    · exact List.prefix_rfl
  · split_ifs
    · exact List.nil_prefix
    · rw [List.append_nil]
      exact List.prefix_append _ _
    · exact (List.prefix_append_right_inj _).mpr hpassword

/-! ### The client, when all goes well -/

/-- A call of the client that does not fail; a `recv` gives both bytes and an `SSL_read` at least one. -/
def LoginStep.Succeeds : LoginStep → Prop
  | .open (.request sent) => sent
  | .open (.name sent) => sent
  | .open (.recv bytes) => bytes = some 2
  | .open (.prepare succeeds) => succeeds
  | .open (.connect succeeds) => succeeds
  | .open (.secure succeeds) => succeeds
  | .write succeeds => succeeds
  | .recv bytes => bytes = some 2
  | .secureRecv bytes => ∃ n, 0 < n ∧ bytes = some n

/-- A step in which nothing fails or is lost. -/
def LoginEvent.Succeeds : LoginEvent → Prop
  | .server arrives => arrives
  | .client a => a.Succeeds

/-- How many calls are before the loop that reads the token, and how much `login` has received until now, if all
has gone well. -/
def LoginClient.course (c : LoginClient) : Option (ℕ × ℕ) :=
  match c.stage with
  | .opening =>
    match c.client.stage with
    | .requesting => some (9, 0)
    | .awaitsACK => some (8, 0)
    | .awaitsPort => some (7, 2)
    | .hasPort => some (6, 4)
    | .dialing => some (5, 4)
    | .connected => some (4, 4)
    | .secured => some (3, 4)
    | .naming | .returned _ => none
  | .awaitsUser => some (2, 4)
  | .awaitsVerdict => some (1, 6)
  | .awaitsToken | .returned true => some (0, 8)
  | .returned false | .undefined => none

/-- What is sent on the plain connection in a login that goes well. -/
def wellSent (p : Int16) : Bytes := shortBytes 1 ++ shortBytes p ++ [0, 0, 0, 0]

/-- What the client receives of what is sent in all. -/
theorem next_of_append {stream rest all : Bytes} (h : stream ++ rest = all) {c : Client} {bytes : Bytes}
    (hnext : c.next stream (some 2) = some bytes) :
    c.received + 2 ≤ all.length ∧ bytes = (all.drop c.received).take 2 := by
  simp only [Client.next] at hnext
  split_ifs at hnext with hn
  cases hnext
  have hle : c.received + 2 ≤ stream.length := hn.2.2
  have hfull := congrArg List.length h
  rw [List.length_append] at hfull
  refine ⟨by omega, ?_⟩
  rw [← h, List.drop_append_of_le_length (by omega), List.take_append_of_le_length]
  rw [List.length_drop]
  omega

/-- What the client receives then. -/
theorem next_of_wellSent {p : Int16} {stream rest : Bytes} (h : stream ++ rest = wellSent p) {c : Client}
    {bytes : Bytes} (hnext : c.next stream (some 2) = some bytes) :
    bytes.length = 2 ∧ (4 ≤ c.received → bytes = [0, 0]) := by
  obtain ⟨hle, rfl⟩ := next_of_append h hnext
  rw [show (wellSent p).length = 8 from rfl] at hle
  refine ⟨?_, fun hfour => ?_⟩
  · rw [List.length_take, List.length_drop, show (wellSent p).length = 8 from rfl]
    omega
  · have hsix : c.received ≤ 6 := by omega
    generalize c.received = r at hfour hsix ⊢
    interval_cases r <;> rfl

/-- A call that succeeds is one of those before the loop, or gives a part of the token. -/
theorem LoginClient.course_step {p : Int16} {stream rest secure : Bytes} (hstream : stream ++ rest = wellSent p)
    (hsecure : secure.length ≤ 64) {c c' : LoginClient} {a : LoginStep} {left : ℕ}
    (hc : c.course = some (left, c.client.received)) (hwhole : c.totalBytes = c.secureReceived) (ha : a.Succeeds)
    (h : c.step stream secure a = some c') :
    ∃ left', c'.course = some (left', c'.client.received) ∧
      left' + (64 - c'.secureReceived) < left + (64 - c.secureReceived) := by
  obtain ⟨client, stage, secureReceived, totalBytes, buffer⟩ := c
  cases a with
  | «open» e =>
    cases stage <;> simp only [LoginClient.step, reduceCtorEq] at h
    obtain ⟨client', hclient, rfl⟩ := Option.map_eq_some_iff.mp h
    cases e with
    | recv bytes =>
      obtain rfl : bytes = some 2 := ha
      obtain ⟨bytes, hnext, htake⟩ := Option.bind_eq_some_iff.mp hclient
      have hlen := (next_of_wellSent hstream hnext).1
      rcases Client.take_cases htake with ⟨-, rfl, -⟩ | ⟨-, hstage, rfl⟩ | ⟨-, hstage, rfl⟩ | ⟨-, hservice, -⟩
      · cases hlen
      · simp only [LoginClient.course, hstage, Option.some.injEq, Prod.mk.injEq] at hc
        exact ⟨7, by simp [LoginClient.course, hlen, ← hc.2], by simp only; omega⟩
      · simp only [LoginClient.course, hstage, Option.some.injEq, Prod.mk.injEq] at hc
        exact ⟨6, by simp [LoginClient.course, hlen, ← hc.2], by simp only; omega⟩
      · cases hservice
    | request sent | name sent | prepare succeeds | connect succeeds | secure succeeds =>
      cases hstage : client.stage <;> simp only [Client.step, hstage, reduceCtorEq] at hclient
      all_goals
        simp only [LoginClient.course, hstage, Option.some.injEq, Prod.mk.injEq, reduceCtorEq] at hc
      all_goals
        simp only [LoginStep.Succeeds] at ha
        simp only [ha, if_true, Option.some.injEq] at hclient
        subst hclient
        exact ⟨left - 1, by simp [LoginClient.course, ← hc.1, ← hc.2], by simp only; omega⟩
  | write succeeds =>
    cases stage <;> cases hstage : client.stage <;> simp only [LoginClient.step, hstage, reduceCtorEq] at h
    simp only [LoginStep.Succeeds] at ha
    simp only [LoginClient.course, hstage, Option.some.injEq, Prod.mk.injEq] at hc
    simp only [ha, if_true, Option.some.injEq] at h
    subst h
    exact ⟨2, by simp [LoginClient.course, ← hc.2], by simp only; omega⟩
  | recv bytes =>
    obtain rfl : bytes = some 2 := ha
    cases stage <;> simp only [LoginClient.step, reduceCtorEq] at h
    all_goals
      obtain ⟨bytes, hnext, rfl⟩ := Option.map_eq_some_iff.mp h
      simp only [LoginClient.course, Option.some.injEq, Prod.mk.injEq] at hc
      obtain rfl := (next_of_wellSent hstream hnext).2 (by omega)
      have hzero : shortOf (copyAt client.ack 0 [0, 0]) = 0 := by
        rw [shortOf_eq_zero_iff]
        simp [copyAt]
      refine ⟨left - 1, ?_, ?_⟩
      · simp [LoginClient.takeACK, hzero, LoginClient.course, ← hc.1, ← hc.2]
      · simp only [LoginClient.takeACK]
        omega
  | secureRecv bytes =>
    obtain ⟨n, hpos, rfl⟩ := ha
    cases stage <;> simp only [LoginClient.step, reduceCtorEq] at h
    split_ifs at h with hn
    cases h
    simp only [LoginClient.course, Option.some.injEq, Prod.mk.injEq] at hc
    rw [takeToken_of_whole hsecure hn.2 hwhole]
    refine ⟨0, ?_, ?_⟩
    · simp only [LoginClient.course]
      split_ifs <;> simp [← hc.2]
    · simp only
      omega

/-- What `login` has written until now, if all has gone well. -/
def LoginClient.wrote (typed : Credentials) (c : LoginClient) : Written where
  plain := if c.stage = .opening ∧ c.client.stage = .requesting then [] else Service.login.code
  secure :=
    match c.stage with
    | .opening => []
    | .awaitsUser => typed.nameWritten
    | _ => typed.nameWritten ++ typed.passwordWritten

/-- A call that succeeds writes what is next. -/
theorem LoginClient.wrote_step {stream secure : Bytes} {c c' : LoginClient} {a : LoginStep}
    (hc' : c'.course.isSome) (ha : a.Succeeds) (h : c.step stream secure a = some c') :
    c'.wrote typed = (c.wrote typed).append (a.writes typed c') := by
  obtain ⟨client, stage, secureReceived, totalBytes, buffer⟩ := c
  cases a with
  | «open» e =>
    cases stage <;> simp only [LoginClient.step, reduceCtorEq] at h
    obtain ⟨client', hclient, rfl⟩ := Option.map_eq_some_iff.mp h
    cases e with
    | recv bytes =>
      obtain ⟨bytes, -, htake⟩ := Option.bind_eq_some_iff.mp hclient
      rcases Client.take_cases htake with ⟨hstage, -, rfl⟩ | ⟨-, hstage, rfl⟩ | ⟨-, hstage, rfl⟩ | ⟨-, hservice, -⟩
      · rcases hstage with hstage | hstage <;> simp [LoginClient.wrote, LoginStep.writes, Written.append, hstage]
      · simp [LoginClient.wrote, LoginStep.writes, Written.append, hstage]
      · simp [LoginClient.wrote, LoginStep.writes, Written.append, hstage]
      · cases hservice
    | request sent | name sent | prepare succeeds | connect succeeds | secure succeeds =>
      cases hstage : client.stage <;> simp only [Client.step, hstage, reduceCtorEq] at hclient
      all_goals
        simp only [LoginStep.Succeeds] at ha
        simp only [ha, if_true, Option.some.injEq] at hclient
        subst hclient
        simp [LoginClient.wrote, LoginStep.writes, Written.append, hstage, ha]
  | write succeeds =>
    cases stage <;> cases hstage : client.stage <;> simp only [LoginClient.step, hstage, reduceCtorEq] at h
    simp only [LoginStep.Succeeds] at ha
    simp only [ha, if_true, Option.some.injEq] at h
    subst h
    simp [LoginClient.wrote, LoginStep.writes, Written.append, hstage, ha]
  | recv bytes =>
    cases stage <;> simp only [LoginClient.step, reduceCtorEq] at h
    all_goals
      obtain ⟨bytes, -, rfl⟩ := Option.map_eq_some_iff.mp h
      by_cases hshort : shortOf (copyAt client.ack 0 bytes) = 0
      · simp [LoginClient.wrote, LoginStep.writes, Written.append, LoginClient.takeACK, hshort]
      · rw [LoginClient.takeACK, if_pos hshort] at hc'
        cases hc'
  | secureRecv bytes =>
    obtain ⟨n, -, rfl⟩ := ha
    cases stage <;> simp only [LoginClient.step, reduceCtorEq] at h
    split_ifs at h
    cases h
    rw [LoginClient.takeToken] at hc' ⊢
    split_ifs at hc' ⊢
    · simp [LoginClient.course] at hc'
    · simp [LoginClient.wrote, LoginStep.writes, Written.append]
    · simp [LoginClient.wrote, LoginStep.writes, Written.append]

/-- What the server does for a client who has a row with the hash of the password. -/
theorem events_of_authorised {name password randstr : Bytes} {row : Row} {rows : List Row} (hrequested : e.requested)
    (hacknowledged : e.acknowledged) (hreceives : e.login.Receives name password)
    (hquery : db.executeQuery (query name) table = some (row :: rows))
    (hhash : row.passwordHash = hashSHA256 sha password) (hrand : e.login.randBytes = some randstr) :
    e.events db sha table = [.status 1, .port (sslPort (Handler.takePort .constructed .loginUser).1), .selected row,
      .status 0, .status 0, .token (hashSHA256 sha (cstrOver randstr e.login.afterRandstr))] := by
  have hsent : ¬e.login.setup.sent < 0 := by
    have hopens := hreceives.1
    simp only [Setup.opens, Bool.and_eq_true, decide_eq_true_eq] at hopens
    omega
  rw [LoginChild.events, hrequested, hacknowledged]
  simp [loginUser, login_of_receives hreceives, hquery, hhash, hrand, Setup.events, hsent]

/-- What is true in every state of a run in which nothing fails or is lost. -/
structure LoginExchange.Well (db : MySQL) (sha : Bytes → Fin 32 → UInt8) (table : List Row) (e : LoginChild)
    (p : Int16) (t : Bytes) (as : List LoginEvent) (s : LoginExchange) : Prop where
  sound : s.Sound db sha table e
  stream : s.stream ++ s.todo.flatMap SessionEvent.sent = wellSent p
  secure : s.secure ++ s.todo.flatMap SessionEvent.secureSent = t
  whole : s.client.totalBytes = s.client.secureReceived
  course : ∃ left, s.client.course = some (left, s.client.client.received) ∧
    as.length + s.todo.length + left + (64 - s.client.secureReceived) ≤ 79

variable {p : Int16} {t : Bytes}

theorem LoginExchange.Well.step {as : List LoginEvent} {a : LoginEvent} {s s' : LoginExchange}
    (hs : s.Well db sha table e p t as) (ha : a.Succeeds) (h : s.step a = some s') :
    s'.Well db sha table e p t (as ++ [a]) := by
  obtain ⟨left, hcourse, hleft⟩ := hs.course
  have hsound := hs.sound.step h
  cases a with
  | client c =>
    obtain ⟨client, hclient, rfl⟩ := Option.map_eq_some_iff.mp h
    have hlen := hs.sound.length_secure
    have hno : c ≠ .secureRecv none := by
      rintro rfl
      obtain ⟨n, -, hn⟩ := ha
      cases hn
    obtain ⟨left', hcourse', hless⟩ := LoginClient.course_step hs.stream hlen hcourse hs.whole ha hclient
    refine ⟨hsound, hs.stream, hs.secure, (LoginClient.step_whole hclient hlen hno ⟨hs.whole, ?_⟩).1, left',
      hcourse', ?_⟩
    · intro hstage
      simp only [LoginClient.course, hstage, reduceCtorEq] at hcourse
    · simp only [List.length_append, List.length_singleton]
      omega
  | server arrives =>
    obtain ⟨done, todo, stream, secure, client⟩ := s
    cases todo with
    | nil => cases h
    | cons ev todo =>
      obtain rfl : arrives = true := ha
      cases h
      have hstream := hs.stream
      have hsecure := hs.secure
      refine ⟨hsound, ?_, ?_, hs.whole, left, hcourse, ?_⟩
      · simpa using hstream
      · simpa using hsecure
      · simp only [List.length_append, List.length_cons, List.length_nil] at hleft ⊢
        omega

theorem LoginExchange.Well.start {name password randstr : Bytes} {row : Row} {rows : List Row}
    (hrequested : e.requested) (hacknowledged : e.acknowledged) (hreceives : e.login.Receives name password)
    (hquery : db.executeQuery (query name) table = some (row :: rows))
    (hhash : row.passwordHash = hashSHA256 sha password) (hrand : e.login.randBytes = some randstr)
    (sslPort ack : Bytes) :
    (LoginExchange.start db sha table e sslPort ack).Well db sha table e
      (Login.sslPort (Handler.takePort .constructed .loginUser).1)
      (hashSHA256 sha (cstrOver randstr e.login.afterRandstr)) [] := by
  have hevents := events_of_authorised hrequested hacknowledged hreceives hquery hhash hrand
  refine ⟨.start sslPort ack, ?_, ?_, rfl, 9, rfl, ?_⟩
  · rw [LoginExchange.start, hevents]
    rfl
  · rw [LoginExchange.start, hevents]
    simp [SessionEvent.secureSent]
  · rw [LoginExchange.start, hevents]
    simp [LoginClient.start]

/-- **How far the server is** while the client waits for two more bytes, and when the client has its port. -/
theorem LoginExchange.Well.done_cases {as : List LoginEvent} {s : LoginExchange} (hs : s.Well db sha table e p t as)
    {row : Row} (hevents : e.events db sha table =
      [.status 1, .port p, .selected row, .status 0, .status 0, .token t]) :
    (s.stream.length < 4 → s.done.length < 2) ∧ (s.stream.length < 6 → s.done.length < 4) ∧
      (s.stream.length < 8 → s.done.length < 6) ∧ (4 ≤ s.stream.length → 2 ≤ s.done.length) ∧
      (s.done.length < 6 → s.todo ≠ []) ∧ (6 ≤ s.done.length → s.secure = t) := by
  have htodo : s.todo = (e.events db sha table).drop s.done.length := by rw [← hs.sound.events, List.drop_left]
  have hstream := congrArg List.length hs.stream
  have hsecure := hs.secure
  rw [htodo, hevents] at hstream hsecure
  rw [htodo, hevents]
  rw [List.length_append, show (wellSent p).length = 8 from rfl] at hstream
  generalize s.done.length = k at hstream hsecure
  by_cases hk : k < 6
  · have hlength : s.stream.length = [0, 2, 4, 4, 6, 8].getD k 0 := by
      interval_cases k <;> exact Nat.add_right_cancel hstream
    rw [hlength]
    refine ⟨?_, ?_, fun _ => hk, ?_, fun _ hnil => ?_, fun hall => absurd hk (not_lt.mpr hall)⟩
    · interval_cases k <;> decide
    · interval_cases k <;> decide
    · interval_cases k <;> decide
    · rw [List.drop_eq_nil_iff] at hnil
      exact absurd hnil (not_le.mpr hk)
  · rw [List.drop_of_length_le (not_lt.mp hk)] at hstream hsecure
    rw [List.flatMap_nil, List.append_nil] at hsecure
    rw [List.flatMap_nil, List.length_nil, Nat.add_zero] at hstream
    exact ⟨by omega, by omega, by omega, by omega, fun hlt => absurd hlt hk, fun _ => hsecure⟩

/-! ### Both together -/

/-- What is true in every state of a run in which nothing fails or is lost. -/
structure LoginWell (db : MySQL) (sha : Bytes → Fin 32 → UInt8) (table : List Row) (e : LoginChild)
    (typed : Credentials) (p : Int16) (t : Bytes) (as : List LoginEvent) (d : Awaiting LoginExchange) :
    Prop where
  exchange : d.exchange.Well db sha table e p t as
  received_le : d.exchange.client.client.received ≤ d.exchange.stream.length
  written : d.written = d.exchange.client.wrote typed

/-- A `recv` gives no more than there is. -/
theorem Client.received_le {service : Service} {stream : Bytes} {c c' : Client} {a : ClientStep}
    (h : c.step service stream a = some c') (hle : c.received ≤ stream.length) : c'.received ≤ stream.length := by
  rcases Client.step_cases h with ⟨n, bytes, rfl, hnext, htake⟩ | ⟨-, stage, rfl, -⟩
  · obtain ⟨-, -, hmore, -⟩ := Client.next_spec hnext hle
    rcases Client.take_cases htake with ⟨-, -, rfl⟩ | ⟨-, -, rfl⟩ | ⟨-, -, rfl⟩ | ⟨-, -, rfl⟩
    · exact hle
    · exact hmore
    · exact hmore
    · exact hmore
  · exact hle

theorem LoginClient.takeToken_client (c : LoginClient) (bytesRead : ℤ) (bytes : Bytes) :
    (c.takeToken bytesRead bytes).client = c.client := by
  rw [LoginClient.takeToken]
  split_ifs <;> rfl

theorem LoginClient.received_le {stream secure : Bytes} {c c' : LoginClient} {a : LoginStep}
    (h : c.step stream secure a = some c') (hle : c.client.received ≤ stream.length) :
    c'.client.received ≤ stream.length := by
  rcases LoginClient.step_cases h with ⟨hno, -⟩ | ⟨-, -, rfl⟩ | ⟨n, -, -, -, -, rfl⟩
  · cases a with
    | «open» e =>
      cases hstage : c.stage <;> simp only [LoginClient.step, hstage, reduceCtorEq] at h
      obtain ⟨client, hclient, rfl⟩ := Option.map_eq_some_iff.mp h
      exact Client.received_le hclient hle
    | write succeeds =>
      cases hstage : c.stage <;> simp only [LoginClient.step, hstage, reduceCtorEq] at h
      split at h
      · cases h
        exact hle
      · cases h
    | recv bytes =>
      cases hstage : c.stage <;> simp only [LoginClient.step, hstage, reduceCtorEq] at h
      all_goals
        obtain ⟨b, hnext, rfl⟩ := Option.map_eq_some_iff.mp h
        exact (Client.next_spec hnext hle).2.2.1
    | secureRecv bytes => exact absurd rfl (hno bytes)
  · rwa [LoginClient.takeToken_client]
  · rwa [LoginClient.takeToken_client]

theorem LoginWell.step {as : List LoginEvent} {a : LoginEvent} {d d' : Awaiting LoginExchange}
    (hd : LoginWell db sha table e typed p t as d) (ha : a.Succeeds) (h : awaitingLogin typed e d a = some d') :
    LoginWell db sha table e typed p t (as ++ [a]) d' := by
  obtain ⟨-, hstep, hwritten⟩ := Awaiting.step_eq_some_iff.mp h
  have hwell := hd.exchange.step ha hstep
  obtain ⟨exchange, written⟩ := d'
  cases a with
  | client c =>
    obtain ⟨client, hclient, rfl⟩ := Option.map_eq_some_iff.mp hstep
    obtain ⟨left, hcourse, -⟩ := hwell.course
    refine ⟨hwell, LoginClient.received_le hclient hd.received_le, ?_⟩
    rw [hwritten, hd.written, LoginClient.wrote_step (Option.isSome_iff_exists.mpr ⟨_, hcourse⟩) ha hclient]
    rfl
  | server arrives =>
    obtain ⟨⟨done, todo, stream, secure, client⟩, written'⟩ := d
    cases todo with
    | nil => cases hstep
    | cons ev todo =>
      cases hstep
      refine ⟨hwell, hd.received_le.trans ?_, ?_⟩
      · cases arrives <;> simp
      · rw [hwritten, LoginEvent.writes, Written.append_nil]
        exact hd.written

/-- The server can read what it needs once the client has written so much. -/
theorem LoginChild.LogsIn.covers (h : e.LogsIn typed) {done : ℕ} {w : Written} (hplain : w.plain = Service.login.code)
    (hsecure : done < 2 ∨ done < 4 ∧ w.secure = typed.nameWritten ∨
      w.secure = typed.nameWritten ++ typed.passwordWritten) : w.covers (e.readBefore done) = true := by
  obtain ⟨hcode, hnone, hname, hall⟩ := h.readBefore done
  rw [Written.covers_iff, hcode, hplain]
  refine ⟨List.prefix_rfl, ?_⟩
  rcases hsecure with hdone | ⟨hdone, hsecure⟩ | hsecure
  · rw [hnone hdone]
    exact List.nil_prefix
  · rw [hsecure]
    exact hname hdone
  · rw [hsecure]
    exact hall

theorem server_isSome {d : Awaiting LoginExchange} (htodo : d.exchange.todo ≠ [])
    (hcovers : d.written.covers (e.readBefore d.exchange.done.length) = true) :
    (awaitingLogin typed e d (.server true)).isSome := by
  refine Awaiting.step_isSome hcovers ?_
  obtain ⟨⟨done, todo, stream, secure, client⟩, written⟩ := d
  cases todo with
  | nil => exact absurd rfl htodo
  | cons ev todo => rfl

theorem client_isSome {d : Awaiting LoginExchange} {a : LoginStep} (hready : LoginExchange.ready e d (.client a))
    (h : (d.exchange.client.step d.exchange.stream d.exchange.secure a).isSome) :
    (awaitingLogin typed e d (.client a)).isSome := by
  refine Awaiting.step_isSome hready ?_
  rw [LoginExchange.step, Option.isSome_map]
  exact h

/-- **Neither of them is stuck** before `login` has returned: either what the client is waiting for is there, or the
server has all that it needs to send it. -/
theorem LoginWell.exists_step {as : List LoginEvent} {d : Awaiting LoginExchange}
    (hd : LoginWell db sha table e typed p t as d) (hlogs : e.LogsIn typed) {row : Row}
    (hevents : e.events db sha table = [.status 1, .port p, .selected row, .status 0, .status 0, .token t])
    (ht : t.length = 64) (hreturned : d.exchange.client.stage ≠ .returned true) :
    ∃ a, LoginEvent.Succeeds a ∧ (awaitingLogin typed e d a).isSome := by
  obtain ⟨left, hcourse, -⟩ := hd.exchange.course
  obtain ⟨hport, hname, hpassword, hlistens, htodo, htoken⟩ := hd.exchange.done_cases hevents
  have hreceived := hd.received_le
  have hwhole := hd.exchange.whole
  have hawaits := hd.exchange.sound.client.awaits
  obtain ⟨⟨done, todo, stream, secure, ⟨client, stage, secureReceived, totalBytes, buffer⟩⟩, written⟩ := d
  obtain rfl : written = LoginClient.wrote typed ⟨client, stage, secureReceived, totalBytes, buffer⟩ := hd.written
  simp only at hport hname hpassword hlistens htodo htoken hreceived hwhole
  cases stage with
  | opening =>
    cases hstage : client.stage <;>
      simp only [LoginClient.course, hstage, Option.some.injEq, Prod.mk.injEq, reduceCtorEq] at hcourse
    · exact ⟨.client (.open (.request true)), rfl, client_isSome rfl (by simp [LoginClient.step, Client.step, hstage])⟩
    · by_cases hthere : 2 ≤ stream.length
      · refine ⟨.client (.open (.recv (some 2))), rfl, client_isSome rfl ?_⟩
        have hne : stream ≠ [] := List.ne_nil_of_length_pos (by omega)
        simp [LoginClient.step, Client.step, Client.next, Client.take, hstage, hthere, hne, ← hcourse.2]
      · have hdone := hport (by omega)
        exact ⟨.server true, rfl, server_isSome (htodo (by omega))
          (hlogs.covers (by simp [LoginClient.wrote, hstage]) (Or.inl hdone))⟩
    · by_cases hthere : 4 ≤ stream.length
      · refine ⟨.client (.open (.recv (some 2))), rfl, client_isSome rfl ?_⟩
        have hlt : ¬stream.length ≤ 2 := by omega
        simp [LoginClient.step, Client.step, Client.next, Client.take, hstage, hthere, hlt, ← hcourse.2]
      · have hdone := hport (by omega)
        exact ⟨.server true, rfl, server_isSome (htodo (by omega))
          (hlogs.covers (by simp [LoginClient.wrote, hstage]) (Or.inl hdone))⟩
    · exact ⟨.client (.open (.prepare true)), rfl, client_isSome rfl (by simp [LoginClient.step, Client.step, hstage])⟩
    · have hready := hlistens (by rw [← hcourse.2] at hreceived; exact hreceived)
      exact ⟨.client (.open (.connect true)), rfl,
        client_isSome (decide_eq_true hready) (by simp [LoginClient.step, Client.step, hstage])⟩
    · exact ⟨.client (.open (.secure true)), rfl, client_isSome rfl (by simp [LoginClient.step, Client.step, hstage])⟩
    · exact ⟨.client (.write true), rfl, client_isSome rfl (by simp [LoginClient.step, hstage])⟩
  | awaitsUser =>
    simp only [LoginClient.course, Option.some.injEq, Prod.mk.injEq] at hcourse
    by_cases hthere : 6 ≤ stream.length
    · exact ⟨.client (.recv (some 2)), rfl,
        client_isSome rfl (by simp [LoginClient.step, Client.next, hthere, ← hcourse.2])⟩
    · have hdone := hname (by omega)
      exact ⟨.server true, rfl, server_isSome (htodo (by omega))
        (hlogs.covers (by simp [LoginClient.wrote]) (Or.inr (Or.inl ⟨hdone, rfl⟩)))⟩
  | awaitsVerdict =>
    simp only [LoginClient.course, Option.some.injEq, Prod.mk.injEq] at hcourse
    by_cases hthere : 8 ≤ stream.length
    · exact ⟨.client (.recv (some 2)), rfl,
        client_isSome rfl (by simp [LoginClient.step, Client.next, hthere, ← hcourse.2])⟩
    · have hdone := hpassword (by omega)
      exact ⟨.server true, rfl, server_isSome (htodo hdone)
        (hlogs.covers (by simp [LoginClient.wrote]) (Or.inr (Or.inr rfl)))⟩
  | awaitsToken =>
    by_cases hdone : done.length < 6
    · exact ⟨.server true, rfl, server_isSome (htodo hdone)
        (hlogs.covers (by simp [LoginClient.wrote]) (Or.inr (Or.inr rfl)))⟩
    · have hlt := hawaits rfl
      have hlength := congrArg List.length (htoken (not_lt.mp hdone))
      simp only at hwhole hlt hlength
      refine ⟨.client (.secureRecv (some 1)), ⟨1, one_pos, rfl⟩, client_isSome rfl ?_⟩
      rw [LoginClient.step, if_pos]
      · rfl
      · simp only
        omega
  | returned result =>
    cases result with
    | false => simp [LoginClient.course] at hcourse
    | true => exact absurd rfl hreturned
  | undefined => simp [LoginClient.course] at hcourse

/-! ### Whole runs -/

/-- **A login that goes well**, in every state of a run in which nothing fails or is lost. -/
theorem LoginWell.of_run (hlogs : e.LogsIn typed) {randstr : Bytes} {row : Row} {rows : List Row}
    (hquery : db.executeQuery (query typed.username) table = some (row :: rows))
    (hhash : row.passwordHash = hashSHA256 sha typed.password) (hrand : e.login.randBytes = some randstr)
    {sslPort ack : Bytes} {as : List LoginEvent} {d : Awaiting LoginExchange}
    (h : run (awaitingLogin typed e) (.start (.start db sha table e sslPort ack)) as = some d)
    (hall : ∀ a ∈ as, a.Succeeds) :
    LoginWell db sha table e typed (Login.sslPort (Handler.takePort .constructed .loginUser).1)
      (hashSHA256 sha (cstrOver randstr e.login.afterRandstr)) as d := by
  have hstart := LoginExchange.Well.start hlogs.requested hlogs.acknowledged hlogs.receives hquery hhash hrand
    sslPort ack
  exact run_history_of_forall (P := fun as d => LoginWell db sha table e typed _ _ as d) ⟨hstart, le_rfl, rfl⟩
    (fun _ _ _ _ hd ha hstep => hd.step ha hstep) h hall

/-- When nothing can go on any more, `login` has returned `true`. -/
theorem LoginWell.returned (hlogs : e.LogsIn typed) {randstr : Bytes} {row : Row} {rows : List Row}
    (hquery : db.executeQuery (query typed.username) table = some (row :: rows))
    (hhash : row.passwordHash = hashSHA256 sha typed.password) (hrand : e.login.randBytes = some randstr)
    {as : List LoginEvent} {d : Awaiting LoginExchange}
    (hd : LoginWell db sha table e typed (Login.sslPort (Handler.takePort .constructed .loginUser).1)
      (hashSHA256 sha (cstrOver randstr e.login.afterRandstr)) as d)
    (hend : ∀ a, LoginEvent.Succeeds a → awaitingLogin typed e d a = none) :
    d.exchange.client.stage = .returned true := by
  have hevents := events_of_authorised hlogs.requested hlogs.acknowledged hlogs.receives hquery hhash hrand
  by_contra hstage
  obtain ⟨a, ha, hstep⟩ := hd.exists_step hlogs hevents (length_hashSHA256 _ _) hstage
  rw [hend a ha] at hstep
  cases hstep

/-- **When nothing can go on any more**, `login` has returned `true` if and only if its user was authorised. -/
theorem returned_iff_authorised (hlogs : e.LogsIn typed) {sslPort ack : Bytes} {as : List LoginEvent}
    {d : Awaiting LoginExchange}
    (h : run (awaitingLogin typed e) (.start (.start db sha table e sslPort ack)) as = some d)
    (hall : ∀ a ∈ as, a.Succeeds) (hend : ∀ a, LoginEvent.Succeeds a → awaitingLogin typed e d a = none) :
    d.exchange.client.stage = .returned true ↔ e.Authorised db sha table := by
  constructor
  · exact fun hreturned => ((LoginExchange.Sound.of_run (Awaiting.run_exchange h)).agreement hreturned).2
  · rintro ⟨name, password, row, rows, hreceives, hquery, hhash⟩
    obtain ⟨rfl, rfl⟩ := hreceives.unique hlogs.receives
    obtain ⟨randstr, hrand⟩ := Option.isSome_iff_exists.mp hlogs.randBytes
    exact (LoginWell.of_run hlogs hquery hhash hrand h hall).returned hlogs hquery hhash hrand hend

/-- **If the user is there and the password is right**, a run in which nothing fails or is lost is no longer than
79 steps, and when nothing can go on any more, `login` has returned `true` with the token of the server. -/
theorem login_completes (hlogs : e.LogsIn typed) {randstr : Bytes} {row : Row} {rows : List Row}
    (hquery : db.executeQuery (query typed.username) table = some (row :: rows))
    (hhash : row.passwordHash = hashSHA256 sha typed.password) (hrand : e.login.randBytes = some randstr)
    {sslPort ack : Bytes} {as : List LoginEvent} {d : Awaiting LoginExchange}
    (h : run (awaitingLogin typed e) (.start (.start db sha table e sslPort ack)) as = some d)
    (hall : ∀ a ∈ as, a.Succeeds) :
    as.length ≤ 79 ∧ ((∀ a, LoginEvent.Succeeds a → awaitingLogin typed e d a = none) →
      d.exchange.client.stage = .returned true ∧
        d.exchange.client.buffer = hashSHA256 sha (cstrOver randstr e.login.afterRandstr)) := by
  have hd := LoginWell.of_run hlogs hquery hhash hrand h hall
  obtain ⟨left, -, hlen⟩ := hd.exchange.course
  refine ⟨by omega, fun hend => ?_⟩
  have hreturned := hd.returned hlogs hquery hhash hrand hend
  refine ⟨hreturned, ?_⟩
  have hsound := hd.exchange.sound
  have htoken : .token d.exchange.client.buffer ∈ e.events db sha table := by
    rw [← hsound.events]
    exact List.mem_append_left _ (hsound.agreement hreturned).1
  rw [events_of_authorised hlogs.requested hlogs.acknowledged hlogs.receives hquery hhash hrand] at htoken
  simpa using htoken

/-- What `bob` writes, in whole pieces. -/
def bobWhole : Cut (bobCredentials.nameWritten ++ bobCredentials.passwordWritten) [0, 18] where
  reads := [[0, 3], bobCredentials.uname, [0, 2], bobCredentials.password]

theorem bobChild_logsIn : bobChild.LogsIn bobCredentials :=
  ⟨rfl, rfl, rfl, ⟨bobWhole, rfl, rfl⟩, rfl, rfl, rfl⟩

/-- How his login ends, with each of the two waiting for the other. -/
def bobAnswered : Awaiting LoginExchange :=
  (run (awaitingLogin bobCredentials bobChild)
    (.start (.start mysqlOr firstBytes [bobCredentials.row firstBytes] bobChild [0, 0] [0, 0])) loginInTwo).get
      (by decide +kernel)

theorem run_bobAnswered : run (awaitingLogin bobCredentials bobChild)
    (.start (.start mysqlOr firstBytes [bobCredentials.row firstBytes] bobChild [0, 0] [0, 0])) loginInTwo =
      some bobAnswered :=
  (Option.some_get _).symm

theorem succeeds_of_mem_loginInTwo : ∀ a ∈ loginInTwo, a.Succeeds := by
  intro a ha
  simp only [loginInTwo, List.mem_cons, List.not_mem_nil, or_false] at ha
  rcases ha with rfl | rfl | rfl | rfl | rfl | rfl | rfl | rfl | rfl | rfl | rfl | rfl | rfl | rfl | rfl | rfl | rfl <;>
    first | rfl | exact ⟨_, by decide, rfl⟩

/-- There is nothing left to do, and `bob` has returned. -/
theorem end_bobAnswered : ∀ a, LoginEvent.Succeeds a → awaitingLogin bobCredentials bobChild bobAnswered a = none := by
  have htodo : bobAnswered.exchange.todo = [] := by decide +kernel
  have hstage : bobAnswered.exchange.client.stage = .returned true := by decide +kernel
  intro a _
  rw [awaitingLogin, Awaiting.step]
  split_ifs
  · cases a with
    | server arrives => simp [LoginExchange.step, htodo]
    | client c =>
      have hnone : bobAnswered.exchange.client.step bobAnswered.exchange.stream bobAnswered.exchange.secure c =
          none := by
        rcases c with _ | _ | _ | _ | _ <;> simp [LoginClient.step, hstage]
      simp [LoginExchange.step, hnone]
  · rfl

/-- `bob` gets his token. -/
theorem login_completes_bob : loginInTwo.length ≤ 79 ∧ bobAnswered.exchange.client.stage = .returned true ∧
    bobAnswered.exchange.client.buffer = hashSHA256 firstBytes (cstrOver (List.replicate 256 1) [0]) := by
  have hquery : mysqlOr.executeQuery (query bobCredentials.username) [bobCredentials.row firstBytes] =
      some [bobCredentials.row firstBytes] := rfl
  obtain ⟨hlength, hcompletes⟩ :=
    login_completes bobChild_logsIn hquery rfl rfl run_bobAnswered succeeds_of_mem_loginInTwo
  exact ⟨hlength, hcompletes end_bobAnswered⟩

end Inferno.Login
