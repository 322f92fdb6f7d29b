import Inferno.Login.Verdict

/-!
# What the client gets of a login

`login` of the test client, to its end. Once the connection is secure it writes the username, receives whether
there is such a user, writes the password, and receives whether that is right. It does not look at what the two
`recv`s return, and if they give nothing it goes by what is in the variable. Then it reads the token from the
secure connection, where the server writes nothing else.

A run is any interleaving of what a child of the server does, in its order, with the steps of the client; at
any step what the server sends may be lost.

## What is proved

* `login_agreement` — if `login` returns `true`, the server has written a token, for a user with the hash of the
  password that it received, and it is what the client has in its buffer. The client writes outside
  the buffer only after an `SSL_read` has failed.

## Scope

What the server meets is given beforehand. It may be anything, also what this client does not send, and the server
may go on before the client has sent it, so that every run of the two programs is among these. A client that has
written outside its buffer is followed no further.
-/

namespace Inferno.Login

open CStr Machine

/-- What a child of the server meets: `get_request_type`, and then `login_user`. -/
structure LoginChild where
  /-- Whether the `recv` of the service code fails or not. -/
  requested : Bool
  /-- Whether the `send` of its acknowledgement succeeds. -/
  acknowledged : Bool
  login : LoginEnv

/-- What a child does with a client who logs in. -/
def LoginChild.events (db : MySQL) (sha : Bytes → Fin 32 → UInt8) (table : List Row) (e : LoginChild) :
    List SessionEvent :=
  if !e.requested then [.status 0]
  else if !e.acknowledged then []
  else .status 1 :: (loginUser db sha .constructed e.login table).events

/-- What is written on the secure connection. -/
def SessionEvent.secureSent : SessionEvent → Bytes
  | .token t => t
  | _ => []

/-- How far `login` is. -/
inductive LoginStage where
  /-- It opens the secure connection, or has given that up. -/
  | opening
  /-- It is at the `recv` of whether there is such a user. -/
  | awaitsUser
  /-- It is at the `recv` of whether the password is right. -/
  | awaitsVerdict
  /-- It is in the loop that reads the token. -/
  | awaitsToken
  | returned (result : Bool)
  /-- It has written outside `buffer`. -/
  | undefined
  deriving DecidableEq, Repr

/-- The variables of `login`, and how much it has read from the secure connection. -/
structure LoginClient where
  client : Client
  stage : LoginStage
  secureReceived : ℕ
  totalBytes : ℤ
  buffer : Bytes

/-- `login` at its beginning. -/
def LoginClient.start (sslPort ack : Bytes) : LoginClient :=
  ⟨.start sslPort ack, .opening, 0, 0, List.replicate 64 0⟩

/-- What `login` does next. -/
inductive LoginStep where
  /-- A step on the way to the secure connection. -/
  | open (e : ClientStep)
  /-- It calls `SSL_write` for the username, its length first. -/
  | write (succeeds : Bool)
  /-- It calls `recv` for an `ACK`, as in `ClientStep.recv`, and `SSL_write` for the password after the first. -/
  | recv (bytes : Option ℕ)
  /-- It calls `SSL_read`, which gives so many bytes, or fails. -/
  | secureRecv (bytes : Option ℕ)

/-- `recv(sock, &ACK, …)` and the test that follows it. -/
def LoginClient.takeACK (c : LoginClient) (next : LoginStage) (bytes : Bytes) : LoginClient :=
  let ack := copyAt c.client.ack 0 bytes
  { c with client := { c.client with received := c.client.received + bytes.length, ack := ack },
           stage := if shortOf ack ≠ 0 then .returned false else next }

/-- The loop body with what `SSL_read` returns and what it puts behind the bytes before, and the test. -/
def LoginClient.takeToken (c : LoginClient) (bytesRead : ℤ) (bytes : Bytes) : LoginClient :=
  if bytes ≠ [] ∧ (c.totalBytes < 0 ∨ 64 < c.totalBytes + bytes.length) then { c with stage := .undefined }
  else
    { c with secureReceived := c.secureReceived + bytes.length, totalBytes := c.totalBytes + bytesRead,
             buffer := copyAt c.buffer c.totalBytes.toNat bytes,
             stage := if c.totalBytes + bytesRead < 64 then .awaitsToken else .returned true }

/-- One step of `login`; `stream` and `secure` are what has arrived for it. -/
def LoginClient.step (stream secure : Bytes) (c : LoginClient) : LoginStep → Option LoginClient
  | .open e =>
    match c.stage with
    | .opening => (c.client.step .login stream e).map fun client => { c with client := client }
    | _ => none
  | .write succeeds =>
    match c.stage, c.client.stage with
    | .opening, .secured => some { c with stage := if succeeds then .awaitsUser else .returned false }
    | _, _ => none
  | .recv bytes =>
    match c.stage with
    | .awaitsUser => (c.client.next stream bytes).map (c.takeACK .awaitsVerdict)
    | .awaitsVerdict => (c.client.next stream bytes).map (c.takeACK .awaitsToken)
    | _ => none
  | .secureRecv none =>
    match c.stage with
    | .awaitsToken => some (c.takeToken (-1) [])
    | _ => none
  | .secureRecv (some n) =>
    match c.stage with
    | .awaitsToken =>
      if n ≤ 64 ∧ c.secureReceived + n ≤ secure.length then
        some (c.takeToken n ((secure.drop c.secureReceived).take n))
      else none
    | _ => none

/-- What the server has done and has still to do, what has arrived on the two connections, and the client. -/
structure LoginExchange where
  done : List SessionEvent
  todo : List SessionEvent
  stream : Bytes
  secure : Bytes
  client : LoginClient

/-- A client has connected. -/
def LoginExchange.start (db : MySQL) (sha : Bytes → Fin 32 → UInt8) (table : List Row) (e : LoginChild)
    (sslPort ack : Bytes) : LoginExchange :=
  ⟨[], e.events db sha table, [], [], .start sslPort ack⟩

/-- What happens next. -/
inductive LoginEvent where
  /-- The server does the next thing; what it sends may be lost. -/
  | server (arrives : Bool)
  | client (e : LoginStep)

/-- One step of one of the parties. -/
def LoginExchange.step (s : LoginExchange) : LoginEvent → Option LoginExchange
  | .server arrives =>
    match s.todo with
    | [] => none
    | ev :: todo =>
      some ⟨s.done ++ [ev], todo, if arrives then s.stream ++ ev.sent else s.stream,
        if arrives then s.secure ++ ev.secureSent else s.secure, s.client⟩
  | .client e => (s.client.step s.stream s.secure e).map fun client => { s with client := client }

/-! ### The server's side -/

variable {db : MySQL} {sha : Bytes → Fin 32 → UInt8} {table : List Row} {e : LoginChild}

/-- A row of the table that the query for the name which the server received finds first, with the hash of the
password that it received. -/
def LoginChild.Authorised (db : MySQL) (sha : Bytes → Fin 32 → UInt8) (table : List Row) (e : LoginChild) : Prop :=
  ∃ name password row rows, e.login.Receives name password ∧
    db.executeQuery (query name) table = some (row :: rows) ∧ row.passwordHash = hashSHA256 sha password

/-- A server whose bytes come in whole pieces receives what a client has typed. -/
theorem receives_typed (c : Credentials) (cut : Cut (c.nameWritten ++ c.passwordWritten) [0, 18]) {e : LoginEnv}
    (hopens : e.setup.opens) (hreads : e.reads = cut.reads.map .data) (hname : e.namelen.length = 2)
    (hpass : e.passLen.length = 2) (hwhole : cut.second.length = 16) : e.Receives c.username c.password := by
  obtain ⟨unameBuffer, reads, buffer, hreceive, huname, hpassword, hbuffer⟩ :=
    (recovers_iff c cut hreads hname hpass).mpr hwhole
  exact ⟨hopens, unameBuffer, reads, buffer, [], hreceive, huname, hpassword, hbuffer⟩

/-- **The token is the last thing**: if a child writes one, it does so at the end and for someone who is
authorised. -/
theorem LoginChild.events_cases (db : MySQL) (sha : Bytes → Fin 32 → UInt8) (table : List Row) (e : LoginChild) :
    (∀ t, .token t ∉ e.events db sha table) ∨
      ∃ early t, e.events db sha table = early ++ [.token t] ∧ (∀ t', .token t' ∉ early) ∧ t.length = 64 ∧
        e.Authorised db sha table := by
  rw [LoginChild.events]
  cases e.requested with
  | false => simp
  | true =>
    cases e.acknowledged with
    | false => simp
    | true =>
      simp only [Bool.not_true, Bool.false_eq_true, if_false]
      rcases login_cases e.login db sha table with ⟨name, password, randstr, row, hreceives, hrand, hlogin⟩ | ⟨hnone, -⟩
      · right
        have htoken : SessionEvent.token (hashSHA256 sha (cstrOver randstr e.login.afterRandstr)) ∈
            (loginUser db sha .constructed e.login table).events := by
          rw [token_mem_loginUser, hlogin]
          simp
        obtain ⟨-, row', rows, hquery, hhash⟩ := (token_mem_iff hreceives).mp htoken
        refine ⟨.status 1 :: (e.login.setup.events (Handler.takePort .constructed .loginUser).1 ++
          [.selected row, .status 0, .status 0]), _, ?_, fun t' => ?_, (length_of_token htoken).1,
          name, password, row', rows, hreceives, hquery, hhash⟩
        · simp [loginUser, hlogin]
        · simp only [Setup.events]
          split_ifs <;> simp
      · left
        intro t ht
        rcases List.mem_cons.mp ht with ht | ht
        · cases ht
        · exact hnone t (token_mem_loginUser.mp ht)

/-- Behind a token there is nothing. -/
theorem todo_of_token {done todo : List SessionEvent} (h : done ++ todo = e.events db sha table) {t : Bytes}
    (ht : .token t ∈ done) : todo = [] ∧ t.length = 64 ∧ e.Authorised db sha table := by
  rcases e.events_cases db sha table with hnone | ⟨early, t', hevents, hearly, hlen, hauth⟩
  · exact absurd (h ▸ List.mem_append_left _ ht) (hnone t)
  · rw [hevents] at h
    have htodo : todo = [] := by
      rcases List.eq_nil_or_concat todo with hnil | ⟨rest, ev, rfl⟩
      · exact hnil
      · rw [List.concat_eq_append, ← List.append_assoc] at h
        obtain ⟨hdone, -⟩ := List.append_inj' h rfl
        exact absurd (hdone ▸ List.mem_append_left _ ht) (hearly t)
    rw [htodo, List.append_nil] at h
    rw [h] at ht
    rcases List.mem_append.mp ht with hmem | hmem
    · exact absurd hmem (hearly t)
    · cases List.mem_singleton.mp hmem
      exact ⟨htodo, hlen, hauth⟩

/-! ### The client's side -/

/-- What is true of `login` whatever the server does: it has counted no more than it has read, and as long as
no `SSL_read` has failed it has what was written, in the buffer that it began with. -/
structure LoginClient.Sound (secure : Bytes) (c : LoginClient) : Prop where
  read_le : c.secureReceived ≤ secure.length
  total_le : c.totalBytes ≤ c.secureReceived
  whole : c.totalBytes = c.secureReceived →
    c.buffer = secure.take c.secureReceived ++ List.replicate (64 - c.secureReceived) 0
  before : c.stage ≠ .awaitsToken → c.stage ≠ .returned true → c.stage ≠ .undefined →
    c.totalBytes = 0 ∧ c.secureReceived = 0
  awaits : c.stage = .awaitsToken → c.totalBytes < 64
  done : c.stage = .returned true → 64 ≤ c.totalBytes

theorem LoginClient.Sound.start (sslPort ack : Bytes) : (LoginClient.start sslPort ack).Sound [] := by
  refine ⟨le_rfl, le_rfl, fun _ => rfl, fun _ _ _ => ⟨rfl, rfl⟩, ?_, ?_⟩ <;> simp [LoginClient.start]

/-- It stays true when the server writes more. -/
theorem LoginClient.Sound.append {secure : Bytes} {c : LoginClient} (h : c.Sound secure) (more : Bytes) :
    c.Sound (secure ++ more) where
  read_le := by
    rw [List.length_append]
    exact h.read_le.trans (Nat.le_add_right _ _)
  total_le := h.total_le
  whole htotal := by
    rw [List.take_append_of_le_length h.read_le]
    exact h.whole htotal
  before := h.before
  awaits := h.awaits
  done := h.done

/-- **What `login` does**: something before it reads the token, or an `SSL_read` that fails, or one that gives some
bytes. -/
theorem LoginClient.step_cases {stream secure : Bytes} {c c' : LoginClient} {a : LoginStep}
    (h : c.step stream secure a = some c') :
    ((∀ n, a ≠ .secureRecv n) ∧ c.stage ≠ .awaitsToken ∧ c.stage ≠ .returned true ∧ c.stage ≠ .undefined ∧
        ∃ client stage, c' = { c with client := client, stage := stage } ∧ stage ≠ .returned true ∧
          stage ≠ .undefined) ∨
      c.stage = .awaitsToken ∧ a = .secureRecv none ∧ c' = c.takeToken (-1) [] ∨
      ∃ n, c.stage = .awaitsToken ∧ a = .secureRecv (some n) ∧ n ≤ 64 ∧ c.secureReceived + n ≤ secure.length ∧
        c' = c.takeToken n ((secure.drop c.secureReceived).take n) := by
  cases a with
  | «open» e =>
    left
    cases hstage : c.stage <;> simp only [LoginClient.step, hstage, reduceCtorEq] at h
    obtain ⟨client, -, rfl⟩ := Option.map_eq_some_iff.mp h
    exact ⟨by simp, by simp, by simp, by simp, client, .opening, by rw [← hstage], by simp, by simp⟩
  | write succeeds =>
    left
    cases hstage : c.stage <;> simp only [LoginClient.step, hstage, reduceCtorEq] at h
    split at h
    · cases h
      exact ⟨by simp, by simp, by simp, by simp, c.client, _, rfl, by cases succeeds <;> simp,
        by cases succeeds <;> simp⟩
    · cases h
  | recv bytes =>
    left
    cases hstage : c.stage <;> simp only [LoginClient.step, hstage, reduceCtorEq] at h
    · obtain ⟨b, -, rfl⟩ := Option.map_eq_some_iff.mp h
      refine ⟨by simp, by simp, by simp, by simp, _, _, rfl, ?_, ?_⟩ <;> split_ifs <;> simp
    · obtain ⟨b, -, rfl⟩ := Option.map_eq_some_iff.mp h
      refine ⟨by simp, by simp, by simp, by simp, _, _, rfl, ?_, ?_⟩ <;> split_ifs <;> simp
  | secureRecv bytes =>
    right
    cases bytes with
    | none =>
      left
      cases hstage : c.stage <;> simp only [LoginClient.step, hstage, reduceCtorEq] at h
      cases h
      exact ⟨rfl, rfl, rfl⟩
    | some n =>
      right
      cases hstage : c.stage <;> simp only [LoginClient.step, hstage, reduceCtorEq] at h
      split_ifs at h with hn
      cases h
      exact ⟨n, rfl, rfl, hn.1, hn.2, rfl⟩

theorem takeToken_nil (c : LoginClient) : c.takeToken (-1) [] =
    { c with totalBytes := c.totalBytes - 1,
             stage := if c.totalBytes - 1 < 64 then .awaitsToken else .returned true } := by
  simp [LoginClient.takeToken, copyAt, Int.sub_eq_add_neg]

theorem length_part {secure : Bytes} {r n : ℕ} (h : r + n ≤ secure.length) :
    ((secure.drop r).take n).length = n := by
  rw [List.length_take, List.length_drop]
  omega

/-- As long as `login` has counted what it has read, the next bytes fit into the buffer. -/
theorem takeToken_of_whole {secure : Bytes} (hsecure : secure.length ≤ 64) {c : LoginClient} {n : ℕ}
    (hle : c.secureReceived + n ≤ secure.length) (hwhole : c.totalBytes = c.secureReceived) :
    c.takeToken n ((secure.drop c.secureReceived).take n) =
      { c with secureReceived := c.secureReceived + n, totalBytes := c.totalBytes + n,
               buffer := copyAt c.buffer c.totalBytes.toNat ((secure.drop c.secureReceived).take n),
               stage := if c.totalBytes + n < 64 then .awaitsToken else .returned true } := by
  rw [LoginClient.takeToken, length_part hle, if_neg]
  rw [hwhole]
  omega

/-- Whether `login` goes on reading depends on what it has counted. -/
theorem LoginClient.Sound.loop {secure : Bytes} {c : LoginClient} (read_le : c.secureReceived ≤ secure.length)
    (total_le : c.totalBytes ≤ c.secureReceived)
    (whole : c.totalBytes = c.secureReceived →
      c.buffer = secure.take c.secureReceived ++ List.replicate (64 - c.secureReceived) 0)
    (hstage : c.stage = if c.totalBytes < 64 then .awaitsToken else .returned true) : c.Sound secure := by
  by_cases hlt : c.totalBytes < 64
  · rw [if_pos hlt] at hstage
    exact ⟨read_le, total_le, whole, by simp [hstage], fun _ => hlt, by simp [hstage]⟩
  · rw [if_neg hlt] at hstage
    exact ⟨read_le, total_le, whole, by simp [hstage], by simp [hstage], fun _ => not_lt.mp hlt⟩

/-- **Whatever `login` does**, it stays `Sound`. -/
theorem LoginClient.Sound.step {stream secure : Bytes} {c c' : LoginClient} {a : LoginStep} (hc : c.Sound secure)
    (h : c.step stream secure a = some c') : c'.Sound secure := by
  rcases LoginClient.step_cases h with ⟨-, hawaits, hdone, hundefined, client, stage, rfl, hdone', -⟩ |
    ⟨-, -, rfl⟩ | ⟨n, -, -, -, hle, rfl⟩
  · have hzero := hc.before hawaits hdone hundefined
    refine ⟨hc.read_le, hc.total_le, hc.whole, fun _ _ _ => hzero, fun _ => ?_, fun hreturned => ?_⟩
    · simp only [hzero.1]
      decide
    · exact absurd hreturned hdone'
  · have htotal := hc.total_le
    rw [takeToken_nil]
    refine .loop hc.read_le ?_ ?_ rfl
    · simp only
      omega
    · simp only
      omega
  · have hlen := length_part hle
    have htotal := hc.total_le
    rw [LoginClient.takeToken]
    by_cases hbad : (secure.drop c.secureReceived).take n ≠ [] ∧ (c.totalBytes < 0 ∨
        64 < c.totalBytes + ((secure.drop c.secureReceived).take n).length)
    · rw [if_pos hbad]
      exact ⟨hc.read_le, hc.total_le, hc.whole, by simp, by simp, by simp⟩
    · rw [if_neg hbad]
      refine .loop ?_ ?_ ?_ rfl
      · simp only [hlen]
        exact hle
      · simp only [hlen]
        push_cast
        omega
      · simp only [hlen]
        intro hwhole
        have hcount : c.totalBytes = c.secureReceived := by
          push_cast at hwhole
          omega
        have hoffset : c.totalBytes.toNat = (secure.take c.secureReceived).length := by
          rw [hcount, Int.toNat_natCast, List.length_take, Nat.min_eq_left hc.read_le]
        rw [hc.whole hcount, hoffset, copyAt_append, hlen, List.drop_replicate, Nat.sub_sub, ← List.append_assoc,
          ← List.take_add]

/-- As long as no `SSL_read` fails, what `login` has counted is what it has read, and it has not written outside
its buffer. -/
theorem LoginClient.step_whole {stream secure : Bytes} {c c' : LoginClient} {a : LoginStep}
    (h : c.step stream secure a = some c') (hsecure : secure.length ≤ 64) (ha : a ≠ .secureRecv none)
    (hc : c.totalBytes = c.secureReceived ∧ c.stage ≠ .undefined) :
    c'.totalBytes = c'.secureReceived ∧ c'.stage ≠ .undefined := by
  rcases LoginClient.step_cases h with ⟨-, -, -, -, client, stage, rfl, -, hundefined⟩ | ⟨-, hnone, -⟩ |
    ⟨n, -, -, -, hle, rfl⟩
  · exact ⟨hc.1, hundefined⟩
  · exact absurd hnone ha
  · rw [takeToken_of_whole hsecure hle hc.1]
    refine ⟨?_, ?_⟩
    · simp only [hc.1]
      push_cast
      rfl
    · simp only
      split_ifs <;> simp

/-- **If `login` has returned `true`**, it has all that was written, if that is no more than a token. -/
theorem LoginClient.Sound.buffer_eq {secure : Bytes} {c : LoginClient} (hc : c.Sound secure)
    (hsecure : secure.length ≤ 64) (h : c.stage = .returned true) : c.buffer = secure ∧ secure ≠ [] := by
  have hdone := hc.done h
  have htotal := hc.total_le
  have hread := hc.read_le
  have hreceived : c.secureReceived = secure.length := by omega
  have hfull : c.secureReceived = 64 := by omega
  have hbuffer := hc.whole (by omega)
  rw [hreceived, List.take_length, ← hreceived, hfull, Nat.sub_self, List.replicate_zero, List.append_nil] at hbuffer
  refine ⟨hbuffer, ?_⟩
  rintro rfl
  simp at hreceived
  omega

/-! ### Both together -/

/-- What is true in every state of a run: nothing has been written on the secure connection, or the token. -/
structure LoginExchange.Sound (db : MySQL) (sha : Bytes → Fin 32 → UInt8) (table : List Row) (e : LoginChild)
    (s : LoginExchange) : Prop where
  client : s.client.Sound s.secure
  events : s.done ++ s.todo = e.events db sha table
  secure : s.secure = [] ∨ .token s.secure ∈ s.done

theorem LoginExchange.Sound.start (sslPort ack : Bytes) :
    (LoginExchange.start db sha table e sslPort ack).Sound db sha table e where
  client := .start sslPort ack
  events := rfl
  secure := Or.inl rfl

/-- The token has 64 bytes. -/
theorem LoginExchange.Sound.length_secure {s : LoginExchange} (hs : s.Sound db sha table e) :
    s.secure.length ≤ 64 := by
  rcases hs.secure with hnone | htoken
  · simp [hnone]
  · exact (todo_of_token hs.events htoken).2.1.le

theorem LoginExchange.Sound.step {s s' : LoginExchange} {a : LoginEvent} (hs : s.Sound db sha table e)
    (h : s.step a = some s') : s'.Sound db sha table e := by
  cases a with
  | client c =>
    obtain ⟨client, hstep, rfl⟩ := Option.map_eq_some_iff.mp h
    exact ⟨hs.client.step hstep, hs.events, hs.secure⟩
  | server arrives =>
    obtain ⟨done, todo, stream, secure, client⟩ := s
    cases todo with
    | nil => cases h
    | cons ev todo =>
      cases h
      refine ⟨?_, ?_, ?_⟩
      · cases arrives with
        | false => exact hs.client
        | true => exact hs.client.append ev.secureSent
      · rw [← List.append_cons]
        exact hs.events
      · have hnil : secure = [] := by
          rcases hs.secure with hnil | htoken
          · exact hnil
          · -- behind the token there would be nothing to do
            have htodo := (todo_of_token hs.events htoken).1
            simp at htodo
        rw [hnil]
        cases arrives with
        | false => exact Or.inl rfl
        | true => cases ev <;> simp [SessionEvent.secureSent]

/-- **What `login` returns `true` for**: a token that the server has written, for someone who is authorised, and
that is what it has. -/
theorem LoginExchange.Sound.agreement {s : LoginExchange} (hs : s.Sound db sha table e)
    (h : s.client.stage = .returned true) : .token s.client.buffer ∈ s.done ∧ e.Authorised db sha table := by
  obtain ⟨hbuffer, hne⟩ := hs.client.buffer_eq hs.length_secure h
  rcases hs.secure with hnil | htoken
  · exact absurd hnil hne
  · rw [hbuffer]
    exact ⟨htoken, (todo_of_token hs.events htoken).2.2⟩

theorem LoginExchange.Sound.of_run {sslPort ack : Bytes} {as : List LoginEvent} {s : LoginExchange}
    (h : run LoginExchange.step (.start db sha table e sslPort ack) as = some s) : s.Sound db sha table e :=
  run_history (P := fun _ s => LoginExchange.Sound db sha table e s) (.start sslPort ack)
    (fun _ _ _ _ _ hs hstep => hs.step hstep) h

/-- **When `login` returns `true`**, the server has written a token for someone who is authorised, and that is what
the client has. It only writes outside its buffer after an `SSL_read` has failed. -/
theorem login_agreement {sslPort ack : Bytes} {as : List LoginEvent} {s : LoginExchange}
    (h : run LoginExchange.step (.start db sha table e sslPort ack) as = some s) :
    (s.client.stage = .returned true → .token s.client.buffer ∈ s.done ∧ e.Authorised db sha table) ∧
      (.client (.secureRecv none) ∉ as → s.client.stage ≠ .undefined) := by
  have hall : s.Sound db sha table e ∧ (.client (.secureRecv none) ∉ as →
      s.client.totalBytes = s.client.secureReceived ∧ s.client.stage ≠ .undefined) := by
    apply run_history (P := fun as (s : LoginExchange) => s.Sound db sha table e ∧
      (.client (.secureRecv none) ∉ as → s.client.totalBytes = s.client.secureReceived ∧
        s.client.stage ≠ .undefined)) ⟨.start sslPort ack, fun _ => ⟨rfl, LoginStage.noConfusion⟩⟩ _ h
    intro as a s₁ s₂ _ ⟨hs, hwhole⟩ hstep
    refine ⟨hs.step hstep, fun hno => ?_⟩
    rw [List.mem_append, not_or, List.mem_singleton] at hno
    have hbefore := hwhole hno.1
    cases a with
    | client c =>
      obtain ⟨client, hclient, rfl⟩ := Option.map_eq_some_iff.mp hstep
      refine LoginClient.step_whole hclient hs.length_secure ?_ hbefore
      rintro rfl
      exact hno.2 rfl
    | server arrives =>
      obtain ⟨done, todo, stream, secure, client⟩ := s₁
      cases todo with
      | nil => cases hstep
      | cons ev todo =>
        cases hstep
        exact hbefore
  exact ⟨hall.1.agreement, fun hno => (hall.2 hno).2⟩

/-- `bob`, who logs in. -/
def bobChild : LoginChild := ⟨true, true, .plain bobCredentials⟩

/-- A login in which nothing is lost; the token comes in two pieces. -/
def loginInTwo : List LoginEvent :=
  [.client (.open (.request true)), .server true, .server true, .client (.open (.recv (some 2))),
    .client (.open (.recv (some 2))), .client (.open (.prepare true)), .client (.open (.connect true)),
    .client (.open (.secure true)), .client (.write true), .server true, .server true, .client (.recv (some 2)),
    .server true, .client (.recv (some 2)), .server true, .client (.secureRecv (some 40)),
    .client (.secureRecv (some 24))]

/-- How it ends. -/
def bobLoggedIn : LoginExchange := (run LoginExchange.step
  (.start mysqlOr firstBytes [bobCredentials.row firstBytes] bobChild [0, 0] [0, 0]) loginInTwo).get rfl

theorem run_bobLoggedIn : run LoginExchange.step
    (.start mysqlOr firstBytes [bobCredentials.row firstBytes] bobChild [0, 0] [0, 0]) loginInTwo = some bobLoggedIn :=
  rfl

/-- What he gets is what the server has written. -/
theorem login_agreement_bob :
    .token bobLoggedIn.client.buffer ∈ bobLoggedIn.done ∧
      bobChild.Authorised mysqlOr firstBytes [bobCredentials.row firstBytes] :=
  (login_agreement run_bobLoggedIn).1 rfl

end Inferno.Login
