import Inferno.Lib.Clock
import Inferno.Login.LoginUser

/-!
# Signing up

`LoginServer::signup_user` and `LoginServer::recv_password`: a username over the plain
connection, a password over a secure one, and a new row with the hash of the
password.

The row is inserted by a prepared statement, which takes the username as it is;
`login_user` writes the username into its query. So a user who has signed up can
log in only if the query finds that row and no one else's.

## What is proved

* `agrees_iff` — signing up and then logging in works exactly for the users that the query
  `Finds`, as long as there are random bytes.
* `finds_iff_verbatim` — where the literal in the query ends with the query, those are the
  users whose names stand for themselves between quotes.

## Scope

The column keeps the username unchanged, and the row may end up anywhere in the
table.
-/

namespace Inferno.Login

open CStr SqlLiteral

/-- What `signup_user` meets: what the system calls give, what its uninitialised variables
hold, and what follows its buffers in memory. -/
structure SignupEnv where
  /-- The `recv` of the username's length. -/
  lengthRead : Read
  t0 : Timeval
  /-- The `recv`s of the username, and the clock's reading after each. -/
  reads : List (Read × Timeval)
  setup : Setup
  secureReads : List Read
  namelen : Bytes
  passLen : Bytes
  /-- Whether the statement is executed, or throws an `SQLException`. -/
  executes : Bool
  afterUname : Bytes
  afterPassword : Bytes

/-- `if(elapsed > TIMEOUT)`: the client is told, and the loop goes on. -/
def timeoutEvents (t0 t1 : Timeval) : List SessionEvent :=
  if 5000000 < Timeval.elapsed t0 t1 then [.status (-1)] else []

/-- The loop that receives the username. -/
def recvName (namelen : ℤ) (t0 : Timeval) :
    ℤ → Bytes → List (Read × Timeval) → List SessionEvent × Except Stuck Bytes
  | received, unameBuffer, [] => ([], if received < namelen then .error .blocked else .ok unameBuffer)
  | received, unameBuffer, (r, t1) :: reads =>
    if received < namelen then
      if r.bytes.length ≤ 16 then
        let (events, result) := recvName namelen t0 (received + r.returned) (copyAt unameBuffer 0 r.bytes) reads
        (timeoutEvents t0 t1 ++ events, result)
      else ([], .error .blocked)
    else ([], .ok unameBuffer)

variable (sha : Bytes → Fin 32 → UInt8) (server : Counters) (e : SignupEnv)

/-- `LoginServer::recv_password`: the 64 bytes it copies to `password`, or how it ends without. -/
def recvPassword : Counters × List SessionEvent × Except Outcome Bytes :=
  let (addr, server) := Handler.takePort server .recvPassword
  if !e.setup.opens then (server, e.setup.events addr, .error (.returned false))
  else
    match receivePassword e.passLen e.secureReads with
    | .error why => (server, e.setup.events addr, .error (.stuck why))
    | .ok (buffer, _) => (server, e.setup.events addr, .ok buffer)

/-- `LoginServer::signup_user`. -/
def signupUser : Session :=
  match readShort e.namelen [e.lengthRead] with
  | .error why => ⟨server, [], .stuck why⟩
  | .ok (namelen, _) =>
    match recvName namelen e.t0 0 (List.replicate 16 0) e.reads with
    | (events, .error why) => ⟨server, events, .stuck why⟩
    | (events, .ok unameBuffer) =>
      match recvPassword server e with
      | (server, opening, .error outcome) => ⟨server, events ++ opening, outcome⟩
      | (server, opening, .ok password) =>
        let row : Row := ⟨cstrOver unameBuffer e.afterUname, hashSHA256 sha (cstrOver password e.afterPassword)⟩
        ⟨server, events ++ opening ++ if e.executes then [.inserted row, .status 0] else [.status 1], .returned true⟩

/-- The rows inserted in a session. -/
def insertedRows (es : List SessionEvent) : List Row :=
  es.filterMap fun e => match e with
    | .inserted row => some row
    | _ => none

/-- The username is received into its buffer, the connection is opened, the password is
received into its own, and the statement is executed. -/
def SignupEnv.Receives (username password : Bytes) : Prop :=
  e.setup.opens ∧ e.executes ∧ ∃ namelen unameBuffer buffer rest,
    readShort e.namelen [e.lengthRead] = .ok (namelen, []) ∧
      (recvName namelen e.t0 0 (List.replicate 16 0) e.reads).2 = .ok unameBuffer ∧
      cstrOver unameBuffer e.afterUname = username ∧
      receivePassword e.passLen e.secureReads = .ok (buffer, rest) ∧ cstrOver buffer e.afterPassword = password

variable {sha server e}

/-! ### What a sign-up does -/

/-- Apart from the timeout, the loop is that of `login_user`. -/
theorem recvName_snd (namelen : ℤ) (t0 : Timeval) (received : ℤ) (unameBuffer : Bytes) (reads : List (Read × Timeval)) :
    (recvName namelen t0 received unameBuffer reads).2 =
      (readName namelen received unameBuffer (reads.map Prod.fst)).map Prod.fst := by
  induction reads generalizing received unameBuffer with
  | nil =>
    simp only [recvName, readName, List.map_nil]
    split_ifs <;> rfl
  | cons r reads ih =>
    obtain ⟨r, t1⟩ := r
    simp only [recvName, readName, List.map_cons]
    split_ifs
    · exact ih _ _
    · rfl
    · rfl

/-- The loop sends nothing but `-1`. -/
theorem exists_recvName_fst (namelen : ℤ) (t0 : Timeval) (received : ℤ) (unameBuffer : Bytes)
    (reads : List (Read × Timeval)) :
    ∃ n, (recvName namelen t0 received unameBuffer reads).1 = List.replicate n (.status (-1)) := by
  induction reads generalizing received unameBuffer with
  | nil => exact ⟨0, rfl⟩
  | cons r reads ih =>
    obtain ⟨r, t1⟩ := r
    simp only [recvName]
    split_ifs
    · obtain ⟨n, hn⟩ := ih (received + r.returned) (copyAt unameBuffer 0 r.bytes)
      simp only [hn, timeoutEvents]
      split_ifs
      · exact ⟨n + 1, rfl⟩
      · exact ⟨n, rfl⟩
    · exact ⟨0, rfl⟩
    · exact ⟨0, rfl⟩

theorem insertedRows_append (es es' : List SessionEvent) :
    insertedRows (es ++ es') = insertedRows es ++ insertedRows es' :=
  List.filterMap_append

/-- Receiving a username inserts nothing. -/
theorem insertedRows_recvName (namelen : ℤ) (t0 : Timeval) (received : ℤ) (unameBuffer : Bytes)
    (reads : List (Read × Timeval)) : insertedRows (recvName namelen t0 received unameBuffer reads).1 = [] := by
  obtain ⟨n, hn⟩ := exists_recvName_fst namelen t0 received unameBuffer reads
  rw [hn, insertedRows, List.filterMap_replicate]

/-- Neither does opening the connection. -/
theorem insertedRows_setup (s : Setup) (addr : ℤ) : insertedRows (s.events addr) = [] := by
  rw [Setup.events]
  split_ifs <;> rfl

/-- All that happens in `recv_password` is that the port is sent. -/
theorem recvPassword_events (server : Counters) (e : SignupEnv) :
    (recvPassword server e).2.1 = e.setup.events (Handler.takePort server .recvPassword).1 := by
  simp only [recvPassword]
  split
  · rfl
  · cases receivePassword e.passLen e.secureReads <;> rfl

/-- **How far a sign-up goes**: to the username's length, the username, the password, or to the end. -/
theorem signupUser_cases (sha : Bytes → Fin 32 → UInt8) (server : Counters) (e : SignupEnv) :
    (∃ why, readShort e.namelen [e.lengthRead] = .error why ∧ (signupUser sha server e).events = []) ∨
      ∃ namelen, readShort e.namelen [e.lengthRead] = .ok (namelen, []) ∧
        ∃ events result, recvName namelen e.t0 0 (List.replicate 16 0) e.reads = (events, result) ∧
          ((∃ why, result = .error why ∧ (signupUser sha server e).events = events) ∨
            ∃ unameBuffer, result = .ok unameBuffer ∧
              ((∃ outcome, (recvPassword server e).2.2 = .error outcome ∧
                  (signupUser sha server e).events = events ++ (recvPassword server e).2.1) ∨
                ∃ password, (recvPassword server e).2.2 = .ok password ∧
                  (signupUser sha server e).events = events ++ (recvPassword server e).2.1 ++
                    if e.executes then
                      [.inserted
                        ⟨cstrOver unameBuffer e.afterUname, hashSHA256 sha (cstrOver password e.afterPassword)⟩,
                        .status 0]
                    else [.status 1])) := by
  cases hlen : readShort e.namelen [e.lengthRead] with
  | error why => exact Or.inl ⟨why, rfl, by simp only [signupUser, hlen]⟩
  | ok length =>
    obtain ⟨namelen, rest⟩ := length
    obtain rfl : rest = [] := by
      simp only [readShort] at hlen
      split_ifs at hlen
      exact (Prod.mk.inj (Except.ok.inj hlen)).2.symm
    refine Or.inr ⟨namelen, rfl, ?_⟩
    simp only [signupUser, hlen]
    cases recvName namelen e.t0 0 (List.replicate 16 0) e.reads with
    | mk events result =>
      refine ⟨events, result, rfl, ?_⟩
      cases result with
      | error why => exact Or.inl ⟨why, rfl, rfl⟩
      | ok unameBuffer =>
        refine Or.inr ⟨unameBuffer, rfl, ?_⟩
        generalize recvPassword server e = received
        obtain ⟨server', opening, password⟩ := received
        cases password with
        | error outcome => exact Or.inl ⟨outcome, rfl, rfl⟩
        | ok password => exact Or.inr ⟨password, rfl, rfl⟩

/-- **A sign-up that receives a name and a password** inserts the row of their user. -/
theorem insertedRows_of_receives {username password : Bytes} (h : e.Receives username password) :
    insertedRows (signupUser sha server e).events = [⟨username, hashSHA256 sha password⟩] := by
  obtain ⟨hopens, hexecutes, namelen, unameBuffer, buffer, rest, hlen, hname, rfl, hpassword, rfl⟩ := h
  have hnone := insertedRows_recvName namelen e.t0 0 (List.replicate 16 0) e.reads
  have hreceived : (recvPassword server e).2.2 = .ok buffer := by
    simp only [recvPassword, hopens, Bool.not_true, hpassword, Bool.false_eq_true, if_false]
  rcases signupUser_cases sha server e with ⟨why, herror, -⟩ | ⟨namelen', hlen', events, result, hloop, hgoes⟩
  · cases hlen.symm.trans herror
  · obtain ⟨rfl, -⟩ := Prod.mk.inj (Except.ok.inj (hlen.symm.trans hlen'))
    rw [hloop] at hname hnone
    rcases hgoes with ⟨why, rfl, -⟩ | ⟨unameBuffer', rfl, ⟨outcome, hfailed, -⟩ | ⟨password, hdone, hevents⟩⟩
    · cases hname
    · cases hreceived.symm.trans hfailed
    · obtain rfl := Except.ok.inj hname
      obtain rfl := Except.ok.inj (hreceived.symm.trans hdone)
      rw [hevents, insertedRows_append, insertedRows_append, hnone, recvPassword_events, insertedRows_setup, hexecutes]
      rfl

/-! ### When signing up and logging in agree -/

/-- In every table that did not have the username, and has the row of the sign-up, the login
finds that row and issues a token, and every login with a password of another hash is
told so. -/
def Agrees (db : MySQL) (sha : Bytes → Fin 32 → UInt8) (c : Credentials) (server : Counters) (s : SignupEnv)
    (server' : Counters) (l : LoginEnv) : Prop :=
  ∀ table table' : List Row, (∀ row ∈ table, row.username ≠ c.username) →
    table'.Perm (insertedRows (signupUser sha server s).events ++ table) →
    (.selected (c.row sha) ∈ (loginUser db sha server' l table').events ∧
      statuses (loginUser db sha server' l table').events = [0, 0] ∧
      tokens (loginUser db sha server' l table').events ≠ []) ∧
    ∀ (l' : LoginEnv) password, l'.Receives c.username password →
      hashSHA256 sha password ≠ hashSHA256 sha c.password →
      statuses (loginUser db sha server' l' table').events = [0, 1] ∧
        tokens (loginUser db sha server' l' table').events = []

/-- The condition that MySQL reads in the query for the username is met by the user's row, and
by no row of another username. -/
def Finds (db : MySQL) (sha : Bytes → Fin 32 → UInt8) (c : Credentials) : Prop :=
  ∃ condition, db.parseWhere (query c.username) = some condition ∧ condition (c.row sha) ∧
    ∀ row, condition row → row.username = c.username

variable {db : MySQL} {c : Credentials} {l : LoginEnv}

/-- The first row found is the user's. -/
theorem executeQuery_of_finds (h : Finds db sha c) {table table' : List Row}
    (hnew : ∀ row ∈ table, row.username ≠ c.username) (hperm : table'.Perm (c.row sha :: table)) :
    ∃ rows, db.executeQuery (query c.username) table' = some (c.row sha :: rows) := by
  obtain ⟨condition, hparse, hrow, honly⟩ := h
  rw [MySQL.executeQuery, hparse, Option.map_some]
  have hmem : c.row sha ∈ table'.filter condition :=
    List.mem_filter.mpr ⟨hperm.mem_iff.mpr List.mem_cons_self, hrow⟩
  cases hfound : table'.filter condition with
  | nil => simp [hfound] at hmem
  | cons first rows =>
    obtain ⟨hfirst, hcondition⟩ : first ∈ table' ∧ condition first := by
      rw [← List.mem_filter, hfound]
      exact List.mem_cons_self
    rcases List.mem_cons.mp (hperm.mem_iff.mp hfirst) with rfl | hold
    · exact ⟨rows, rfl⟩
    · exact absurd (honly first hcondition) (hnew first hold)

/-- What a login does that finds a row first. -/
theorem login_of_executeQuery {name password : Bytes} (h : l.Receives name password) {table rows : List Row}
    {row : Row} (hquery : db.executeQuery (query name) table = some (row :: rows)) :
    (∀ row', .selected row' ∈ (loginUser db sha server l table).events ↔ row' = row) ∧
      (hashSHA256 sha password = row.passwordHash → l.randBytes.isSome →
        statuses (loginUser db sha server l table).events = [0, 0] ∧
          tokens (loginUser db sha server l table).events ≠ []) ∧
      (hashSHA256 sha password ≠ row.passwordHash →
        statuses (loginUser db sha server l table).events = [0, 1] ∧
          tokens (loginUser db sha server l table).events = []) := by
  have hport : ∀ row' addr, SessionEvent.selected row' ∉ l.setup.events addr := by
    intro row' addr
    rw [Setup.events]
    split_ifs <;> simp
  simp only [loginUser, statuses_setup, tokens_setup, List.mem_append, hport, false_or, login_of_receives h, hquery]
  by_cases hhash : hashSHA256 sha password = row.passwordHash
  · cases hrand : l.randBytes <;> simp [hhash, statuses, tokens]
  · simp [hhash, statuses, tokens]

/-- A sign-up that is followed by a login is followed by one that finds the user's row. -/
theorem finds_of_agrees {server' : Counters} {s : SignupEnv} (hs : s.Receives c.username c.password)
    (hl : l.Receives c.username c.password) (h : Agrees db sha c server s server' l) :
    Finds db sha c ∧ l.randBytes.isSome := by
  have hfound : ∀ table table' : List Row, (∀ row ∈ table, row.username ≠ c.username) →
      table'.Perm (c.row sha :: table) → ∃ rows, db.executeQuery (query c.username) table' = some (c.row sha :: rows) ∧
        l.randBytes.isSome := by
    intro table table' hnew hperm
    obtain ⟨⟨hselected, -, htokens⟩, -⟩ := h table table' hnew (by rwa [insertedRows_of_receives hs])
    obtain ⟨t, ht⟩ := List.exists_mem_of_ne_nil _ htokens
    obtain ⟨ev, hev, hevt⟩ := List.mem_filterMap.mp ht
    have htoken : SessionEvent.token t ∈ (loginUser db sha server' l table').events := by
      cases ev with
      | token t' =>
        rw [Option.some.injEq] at hevt
        rwa [← hevt]
      | port | selected | inserted | status => cases hevt
    obtain ⟨hrand, row, rows, hquery, -⟩ := (exists_token_iff hl table').mp ⟨t, htoken⟩
    obtain rfl := ((login_of_executeQuery hl hquery).1 _).mp hselected
    exact ⟨rows, hquery, hrand⟩
  obtain ⟨rows, hquery, hrand⟩ := hfound [] [c.row sha] (by simp) (List.Perm.refl _)
  obtain ⟨condition, hparse, hfilter⟩ := Option.map_eq_some_iff.mp hquery
  refine ⟨⟨condition, hparse, ?_, fun row hrow => ?_⟩, hrand⟩
  · have hmem : c.row sha ∈ [c.row sha].filter condition := by
      rw [hfilter]
      exact List.mem_cons_self
    exact (List.mem_filter.mp hmem).2
  · -- a row of another username, in front of the user's, would be found instead
    by_contra hne
    obtain ⟨rows, hquery, -⟩ := hfound [row] [row, c.row sha] (by simpa using hne) (List.Perm.swap _ _ _)
    rw [MySQL.executeQuery, hparse, Option.map_some, List.filter_cons_of_pos hrow, Option.some.injEq] at hquery
    rw [(List.cons.inj hquery).1] at hne
    exact hne rfl

/-- **When signing up and logging in agree**: when the query finds the user's row and no
other username's, and the login gets its random bytes. -/
theorem agrees_iff (db : MySQL) (sha : Bytes → Fin 32 → UInt8) (c : Credentials) (server server' : Counters)
    {s : SignupEnv} {l : LoginEnv} (hs : s.Receives c.username c.password) (hl : l.Receives c.username c.password) :
    Agrees db sha c server s server' l ↔ Finds db sha c ∧ l.randBytes.isSome := by
  refine ⟨finds_of_agrees hs hl, ?_⟩
  rintro ⟨hfinds, hrand⟩ table table' hnew hperm
  rw [insertedRows_of_receives hs] at hperm
  obtain ⟨rows, hquery⟩ := executeQuery_of_finds hfinds hnew hperm
  refine ⟨?_, fun l' password hl' hhash => (login_of_executeQuery hl' hquery).2.2 hhash⟩
  exact ⟨((login_of_executeQuery hl hquery).1 _).mpr rfl, (login_of_executeQuery hl hquery).2.1 rfl hrand⟩

/-- A sign-up in which nothing goes wrong, and what is sent arrives in whole pieces. -/
def SignupEnv.plain (c : Credentials) : SignupEnv where
  lengthRead := .data [0, UInt8.ofNat c.username.length]
  t0 := ⟨0, 0⟩
  reads := [(.data (c.username ++ List.replicate (16 - c.username.length) 0), ⟨0, 0⟩)]
  setup := ⟨2, true, 1, 1, true, 1⟩
  secureReads := [.data [0, UInt8.ofNat c.password.length], .data c.password]
  namelen := [0, 0]
  passLen := [0, 0]
  executes := true
  afterUname := [0]
  afterPassword := [0]

theorem SignupEnv.plain_receives (c : Credentials) : (SignupEnv.plain c).Receives c.username c.password := by
  have hlen := c.username_le
  obtain ⟨unameBuffer, hname, hu⟩ := readName_whole c.username_pos c.nul_username c.username_le [] [0]
  obtain ⟨buffer, hbuffer, hp⟩ := receivePassword_whole (show [0, 0].length = 2 from rfl) c.password_pos
    c.nul_password c.password_le [] [0]
  refine ⟨rfl, rfl, c.username.length, unameBuffer, buffer, [], ?_, ?_, hu, hbuffer, hp⟩
  · exact readShort_length rfl (by omega) []
  · rw [recvName_snd]
    exact congrArg (Except.map Prod.fst) hname

/-- `bob` signs up and logs in. -/
theorem agrees_bob :
    Agrees mysqlOr firstBytes bobCredentials .constructed (.plain bobCredentials)
      .constructed (.plain bobCredentials) := by
  refine (agrees_iff _ _ _ _ _ (SignupEnv.plain_receives _) (LoginEnv.plain_receives _)).mpr ⟨?_, rfl⟩
  have hverbatim : Verbatim bobCredentials.username := .of_notMem (by decide) (by decide)
  exact ⟨_, mysqlOr.parseWhere_literal hverbatim.lexLiteral, by simp [Credentials.row], by simp⟩

/-- A query whose literal ends with it finds exactly the users whose names stand for
themselves. -/
theorem finds_iff_verbatim {v : Bytes} (h : lexLiteral (c.username ++ [quote]) = some (v, [])) :
    Finds db sha c ↔ Verbatim c.username := by
  have hparse := db.parseWhere_literal h
  rw [← lexLiteral_eq_self_iff, h]
  constructor
  · rintro ⟨condition, hcondition, hrow, -⟩
    rw [hparse, Option.some.injEq] at hcondition
    rw [← hcondition, decide_eq_true_eq] at hrow
    rw [← hrow]
    rfl
  · intro hv
    obtain rfl : v = c.username := by simpa using hv
    exact ⟨_, hparse, by simp [Credentials.row], fun row hrow => by simpa using hrow⟩

/-- A query whose literal does not end finds no one. -/
theorem not_finds_of_unterminated (h : lexLiteral (c.username ++ [quote]) = none) : ¬ Finds db sha c := by
  rintro ⟨condition, hcondition, -⟩
  rw [db.parseWhere_unterminated h] at hcondition
  cases hcondition

/-- The username `a\b`. -/
def backslashCredentials : Credentials where
  username := ascii "a\\b"
  password := ascii "secret"

/-- `a\b` signs up, and cannot log in: the query looks for `a` and a backspace. -/
theorem backslash_not_found :
    ¬ Agrees mysqlOr firstBytes backslashCredentials .constructed (.plain backslashCredentials) .constructed
      (.plain backslashCredentials) := by
  intro h
  obtain ⟨hfinds, -⟩ := finds_of_agrees (SignupEnv.plain_receives _) (LoginEnv.plain_receives _) h
  rw [finds_iff_verbatim (v := [97, 8]) (by decide), ← lexLiteral_eq_self_iff] at hfinds
  exact absurd hfinds (by decide)

end Inferno.Login
