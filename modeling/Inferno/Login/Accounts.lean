import Inferno.Login.HexDigest
import Inferno.Login.LoginExchange

/-!
# Accounts

The table of credentials over any number of visits. A child that signs a user up inserts a row, wherever
in the table it may end up, a child that logs one in makes its query, and nothing ever takes a row away. What the
table is for is to tell who has signed up with what password, or rather with what digest.

## What is proved

* `token_registered` — a token is only ever written for a password with the digest of one that someone has
  signed up with, whatever condition a client makes of the query with its username; if the username stands for
  itself between quotes, that someone has signed up under it.
* `token_iff_registered` — for such a name, once it has been signed up and as long as nobody signs it up with another
  password, exactly that password gets a token, whatever the other visits are.

## Scope

A visit comes to the table once, and the visits are in the order in which they do. Whether the table takes two rows
of one username is up to the database, which reads a query as a condition on the rows of the table, whatever is in
it, and finds only such rows.
-/

namespace Inferno.Login

open CStr SqlLiteral

/-- A child's visit to the table. -/
inductive Visit where
  | login (e : LoginChild)
  /-- A row that is inserted ends up behind so many others. -/
  | signup (e : ChildEnv) (position : ℕ)

/-- What a visit makes of the table. -/
def Visit.next (sha : Bytes → Fin 32 → UInt8) (table : List Row) : Visit → List Row
  | .login _ => table
  | .signup e position => table.take position ++ insertedRows (childEvents sha e) ++ table.drop position

/-- The table after some visits. -/
def tableAfter (sha : Bytes → Fin 32 → UInt8) (vs : List Visit) : List Row := vs.foldl (Visit.next sha) []

/-- Someone has signed up under a name with a password that has the digest. -/
def Registered (sha : Bytes → Fin 32 → UInt8) (vs : List Visit) (username : Bytes) (digest : Fin 32 → UInt8) : Prop :=
  ∃ e position password, .signup e position ∈ vs ∧ e.requested ∧ e.acknowledged ∧
    e.signup.Receives username password ∧ digest = sha password

variable {db : MySQL} {sha : Bytes → Fin 32 → UInt8} {server : Counters} {vs : List Visit}

/-! ### What is in the table -/

/-- Two digests with the same text are the same. -/
theorem hashSHA256_inj {input input' : Bytes} :
    hashSHA256 sha input = hashSHA256 sha input' ↔ sha input = sha input' := by
  constructor
  · intro h
    rw [hashSHA256_eq, hashSHA256_eq, text_formatDigest, text_formatDigest] at h
    have hdecoded := congrArg Hex.decode h
    rw [Hex.decode_flatMap_pair, Hex.decode_flatMap_pair, Option.some.injEq] at hdecoded
    exact List.ofFn_injective hdecoded
  · intro h
    rw [hashSHA256_eq, hashSHA256_eq, h]

/-- **What a sign-up inserts**: the row of the name and the password that it receives. -/
theorem mem_insertedRows_iff {e : SignupEnv} {row : Row} :
    row ∈ insertedRows (signupUser sha server e).events ↔
      ∃ username password, e.Receives username password ∧ row = ⟨username, hashSHA256 sha password⟩ := by
  constructor
  · intro h
    rcases signupUser_cases sha server e with ⟨why, -, hevents⟩ | ⟨namelen, hlen, events, result, hloop, hgoes⟩
    · rw [hevents] at h
      cases h
    · have hnone := insertedRows_recvName namelen e.t0 0 (List.replicate 16 0) e.reads
      rw [hloop] at hnone
      rcases hgoes with ⟨why, -, hevents⟩ | ⟨unameBuffer, rfl, ⟨outcome, -, hevents⟩ | ⟨password, hpassword, hevents⟩⟩
      · rw [hevents, hnone] at h
        cases h
      · rw [hevents, insertedRows_append, hnone, recvPassword_events, insertedRows_setup] at h
        cases h
      · rw [hevents, insertedRows_append, insertedRows_append, hnone, recvPassword_events, insertedRows_setup] at h
        cases hexecutes : e.executes with
        | false =>
          rw [hexecutes] at h
          cases h
        | true =>
          rw [hexecutes] at h
          obtain rfl := List.mem_singleton.mp h
          cases hopens : e.setup.opens with
          | false => simp [recvPassword, hopens] at hpassword
          | true =>
            cases hreceive : receivePassword e.passLen e.secureReads with
            | error why => simp [recvPassword, hopens, hreceive] at hpassword
            | ok received =>
              obtain ⟨buffer, rest⟩ := received
              simp only [recvPassword, hopens, hreceive, Bool.not_true, Bool.false_eq_true, if_false,
                Except.ok.injEq] at hpassword
              subst hpassword
              exact ⟨_, _, ⟨hopens, hexecutes, namelen, unameBuffer, buffer, rest, hlen, by rw [hloop], rfl, hreceive,
                rfl⟩, rfl⟩
  · rintro ⟨username, password, hreceives, rfl⟩
    rw [insertedRows_of_receives hreceives]
    exact List.mem_singleton_self _

/-- The same of a child, which may not get that far. -/
theorem mem_insertedRows_child {e : ChildEnv} {row : Row} :
    row ∈ insertedRows (childEvents sha e) ↔ e.requested ∧ e.acknowledged ∧
      ∃ username password, e.signup.Receives username password ∧ row = ⟨username, hashSHA256 sha password⟩ := by
  have hinserts := @mem_insertedRows_iff sha .constructed e.signup row
  rw [← hinserts, childEvents]
  cases e.requested <;> cases e.acknowledged <;> simp [insertedRows]

/-- A visit takes no row away. -/
theorem mem_next {table : List Row} {v : Visit} {row : Row} :
    row ∈ v.next sha table ↔
      row ∈ table ∨ ∃ e position, v = .signup e position ∧ row ∈ insertedRows (childEvents sha e) := by
  cases v with
  | login e => simp [Visit.next]
  | signup e position =>
    have hsplit : row ∈ table ↔ row ∈ table.take position ∨ row ∈ table.drop position := by
      rw [← List.mem_append, List.take_append_drop]
    simp only [Visit.next, List.mem_append, Visit.signup.injEq, hsplit]
    constructor
    · rintro ((htake | hnew) | hdrop)
      · exact Or.inl (Or.inl htake)
      · exact Or.inr ⟨e, position, ⟨rfl, rfl⟩, hnew⟩
      · exact Or.inl (Or.inr hdrop)
    · rintro ((htake | hdrop) | ⟨e', position', ⟨rfl, rfl⟩, hnew⟩)
      · exact Or.inl (Or.inl htake)
      · exact Or.inr hdrop
      · exact Or.inl (Or.inr hnew)

theorem mem_tableAfter {row : Row} :
    row ∈ tableAfter sha vs ↔ ∃ e position, .signup e position ∈ vs ∧ row ∈ insertedRows (childEvents sha e) := by
  induction vs using List.reverseRecOn with
  | nil => simp [tableAfter]
  | append_singleton vs v ih =>
    have hafter : tableAfter sha (vs ++ [v]) = v.next sha (tableAfter sha vs) := by
      rw [tableAfter, List.foldl_append]
      rfl
    rw [hafter, mem_next, ih]
    simp only [List.mem_append, List.mem_singleton]
    constructor
    · rintro (⟨e, position, hv, hrow⟩ | ⟨e, position, rfl, hrow⟩)
      · exact ⟨e, position, Or.inl hv, hrow⟩
      · exact ⟨e, position, Or.inr rfl, hrow⟩
    · rintro ⟨e, position, hv | rfl, hrow⟩
      · exact Or.inl ⟨e, position, hv, hrow⟩
      · exact Or.inr ⟨e, position, rfl, hrow⟩

/-- **What the table tells**: who has signed up, with the digest of what password. -/
theorem mem_tableAfter_iff_registered {username password : Bytes} :
    ⟨username, hashSHA256 sha password⟩ ∈ tableAfter sha vs ↔ Registered sha vs username (sha password) := by
  rw [mem_tableAfter]
  constructor
  · rintro ⟨e, position, hv, hrow⟩
    obtain ⟨hrequested, hacknowledged, username', password', hreceives, hsame⟩ := mem_insertedRows_child.mp hrow
    obtain ⟨rfl, hhash⟩ := Row.mk.inj hsame
    exact ⟨e, position, password', hv, hrequested, hacknowledged, hreceives, hashSHA256_inj.mp hhash⟩
  · rintro ⟨e, position, password', hv, hrequested, hacknowledged, hreceives, hdigest⟩
    refine ⟨e, position, hv, mem_insertedRows_child.mpr ⟨hrequested, hacknowledged, username, password', hreceives, ?_⟩⟩
    rw [hashSHA256_inj.mpr hdigest]

/-- There is nothing else in it. -/
theorem registered_of_mem {row : Row} (h : row ∈ tableAfter sha vs) :
    ∃ password, row.passwordHash = hashSHA256 sha password ∧ Registered sha vs row.username (sha password) := by
  obtain ⟨e, position, hv, hrow⟩ := mem_tableAfter.mp h
  obtain ⟨hrequested, hacknowledged, username, password, hreceives, rfl⟩ := mem_insertedRows_child.mp hrow
  exact ⟨password, rfl, e, position, password, hv, hrequested, hacknowledged, hreceives, rfl⟩

/-! ### Who gets a token -/

/-- A query finds rows of the table. -/
theorem mem_of_executeQuery {sql : Bytes} {table rows : List Row} {row : Row}
    (h : db.executeQuery sql table = some (row :: rows)) : row ∈ table := by
  obtain ⟨condition, -, hfilter⟩ := Option.map_eq_some_iff.mp h
  exact List.mem_of_mem_filter (hfilter ▸ List.mem_cons_self)

/-- What the query for a name that stands for itself finds. -/
theorem executeQuery_of_verbatim {name : Bytes} (h : Verbatim name) (table : List Row) :
    db.executeQuery (query name) table = some (table.filter fun row => row.username = name) := by
  rw [MySQL.executeQuery, db.parseWhere_literal h.lexLiteral, Option.map_some]

theorem username_of_verbatim {name : Bytes} (h : Verbatim name) {table rows : List Row} {row : Row}
    (hquery : db.executeQuery (query name) table = some (row :: rows)) : row.username = name := by
  rw [executeQuery_of_verbatim h, Option.some.injEq] at hquery
  have hrow : row ∈ table.filter fun row => row.username = name := by
    rw [hquery]
    exact List.mem_cons_self
  exact of_decide_eq_true (List.mem_filter.mp hrow).2

variable {e : LoginChild}

/-- A child writes a token if it is asked for one, someone is authorised, and it has random bytes to make it of. -/
theorem exists_token_child_iff {table : List Row} :
    (∃ t, .token t ∈ e.events db sha table) ↔
      e.requested ∧ e.acknowledged ∧ e.login.randBytes.isSome ∧ e.Authorised db sha table := by
  have hlogin : (∃ t, .token t ∈ (loginUser db sha .constructed e.login table).events) ↔
      e.login.randBytes.isSome ∧ e.Authorised db sha table := by
    constructor
    · rintro ⟨t, ht⟩
      obtain ⟨name, password, hreceives⟩ := receives_of_token (token_mem_loginUser.mp ht)
      obtain ⟨hrand, row, rows, hquery, hhash⟩ := (exists_token_iff hreceives table).mp ⟨t, ht⟩
      exact ⟨hrand, name, password, row, rows, hreceives, hquery, hhash⟩
    · rintro ⟨hrand, name, password, row, rows, hreceives, hquery, hhash⟩
      exact (exists_token_iff hreceives table).mpr ⟨hrand, row, rows, hquery, hhash⟩
  rw [← hlogin, LoginChild.events]
  cases e.requested <;> cases e.acknowledged <;> simp

/-- Who is authorised has a password that someone has signed up with, or one with the same digest. -/
theorem registered_of_authorised (h : e.Authorised db sha (tableAfter sha vs)) :
    ∃ name password username, e.login.Receives name password ∧ Registered sha vs username (sha password) ∧
      (Verbatim name → username = name) := by
  obtain ⟨name, password, row, rows, hreceives, hquery, hhash⟩ := h
  refine ⟨name, password, row.username, hreceives, ?_, fun hverbatim => username_of_verbatim hverbatim hquery⟩
  rw [← mem_tableAfter_iff_registered, ← hhash]
  exact mem_of_executeQuery hquery

/-- **Who is authorised**: for a name that stands for itself and has been signed up with one password at most, who has
that. -/
theorem authorised_iff_registered {name password : Bytes} (hreceives : e.login.Receives name password)
    (hverbatim : Verbatim name)
    (hsame : ∀ digest digest', Registered sha vs name digest → Registered sha vs name digest' → digest = digest') :
    e.Authorised db sha (tableAfter sha vs) ↔ Registered sha vs name (sha password) := by
  constructor
  · intro h
    obtain ⟨name', password', username, hreceives', hregistered, hname⟩ := registered_of_authorised h
    obtain ⟨rfl, rfl⟩ := hreceives.unique hreceives'
    rwa [hname hverbatim] at hregistered
  · intro hregistered
    have hquery : db.executeQuery (query name) (tableAfter sha vs) = _ := executeQuery_of_verbatim hverbatim _
    have hrow : ⟨name, hashSHA256 sha password⟩ ∈ (tableAfter sha vs).filter fun row => row.username = name :=
      List.mem_filter.mpr ⟨mem_tableAfter_iff_registered.mpr hregistered, decide_eq_true rfl⟩
    cases hfound : (tableAfter sha vs).filter fun row => row.username = name with
    | nil => simp [hfound] at hrow
    | cons row rows =>
      rw [hfound] at hquery
      -- the row that is found may be another of the same name, and then has the same hash
      obtain ⟨password', hhash, hfirst⟩ := registered_of_mem (mem_of_executeQuery hquery)
      rw [username_of_verbatim hverbatim hquery] at hfirst
      refine ⟨name, password, row, rows, hreceives, hquery, ?_⟩
      rw [hhash, hashSHA256_inj]
      exact hsame _ _ hfirst hregistered

/-- `bob` has signed up. -/
def bobSignup : List Visit := [.signup ⟨true, true, .plain bobCredentials⟩ 0]

theorem tableAfter_bobSignup : tableAfter firstBytes bobSignup = [bobCredentials.row firstBytes] := by
  have hrows : insertedRows (signupUser firstBytes .constructed (.plain bobCredentials)).events =
      [bobCredentials.row firstBytes] := insertedRows_of_receives (SignupEnv.plain_receives _)
  simpa [tableAfter, bobSignup, Visit.next, childEvents, insertedRows] using hrows

/-- With his password and no other. -/
theorem registered_bobSignup {digest : Fin 32 → UInt8}
    (h : Registered firstBytes bobSignup bobCredentials.username digest) :
    digest = firstBytes bobCredentials.password := by
  obtain ⟨e, position, password, hv, hrequested, hacknowledged, hreceives, rfl⟩ := h
  have hrow : ⟨bobCredentials.username, hashSHA256 firstBytes password⟩ ∈ tableAfter firstBytes bobSignup :=
    mem_tableAfter_iff_registered.mpr ⟨e, position, password, hv, hrequested, hacknowledged, hreceives, rfl⟩
  rw [tableAfter_bobSignup, List.mem_singleton] at hrow
  exact hashSHA256_inj.mp (Row.mk.inj hrow).2

/-- **Who has signed up gets a token**, and nobody else under that name. -/
theorem token_iff_registered {name password : Bytes} (hrequested : e.requested) (hacknowledged : e.acknowledged)
    (hreceives : e.login.Receives name password) (hrand : e.login.randBytes.isSome) (hverbatim : Verbatim name)
    (hsame : ∀ digest digest', Registered sha vs name digest → Registered sha vs name digest' → digest = digest') :
    (∃ t, .token t ∈ e.events db sha (tableAfter sha vs)) ↔ Registered sha vs name (sha password) := by
  rw [exists_token_child_iff, authorised_iff_registered hreceives hverbatim hsame]
  exact ⟨fun h => h.2.2.2, fun h => ⟨hrequested, hacknowledged, hrand, h⟩⟩

/-- `bob` gets one exactly if he has signed up with his password, as he has. -/
theorem token_iff_registered_bob :
    (∃ t, .token t ∈ bobChild.events mysqlOr firstBytes (tableAfter firstBytes bobSignup)) ↔
      Registered firstBytes bobSignup bobCredentials.username (firstBytes bobCredentials.password) := by
  apply token_iff_registered rfl rfl (LoginEnv.plain_receives bobCredentials) rfl
    (.of_notMem (by decide) (by decide))
  intro digest digest' h h'
  rw [registered_bobSignup h, registered_bobSignup h']

end Inferno.Login
