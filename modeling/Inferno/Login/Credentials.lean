import Inferno.Lib.OStream
import Inferno.Lib.SqlLiteral
import Inferno.Login.AuthDatagram
import Inferno.Login.Ports
import Mathlib.Data.List.FinRange
import Mathlib.Tactic.IntervalCases

/-!
# Credentials

What logging in and signing up share: the `credentials` table and what is relied on of
MySQL, `hash_SHA_256`, the way to a secure connection, and how a password is read
from it.

A connection is the list of what each `recv` or `SSL_read` on it gives in turn. A
read that is never answered leaves the call waiting for ever, and so does a list that
gives more bytes than the read asks for, which no read does. A call that writes outside
its buffer is followed no further.

What is *not* modelled: the log file, the printed lines, and what is freed at the end.
-/

namespace Inferno.Login

open CStr SqlLiteral

/-! ### The table -/

/-- A row of `credentials`. -/
structure Row where
  username : Bytes
  passwordHash : Bytes
  deriving DecidableEq, Repr

/-- The bytes of a string of ASCII characters. -/
def ascii (s : String) : Bytes := s.toList.map fun c => UInt8.ofNat c.toNat

/-- The query of `login_user`, up to the username. -/
def selectWhere : Bytes := ascii "SELECT username, password_hash FROM credentials WHERE username='"

/-- The query of `login_user`. -/
def query (username : Bytes) : Bytes := selectWhere ++ username ++ [quote]

/-- What is relied on of MySQL: it parses a query into a condition on the rows, or not at
all, and if the literal after `username=` ends where the query does, or nowhere, that is
the condition, or there is none. Strings are compared byte by byte. -/
structure MySQL where
  parseWhere : Bytes → Option (Row → Bool)
  literal : ∀ text v, lexLiteral text = some (v, []) →
    parseWhere (selectWhere ++ text) = some fun row => decide (row.username = v)
  unterminated : ∀ text, lexLiteral text = none → parseWhere (selectWhere ++ text) = none

/-- `executeQuery`: the rows that satisfy the condition, in the order of the table, or
`none` for an `SQLException`. -/
def MySQL.executeQuery (db : MySQL) (sql : Bytes) (table : List Row) : Option (List Row) :=
  (db.parseWhere sql).map table.filter

/-- A query whose literal ends with it looks for the value of the literal. -/
theorem MySQL.parseWhere_literal (db : MySQL) {u v : Bytes} (h : lexLiteral (u ++ [quote]) = some (v, [])) :
    db.parseWhere (query u) = some fun row => decide (row.username = v) := by
  rw [query, List.append_assoc]
  exact db.literal _ _ h

/-- A query whose literal does not end is none. -/
theorem MySQL.parseWhere_unterminated (db : MySQL) {u : Bytes} (h : lexLiteral (u ++ [quote]) = none) :
    db.parseWhere (query u) = none := by
  rw [query, List.append_assoc]
  exact db.unterminated _ h

/-! ### Hashing -/

/-- `hash_SHA_256`, over the `SHA256_DIGEST_LENGTH` bytes of a digest: each is written by
`std::hex << std::setw(2) << std::setfill('0')`. -/
def hashSHA256 (sha : Bytes → Fin 32 → UInt8) (input : Bytes) : Bytes :=
  (List.finRange 32).flatMap fun i => Hex.pair (sha input i)

/-- A hash is 64 digits, as a token must be. -/
theorem length_hashSHA256 (sha : Bytes → Fin 32 → UInt8) (input : Bytes) : (hashSHA256 sha input).length = 64 := by
  simp [hashSHA256, List.length_flatMap, Hex.pair]

theorem nul_notMem_hashSHA256 (sha : Bytes → Fin 32 → UInt8) (input : Bytes) : 0 ∉ hashSHA256 sha input := by
  intro h
  obtain ⟨i, -, hi⟩ := List.mem_flatMap.mp h
  have hlt := (sha input i).toNat_lt
  rcases List.mem_cons.mp hi with hi | hi
  · exact Hex.digit_ne_zero (by omega) hi.symm
  · exact Hex.digit_ne_zero (by omega) (List.mem_singleton.mp hi).symm

/-! ### Reading -/

/-- What one `recv` or `SSL_read` gives. -/
inductive Read where
  | data (bytes : Bytes)
  | closed
  | failed
  deriving DecidableEq, Repr

/-- The bytes put in the buffer. -/
def Read.bytes : Read → Bytes
  | .data bytes => bytes
  | _ => []

/-- The value returned. -/
def Read.returned : Read → ℤ
  | .data bytes => bytes.length
  | .closed => 0
  | .failed => -1

/-- Why a call does not go on. -/
inductive Stuck where
  /-- It waits for ever. -/
  | blocked
  /-- It has written outside a buffer. -/
  | undefined
  deriving DecidableEq, Repr

/-- `ntohs` of two bytes, as a `short`. -/
def shortOf (bytes : Bytes) : ℤ := ((bytes.getD 0 0).toNat * 256 + (bytes.getD 1 0).toNat : ℤ).bmod 65536

/-- A `short` is zero if both of its bytes are. -/
theorem shortOf_eq_zero_iff {bytes : Bytes} : shortOf bytes = 0 ↔ bytes.getD 0 0 = 0 ∧ bytes.getD 1 0 = 0 := by
  have hfst := (bytes.getD 0 0).toNat_lt
  have hsnd := (bytes.getD 1 0).toNat_lt
  rw [← UInt8.toNat_inj, ← UInt8.toNat_inj, UInt8.toNat_zero]
  unfold shortOf
  rw [← Int.dvd_iff_bmod_eq_zero]
  omega

/-- A `short` read into a variable that holds the bytes `junk`. -/
def readShort (junk : Bytes) : List Read → Except Stuck (ℤ × List Read)
  | [] => .error .blocked
  | r :: reads => if r.bytes.length ≤ 2 then .ok (shortOf (copyAt junk 0 r.bytes), reads) else .error .blocked

/-- `while(bytes_received < namelen) bytes_received += SSL_read(ssl, uname_buffer, …)`: every
read goes to the start of the buffer. -/
def readName (namelen : ℤ) : ℤ → Bytes → List Read → Except Stuck (Bytes × List Read)
  | received, unameBuffer, [] => if received < namelen then .error .blocked else .ok (unameBuffer, [])
  | received, unameBuffer, r :: reads =>
    if received < namelen then
      if r.bytes.length ≤ 16 then readName namelen (received + r.returned) (copyAt unameBuffer 0 r.bytes) reads
      else .error .blocked
    else .ok (unameBuffer, r :: reads)

/-- `while(total_bytes < pass_len) …`: each read goes behind the ones before, and asks for
64 bytes wherever that is. -/
def readPassword (passLen : ℤ) : ℤ → Bytes → List Read → Except Stuck (Bytes × List Read)
  | total, buffer, [] => if total < passLen then .error .blocked else .ok (buffer, [])
  | total, buffer, r :: reads =>
    if total < passLen then
      if 64 < r.bytes.length then .error .blocked
      else if r.bytes = [] ∨ 0 ≤ total ∧ total + r.bytes.length ≤ 64 then
        readPassword passLen (total + r.returned) (copyAt buffer total.toNat r.bytes) reads
      else .error .undefined
    else .ok (buffer, r :: reads)

/-- The loops are done once they have as many bytes as were announced. -/
theorem readName_of_le {namelen received : ℤ} (h : namelen ≤ received) (unameBuffer : Bytes) (reads : List Read) :
    readName namelen received unameBuffer reads = .ok (unameBuffer, reads) := by
  cases reads <;> simp [readName, not_lt.mpr h]

theorem readPassword_of_le {passLen total : ℤ} (h : passLen ≤ total) (buffer : Bytes) (reads : List Read) :
    readPassword passLen total buffer reads = .ok (buffer, reads) := by
  cases reads <;> simp [readPassword, not_lt.mpr h]

/-- A length and then a username, into a zeroed `uname_buffer`. -/
def receiveName (junk : Bytes) (reads : List Read) : Except Stuck (Bytes × List Read) := do
  let (namelen, reads) ← readShort junk reads
  readName namelen 0 (List.replicate 16 0) reads

/-- A length and then a password, into a zeroed `buffer`. -/
def receivePassword (junk : Bytes) (reads : List Read) : Except Stuck (Bytes × List Read) := do
  let (passLen, reads) ← readShort junk reads
  readPassword passLen 0 (List.replicate 64 0) reads

/-- All the bytes that such a loop takes, in the order they were sent. -/
def taken (len : ℤ) : ℤ → List Read → Bytes
  | _, [] => []
  | received, r :: reads => if received < len then r.bytes ++ taken len (received + r.returned) reads else []

theorem taken_of_le {len received : ℤ} (h : len ≤ received) (reads : List Read) : taken len received reads = [] := by
  cases reads <;> simp [taken, not_lt.mpr h]

/-- The string the client sent: a length, and then bytes up to a NUL. -/
def sent (junk : Bytes) (reads : List Read) : Bytes :=
  match readShort junk reads with
  | .error _ => []
  | .ok (len, reads) => cstr (taken len 0 reads)

/-! ### Reading what arrives in one piece -/

/-- A username and a password as they may be chosen. -/
structure Credentials where
  username : Bytes
  password : Bytes
  username_pos : 1 ≤ username.length := by decide
  username_le : username.length ≤ 15 := by decide
  nul_username : 0 ∉ username := by decide
  password_pos : 1 ≤ password.length := by decide
  password_le : password.length ≤ 63 := by decide
  nul_password : 0 ∉ password := by decide

/-- The row of a user who has signed up. -/
def Credentials.row (sha : Bytes → Fin 32 → UInt8) (c : Credentials) : Row := ⟨c.username, hashSHA256 sha c.password⟩

/-- The two bytes of a length below 256. -/
theorem shortOf_length {n : ℕ} (h : n < 256) : shortOf [0, UInt8.ofNat n] = n := by
  have hn : (UInt8.ofNat n).toNat = n := by
    rw [UInt8.toNat_ofNat', Nat.mod_eq_of_lt h]
  have hmod : (((0 : ℕ) : ℤ) * 256 + n).bmod 65536 = n := by
    refine (Int.bmod_eq_of_le ?_ ?_).trans ?_ <;> omega
  unfold shortOf
  rw [List.getD_cons_zero, List.getD_cons_succ, List.getD_cons_zero, hn]
  exact hmod

theorem readShort_length {junk : Bytes} (hjunk : junk.length = 2) {n : ℕ} (h : n < 256) (reads : List Read) :
    readShort junk (.data [0, UInt8.ofNat n] :: reads) = .ok ((n : ℤ), reads) := by
  have hcopy : copyAt junk 0 [0, UInt8.ofNat n] = [0, UInt8.ofNat n] := by
    rw [copyAt, List.take_zero, List.nil_append, List.drop_of_length_le (by simp [hjunk]), List.append_nil]
  simp [readShort, Read.bytes, hcopy, shortOf_length h]

/-- A padded name is the string it was. -/
theorem cstrOver_padded {name : Bytes} (hnul : 0 ∉ name) (hle : name.length ≤ 15) (after : Bytes) :
    cstrOver (name ++ List.replicate (16 - name.length) 0) after = name := by
  rw [show 16 - name.length = (15 - name.length) + 1 by omega, List.replicate_succ, cstrOver_append_nul hnul]

/-- A name whose first piece has all of its bytes, with some of the padding, is received as it was
sent. -/
theorem readName_first {name : Bytes} (hpos : 1 ≤ name.length) (hle : name.length ≤ 15) {b : Bytes}
    (hb : b = (name ++ List.replicate (16 - name.length) 0).take b.length) (hlen : name.length ≤ b.length)
    (reads : List Read) :
    readName name.length 0 (List.replicate 16 0) (.data b :: reads) =
      .ok (name ++ List.replicate (16 - name.length) 0, reads) := by
  have hfit : b.length ≤ 16 := by
    rw [hb, List.length_take, List.length_append, List.length_replicate]
    omega
  have hpad : b = name ++ List.replicate (b.length - name.length) 0 := by
    conv_lhs => rw [hb]
    rw [List.take_append, List.take_of_length_le hlen, List.take_replicate]
    congr 2
    omega
  rw [readName, if_pos (by omega), if_pos (show (Read.data b).bytes.length ≤ 16 from hfit), readName_of_le]
  · rw [copyAt, List.take_zero, List.nil_append, Read.bytes, List.drop_replicate]
    conv_lhs => rw [hpad, List.append_assoc, List.replicate_append_replicate]
    simp only [List.length_append, List.length_replicate]
    congr 5
    omega
  · simp only [Read.returned]
    omega

/-- So is a name that arrives in one piece. -/
theorem readName_whole {name : Bytes} (hpos : 1 ≤ name.length) (hnul : 0 ∉ name) (hle : name.length ≤ 15)
    (reads : List Read) (after : Bytes) :
    ∃ unameBuffer, readName name.length 0 (List.replicate 16 0)
        (.data (name ++ List.replicate (16 - name.length) 0) :: reads) = .ok (unameBuffer, reads) ∧
      cstrOver unameBuffer after = name :=
  ⟨_, readName_first hpos hle List.take_length.symm (by simp) reads, cstrOver_padded hnul hle after⟩

/-- Whatever pieces a password arrives in, each is put behind the ones before. -/
theorem readPassword_pieces {password : Bytes} (hle : password.length ≤ 64) {pieces : List Bytes}
    (hne : ∀ b ∈ pieces, b ≠ []) {total : ℕ} (htotal : total ≤ password.length)
    (hpieces : pieces.flatten = password.drop total) (reads : List Read) :
    readPassword password.length total (password.take total ++ List.replicate (64 - total) 0)
        (pieces.map .data ++ reads) = .ok (password ++ List.replicate (64 - password.length) 0, reads) := by
  induction pieces generalizing total with
  | nil =>
    have hdone := List.drop_eq_nil_iff.mp hpieces.symm
    obtain rfl : total = password.length := by omega
    rw [List.take_length, List.map_nil, List.nil_append, readPassword_of_le le_rfl]
  | cons b pieces ih =>
    have hpos := List.length_pos_iff.mpr (hne b List.mem_cons_self)
    have hsplit : password.drop total = b ++ pieces.flatten := by rw [← hpieces, List.flatten_cons]
    have hlen := congrArg List.length hsplit
    rw [List.length_drop, List.length_append] at hlen
    have htake : password.take (total + b.length) = password.take total ++ b := by
      rw [List.take_add, hsplit, List.take_left]
    have hcopy : copyAt (password.take total ++ List.replicate (64 - total) 0) total b =
        password.take (total + b.length) ++ List.replicate (64 - (total + b.length)) 0 := by
      have hlength : (password.take total).length = total := List.length_take_of_le htotal
      rw [htake, copyAt, List.take_left' hlength, List.drop_append, hlength, List.drop_of_length_le (by omega),
        List.nil_append, List.drop_replicate]
      congr 2
      omega
    rw [List.map_cons, List.cons_append, readPassword, if_pos (by omega),
      if_neg (show ¬ 64 < (Read.data b).bytes.length by simp only [Read.bytes]; omega),
      if_pos (by simp only [Read.bytes]; omega)]
    simp only [Read.bytes, Read.returned, Int.toNat_natCast]
    rw [hcopy, ← Nat.cast_add]
    refine ih (fun b' hb' => hne b' (List.mem_cons_of_mem _ hb')) (by omega) ?_
    rw [← List.drop_drop, hsplit, List.drop_left]

/-- A password that arrives in any pieces is received as it was sent. -/
theorem receivePassword_pieces {junk : Bytes} (hjunk : junk.length = 2) {password : Bytes} (hle : password.length ≤ 63)
    {pieces : List Bytes} (hne : ∀ b ∈ pieces, b ≠ []) (hpieces : pieces.flatten = password) (reads : List Read) :
    receivePassword junk (.data [0, UInt8.ofNat password.length] :: (pieces.map .data ++ reads)) =
      .ok (password ++ List.replicate (64 - password.length) 0, reads) := by
  rw [receivePassword, readShort_length hjunk (by omega)]
  exact readPassword_pieces (by omega) hne (Nat.zero_le _) hpieces reads

/-- The string in the buffer is then the password. -/
theorem cstrOver_password {password : Bytes} (hnul : 0 ∉ password) (hle : password.length ≤ 63) (after : Bytes) :
    cstrOver (password ++ List.replicate (64 - password.length) 0) after = password := by
  rw [show 64 - password.length = (63 - password.length) + 1 by omega, List.replicate_succ, cstrOver_append_nul hnul]

/-- A password that arrives in one piece is received as it was sent. -/
theorem receivePassword_whole {junk : Bytes} (hjunk : junk.length = 2) {password : Bytes} (hpos : 1 ≤ password.length)
    (hnul : 0 ∉ password) (hle : password.length ≤ 63) (reads : List Read) (after : Bytes) :
    ∃ buffer, receivePassword junk (.data [0, UInt8.ofNat password.length] :: .data password :: reads) =
        .ok (buffer, reads) ∧ cstrOver buffer after = password := by
  have hne : ∀ b ∈ [password], b ≠ [] := by simpa using List.ne_nil_of_length_pos hpos
  have hpieces : [password].flatten = password := by simp
  exact ⟨_, receivePassword_pieces hjunk hle hne hpieces reads, cstrOver_password hnul hle after⟩

/-- What the calls that open a secure connection return, in their order: `send` of the port,
`BIO_new_accept`, `BIO_do_accept` twice, `SSL_new` and `SSL_accept`. -/
structure Setup where
  sent : ℤ
  newAccept : Bool
  listens : ℤ
  accepts : ℤ
  sslNew : Bool
  sslAccept : ℤ
  deriving DecidableEq, Repr

/-- The connection is open: none of the calls has failed. -/
def Setup.opens (s : Setup) : Bool :=
  0 ≤ s.sent && s.newAccept && 0 < s.listens && 0 < s.accepts && s.sslNew && 0 < s.sslAccept

/-- What happens in a session with a client. -/
inductive SessionEvent where
  /-- The number of the secure port is sent. -/
  | port (port : Int16)
  /-- The result set of a query is moved to a row. -/
  | selected (row : Row)
  /-- A row is inserted. -/
  | inserted (row : Row)
  /-- A `short` is sent to tell of success or failure. -/
  | status (code : Int16)
  /-- The auth token is written on the secure connection. -/
  | token (token : Bytes)
  deriving DecidableEq, Repr

/-- The port is sent, unless that fails. -/
def Setup.events (s : Setup) (addr : ℤ) : List SessionEvent := if s.sent < 0 then [] else [.port (sslPort addr)]

/-- How a call ends. -/
inductive Outcome where
  | returned (result : Bool)
  | stuck (why : Stuck)
  /-- An `SQLException` that nothing catches. -/
  | threw
  deriving DecidableEq, Repr

/-- What a call does: the counters it leaves, what happens in it, and how it ends. -/
structure Session where
  server : Counters
  events : List SessionEvent
  outcome : Outcome
  deriving DecidableEq

/-- The `short`s sent to tell of success or failure. -/
def statuses (es : List SessionEvent) : List Int16 :=
  es.filterMap fun e => match e with
    | .status code => some code
    | _ => none

/-- The tokens written. -/
def tokens (es : List SessionEvent) : List Bytes :=
  es.filterMap fun e => match e with
    | .token token => some token
    | _ => none

/-- Opening the connection neither reports a status nor writes a token. -/
theorem statuses_setup (s : Setup) (addr : ℤ) (es : List SessionEvent) :
    statuses (s.events addr ++ es) = statuses es := by
  rw [Setup.events]
  split_ifs <;> rfl

theorem tokens_setup (s : Setup) (addr : ℤ) (es : List SessionEvent) : tokens (s.events addr ++ es) = tokens es := by
  rw [Setup.events]
  split_ifs <;> rfl

end Inferno.Login
