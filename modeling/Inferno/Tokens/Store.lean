import Inferno.Lib.Clock
import Inferno.Login.AuthDatagram
import Mathlib.Logic.Function.Basic

/-!
# The token store

`ChatServer::receive_new` and `ChatServer::scrub_list` on the two members they keep:
`current_users`, the map from usernames to tokens, and `expiry`, the deque of
usernames with the times their tokens expire. `MatchMaker::receive_new` and
`MatchMaker::scrub_list` are the same text on members of the same names.

`receive_new` has two halves. Its loop takes a datagram into local buffers that
start out as whatever was on the stack, and makes two strings of it
(`Locals.receive`); then it records them with the clock's reading (`record`).
`receiveNew` is both, over the datagrams one call gets before `recvfrom` fails.

## What is proved

* `receiveNew_recorded_iff` — `recvfrom` is given `strlen(buffer)` as the length of
  a buffer that has just been cleared, so it never takes a byte: a call records its
  datagrams as sent only if it gets none.

## Scope

A write past the end of a buffer is not modelled; a NUL in each buffer, which the
first `memset`s look for, rules it out (`Locals`). Times are unbounded integers: a
`long` holds 292 thousand years of microseconds.
-/

namespace Inferno.Tokens

open CStr Inferno.Login

/-! ### Recording -/

/-- What one iteration of `receive_new`'s loop records: the two strings it read, and the
clock's reading. -/
structure Record where
  username : Bytes
  token : Bytes
  tv : Timeval
  deriving DecidableEq

/-- The members `current_users` and `expiry`. -/
structure Store where
  currentUsers : Bytes → Option Bytes
  expiry : List (Bytes × ℤ)

/-- What the constructor `ChatServer()` makes. -/
def Store.empty : Store := ⟨fun _ => none, []⟩

/-- How long a token lasts, in microseconds: `300 * 1000000`. -/
def lifetime : ℤ := 300 * 1000000

/-- The time a record expires. -/
def Record.expiryTime (r : Record) : ℤ := lifetime + r.tv.micros

/-- `current_users->insert`: a key that is already there keeps its value. -/
def insertUser (users : Bytes → Option Bytes) (username token : Bytes) : Bytes → Option Bytes :=
  if (users username).isSome then users else Function.update users username (some token)

/-- The second half of `receive_new`'s loop body. -/
def record (st : Store) (r : Record) : Store where
  currentUsers := insertUser st.currentUsers r.username r.token
  expiry := st.expiry ++ [(r.username, r.expiryTime)]

/-- The loop of `scrub_list` at clock reading `now`, or `none` if it evaluates
`front()` of an empty deque. -/
def scrub (now : ℤ) : (Bytes → Option Bytes) → List (Bytes × ℤ) → Option Store
  | _, [] => none
  | users, (username, time) :: expiry =>
    if time < now then scrub now (Function.update users username none) expiry
    else some ⟨users, (username, time) :: expiry⟩

/-- `scrub_list`. -/
def scrubList (st : Store) (tv : Timeval) : Option Store := scrub tv.micros st.currentUsers st.expiry

/-! ### Receiving -/

/-- The local buffers of `receive_new` as the call finds them, each with a NUL in it, and
the memory after the two that are read as strings. -/
structure Locals where
  buffer : Bytes
  tokenBuffer : Bytes
  unameBuffer : Bytes
  afterToken : Bytes
  afterUname : Bytes
  length_buffer : buffer.length = 85 := by decide
  length_tokenBuffer : tokenBuffer.length = 64 := by decide
  length_unameBuffer : unameBuffer.length = 21 := by decide
  nul_buffer : 0 ∈ buffer := by decide
  nul_tokenBuffer : 0 ∈ tokenBuffer := by decide
  nul_unameBuffer : 0 ∈ unameBuffer := by decide

/-- `recvfrom(sock, buffer, len, …)` of a datagram: at most `len` bytes of it, and the rest
is lost. -/
def recvfrom (buffer : Bytes) (len : ℕ) (datagram : Bytes) : Bytes := copyAt buffer 0 (datagram.take len)

/-- The first half of `receive_new`'s loop, over the datagrams it gets: what each iteration
makes of `buffer`. `token_buffer` and `uname_buffer` are written whole each time. -/
def receiveLoop (afterToken afterUname : Bytes) : Bytes → List (Bytes × Timeval) → List Record
  | _, [] => []
  | buffer, (datagram, tv) :: ds =>
    let buffer := recvfrom buffer (strlen buffer) datagram
    let tokenBuffer := buffer.take 64
    let unameBuffer := (buffer.drop 64).take 21
    ⟨cstrOver unameBuffer afterUname, cstrOver tokenBuffer afterToken, tv⟩ ::
      receiveLoop afterToken afterUname buffer ds

/-- The records one call of `receive_new` makes of its datagrams. -/
def Locals.receive (l : Locals) (ds : List (Bytes × Timeval)) : List Record :=
  receiveLoop l.afterToken l.afterUname (clear l.buffer) ds

/-- `receive_new`. -/
def receiveNew (l : Locals) (st : Store) (ds : List (Bytes × Timeval)) : Store :=
  (l.receive ds).foldl record st

theorem recvfrom_zero (buffer datagram : Bytes) : recvfrom buffer 0 datagram = buffer := by
  simp [recvfrom, copyAt]

/-- **No datagram is read**: the loop passes `strlen` of a cleared buffer, zero, to
`recvfrom`, and records the same two strings for every datagram, the token empty. -/
theorem receive_eq (l : Locals) (ds : List (Bytes × Timeval)) :
    l.receive ds = ds.map fun d =>
      ⟨cstrOver (((clear l.buffer).drop 64).take 21) l.afterUname,
        cstrOver ((clear l.buffer).take 64) l.afterToken, d.2⟩ := by
  have key : ∀ ds : List (Bytes × Timeval),
      receiveLoop l.afterToken l.afterUname (clear l.buffer) ds = ds.map fun d =>
        ⟨cstrOver (((clear l.buffer).drop 64).take 21) l.afterUname,
          cstrOver ((clear l.buffer).take 64) l.afterToken, d.2⟩ := by
    intro ds
    induction ds with
    | nil => rfl
    | cons d ds ih =>
      obtain ⟨datagram, tv⟩ := d
      simp only [receiveLoop, strlen_clear, recvfrom_zero, List.map_cons, ih]
  exact key ds

/-- The token recorded is empty: a cleared buffer begins with a NUL. -/
theorem receive_token (l : Locals) (ds : List (Bytes × Timeval)) : ∀ r ∈ l.receive ds, r.token = [] := by
  intro r hr
  rw [receive_eq] at hr
  obtain ⟨d, -, rfl⟩ := List.mem_map.mp hr
  cases hb : l.buffer with
  | nil =>
    have := l.length_buffer
    simp [hb] at this
  | cons b buffer =>
    obtain ⟨rest, hrest⟩ := clear_cons b buffer
    simp [hrest, cstrOver, cstr]

/-- A call that is sent `as` records them as sent: the `k`-th iteration inserts the `k`-th
username with the `k`-th token. -/
def Recorded (l : Locals) (contents : Contents) (as : List (Auth × Timeval)) : Prop :=
  l.receive (as.map fun a => (a.1.datagram contents, a.2)) =
    as.map fun a => ⟨a.1.username, a.1.token, a.2⟩

/-- **When the datagrams of a call are recorded as sent**: when there are none. -/
theorem receiveNew_recorded_iff (l : Locals) (contents : Contents) (as : List (Auth × Timeval)) :
    Recorded l contents as ↔ as = [] := by
  constructor
  · intro h
    cases as with
    | nil => rfl
    | cons a as =>
      have hmem : (⟨a.1.username, a.1.token, a.2⟩ : Record) ∈
          l.receive ((a :: as).map fun a => (a.1.datagram contents, a.2)) := by
        rw [show l.receive _ = _ from h]
        exact List.mem_cons_self
      have htok : a.1.token = [] := receive_token l _ _ hmem
      have := a.1.length_token
      simp [htok] at this
  · rintro rfl
    rfl

/-- The token `a…a` for `bob`. -/
def bob : Auth where
  token := List.replicate 64 97
  username := [98, 111, 98]

/-- Buffers that the call finds zeroed. -/
def Locals.zeroed : Locals where
  buffer := List.replicate 85 0
  tokenBuffer := List.replicate 64 0
  unameBuffer := List.replicate 21 0
  afterToken := []
  afterUname := []

/-- Neither his name nor his token is recorded. -/
theorem bob_not_recorded : ¬ Recorded .zeroed .zeroed [(bob, ⟨0, 0⟩)] := by
  intro h
  exact absurd (congrArg (List.map Record.username) h) (by decide)

end Inferno.Tokens
