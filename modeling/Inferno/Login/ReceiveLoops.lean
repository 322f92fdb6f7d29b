import Inferno.Lib.Conversions
import Inferno.Lib.Counting
import Inferno.Login.SignupUser

/-!
# The loops that receive

`login_user`, `signup_user` and `recv_password` receive usernames and passwords in loops, which go
on until as many bytes have arrived as the client has announced. What a read returns is added to
the count as it is, so `0` and `-1` count as well. A read of a password goes behind what has been
counted, and asks for as many bytes as the whole buffer has.

## What is proved

* `staysInside_iff` — the reads of a password stay inside the buffer, and leave a NUL in it, exactly
  if the first one that does not return `0` brings all of it.
* `endsWhenGone_iff` — if nothing more comes from some read on, a loop ends exactly if what the reads
  before have returned adds up to the announced length.
-/

namespace Inferno.Login

open CStr Counting Conversions

/-! ### Where a password goes -/

/-- Where in the buffer the ranges begin that `SSL_read` is given, the one it has not answered yet
among them. Each has 64 bytes. -/
def passwordOffsets (passLen : ℤ) : ℤ → List Read → List ℤ
  | total, [] => if total < passLen then [total] else []
  | total, r :: reads =>
    if total < passLen then total :: passwordOffsets passLen (total + r.returned) reads else []

/-- All ranges are in the buffer's 64 bytes, and when the loop ends the buffer is a string. -/
def StaysInside (passLen : ℤ) (reads : List Read) : Prop :=
  (∀ offset ∈ passwordOffsets passLen 0 reads, 0 ≤ offset ∧ offset + 64 ≤ 64) ∧
    ∀ buffer rest, readPassword passLen 0 (List.replicate 64 0) reads = .ok (buffer, rest) → 0 ∈ buffer

/-- Nothing is announced, or the first read that does not return `0` brings what is, and leaves room
for a NUL if it brings none. -/
def FirstSuffices (passLen : ℤ) (reads : List Read) : Prop :=
  passLen ≤ 0 ∨ ∀ r ∈ reads.find? (·.returned ≠ 0), passLen ≤ r.returned ∧ (r.bytes.length < 64 ∨ 0 ∈ r.bytes)

theorem passwordOffsets_of_le {passLen total : ℤ} (h : passLen ≤ total) (reads : List Read) :
    passwordOffsets passLen total reads = [] := by
  cases reads <;> simp [passwordOffsets, not_lt.mpr h]

theorem passwordOffsets_of_lt {passLen total : ℤ} (h : total < passLen) (reads : List Read) :
    total ∈ passwordOffsets passLen total reads := by
  cases reads <;> simp [passwordOffsets, h]

/-- What a read that does not return `0` leaves in an empty buffer. -/
theorem zero_mem_copyAt_iff {bytes : Bytes} (h : bytes.length ≤ 64) :
    0 ∈ copyAt (List.replicate 64 0) 0 bytes ↔ bytes.length < 64 ∨ 0 ∈ bytes := by
  rw [copyAt, List.take_zero, List.nil_append, List.drop_replicate, List.mem_append, List.mem_replicate]
  constructor
  · rintro (hmem | ⟨hne, -⟩)
    · exact Or.inr hmem
    · exact Or.inl (by omega)
  · rintro (hlt | hmem)
    · exact Or.inr ⟨by omega, rfl⟩
    · exact Or.inl hmem

/-- A read that returns `0` leaves the loop where it is. -/
theorem staysInside_skip {passLen : ℤ} (hpos : 0 < passLen) {r : Read} (hzero : r.returned = 0) (reads : List Read) :
    StaysInside passLen (r :: reads) ↔ StaysInside passLen reads := by
  have hempty : r.bytes = [] := by
    cases r with
    | data bytes => simpa [Read.returned, Read.bytes] using hzero
    | closed | failed => rfl
  simp [StaysInside, passwordOffsets, readPassword, hpos, hempty, hzero, copyAt]

/-- One that brings all of the password is the last one. -/
theorem staysInside_last {passLen : ℤ} (hpos : 0 < passLen) {r : Read} (hr : r.bytes.length ≤ 64)
    (hlast : passLen ≤ r.returned) (reads : List Read) :
    StaysInside passLen (r :: reads) ↔ r.bytes.length < 64 ∨ 0 ∈ r.bytes := by
  have hloop : readPassword passLen 0 (List.replicate 64 0) (r :: reads) =
      .ok (copyAt (List.replicate 64 0) 0 r.bytes, reads) := by
    rw [readPassword, if_pos hpos, if_neg (by omega), if_pos (Or.inr ⟨le_rfl, by omega⟩), zero_add,
      readPassword_of_le hlast]
    rfl
  rw [StaysInside, hloop, passwordOffsets, if_pos hpos, zero_add, passwordOffsets_of_le hlast,
    ← zero_mem_copyAt_iff hr]
  simp

/-- After any other the next range begins behind, or in front of, the buffer's first byte. -/
theorem not_staysInside_more {passLen : ℤ} (hpos : 0 < passLen) {r : Read} (hne : r.returned ≠ 0)
    (hmore : r.returned < passLen) (reads : List Read) : ¬ StaysInside passLen (r :: reads) := by
  rintro ⟨hinside, -⟩
  have hmem : r.returned ∈ passwordOffsets passLen 0 (r :: reads) := by
    rw [passwordOffsets, if_pos hpos, zero_add]
    exact List.mem_cons_of_mem _ (passwordOffsets_of_lt hmore reads)
  have hnext := hinside r.returned hmem
  omega

/-- **When the reads of a password stay inside its buffer.** -/
theorem staysInside_iff (passLen : ℤ) {reads : List Read} (hfit : ∀ r ∈ reads, r.bytes.length ≤ 64) :
    StaysInside passLen reads ↔ FirstSuffices passLen reads := by
  rcases le_or_gt passLen 0 with hnone | hsome
  · refine iff_of_true ⟨?_, fun buffer rest h => ?_⟩ (Or.inl hnone)
    · rw [passwordOffsets_of_le hnone]
      simp
    · rw [readPassword_of_le hnone] at h
      obtain ⟨rfl, -⟩ := Prod.mk.inj (Except.ok.inj h)
      simp
  rw [FirstSuffices, or_iff_right (not_le.mpr hsome)]
  induction reads with
  | nil => simp [StaysInside, passwordOffsets, readPassword, hsome]
  | cons r reads ih =>
    have hrest : ∀ r ∈ reads, r.bytes.length ≤ 64 := fun r hr => hfit r (List.mem_cons_of_mem _ hr)
    by_cases hzero : r.returned = 0
    · rw [staysInside_skip hsome hzero, ih hrest, List.find?_cons_of_neg (by simpa using hzero)]
    · rw [List.find?_cons_of_pos (by simpa using hzero)]
      simp only [Option.mem_some_iff, forall_eq']
      rcases le_or_gt passLen r.returned with hlast | hmore
      · rw [staysInside_last hsome (hfit r List.mem_cons_self) hlast, and_iff_right hlast]
      · exact iff_of_false (not_staysInside_more hsome hzero hmore reads) fun h => absurd h.1 (not_le.mpr hmore)

/-- A password of two bytes, after a read that finds nothing. -/
theorem staysInside_short :
    StaysInside 2 [.closed, .data [112, 119]] ↔ FirstSuffices 2 [.closed, .data [112, 119]] :=
  staysInside_iff 2 (by decide)

/-- A password of two bytes that come one by one: the second range is one byte too far. -/
theorem split_password_outside : ¬ StaysInside 2 [.data [112], .data [119]] := by
  rintro ⟨hinside, -⟩
  exact absurd (hinside 1 (by decide)).2 (by decide)

/-! ### When a loop ends -/

/-- The loops. -/
inductive ReceiveLoop where
  /-- The username in `login_user`. -/
  | loginName
  /-- The password in `login_user`. -/
  | loginPassword
  /-- The username in `signup_user`. -/
  | signupName
  /-- The password in `recv_password`. -/
  | signupPassword

/-- How many bytes a read asks for. -/
def ReceiveLoop.size : ReceiveLoop → ℕ
  | .loginName | .signupName => 16
  | .loginPassword | .signupPassword => 64

/-- A loop, on the results of some reads: what is in its buffer when it ends. `clock` is what
`signup_user` sees on the clock. -/
def ReceiveLoop.receive (len : ℤ) (t0 : Timeval) (clock : ℕ → Timeval) : ReceiveLoop → List Read → Except Stuck Bytes
  | .loginName, reads => (readName len 0 (List.replicate 16 0) reads).map Prod.fst
  | .signupName, reads => (recvName len t0 0 (List.replicate 16 0) (reads.zipIdx.map fun r => (r.1, clock r.2))).2
  | .loginPassword, reads | .signupPassword, reads => (readPassword len 0 (List.replicate 64 0) reads).map Prod.fst

/-- The count after `n` reads. -/
abbrev counted (reads : ℕ → Read) (n : ℕ) : ℤ := total Read.returned reads n

/-- The loop ends after some reads, and up to there its count is one that an `int` holds. -/
def ReceiveLoop.Ends (len : ℤ) (t0 : Timeval) (clock : ℕ → Timeval) (loop : ReceiveLoop) (reads : ℕ → Read) : Prop :=
  ∃ n, (∃ buffer, loop.receive len t0 clock (firstItems reads n) = .ok buffer) ∧
    ∀ k ≤ n, (toInt (counted reads k)).isSome

/-- It does not end before as many bytes have been received as were announced. -/
def ReceiveLoop.Waits (len : ℤ) (t0 : Timeval) (clock : ℕ → Timeval) (loop : ReceiveLoop) (reads : ℕ → Read) : Prop :=
  ∀ n buffer, loop.receive len t0 clock (firstItems reads n) = .ok buffer →
    len ≤ (taken len 0 (firstItems reads n)).length

/-- From the `N`-th read on the connection is closed, or reading from it fails. -/
def GoneFrom (reads : ℕ → Read) (N : ℕ) : Prop := ∀ n ≥ N, reads n = .closed ∨ reads n = .failed

/-- What is read of a password fits its buffer. -/
def ReceiveLoop.Fits : ReceiveLoop → ℤ → Read → Prop
  | .loginName, _, _ | .signupName, _, _ => True
  | .loginPassword, total, r | .signupPassword, total, r => r.bytes = [] ∨ 0 ≤ total ∧ total + r.bytes.length ≤ 64

/-- What the first reads return adds up to the announced length before the connection is gone. Up to
there every sum is an `int`, and if it is a password the bytes fit the buffer where the sums put
them. -/
def ReceiveLoop.Arrives (len : ℤ) (loop : ReceiveLoop) (reads : ℕ → Read) (N : ℕ) : Prop :=
  ∃ k ≤ N, len ≤ counted reads k ∧
    ∀ j ≤ k, (toInt (counted reads j)).isSome ∧ (j < k → loop.Fits (counted reads j) (reads j))

/-- The username loops end as they count. -/
theorem readName_ok_iff {len received : ℤ} {unameBuffer : Bytes} {reads : List Read}
    (hfit : ∀ r ∈ reads, r.bytes.length ≤ 16) :
    (∃ buffer, (readName len received unameBuffer reads).map Prod.fst = .ok buffer) ↔
      Reaches Read.returned (fun _ _ => True) len received reads := by
  induction reads generalizing received unameBuffer with
  | nil =>
    rw [readName, Reaches]
    split_ifs with hlt
    · exact iff_of_false (by simp [Except.map]) (not_le.mpr hlt)
    · exact iff_of_true ⟨unameBuffer, rfl⟩ (not_lt.mp hlt)
  | cons r reads ih =>
    rw [readName, Reaches, if_pos (hfit r List.mem_cons_self)]
    split_ifs with hlt
    · rw [ih fun r hr => hfit r (List.mem_cons_of_mem _ hr), or_iff_right (not_le.mpr hlt), true_and]
    · exact iff_of_true ⟨unameBuffer, rfl⟩ (Or.inl (not_lt.mp hlt))

/-- So do the password loops, unless they write outside the buffer. -/
theorem readPassword_ok_iff {len total : ℤ} {buffer : Bytes} {reads : List Read}
    (hfit : ∀ r ∈ reads, r.bytes.length ≤ 64) :
    (∃ buffer', (readPassword len total buffer reads).map Prod.fst = .ok buffer') ↔
      Reaches Read.returned (ReceiveLoop.Fits .loginPassword) len total reads := by
  induction reads generalizing total buffer with
  | nil =>
    rw [readPassword, Reaches]
    split_ifs with hlt
    · exact iff_of_false (by simp [Except.map]) (not_le.mpr hlt)
    · exact iff_of_true ⟨buffer, rfl⟩ (not_lt.mp hlt)
  | cons r reads ih =>
    have hr := hfit r List.mem_cons_self
    rw [readPassword, Reaches, if_neg (show ¬ 64 < r.bytes.length by omega)]
    split_ifs with hlt hinside
    · rw [ih fun r hr => hfit r (List.mem_cons_of_mem _ hr), or_iff_right (not_le.mpr hlt), ReceiveLoop.Fits,
        and_iff_right hinside]
    · refine iff_of_false (by simp [Except.map]) ?_
      rintro (hle | ⟨hfits, -⟩)
      · exact absurd hlt (not_lt.mpr hle)
      · exact hinside hfits
    · exact iff_of_true ⟨buffer, rfl⟩ (Or.inl (not_lt.mp hlt))

/-- **Every loop ends as it counts.** -/
theorem receive_ok_iff {len : ℤ} {t0 : Timeval} {clock : ℕ → Timeval} {loop : ReceiveLoop} {reads : List Read}
    (hfit : ∀ r ∈ reads, r.bytes.length ≤ loop.size) :
    (∃ buffer, loop.receive len t0 clock reads = .ok buffer) ↔ Reaches Read.returned loop.Fits len 0 reads := by
  cases loop with
  | loginName => exact readName_ok_iff hfit
  | loginPassword | signupPassword => exact readPassword_ok_iff hfit
  | signupName =>
    have hreads : (reads.zipIdx.map fun r => (r.1, clock r.2)).map Prod.fst = reads := by
      simp [List.map_map, Function.comp_def]
    rw [ReceiveLoop.receive, recvName_snd, hreads]
    exact readName_ok_iff hfit

/-- What is counted has been received. -/
theorem le_length_taken {len total : ℤ} {fits : ℤ → Read → Prop} {reads : List Read}
    (h : Reaches Read.returned fits len total reads) : len ≤ total + (taken len total reads).length := by
  induction reads generalizing total with
  | nil => simpa [Reaches, taken] using h
  | cons r reads ih =>
    rw [taken]
    split_ifs with hlt
    · rcases h with hle | ⟨-, hrest⟩
      · exact absurd hlt (not_lt.mpr hle)
      · have hreturned : r.returned ≤ r.bytes.length := by
          cases r <;> simp [Read.returned, Read.bytes]
        have hrec := ih hrest
        rw [List.length_append, Nat.cast_add]
        omega
    · simpa using not_lt.mp hlt

/-- **When a loop ends that nothing more comes for**: when it would have ended before. -/
theorem endsWhenGone_iff (len : ℤ) (t0 : Timeval) (clock : ℕ → Timeval) (loop : ReceiveLoop) {reads : ℕ → Read} {N : ℕ}
    (hfit : ∀ n, (reads n).bytes.length ≤ loop.size) (hgone : GoneFrom reads N) :
    loop.Ends len t0 clock reads ∧ loop.Waits len t0 clock reads ↔ loop.Arrives len reads N := by
  have hfirst : ∀ n, ∀ r ∈ firstItems reads n, r.bytes.length ≤ loop.size := by
    intro n r hr
    obtain ⟨i, -, rfl⟩ := List.mem_map.mp hr
    exact hfit i
  have hdry : ∀ n ≥ N, (reads n).returned ≤ 0 := by
    intro n hn
    rcases hgone n hn with h | h <;> rw [h] <;> simp [Read.returned]
  have hwaits : loop.Waits len t0 clock reads := by
    intro n buffer hok
    simpa using le_length_taken ((receive_ok_iff (hfirst n)).mp ⟨buffer, hok⟩)
  rw [and_iff_left hwaits, ReceiveLoop.Ends]
  simp only [receive_ok_iff (hfirst _)]
  exact exists_reaches_iff (I := fun count => (toInt count).isSome) hdry

/-- A peer that is gone after `bob`. -/
def bobThenClosed : ℕ → Read
  | 0 => .data [98, 111, 98]
  | _ => .closed

theorem length_bobThenClosed (n : ℕ) : (bobThenClosed n).bytes.length ≤ ReceiveLoop.loginName.size := by
  cases n with
  | zero => decide
  | succ n => exact Nat.zero_le _

/-- A username of three bytes. -/
theorem endsWhenGone_bob :
    ReceiveLoop.loginName.Ends 3 ⟨0, 0⟩ (fun _ => ⟨0, 0⟩) bobThenClosed ∧
        ReceiveLoop.loginName.Waits 3 ⟨0, 0⟩ (fun _ => ⟨0, 0⟩) bobThenClosed ↔
      ReceiveLoop.loginName.Arrives 3 bobThenClosed 1 := by
  refine endsWhenGone_iff 3 ⟨0, 0⟩ _ .loginName length_bobThenClosed fun n hn => ?_
  cases n with
  | zero => omega
  | succ n => exact Or.inl rfl

/-- A username of four: the loop goes on for ever. -/
theorem closed_username_goes_on :
    ¬ (ReceiveLoop.loginName.Ends 4 ⟨0, 0⟩ (fun _ => ⟨0, 0⟩) bobThenClosed ∧
      ReceiveLoop.loginName.Waits 4 ⟨0, 0⟩ (fun _ => ⟨0, 0⟩) bobThenClosed) := by
  rintro ⟨⟨n, hok, -⟩, -⟩
  have hcount : ∀ k, total Read.returned bobThenClosed k ≤ 3 := by
    intro k
    cases k with
    | zero => simp [total]
    | succ k =>
      have hrest : total Read.returned (fun i => bobThenClosed (i + 1)) k = 0 := by
        simp [total, bobThenClosed, Read.returned]
      rw [total_succ, hrest]
      decide
  rw [receive_ok_iff, reaches_firstItems_iff] at hok
  · obtain ⟨k, -, hlen, -⟩ := hok
    have hk := hcount k
    omega
  · intro r hr
    obtain ⟨i, -, rfl⟩ := List.mem_map.mp hr
    exact length_bobThenClosed i

end Inferno.Login
