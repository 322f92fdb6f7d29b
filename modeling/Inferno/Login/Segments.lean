import Inferno.Login.SignupUser

/-!
# Credentials in pieces

What a client writes reaches the server as a stream of bytes, and a read gives as many of
the next ones as there happen to be, up to what it asks for. `Cut` is one way in which a
stream may come apart.

The test client writes the length of a username, the username padded with NULs to sixteen
bytes, the length of a password and the password. The loops that read the username put
every piece at the start of `uname_buffer`, and leave off once they have as many bytes as
the length says, which is before the padding ends. The loop for the password puts each piece
where it belongs.

## What is proved

* `reassembled_iff` — `signup_user` gets the username exactly if the first piece of it has all of
  its bytes. `login_user` gets the username and the password, and is through with what was written,
  exactly if the first piece of the username has the padding as well.

## Scope

A length is taken to arrive whole if a read begins where it does. A `Cut` in which a read has
more bytes than the server asks for at that point is none that can happen; what is proved holds
of those too, as the server's model goes no further there.
-/

namespace Inferno.Login

open CStr

/-- A way in which a stream is cut into reads: each gives something, and one that begins at a
field of two bytes gives just that. -/
structure Cut (stream : Bytes) (fields : List ℕ) where
  reads : List Bytes
  ne_nil : ∀ b ∈ reads, b ≠ [] := by decide
  flatten_eq : reads.flatten = stream := by decide
  whole : ∀ i < reads.length, (reads.take i).flatten.length ∈ fields → (reads.getD i []).length = 2 := by decide

/-- The second read, or nothing. -/
def Cut.second {stream : Bytes} {fields : List ℕ} (s : Cut stream fields) : Bytes := s.reads.getD 1 []

/-- The client's `uname`, all of which it writes. -/
def Credentials.uname (c : Credentials) : Bytes := c.username ++ List.replicate (16 - c.username.length) 0

/-- What the client writes of the username. -/
def Credentials.nameWritten (c : Credentials) : Bytes := [0, UInt8.ofNat c.username.length] ++ c.uname

/-- What the client writes of the password. -/
def Credentials.passwordWritten (c : Credentials) : Bytes := [0, UInt8.ofNat c.password.length] ++ c.password

/-- `signup_user`'s loop leaves `name` in `uname_buffer`. -/
def SignupEnv.LeavesName (e : SignupEnv) (name : Bytes) : Prop :=
  ∃ namelen unameBuffer, readShort e.namelen [e.lengthRead] = .ok (namelen, []) ∧
    (recvName namelen e.t0 0 (List.replicate 16 0) e.reads).2 = .ok unameBuffer ∧
    cstrOver unameBuffer e.afterUname = name

/-- `login_user` gets `name` and `password`, and nothing is left of what was written. -/
def LoginEnv.Recovers (e : LoginEnv) (name password : Bytes) : Prop :=
  ∃ unameBuffer reads buffer, receiveName e.namelen e.reads = .ok (unameBuffer, reads) ∧
    cstrOver unameBuffer e.afterUname = name ∧
    receivePassword e.passLen reads = .ok (buffer, []) ∧ cstrOver buffer e.afterBuffer = password

/-! ### Cuts -/

variable {stream : Bytes} {fields : List ℕ}

/-- The first read is the start of the stream, and the others are the rest of it. -/
theorem cons_flatten_eq {b : Bytes} {bs : List Bytes} (h : (b :: bs).flatten = stream) :
    b = stream.take b.length ∧ bs.flatten = stream.drop b.length := by
  subst h
  simp

/-- There is a first read if there is anything to read. -/
theorem exists_first {bs : List Bytes} (h : bs.flatten = stream) (hne : stream ≠ []) :
    ∃ b rest, bs = b :: rest ∧ b = stream.take b.length ∧ rest.flatten = stream.drop b.length := by
  cases bs with
  | nil => exact absurd h.symm hne
  | cons b rest => exact ⟨b, rest, rfl, cons_flatten_eq h⟩

/-- Of a stream that begins with a field, the first read is the field. -/
theorem Cut.field {a b : UInt8} {rest : Bytes} (s : Cut ([a, b] ++ rest) (0 :: fields)) :
    ∃ bs, s.reads = [a, b] :: bs ∧ bs.flatten = rest := by
  obtain ⟨r, bs, hreads, hr, hbs⟩ := exists_first s.flatten_eq (by simp)
  have hlen := s.whole 0 (by simp [hreads]) (by simp)
  rw [hreads, List.getD_cons_zero] at hlen
  rw [hlen] at hr hbs
  exact ⟨bs, by rw [hreads, hr]; rfl, hbs⟩

/-- If the second read is all that is between two fields, the third is the second field. -/
theorem Cut.field_second {a b a' b' : UInt8} {mid rest : Bytes} {k : ℕ} (hk : k = 2 + mid.length)
    (s : Cut ([a, b] ++ mid ++ ([a', b'] ++ rest)) [0, k]) (h : s.second.length = mid.length) :
    ∃ bs, s.reads = [a, b] :: mid :: [a', b'] :: bs ∧ bs.flatten = rest := by
  obtain ⟨bs, hreads, hbs⟩ := Cut.field ⟨s.reads, s.ne_nil, by rw [s.flatten_eq, List.append_assoc], s.whole⟩
  obtain ⟨r, bs', rfl, hr, hbs'⟩ := exists_first hbs (by simp)
  have hsecond : s.second = r := by
    rw [Cut.second, hreads]
    rfl
  rw [hsecond] at h
  rw [h, List.take_left] at hr
  rw [h, List.drop_left] at hbs'
  obtain ⟨r', bs, rfl, hr', hbs⟩ := exists_first hbs' (by simp)
  have hlen := s.whole 2 (by rw [hreads]; simp) (by rw [hreads]; simp [h, hk]; omega)
  rw [hreads, List.getD_cons_succ, List.getD_cons_succ, List.getD_cons_zero] at hlen
  rw [hlen] at hr' hbs
  exact ⟨bs, by rw [hreads, hr, hr']; rfl, hbs⟩

theorem Credentials.length_uname (c : Credentials) : c.uname.length = 16 := by
  have := c.username_le
  rw [Credentials.uname, List.length_append, List.length_replicate]
  omega

/-- The padding is NULs. -/
theorem Credentials.getElem?_uname (c : Credentials) {k : ℕ} (hle : c.username.length ≤ k) (hlt : k < 16) :
    c.uname[k]? = some 0 := by
  rw [Credentials.uname, List.getElem?_append_right hle, List.getElem?_replicate, if_pos (by omega)]

/-- And so is the first byte of what is written next. -/
theorem Credentials.getElem?_written (c : Credentials) {k : ℕ} (hle : c.username.length ≤ k) (hk : k ≤ 16) :
    (c.uname ++ c.passwordWritten)[k]? = some 0 := by
  by_cases hlt : k < 16
  · rw [List.getElem?_append_left (by rw [c.length_uname]; exact hlt), c.getElem?_uname hle hlt]
  · obtain rfl : k = 16 := by omega
    rw [List.getElem?_append_right (by rw [c.length_uname]), c.length_uname]
    rfl

/-! ### The loop for the username -/

/-- **Pieces that go to the wrong place**: once the name's first byte is behind it, the loop never
fills as much of the buffer as the name takes. -/
theorem readName_pieces {n : ℕ} (hpos : 1 ≤ n) (hn : n ≤ 15) (hnul : stream[n]? = some 0) {pieces : List Bytes}
    {received : ℕ} (hreceived : 1 ≤ received) (hpieces : pieces.flatten = stream.drop received) {buffer : Bytes}
    (hbuffer : buffer[n - 1]? = some 0) {unameBuffer : Bytes} {reads : List Read}
    (h : readName n received buffer (pieces.map .data) = .ok (unameBuffer, reads)) :
    ∃ i < n, unameBuffer[i]? = some 0 := by
  induction pieces generalizing received buffer with
  | nil =>
    simp only [List.map_nil, readName] at h
    split_ifs at h
    cases h
    exact ⟨n - 1, by omega, hbuffer⟩
  | cons b pieces ih =>
    by_cases hdone : n ≤ received
    · rw [readName_of_le (by omega)] at h
      cases h
      exact ⟨n - 1, by omega, hbuffer⟩
    · rw [List.map_cons, readName, if_pos (by omega)] at h
      split_ifs at h with hfit
      obtain ⟨hb, hrest⟩ := cons_flatten_eq hpieces
      simp only [Read.bytes, Read.returned] at h
      rw [← Nat.cast_add] at h
      by_cases hend : n < received + b.length
      · -- the piece goes past the end of the name, and so has the NUL behind it
        rw [readName_of_le (by omega)] at h
        cases h
        refine ⟨n - received, by omega, ?_⟩
        rw [getElem?_copyAt_zero, if_pos (by omega), hb, List.getElem?_take_of_lt (by omega), List.getElem?_drop,
          Nat.add_sub_cancel' (by omega), hnul]
      · -- the piece is too short to reach the last byte
        refine ih (by omega) (by rw [hrest, List.drop_drop]) ?_ h
        rw [getElem?_copyAt_zero, if_neg (by omega), hbuffer]

/-- **When the loop gets the name**: when the first piece has all of it. -/
theorem readName_iff (c : Credentials) {more : Bytes} {b : Bytes} {pieces : List Bytes} (hne : b ≠ [])
    (hpieces : (b :: pieces).flatten = c.uname ++ more) (hfit : b.length ≤ 16) (after : Bytes) :
    (∃ unameBuffer reads, readName c.username.length 0 (List.replicate 16 0) ((b :: pieces).map .data) =
        .ok (unameBuffer, reads) ∧ cstrOver unameBuffer after = c.username) ↔ c.username.length ≤ b.length := by
  have hpos := c.username_pos
  have hle := c.username_le
  obtain ⟨hb, hrest⟩ := cons_flatten_eq hpieces
  rw [List.take_append_of_le_length (by rw [c.length_uname]; exact hfit)] at hb
  constructor
  · rintro ⟨unameBuffer, reads, h, hname⟩
    by_contra hshort
    have hbpos := List.length_pos_iff.mpr hne
    rw [List.map_cons, readName, if_pos (by omega), if_pos (show (Read.data b).bytes.length ≤ 16 from hfit)] at h
    simp only [Read.bytes, Read.returned, zero_add] at h
    have hnul : (c.uname ++ more)[c.username.length]? = some 0 := by
      rw [List.getElem?_append_left (by rw [c.length_uname]; omega), c.getElem?_uname le_rfl (by omega)]
    obtain ⟨i, hi, hzero⟩ := readName_pieces hpos hle hnul (by omega) hrest
      (by rw [getElem?_copyAt_zero, if_neg (by omega), List.getElem?_replicate, if_pos (by omega)]) h
    have := length_cstrOver_le hzero after
    rw [hname] at this
    omega
  · intro hlen
    exact ⟨_, _, readName_first hpos hle hb hlen _, cstrOver_padded c.nul_username hle after⟩

/-! ### What is left for the password -/

/-- Only the first piece of a password is put at the start of the buffer. -/
theorem readPassword_keeps {passLen : ℤ} {total : ℕ} (htotal : 1 ≤ total) {buffer : Bytes} (h₀ : buffer[0]? = some 0)
    {pieces : List Bytes} {buffer' : Bytes} {reads : List Read}
    (h : readPassword passLen total buffer (pieces.map .data) = .ok (buffer', reads)) : buffer'[0]? = some 0 := by
  induction pieces generalizing total buffer with
  | nil =>
    simp only [List.map_nil, readPassword] at h
    split_ifs at h
    cases h
    exact h₀
  | cons b pieces ih =>
    rw [List.map_cons, readPassword] at h
    split_ifs at h
    · simp only [Read.bytes, Read.returned, Int.toNat_natCast] at h
      rw [← Nat.cast_add] at h
      refine ih (by omega) ?_ h
      rw [getElem?_copyAt_of_lt (by omega) (List.getElem?_eq_some_iff.mp h₀).1, h₀]
    · cases h
      exact h₀

/-- A password that begins with a NUL is empty. -/
theorem readPassword_nul {passLen : ℤ} {pieces : List Bytes} (hne : ∀ b ∈ pieces, b ≠ [])
    (hnul : pieces.flatten[0]? = some 0) {buffer : Bytes} {reads : List Read}
    (h : readPassword passLen 0 (List.replicate 64 0) (pieces.map .data) = .ok (buffer, reads)) :
    buffer[0]? = some 0 := by
  cases pieces with
  | nil => simp at hnul
  | cons b pieces =>
    have hpos := List.length_pos_iff.mpr (hne b List.mem_cons_self)
    rw [List.map_cons, readPassword] at h
    split_ifs at h
    · simp only [Read.bytes, Read.returned, Int.toNat_zero, zero_add] at h
      refine readPassword_keeps hpos ?_ h
      rw [List.flatten_cons, List.getElem?_append_left hpos] at hnul
      rw [getElem?_copyAt_zero, if_pos hpos, hnul]
    · cases h
      rfl

/-- **Two NULs where a length should be**: the password is empty, whatever pieces they arrive in
and whatever was in `pass_len`. -/
theorem receivePassword_nul {junk : Bytes} {pieces : List Bytes} (hne : ∀ b ∈ pieces, b ≠ [])
    (h₀ : pieces.flatten[0]? = some 0) (h₁ : pieces.flatten[1]? = some 0) {buffer : Bytes} {reads : List Read}
    (h : receivePassword junk (pieces.map .data) = .ok (buffer, reads)) : buffer[0]? = some 0 := by
  cases pieces with
  | nil => simp at h₀
  | cons b pieces =>
    have hpos := List.length_pos_iff.mpr (hne b List.mem_cons_self)
    rw [receivePassword, List.map_cons, readShort] at h
    split_ifs at h with hfit
    · replace h : readPassword (shortOf (copyAt junk 0 b)) 0 (List.replicate 64 0) (pieces.map .data) =
        .ok (buffer, reads) := h
      rw [List.flatten_cons] at h₀ h₁
      by_cases hone : b.length = 1
      · -- one of them is left, and is the first byte of the password
        rw [List.getElem?_append_right hone.le, hone] at h₁
        exact readPassword_nul (fun b' hb' => hne b' (List.mem_cons_of_mem _ hb')) h₁ h
      · -- they are the length
        have htwo : 2 ≤ b.length := by omega
        rw [List.getElem?_append_left (by omega)] at h₀ h₁
        have hzero : shortOf (copyAt junk 0 b) = 0 := by
          have e₀ : (copyAt junk 0 b).getD 0 0 = 0 := by
            rw [List.getD_eq_getElem?_getD, getElem?_copyAt_zero, if_pos (by omega), h₀, Option.getD_some]
          have e₁ : (copyAt junk 0 b).getD 1 0 = 0 := by
            rw [List.getD_eq_getElem?_getD, getElem?_copyAt_zero, if_pos (by omega), h₁, Option.getD_some]
          exact shortOf_eq_zero_iff.mpr ⟨e₀, e₁⟩
        rw [hzero, readPassword_of_le le_rfl] at h
        cases h
        rfl
    · cases h

/-! ### When what is written is what is read -/

/-- When `signup_user` gets the username. -/
theorem leavesName_iff (c : Credentials) (s : Cut c.nameWritten [0]) {e : SignupEnv}
    (hreads : e.lengthRead :: e.reads.map Prod.fst = s.reads.map .data) (hjunk : e.namelen.length = 2) :
    e.LeavesName c.username ↔ c.username.length ≤ s.second.length := by
  have hle := c.username_le
  obtain ⟨bs, hs, hbs⟩ := s.field
  obtain ⟨b, pieces, rfl, hb, -⟩ := exists_first hbs (List.ne_nil_of_length_pos (by rw [c.length_uname]; omega))
  have hsecond : s.second = b := by
    rw [Cut.second, hs]
    rfl
  rw [hs, List.map_cons] at hreads
  obtain ⟨hlength, hreads⟩ := List.cons.inj hreads
  have hfit : b.length ≤ 16 := by
    rw [hb, List.length_take, c.length_uname]
    omega
  rw [hsecond, ← readName_iff c (s.ne_nil b (by simp [hs])) (by rw [hbs, List.append_nil]) hfit e.afterUname,
    SignupEnv.LeavesName, hlength, readShort_length hjunk (by omega)]
  simp only [recvName_snd, hreads]
  constructor
  · rintro ⟨namelen, unameBuffer, hlen, hloop, hname⟩
    obtain ⟨rfl, -⟩ := Prod.mk.inj (Except.ok.inj hlen)
    cases hread : readName c.username.length 0 (List.replicate 16 0) ((b :: pieces).map .data) with
    | error why =>
      rw [hread] at hloop
      cases hloop
    | ok result =>
      rw [hread] at hloop
      cases hloop
      exact ⟨result.1, result.2, rfl, hname⟩
  · rintro ⟨unameBuffer, reads, hread, hname⟩
    exact ⟨_, unameBuffer, rfl, by rw [hread]; rfl, hname⟩

/-- If the second read is all of the padded username, the loop for it leaves what has been written of the password. -/
theorem receiveName_whole (c : Credentials) (s : Cut (c.nameWritten ++ c.passwordWritten) [0, 18]) {junk : Bytes}
    (hjunk : junk.length = 2) (hsecond : s.second.length = 16) :
    ∃ bs, s.reads = [0, UInt8.ofNat c.username.length] :: c.uname :: [0, UInt8.ofNat c.password.length] :: bs ∧
      bs.flatten = c.password ∧ receiveName junk (s.reads.map .data) =
        .ok (c.uname, .data [0, UInt8.ofNat c.password.length] :: bs.map .data) := by
  have hle := c.username_le
  have hlen := c.length_uname
  obtain ⟨bs, hs, hbs⟩ := Cut.field_second (by rw [hlen]) s (hsecond.trans hlen.symm)
  refine ⟨bs, hs, hbs, ?_⟩
  rw [hs, receiveName, List.map_cons, readShort_length hjunk (by omega)]
  exact readName_first c.username_pos hle List.take_length.symm (by rw [← Credentials.uname, hlen]; omega) _

/-- When `login_user` gets the username and the password. -/
theorem recovers_iff (c : Credentials) (s : Cut (c.nameWritten ++ c.passwordWritten) [0, 18]) {e : LoginEnv}
    (hreads : e.reads = s.reads.map .data) (hname : e.namelen.length = 2) (hpass : e.passLen.length = 2) :
    e.Recovers c.username c.password ↔ s.second.length = 16 := by
  have hle := c.username_le
  have hlen := c.length_uname
  constructor
  · rintro ⟨unameBuffer, reads, buffer, hreceive, huname, hpassword, hbuffer⟩
    have hstream : c.nameWritten ++ c.passwordWritten =
        [0, UInt8.ofNat c.username.length] ++ (c.uname ++ c.passwordWritten) := by
      rw [Credentials.nameWritten, List.append_assoc]
    obtain ⟨bs, hs, hbs⟩ := Cut.field ⟨s.reads, s.ne_nil, s.flatten_eq.trans hstream, s.whole⟩
    obtain ⟨b, pieces, rfl, hb, hpieces⟩ := exists_first hbs (by simp [Credentials.passwordWritten])
    have hsecond : s.second = b := by
      rw [Cut.second, hs]
      rfl
    have hne : ∀ r ∈ b :: pieces, r ≠ [] := fun r hr => s.ne_nil r (by rw [hs]; exact List.mem_cons_of_mem _ hr)
    rw [hreads, hs, receiveName, List.map_cons, readShort_length hname (by omega)] at hreceive
    replace hreceive : readName c.username.length 0 (List.replicate 16 0) ((b :: pieces).map .data) =
      .ok (unameBuffer, reads) := hreceive
    rw [hsecond]
    by_contra hshort
    by_cases hfit : b.length ≤ 16
    · -- the name is there, and some of its padding still to come
      have hall := (readName_iff c (hne b List.mem_cons_self) hbs hfit e.afterUname).mp ⟨_, _, hreceive, huname⟩
      rw [List.take_append_of_le_length (by omega)] at hb
      rw [List.map_cons, readName_first c.username_pos hle hb hall] at hreceive
      obtain ⟨-, rfl⟩ := Prod.mk.inj (Except.ok.inj hreceive)
      have hnul : ∀ i < 2, pieces.flatten[i]? = some 0 := by
        intro i hi
        rw [hpieces, List.getElem?_drop, c.getElem?_written (by omega) (by omega)]
      have hzero := receivePassword_nul (fun r hr => hne r (List.mem_cons_of_mem _ hr)) (hnul 0 (by omega))
        (hnul 1 (by omega)) hpassword
      have hempty := length_cstrOver_le hzero e.afterBuffer
      rw [hbuffer] at hempty
      have := c.password_pos
      omega
    · -- no read gives more than it is asked for
      have hpos := c.username_pos
      rw [List.map_cons, readName, if_pos (by omega),
        if_neg (show ¬ (Read.data b).bytes.length ≤ 16 from hfit)] at hreceive
      cases hreceive
  · intro hsecond
    obtain ⟨bs, hs, hbs, hreceive⟩ := receiveName_whole c s hname hsecond
    have hne : ∀ b ∈ bs, b ≠ [] := fun b hb => s.ne_nil b (by simp [hs, hb])
    rw [← hreads, ← List.append_nil (bs.map Read.data)] at hreceive
    exact ⟨_, _, _, hreceive, cstrOver_padded c.nul_username hle _,
      receivePassword_pieces hpass c.password_le hne hbs [], cstrOver_password c.nul_password c.password_le _⟩

/-- **When credentials are reassembled**: the username by `signup_user`, and both by `login_user`. -/
theorem reassembled_iff (c : Credentials) (s : Cut c.nameWritten [0])
    (l : Cut (c.nameWritten ++ c.passwordWritten) [0, 18]) {e : SignupEnv} {e' : LoginEnv}
    (hs : e.lengthRead :: e.reads.map Prod.fst = s.reads.map .data) (hl : e'.reads = l.reads.map .data)
    (hsname : e.namelen.length = 2) (hlname : e'.namelen.length = 2) (hlpass : e'.passLen.length = 2) :
    (e.LeavesName c.username ↔ c.username.length ≤ s.second.length) ∧
      (e'.Recovers c.username c.password ↔ l.second.length = 16) :=
  ⟨leavesName_iff c s hs hsname, recovers_iff c l hl hlname hlpass⟩

/-- What `bob` writes arrives as he writes it. -/
theorem reassembled_bob :
    ((SignupEnv.plain bobCredentials).LeavesName bobCredentials.username ↔
        bobCredentials.username.length ≤ bobCredentials.uname.length) ∧
      ((LoginEnv.plain bobCredentials).Recovers bobCredentials.username bobCredentials.password ↔
        bobCredentials.uname.length = 16) :=
  reassembled_iff bobCredentials { reads := [[0, 3], bobCredentials.uname] }
    { reads := [[0, 3], bobCredentials.uname, [0, 2], bobCredentials.password] } rfl rfl rfl rfl rfl

/-- The last two bytes of `bob`'s padding come by themselves. -/
def bobCut : Cut (bobCredentials.nameWritten ++ bobCredentials.passwordWritten) [0, 18] where
  reads := [[0, 3], bobCredentials.username ++ List.replicate 11 0, [0, 0], [0, 2], bobCredentials.password]

/-- `login_user` then takes them for the length of his password. -/
theorem bob_password_lost :
    ¬ { LoginEnv.plain bobCredentials with reads := bobCut.reads.map .data }.Recovers bobCredentials.username
      bobCredentials.password := by
  intro h
  have hsecond := (recovers_iff bobCredentials bobCut rfl rfl rfl).mp h
  exact absurd hsecond (by decide)

end Inferno.Login
