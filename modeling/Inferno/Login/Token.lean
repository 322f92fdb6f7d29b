import Inferno.Login.LoginUser

/-!
# What the token is made of

`login_user` fills `randstr` with 256 random bytes and hashes what `boost::lexical_cast` makes of
that array: the C string at its start. The bytes behind the first zero do not count, and if there is
no zero the string goes on into the memory behind the array.

## What is proved

* `token_eq_hash` — the token is the hash of that string.
* `usesAll_iff` — two arrays always give different strings, which end inside the arrays, exactly if
  each has a zero byte and what comes before the first one differs.
-/

namespace Inferno.Login

open CStr

/-- What a login passes to `hash_SHA_256` for its token, if it gets that far. -/
def LoginEnv.hashedForToken (e : LoginEnv) (db : MySQL) (sha : Bytes → Fin 32 → UInt8) (table : List Row) :
    Option Bytes :=
  if (e.login db sha table).2 = .returned true then e.randBytes.map (cstrOver · e.afterRandstr) else none

/-- Some login whose random bytes are `randstr` passes `input` to `hash_SHA_256` for its token. -/
def HashedFrom (randstr input : Bytes) : Prop :=
  ∃ (e : LoginEnv) (db : MySQL) (sha : Bytes → Fin 32 → UInt8) (table : List Row),
    e.randBytes = some randstr ∧ e.hashedForToken db sha table = some input

/-- Logins with these random bytes pass different strings to `hash_SHA_256`, each of which ends with its
NUL inside the array. -/
def UsesAll (randstr randstr' : Bytes) : Prop :=
  ∀ input input', HashedFrom randstr input → HashedFrom randstr' input' →
    input ≠ input' ∧ input.length + 1 ≤ randstr.length ∧ input'.length + 1 ≤ randstr'.length

variable {e : LoginEnv} {db : MySQL} {sha : Bytes → Fin 32 → UInt8} {server : Counters} {table : List Row}

/-- **A login writes one token**: the hash of what it passes to `hash_SHA_256`. -/
theorem token_eq_hash {t : Bytes} :
    .token t ∈ (loginUser db sha server e table).events ↔
      ∃ input, e.hashedForToken db sha table = some input ∧ t = hashSHA256 sha input := by
  rw [token_mem_loginUser, LoginEnv.hashedForToken]
  rcases login_cases e db sha table with ⟨-, -, randstr, row, -, hrand, hlogin⟩ | ⟨hnone, hreturned⟩
  · simp [hlogin, hrand]
  · simp [hnone, hreturned]

/-- Which strings come from an array: the one at its start, whatever is behind it. -/
theorem hashedFrom_iff {randstr input : Bytes} :
    HashedFrom randstr input ↔ ∃ after, input = cstrOver randstr after := by
  constructor
  · rintro ⟨e, db, sha, table, hrand, hhashed⟩
    rw [LoginEnv.hashedForToken, hrand] at hhashed
    split_ifs at hhashed
    exact ⟨e.afterRandstr, (Option.some.inj hhashed).symm⟩
  · rintro ⟨after, rfl⟩
    -- `bob` logs in
    let e : LoginEnv := { LoginEnv.plain bobCredentials with randBytes := some randstr, afterRandstr := after }
    have hreceives : e.Receives bobCredentials.username bobCredentials.password :=
      LoginEnv.plain_receives bobCredentials
    have hquery : mysqlOr.executeQuery (query bobCredentials.username) [bobCredentials.row firstBytes] =
        some [bobCredentials.row firstBytes] := rfl
    have hreturned : (e.login mysqlOr firstBytes [bobCredentials.row firstBytes]).2 = .returned true := by
      rw [login_of_receives hreceives, hquery]
      simp [Credentials.row, e]
    exact ⟨e, mysqlOr, firstBytes, _, rfl, if_pos hreturned⟩

/-- **When two arrays are used up to their ends.** -/
theorem usesAll_iff (randstr randstr' : Bytes) :
    UsesAll randstr randstr' ↔ 0 ∈ randstr ∧ 0 ∈ randstr' ∧ cstr randstr ≠ cstr randstr' := by
  simp only [UsesAll, hashedFrom_iff]
  constructor
  · intro huses
    obtain ⟨hne, hlt, hlt'⟩ := huses _ _ ⟨[], rfl⟩ ⟨[], rfl⟩
    simp only [cstrOver, List.append_nil] at hne hlt hlt'
    refine ⟨?_, ?_, hne⟩
    · by_contra hnul
      rw [cstr_of_nul_free hnul] at hlt
      omega
    · by_contra hnul
      rw [cstr_of_nul_free hnul] at hlt'
      omega
  · rintro ⟨hnul, hnul', hne⟩ - - ⟨after, rfl⟩ ⟨after', rfl⟩
    rw [cstrOver_of_mem hnul, cstrOver_of_mem hnul']
    exact ⟨hne, length_cstr_lt hnul, length_cstr_lt hnul'⟩

/-- Two arrays that begin with a zero: either token is the hash of nothing. -/
theorem leading_zero_hashes_nothing : ¬ UsesAll (0 :: List.replicate 255 1) (0 :: List.replicate 255 2) := by
  intro h
  exact (h [] [] (hashedFrom_iff.mpr ⟨[], rfl⟩) (hashedFrom_iff.mpr ⟨[], rfl⟩)).1 rfl

end Inferno.Login
