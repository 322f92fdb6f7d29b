import Inferno.Lib.CString

/-!
# The auth datagram

What `LoginServer::chat_server_auth` and `LoginServer::match_server_auth` send: the
auth token and the username in one string, with no separator and no NUL.
-/

namespace Inferno.Login

open CStr

/-- Bytes, also for `std::string`. -/
abbrev Bytes := List UInt8

/-- What is in the array `contents` at first. `memset(contents, 0, strlen(contents))` looks for a NUL
there, and would clear what lies behind the array if there were none. -/
structure Contents where
  bytes : Bytes
  nul : 0 ∈ bytes := by decide
  deriving DecidableEq

theorem nul_zeroed : (0 : UInt8) ∈ List.replicate 85 0 := by decide

/-- An array that was all zeros. -/
def Contents.zeroed : Contents := ⟨List.replicate 85 0, nul_zeroed⟩

/-- The bytes handed to `sendto`: `memset(contents, 0, strlen(contents))`, then
`strcpy(contents, auth_token)` and `strcat(contents, username)`, and `strlen(contents)`
of them are sent. -/
def authContents (contents : Contents) (authToken username : Bytes) : Bytes :=
  let contents := strcat (strcpy (clear contents.bytes) authToken) username
  contents.take (strlen contents)

/-- A token and a username as `login_user` makes and receives them: the token is a
digest in hex, and neither has a NUL. -/
structure Auth where
  token : Bytes
  username : Bytes
  length_token : token.length = 64 := by decide
  nul_token : 0 ∉ token := by decide
  length_pos : 1 ≤ username.length := by decide
  length_le : username.length ≤ 16 := by decide
  nul_username : 0 ∉ username := by decide

/-- The datagram is the token followed by the username, whatever was in the array. -/
theorem authContents_eq (contents : Contents) {authToken username : Bytes} (ht : 0 ∉ authToken)
    (hu : 0 ∉ username) : authContents contents authToken username = authToken ++ username := by
  have hread : cstr (strcat (strcpy (clear contents.bytes) authToken) username) = authToken ++ username := by
    rw [cstr_strcat _ hu, cstr_strcpy _ ht]
  unfold authContents
  rw [← hread]
  exact (List.prefix_iff_eq_take.mp (List.takeWhile_prefix _)).symm

/-- The datagram of an `Auth` value. -/
def Auth.datagram (a : Auth) (contents : Contents) : Bytes := authContents contents a.token a.username

theorem Auth.datagram_eq (a : Auth) (contents : Contents) : a.datagram contents = a.token ++ a.username :=
  authContents_eq contents a.nul_token a.nul_username

/-- It fits the 85 bytes of `contents`, terminator included. -/
theorem Auth.length_datagram (a : Auth) (contents : Contents) :
    65 ≤ (a.datagram contents).length ∧ (a.datagram contents).length + 1 ≤ 85 := by
  have := a.length_token
  have := a.length_pos
  have := a.length_le
  rw [a.datagram_eq, List.length_append]
  omega

end Inferno.Login
