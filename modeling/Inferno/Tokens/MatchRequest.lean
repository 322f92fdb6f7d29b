import Inferno.Lib.CString
import Inferno.Lib.Strtok

/-!
# Match requests

`build_match_request`, `serialize_match_request` and `deserialize_match_request`. In the buffer are 64 bytes
of token, 16 of username, and the position as a decimal number.

`serialize_match_request` copies the username by way of a local array that it means to clear before,
up to a length that it takes from what happens to be in the array. With no zero there `strlen` reads over
the end of the array, and `memset` clears what lies behind it.

## What is proved

* `matchRequest_survives_iff` — what was built is serialized inside its arrays, and deserialized as it was,
  exactly if a byte of the local array happens to be zero.

## Scope

A header declares another type for `build_match_request`, and the result of `atoi` is cast to a position. A
routine that leaves its arrays has no result.
-/

namespace Inferno.Tokens

open CStr

/-- `struct match_request`. -/
structure MatchRequest where
  token : List UInt8
  username : List UInt8
  pos : Int32
  length_token : token.length = 64
  length_username : username.length = 16

/-- `build_match_request`. A name of more than 16 bytes goes over the end of its array. -/
def buildMatchRequest (mr : MatchRequest) (authToken uname : List UInt8) (positionReq : Int32) : Option MatchRequest :=
  if hlen : strlen uname ≤ 16 then
    some {
      token := copyAt mr.token 0 (authToken.take 64)
      username := copyAt (zero mr.username 16) 0 (cstr uname)
      pos := positionReq
      length_token := length_copyAt_take _ _ mr.length_token
      length_username := by
        have hzero : (zero mr.username 16).length = 16 := by simp [zero, mr.length_username]
        rw [length_copyAt, hzero]
        rw [hzero, Nat.zero_add]
        exact hlen }
  else none

/-- `serialize_match_request`: the buffer afterwards. `uname` is what the local array holds before. -/
def serializeMatchRequest (mr : MatchRequest) (buffer uname : List UInt8) : Option (List UInt8) :=
  let buffer := copyAt buffer 0 mr.token
  if 0 ∈ uname then
    let uname := clear uname
    let uname := copyAt uname 0 mr.username
    let buffer := copyAt buffer 64 (uname.take 16)
    some (copyAt buffer 80 (decimalInt mr.pos.toInt ++ [0]))
  else none

/-- `deserialize_match_request`. -/
def deserializeMatchRequest (mr : MatchRequest) (buffer : List UInt8) : MatchRequest where
  token := copyAt mr.token 0 (buffer.take 64)
  username := copyAt mr.username 0 ((buffer.drop 64).take 16)
  pos := Int32.ofInt (atoi (buffer.drop 80))
  length_token := length_copyAt_take _ _ mr.length_token
  length_username := length_copyAt_take _ _ mr.length_username

/-! ### The buffer -/

/-- **What is in the buffer** afterwards. -/
theorem serialize_eq (mr : MatchRequest) (buffer : List UInt8) {uname : List UInt8} (hnul : 0 ∈ uname) :
    serializeMatchRequest mr buffer uname =
      some (mr.token ++ (mr.username ++ (decimalInt mr.pos.toInt ++
        0 :: buffer.drop (81 + (decimalInt mr.pos.toInt).length)))) := by
  have huname : (copyAt (clear uname) 0 mr.username).take 16 = mr.username := by
    rw [copyAt, List.take_zero, List.nil_append, List.take_append_of_le_length mr.length_username.ge,
      List.take_of_length_le mr.length_username.le]
  have htoken : copyAt buffer 0 mr.token = mr.token ++ buffer.drop 64 := by
    simp [copyAt, mr.length_token]
  have hname := copyAt_append mr.token (buffer.drop 64) mr.username
  have hpos := copyAt_append (mr.token ++ mr.username) ((buffer.drop 64).drop 16) (decimalInt mr.pos.toInt ++ [0])
  rw [mr.length_token, mr.length_username] at hname
  rw [List.length_append, mr.length_token, mr.length_username] at hpos
  simp only [serializeMatchRequest, if_pos hnul, huname, htoken, hname]
  rw [← List.append_assoc, hpos]
  simp only [List.drop_drop, List.append_assoc, List.cons_append, List.nil_append, List.length_append,
    List.length_singleton]
  congr 6
  omega

/-- A position has at most ten digits and a sign. -/
theorem length_decimalInt_pos (pos : Int32) : (decimalInt pos.toInt).length ≤ 11 := by
  have hlt := pos.toInt_lt
  have hge := pos.le_toInt
  exact length_decimalInt_le (by decide) (by omega)

/-- Nothing is written behind the buffer. -/
theorem length_serialize (mr : MatchRequest) {buffer uname out : List UInt8} (hbuffer : 92 ≤ buffer.length)
    (hnul : 0 ∈ uname) (h : serializeMatchRequest mr buffer uname = some out) : out.length = buffer.length := by
  have hlen := length_decimalInt_pos mr.pos
  obtain rfl := Option.some.inj ((serialize_eq mr buffer hnul).symm.trans h)
  simp only [List.length_append, List.length_cons, List.length_drop, mr.length_token, mr.length_username]
  omega

/-- **What is deserialized** is what was serialized. -/
theorem deserialize_serialize (mr mr' : MatchRequest) {buffer uname out : List UInt8} (hnul : 0 ∈ uname)
    (h : serializeMatchRequest mr buffer uname = some out) : deserializeMatchRequest mr' out = mr := by
  obtain rfl := Option.some.inj ((serialize_eq mr buffer hnul).symm.trans h)
  obtain ⟨token, username, pos, htoken, husername⟩ := mr
  have htake : (token ++ (username ++ (decimalInt pos.toInt ++
      0 :: buffer.drop (81 + (decimalInt pos.toInt).length)))).take 64 = token := by
    rw [← htoken, List.take_left]
  have hdrop : ∀ tail : List UInt8, (token ++ tail).drop 64 = tail := by
    intro tail
    rw [← htoken, List.drop_left]
  have hname : ∀ tail : List UInt8, (username ++ tail).take 16 = username := by
    intro tail
    rw [← husername, List.take_left]
  have hpos : ∀ tail : List UInt8, (token ++ (username ++ tail)).drop 80 = tail := by
    intro tail
    rw [← List.append_assoc, show 80 = (token ++ username).length by simp [htoken, husername], List.drop_left]
  simp only [deserializeMatchRequest, htake, hdrop, hname, hpos, atoi_decimalInt, Int32.ofInt_toInt,
    copyAt_zero_of_length_le (mr'.length_token.trans htoken.symm).le,
    copyAt_zero_of_length_le (mr'.length_username.trans husername.symm).le]

/-- What is built of a name. -/
theorem build_eq (mr : MatchRequest) {token name : List UInt8} (htoken : token.length = 64) (hname : 0 ∉ name)
    (hlen : name.length ≤ 16) (rest : List UInt8) (pos : Int32) :
    ∃ built, buildMatchRequest mr token (name ++ 0 :: rest) pos = some built ∧ built.token = token ∧
      built.username = name ++ List.replicate (16 - name.length) 0 ∧ built.pos = pos := by
  have hcstr : cstr (name ++ 0 :: rest) = name := cstr_append_nul hname rest
  have hfits : strlen (name ++ 0 :: rest) ≤ 16 := by
    rw [strlen, hcstr]
    exact hlen
  refine ⟨_, dif_pos hfits, ?_, ?_, rfl⟩
  · show copyAt mr.token 0 (token.take 64) = token
    rw [List.take_of_length_le htoken.le, copyAt_zero_of_length_le (mr.length_token.trans htoken.symm).le]
  · show copyAt (zero mr.username 16) 0 (cstr (name ++ 0 :: rest)) = _
    have hzero : zero mr.username 16 = List.replicate 16 0 := by
      rw [zero, mr.length_username, min_self, List.drop_of_length_le mr.length_username.le, List.append_nil]
    rw [hcstr, hzero, copyAt, List.take_zero, List.nil_append, Nat.zero_add, List.drop_replicate]

/-- A request survives: it is built and serialized inside its arrays, and what is deserialized is the token, the name
with zeros behind it, and the position. -/
def Survives (mr mr' : MatchRequest) (token name rest : List UInt8) (pos : Int32) (buffer uname : List UInt8) : Prop :=
  ∃ built out, buildMatchRequest mr token (name ++ 0 :: rest) pos = some built ∧
    serializeMatchRequest built buffer uname = some out ∧ out.length = buffer.length ∧
    (deserializeMatchRequest mr' out).token = token ∧
    (deserializeMatchRequest mr' out).username = name ++ List.replicate (16 - name.length) 0 ∧
    (deserializeMatchRequest mr' out).pos = pos

/-- **When a request survives**: when there happens to be a zero in the local array. -/
theorem matchRequest_survives_iff (mr mr' : MatchRequest) {token name : List UInt8} (htoken : token.length = 64)
    (hname : 0 ∉ name) (hlen : name.length ≤ 16) (rest : List UInt8) (pos : Int32) {buffer : List UInt8}
    (hbuffer : 92 ≤ buffer.length) (uname : List UInt8) :
    Survives mr mr' token name rest pos buffer uname ↔ 0 ∈ uname := by
  constructor
  · rintro ⟨built, out, -, hout, -⟩
    by_contra hnul
    rw [serializeMatchRequest, if_neg hnul] at hout
    cases hout
  · intro hnul
    obtain ⟨built, hbuilt, htoken', husername, hpos⟩ := build_eq mr htoken hname hlen rest pos
    have hout := serialize_eq built buffer hnul
    refine ⟨built, _, hbuilt, hout, length_serialize built hbuffer hnul hout, ?_⟩
    rw [deserialize_serialize built mr' hnul hout]
    exact ⟨htoken', husername, hpos⟩

/-- An empty request. -/
def emptyRequest : MatchRequest := ⟨List.replicate 64 0, List.replicate 16 0, 0, rfl, rfl⟩

/-- A name of one byte and the least position, into a buffer of sevens, by way of an array that ends in a zero. -/
theorem matchRequest_survives_least :
    Survives emptyRequest emptyRequest (List.replicate 64 1) [98] [5] (-2147483648) (List.replicate 92 7)
        (List.replicate 15 7 ++ [0]) ↔
      0 ∈ List.replicate 15 (7 : UInt8) ++ [0] :=
  matchRequest_survives_iff emptyRequest emptyRequest (List.length_replicate ..) (by decide) (by decide) [5]
    (-2147483648) (List.length_replicate ..).ge (List.replicate 15 7 ++ [0])

/-- By way of an array of sevens it is lost. -/
theorem sevens_on_stack :
    ¬ Survives emptyRequest emptyRequest (List.replicate 64 1) [98] [5] (-2147483648) (List.replicate 92 7)
        (List.replicate 16 7) := by
  rintro ⟨built, out, -, hout, -⟩
  rw [serializeMatchRequest, if_neg (by decide)] at hout
  cases hout

end Inferno.Tokens
