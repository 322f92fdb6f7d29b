import Inferno.Chat.Session
import Inferno.Lib.Runs

/-!
# The teams of a chat session

`Session::addClient` and `Session::removeClient`, called in any order on a session that one of
the constructors made. `addClient` asks whether the team is full, and nobody asks whether a
client is in it already, nor how long the lists are that the constructor copies.

## What is proved

* `teams_valid` — no team outgrows `TEAMSIZE`, unless it did from the start; what the calls do to the
  teams; and that no client is in the teams twice, in every state of a run, exactly if it is so at
  the start and no client is added who is there.
-/

namespace Inferno.Chat

open Machine

/-- `enum Team`. -/
inductive Team where
  | red
  | blue
  deriving DecidableEq

/-- The clients of a team. -/
def Session.clientsOf (s : Session) : Team → List ClientPtr
  | .red => s.redClients
  | .blue => s.blueClients

/-- `Session::addClient`: what it returns, and the session after it. -/
def Session.addClient (s : Session) (newClient : ClientPtr) (team : Team) : Bool × Session :=
  if team = .red ∧ s.redClients.length < s.teamSize.toNat then
    (true, { s with redClients := s.redClients ++ [newClient] })
  else if team = .blue ∧ s.blueClients.length < s.teamSize.toNat then
    (true, { s with blueClients := s.blueClients ++ [newClient] })
  else (false, s)

/-- `Session::removeClient`. -/
def Session.removeClient (s : Session) (target : ClientPtr) : Session :=
  { s with redClients := s.redClients.filter (· ≠ target), blueClients := s.blueClients.filter (· ≠ target) }

/-- A call of one of the two. -/
inductive TeamCall where
  | add (newClient : ClientPtr) (team : Team)
  | remove (target : ClientPtr)

/-- The session after a call. -/
def Session.teamStep (s : Session) : TeamCall → Option Session
  | .add newClient team => some (s.addClient newClient team).2
  | .remove target => some (s.removeClient target)

/-- No client is in a team twice, or in both. -/
def Session.Unique (s : Session) : Prop := (s.redClients ++ s.blueClients).Nodup

/-- The teams are no larger than `TEAMSIZE`, or than they were in `s₀`. -/
def Session.Within (s₀ s : Session) : Prop :=
  ∀ team, (s.clientsOf team).length ≤ max s₀.teamSize.toNat (s₀.clientsOf team).length

/-- What a call does. `addClient` returns `true` if and only if it appends the client, and else
changes nothing. `removeClient` takes the client out of both teams and leaves the others in order. -/
def Session.Does (s : Session) : TeamCall → Prop
  | .add newClient team =>
    ((s.addClient newClient team).1 = true ↔
        (s.addClient newClient team).2.clientsOf team = s.clientsOf team ++ [newClient]) ∧
      (∀ other ≠ team, (s.addClient newClient team).2.clientsOf other = s.clientsOf other) ∧
      ((s.addClient newClient team).1 = false → (s.addClient newClient team).2 = s)
  | .remove target =>
    ∀ team, target ∉ (s.removeClient target).clientsOf team ∧
      (s.removeClient target).clientsOf team = (s.clientsOf team).filter (· ≠ target)

/-- A client is added to a team that is not full only if he is in neither. -/
def Session.Newcomer (s : Session) : TeamCall → Prop
  | .add newClient team =>
    (s.clientsOf team).length < s.teamSize.toNat → ∀ other, newClient ∉ s.clientsOf other
  | .remove _ => True

/-! ### One call -/

/-- A client is appended to a team that is not full. -/
theorem addClient_of_lt {s : Session} {team : Team} (h : (s.clientsOf team).length < s.teamSize.toNat)
    (newClient : ClientPtr) :
    (s.addClient newClient team).1 = true ∧ (s.addClient newClient team).2.teamSize = s.teamSize ∧
      ∀ other, (s.addClient newClient team).2.clientsOf other =
        s.clientsOf other ++ if other = team then [newClient] else [] := by
  cases team with
  | red =>
    rw [Session.addClient, if_pos ⟨rfl, h⟩]
    refine ⟨rfl, rfl, fun other => ?_⟩
    cases other <;> simp [Session.clientsOf]
  | blue =>
    rw [Session.addClient, if_neg (by simp), if_pos ⟨rfl, h⟩]
    refine ⟨rfl, rfl, fun other => ?_⟩
    cases other <;> simp [Session.clientsOf]

/-- Nobody is added to one that is. -/
theorem addClient_of_le {s : Session} {team : Team} (h : s.teamSize.toNat ≤ (s.clientsOf team).length)
    (newClient : ClientPtr) : s.addClient newClient team = (false, s) := by
  rw [Session.addClient, if_neg, if_neg]
  · rintro ⟨rfl, hlt⟩
    exact absurd hlt (not_lt.mpr h)
  · rintro ⟨rfl, hlt⟩
    exact absurd hlt (not_lt.mpr h)

theorem clientsOf_removeClient (s : Session) (target : ClientPtr) (team : Team) :
    (s.removeClient target).clientsOf team = (s.clientsOf team).filter (· ≠ target) := by
  cases team <;> rfl

theorem does_teamCall (s : Session) (c : TeamCall) : s.Does c := by
  cases c with
  | add newClient team =>
    rcases lt_or_ge (s.clientsOf team).length s.teamSize.toNat with hlt | hge
    · obtain ⟨htrue, -, hclients⟩ := addClient_of_lt hlt newClient
      refine ⟨iff_of_true htrue (by rw [hclients, if_pos rfl]), fun other hother => ?_, fun hfalse => ?_⟩
      · rw [hclients, if_neg hother, List.append_nil]
      · rw [htrue] at hfalse
        cases hfalse
    · rw [Session.Does, addClient_of_le hge]
      simp
  | remove target =>
    intro team
    rw [clientsOf_removeClient]
    exact ⟨by simp, rfl⟩

/-- A call leaves `TEAMSIZE`, and the teams within their bounds. -/
theorem within_teamStep {s₀ s s' : Session} (hsize : s.teamSize = s₀.teamSize) (h : s₀.Within s) {c : TeamCall}
    (hstep : s.teamStep c = some s') : s'.teamSize = s₀.teamSize ∧ s₀.Within s' := by
  cases c with
  | add newClient team =>
    obtain rfl := Option.some.inj hstep
    rcases lt_or_ge (s.clientsOf team).length s.teamSize.toNat with hlt | hge
    · obtain ⟨-, hsize', hclients⟩ := addClient_of_lt hlt newClient
      refine ⟨hsize'.trans hsize, fun other => ?_⟩
      rw [hclients]
      split_ifs with hother
      · subst hother
        rw [List.length_append, List.length_singleton, ← hsize]
        omega
      · rw [List.append_nil]
        exact h other
    · rw [addClient_of_le hge]
      exact ⟨hsize, h⟩
  | remove target =>
    obtain rfl := Option.some.inj hstep
    refine ⟨hsize, fun team => ?_⟩
    rw [clientsOf_removeClient]
    exact (List.length_filter_le _ _).trans (h team)

/-- **A call keeps the clients distinct** exactly if it does not add one who is there. -/
theorem unique_teamStep_iff {s s' : Session} (h : s.Unique) {c : TeamCall} (hstep : s.teamStep c = some s') :
    s'.Unique ↔ s.Newcomer c := by
  cases c with
  | add newClient team =>
    obtain rfl := Option.some.inj hstep
    rcases lt_or_ge (s.clientsOf team).length s.teamSize.toNat with hlt | hge
    · have hred := (addClient_of_lt hlt newClient).2.2 .red
      have hblue := (addClient_of_lt hlt newClient).2.2 .blue
      have hperm : ((s.addClient newClient team).2.redClients ++ (s.addClient newClient team).2.blueClients).Perm
          (newClient :: (s.redClients ++ s.blueClients)) := by
        simp only [Session.clientsOf] at hred hblue
        rw [hred, hblue]
        cases team with
        | red => simp
        | blue => simp [← List.append_assoc]
      rw [Session.Unique] at h ⊢
      rw [hperm.nodup_iff, List.nodup_cons, and_iff_left h, Session.Newcomer, forall_prop_of_true hlt]
      simp only [List.mem_append, not_or]
      constructor
      · rintro ⟨hr, hb⟩ other
        cases other with
        | red => exact hr
        | blue => exact hb
      · exact fun hother => ⟨hother .red, hother .blue⟩
    · rw [addClient_of_le hge]
      exact iff_of_true h fun hlt => absurd hlt (not_lt.mpr hge)
  | remove target =>
    obtain rfl := Option.some.inj hstep
    refine iff_of_true ?_ trivial
    rw [Session.Unique, Session.removeClient, ← List.filter_append]
    exact h.filter _

/-! ### Any calls -/

/-- A session takes every call. -/
theorem exists_run_teamStep (s : Session) (calls : List TeamCall) :
    ∃ s', run Session.teamStep s calls = some s' := by
  induction calls generalizing s with
  | nil => exact ⟨s, rfl⟩
  | cons c calls ih =>
    cases c with
    | add newClient team => exact ih (s.addClient newClient team).2
    | remove target => exact ih (s.removeClient target)

/-- **The teams of a session**, from either constructor and after any calls. -/
theorem teams_valid (junk : Session) (maxClients teamSize : Int32) (ctor : Ctor) (calls : List TeamCall) :
    let s := Session.construct junk maxClients teamSize ctor
    EachState Session.teamStep s.Within s calls ∧
      (EachState Session.teamStep Session.Unique s calls ↔
        s.Unique ∧ EachStep Session.teamStep Session.Newcomer s calls) ∧
      EachStep Session.teamStep Session.Does s calls := by
  intro s
  obtain ⟨s', hrun⟩ := exists_run_teamStep s calls
  refine ⟨?_, ?_, fun _ c _ s₁ _ _ => does_teamCall s₁ c⟩
  · intro pre post s₁ _ hpre
    have hboth : s₁.teamSize = s.teamSize ∧ s.Within s₁ := by
      refine run_history (P := fun _ s₁ => s₁.teamSize = s.teamSize ∧ s.Within s₁) ?_ ?_ hpre
      · exact ⟨rfl, fun team => le_max_right _ _⟩
      · rintro - c s₁ s₂ - ⟨hsize, hwithin⟩ hstep
        exact within_teamStep hsize hwithin hstep
    exact hboth.2
  · by_cases hunique : s.Unique
    · rw [and_iff_right hunique]
      exact eachState_iff_eachStep (I := fun _ => True) trivial hunique (fun _ _ _ _ _ => trivial)
        (fun _ _ _ _ hs hstep => unique_teamStep_iff hs hstep) hrun
    · exact iff_of_false (fun h => hunique (h [] calls s rfl rfl)) fun h => hunique h.1

/-- A session of two teams of five: one client joins both. And a session with teams of one is made with a
team of two. -/
theorem client_in_both_teams :
    ¬ EachState Session.teamStep Session.Unique
        (Session.construct ⟨0, 0, 0, 0, ∅, ∅, [], []⟩ 10 5 .bare) [.add 7 .red, .add 7 .blue] ∧
      ¬ EachState Session.teamStep (fun s => ∀ team, (s.clientsOf team).length ≤ s.teamSize.toNat)
        (Session.construct ⟨0, 0, 0, 0, ∅, ∅, [], []⟩ 10 1 (.teams [7, 8] [])) [] := by
  constructor
  · intro h
    have hlast := h [.add 7 .red, .add 7 .blue] [] _ rfl rfl
    exact absurd hlast (by unfold Session.Unique; decide)
  · intro h
    exact absurd (h [] [] _ rfl rfl .red) (by decide)

end Inferno.Chat
