import Inferno.Lib.Runs
import Inferno.Login.Credentials

/-!
# The service loop

What a child of `LoginServer::start` does: it asks `get_request_type` what the client wants,
calls the routine for that, closes the connection and exits. `-1` is how `get_request_type`
says that `recv` or `send` has failed, and it is a request code that a client can send. The
branch for it is left by `break`, out of the loop that the child got from its parent.

A run is the life of one child, whatever its calls return. A child has nothing in common
with the others and its parent.

## What is proved

* `oneRequest_iff` — a child serves one request and ends in exactly the runs in which neither
  call of `get_request_type` fails, the code that it makes of the request is not `0xFFFF`, and
  the routine it calls does not throw.

## Scope

What the routines do is left out but for how they end. An exception that a routine does not catch,
as `login_user` catches none, ends the process; so does a signal, which counts as one here.
-/

namespace Inferno.Login

open CStr Machine

/-- `get_request_type`: `requestCode` is what the variable holds, `r` what `recv` gives and `sent`
what the `send` of the acknowledgement returns. -/
def getRequestType (requestCode : Bytes) (r : Read) (sent : ℤ) : ℤ :=
  if r.returned < 0 then -1
  else if sent < 0 then -1
  else shortOf (copyAt requestCode 0 r.bytes)

/-- What a child may be asked to do. -/
inductive Routine where
  | loginUser
  | signupUser
  deriving DecidableEq, Repr

/-- Where a child is. -/
inductive Place where
  /-- In `get_request_type`. -/
  | connected
  | inRoutine (r : Routine)
  /-- Behind the branch. -/
  | served
  /-- It has called `close(data_conn)`. -/
  | closed
  /-- It has called `exit(0)`. -/
  | exited
  /-- It has left the service loop. -/
  | leftLoop
  /-- It has returned from `start`. -/
  | returned
  /-- An exception has ended it. -/
  | terminated
  deriving DecidableEq, Repr

/-- A child, the routines it has called, and whether `data_conn` is open. -/
structure ServiceChild where
  place : Place
  routines : List Routine
  dataConn : Bool

/-- A child is forked. -/
def ServiceChild.start : ServiceChild := ⟨.connected, [], true⟩

/-- What a child does next. -/
inductive ServiceStep where
  /-- It calls `get_request_type` and goes to the branch for what it returns. -/
  | request (requestCode : Bytes) (r : Read) (sent : ℤ)
  /-- The routine ends. -/
  | routine (outcome : Outcome)
  | close
  | exit
  /-- It returns from `start`. -/
  | leave

/-- One step of a child. -/
def ServiceChild.step (c : ServiceChild) : ServiceStep → Option ServiceChild
  | .request requestCode r sent =>
    match c.place with
    | .connected =>
      let reqType := getRequestType requestCode r sent
      if reqType = 0 then some { c with place := .inRoutine .loginUser, routines := c.routines ++ [.loginUser] }
      else if reqType = 1 then some { c with place := .inRoutine .signupUser, routines := c.routines ++ [.signupUser] }
      else if reqType = -1 then some { c with place := .leftLoop }
      else some { c with place := .served }
    | _ => none
  | .routine outcome =>
    match c.place with
    | .inRoutine _ =>
      match outcome with
      | .returned _ => some { c with place := .served }
      | .stuck _ => none
      | .threw => some { c with place := .terminated }
    | _ => none
  | .close =>
    match c.place with
    | .served => some { c with place := .closed, dataConn := false }
    | _ => none
  | .exit =>
    match c.place with
    | .closed => some { c with place := .exited }
    | _ => none
  | .leave =>
    match c.place with
    | .leftLoop => some { c with place := .returned }
    | _ => none

/-- A child that has left the branch is on its way to `exit(0)`: of `close(data_conn)` and `exit(0)` it has
before it what it has not called yet and nothing else, and then it has exited with the connection closed. -/
def ServiceChild.Ends (c : ServiceChild) : Prop :=
  (c.place ≠ .connected ∧ ∀ r, c.place ≠ .inRoutine r) →
    ∃ path, path <:+ [.close, .exit] ∧
      (∃ c', run ServiceChild.step c path = some c' ∧ c'.place = .exited ∧ c'.dataConn = false) ∧
      ∀ es c', run ServiceChild.step c es = some c' → es <+: path

/-- A child has called at most one routine, has not left the loop, and if it has left the branch it is on its
way to `exit(0)`. -/
structure ServiceChild.OneRequest (c : ServiceChild) : Prop where
  routines : c.routines.length ≤ 1
  inLoop : c.place ≠ .leftLoop ∧ c.place ≠ .returned
  ends : c.Ends

/-- If `get_request_type` returns `-1`, one of its calls has failed. -/
def TellsFailure (_ : ServiceChild) : ServiceStep → Prop
  | .request requestCode r sent => getRequestType requestCode r sent = -1 → r.returned < 0 ∨ sent < 0
  | _ => True

/-- Neither `recv` nor `send` fails, the bytes of `request_code` are not both `0xFF`, and the routine does not
throw. -/
def Answerable (_ : ServiceChild) : ServiceStep → Prop
  | .request requestCode r sent =>
    0 ≤ r.returned ∧ 0 ≤ sent ∧
      ¬ ((copyAt requestCode 0 r.bytes).getD 0 0 = 255 ∧ (copyAt requestCode 0 r.bytes).getD 1 0 = 255)
  | .routine outcome => outcome ≠ .threw
  | _ => True

/-! ### What is returned -/

/-- A `short` is `-1` if both of its bytes are `0xFF`. -/
theorem shortOf_eq_neg_one_iff {bytes : Bytes} : shortOf bytes = -1 ↔ bytes.getD 0 0 = 255 ∧ bytes.getD 1 0 = 255 := by
  have hfst := (bytes.getD 0 0).toNat_lt
  have hsnd := (bytes.getD 1 0).toNat_lt
  rw [← UInt8.toNat_inj, ← UInt8.toNat_inj, show (255 : UInt8).toNat = 255 from rfl]
  unfold shortOf
  rw [Int.bmod_def]
  split_ifs <;> omega

/-- **When `get_request_type` returns `-1`**: when a call fails, and when it is what the client has
sent. -/
theorem getRequestType_ne_neg_one_iff (c : ServiceChild) {requestCode : Bytes} {r : Read} {sent : ℤ} :
    getRequestType requestCode r sent ≠ -1 ↔ Answerable c (.request requestCode r sent) := by
  rw [getRequestType, Answerable, Ne, ← shortOf_eq_neg_one_iff]
  split_ifs with hr hs
  · exact iff_of_false (by simp) fun h => by omega
  · exact iff_of_false (by simp) fun h => by omega
  · simp only [not_lt] at hr hs
    simp [hr, hs]

/-! ### A child's life -/

/-- What is true of a child wherever it is. -/
structure ServiceChild.Sound (c : ServiceChild) : Prop where
  connected : c.place = .connected → c.routines = []
  routines : c.routines.length ≤ 1
  closed : c.place = .closed ∨ c.place = .exited → c.dataConn = false

theorem ServiceChild.Sound.start : ServiceChild.start.Sound :=
  ⟨fun _ => rfl, by simp [ServiceChild.start], by simp [ServiceChild.start]⟩

/-- **What a child does first**: it leaves the loop if `get_request_type` returns `-1`, and goes to the
branch, or behind it, if not. -/
theorem step_request {c c' : ServiceChild} {requestCode : Bytes} {r : Read} {sent : ℤ}
    (h : c.step (.request requestCode r sent) = some c') :
    c.place = .connected ∧
      (getRequestType requestCode r sent = -1 ∧ c' = { c with place := .leftLoop } ∨
        getRequestType requestCode r sent ≠ -1 ∧
          ((∃ routine, c' = { c with place := .inRoutine routine, routines := c.routines ++ [routine] }) ∨
            c' = { c with place := .served })) := by
  cases hplace : c.place <;> simp only [ServiceChild.step, hplace, reduceCtorEq] at h
  refine ⟨rfl, ?_⟩
  split_ifs at h with hlogin hsignup hfailed
  · cases h
    exact Or.inr ⟨by omega, Or.inl ⟨.loginUser, rfl⟩⟩
  · cases h
    exact Or.inr ⟨by omega, Or.inl ⟨.signupUser, rfl⟩⟩
  · cases h
    exact Or.inl ⟨hfailed, rfl⟩
  · cases h
    exact Or.inr ⟨hfailed, Or.inr rfl⟩

/-- What a child does then: it goes on from where it is. -/
theorem step_other {c c' : ServiceChild} {e : ServiceStep} (he : ∀ requestCode r sent, e ≠ .request requestCode r sent)
    (h : c.step e = some c') :
    (∃ result, e = .routine (.returned result)) ∧ c' = { c with place := .served } ∨
    e = .routine .threw ∧ c' = { c with place := .terminated } ∨
    e = .close ∧ c.place = .served ∧ c' = { c with place := .closed, dataConn := false } ∨
    e = .exit ∧ c.place = .closed ∧ c' = { c with place := .exited } ∨
    e = .leave ∧ c.place = .leftLoop ∧ c' = { c with place := .returned } := by
  cases e with
  | request requestCode r sent => exact absurd rfl (he _ _ _)
  | routine outcome =>
    cases hplace : c.place <;> simp only [ServiceChild.step, hplace, reduceCtorEq] at h
    cases outcome <;> cases h <;> simp
  | close =>
    cases hplace : c.place <;> simp only [ServiceChild.step, hplace, reduceCtorEq] at h
    cases h
    simp
  | exit =>
    cases hplace : c.place <;> simp only [ServiceChild.step, hplace, reduceCtorEq] at h
    cases h
    simp
  | leave =>
    cases hplace : c.place <;> simp only [ServiceChild.step, hplace, reduceCtorEq] at h
    cases h
    simp

theorem ServiceChild.Sound.step {c c' : ServiceChild} {e : ServiceStep} (hc : c.Sound) (h : c.step e = some c') :
    c'.Sound := by
  by_cases he : ∃ requestCode r sent, e = .request requestCode r sent
  · obtain ⟨requestCode, r, sent, rfl⟩ := he
    obtain ⟨hplace, hbranch⟩ := step_request h
    have hnone := hc.connected hplace
    rcases hbranch with ⟨-, rfl⟩ | ⟨-, ⟨routine, rfl⟩ | rfl⟩
    · exact ⟨by simp, hc.routines, by simp⟩
    · exact ⟨by simp, by simp [hnone], by simp⟩
    · exact ⟨by simp, hc.routines, by simp⟩
  · have he' : ∀ requestCode r sent, e ≠ .request requestCode r sent := by
      intro requestCode r sent heq
      exact he ⟨requestCode, r, sent, heq⟩
    rcases step_other he' h with ⟨-, rfl⟩ | ⟨-, rfl⟩ | ⟨-, -, rfl⟩ | ⟨-, hplace, rfl⟩ | ⟨-, -, rfl⟩
    · exact ⟨by simp, hc.routines, by simp⟩
    · exact ⟨by simp, hc.routines, by simp⟩
    · exact ⟨by simp, hc.routines, by simp⟩
    · exact ⟨by simp, hc.routines, fun _ => hc.closed (Or.inl hplace)⟩
    · exact ⟨by simp, hc.routines, by simp⟩

/-- A child that has exited does nothing. -/
theorem ServiceChild.nil_of_run {c c' : ServiceChild} {es : List ServiceStep} (hplace : c.place = .exited)
    (h : run ServiceChild.step c es = some c') : es <+: [] := by
  cases es with
  | nil => exact List.prefix_refl _
  | cons e es => cases e <;> simp [run, ServiceChild.step, hplace] at h

/-- One that has closed the connection exits. -/
theorem ServiceChild.exit_of_run {c c' : ServiceChild} {es : List ServiceStep} (hplace : c.place = .closed)
    (h : run ServiceChild.step c es = some c') : es <+: [.exit] := by
  cases es with
  | nil => exact List.nil_prefix
  | cons e es =>
    cases e with
    | exit =>
      simp only [run, ServiceChild.step, hplace] at h
      exact (List.prefix_cons_inj _).mpr (ServiceChild.nil_of_run rfl h)
    | request | routine | close | leave => simp [run, ServiceChild.step, hplace] at h

/-- One that is behind the branch closes the connection and exits. -/
theorem ServiceChild.close_of_run {c c' : ServiceChild} {es : List ServiceStep} (hplace : c.place = .served)
    (h : run ServiceChild.step c es = some c') : es <+: [.close, .exit] := by
  cases es with
  | nil => exact List.nil_prefix
  | cons e es =>
    cases e with
    | close =>
      simp only [run, ServiceChild.step, hplace] at h
      exact (List.prefix_cons_inj _).mpr (ServiceChild.exit_of_run rfl h)
    | request | routine | exit | leave => simp [run, ServiceChild.step, hplace] at h

/-- **When a child that has left the branch is on its way to `exit(0)`**: when it has left by neither of the other
two ways. -/
theorem ServiceChild.Sound.ends_iff {c : ServiceChild} (hc : c.Sound) :
    c.Ends ↔ c.place ≠ .leftLoop ∧ c.place ≠ .returned ∧ c.place ≠ .terminated := by
  have hno : ∀ {path : List ServiceStep}, c.place = .leftLoop ∨ c.place = .returned ∨ c.place = .terminated →
      path <:+ [.close, .exit] → ¬ ∃ c', run ServiceChild.step c path = some c' ∧ c'.place = .exited ∧
        c'.dataConn = false := by
    rintro path hplace hpath ⟨c', hrun, hexited, -⟩
    cases path with
    | nil =>
      cases hrun
      simp [hexited] at hplace
    | cons e path =>
      have he : e = .close ∨ e = .exit := by simpa using hpath.subset List.mem_cons_self
      rcases he with rfl | rfl <;> rcases hplace with hp | hp | hp <;> simp [run, ServiceChild.step, hp] at hrun
  constructor
  · intro hends
    have hleft : ¬ (c.place = .leftLoop ∨ c.place = .returned ∨ c.place = .terminated) := by
      intro hplace
      obtain ⟨path, hpath, hexits, -⟩ := hends (by rcases hplace with hp | hp | hp <;> simp [hp])
      exact hno hplace hpath hexits
    simpa [not_or] using hleft
  · rintro ⟨hleft, hreturned, hterminated⟩ ⟨hconnected, hroutine⟩
    cases hplace : c.place with
    | connected => exact absurd hplace hconnected
    | inRoutine r => exact absurd hplace (hroutine r)
    | served =>
      refine ⟨[.close, .exit], List.suffix_refl _, ⟨{ c with place := .exited, dataConn := false }, ?_, rfl, rfl⟩,
        fun es c' h => ServiceChild.close_of_run hplace h⟩
      simp [run, ServiceChild.step, hplace]
    | closed =>
      refine ⟨[.exit], List.suffix_cons _ _, ⟨{ c with place := .exited }, ?_, rfl, hc.closed (Or.inl hplace)⟩,
        fun es c' h => ServiceChild.exit_of_run hplace h⟩
      simp [run, ServiceChild.step, hplace]
    | exited =>
      exact ⟨[], List.nil_suffix, ⟨c, rfl, hplace, hc.closed (Or.inr hplace)⟩,
        fun es c' h => ServiceChild.nil_of_run hplace h⟩
    | leftLoop => exact absurd hplace hleft
    | returned => exact absurd hplace hreturned
    | terminated => exact absurd hplace hterminated

/-- A child that is where it should be stays there if the request can be answered. -/
theorem oneRequest_step_iff {c c' : ServiceChild} {e : ServiceStep} (hc : c.Sound) (hone : c.OneRequest)
    (h : c.step e = some c') : c'.OneRequest ↔ Answerable c e := by
  have hc' := hc.step h
  have hiff : c'.OneRequest ↔ c'.place ≠ .leftLoop ∧ c'.place ≠ .returned ∧ c'.place ≠ .terminated :=
    ⟨fun hone' => hc'.ends_iff.mp hone'.ends, fun hin => ⟨hc'.routines, ⟨hin.1, hin.2.1⟩, hc'.ends_iff.mpr hin⟩⟩
  rw [hiff]
  by_cases he : ∃ requestCode r sent, e = .request requestCode r sent
  · obtain ⟨requestCode, r, sent, rfl⟩ := he
    rw [← getRequestType_ne_neg_one_iff]
    rcases (step_request h).2 with ⟨hfailed, rfl⟩ | ⟨hok, ⟨routine, rfl⟩ | rfl⟩
    · exact iff_of_false (by simp) (by simp [hfailed])
    · exact iff_of_true (by simp) hok
    · exact iff_of_true (by simp) hok
  · have he' : ∀ requestCode r sent, e ≠ .request requestCode r sent := by
      intro requestCode r sent heq
      exact he ⟨requestCode, r, sent, heq⟩
    rcases step_other he' h with
      ⟨⟨result, rfl⟩, rfl⟩ | ⟨rfl, rfl⟩ | ⟨rfl, -, rfl⟩ | ⟨rfl, -, rfl⟩ | ⟨-, hplace, -⟩
    · simp [Answerable]
    · simp [Answerable]
    · simp [Answerable]
    · simp [Answerable]
    · exact absurd hplace hone.inLoop.1

/-- **When a child serves one request and ends**: when the request can be answered. -/
theorem oneRequest_iff {es : List ServiceStep} {c : ServiceChild} (h : run ServiceChild.step .start es = some c) :
    EachState ServiceChild.step ServiceChild.OneRequest .start es ∧ EachStep ServiceChild.step TellsFailure .start es ↔
      EachStep ServiceChild.step Answerable .start es := by
  have hone : EachState ServiceChild.step ServiceChild.OneRequest .start es ↔
      EachStep ServiceChild.step Answerable .start es := by
    apply eachState_iff_eachStep (I := ServiceChild.Sound) .start _ _ _ h
    · exact ⟨Nat.zero_le _, by simp [ServiceChild.start], fun h => absurd rfl h.1⟩
    · exact fun c e c' hc hstep => hc.step hstep
    · exact fun c e c' hc hone hstep => oneRequest_step_iff hc hone hstep
  rw [hone]
  refine and_iff_left_of_imp fun hall pre e post c hes hrun => ?_
  have hanswer := hall pre e post c hes hrun
  cases e with
  | request requestCode r sent => exact fun hfailed => absurd hfailed ((getRequestType_ne_neg_one_iff c).mpr hanswer)
  | routine | close | exit | leave => trivial

/-- A client signs up. -/
theorem oneRequest_signup :
    EachState ServiceChild.step ServiceChild.OneRequest .start
          [.request [0, 0] (.data [0, 1]) 2, .routine (.returned true), .close, .exit] ∧
        EachStep ServiceChild.step TellsFailure .start
          [.request [0, 0] (.data [0, 1]) 2, .routine (.returned true), .close, .exit] ↔
      EachStep ServiceChild.step Answerable .start
        [.request [0, 0] (.data [0, 1]) 2, .routine (.returned true), .close, .exit] :=
  oneRequest_iff (c := ⟨.exited, [.signupUser], false⟩) rfl

/-- A client asks for `0xFFFF`, and its child returns from `start`. Another asks to log in, and the query throws. -/
theorem child_returns_from_start :
    ¬ (EachState ServiceChild.step ServiceChild.OneRequest .start [.request [0, 0] (.data [255, 255]) 2, .leave] ∧
        EachStep ServiceChild.step TellsFailure .start [.request [0, 0] (.data [255, 255]) 2, .leave]) ∧
      ¬ EachState ServiceChild.step ServiceChild.OneRequest .start
        [.request [0, 0] (.data [0, 0]) 2, .routine .threw] := by
  constructor
  · rintro ⟨hone, -⟩
    have hrun : run ServiceChild.step .start [.request [0, 0] (.data [255, 255]) 2, .leave] =
        some ⟨.returned, [], true⟩ := rfl
    exact (hone _ [] _ (List.append_nil _).symm hrun).inLoop.2 rfl
  · intro hone
    have hrun : run ServiceChild.step .start [.request [0, 0] (.data [0, 0]) 2, .routine .threw] =
        some ⟨.terminated, [.loginUser], true⟩ := rfl
    obtain ⟨path, hpath, ⟨c', hpath', hexited, -⟩, -⟩ :=
      (hone _ [] _ (List.append_nil _).symm hrun).ends ⟨by simp, by simp⟩
    cases path with
    | nil =>
      cases hpath'
      cases hexited
    | cons e path =>
      have he : e = .close ∨ e = .exit := by simpa using hpath.subset List.mem_cons_self
      rcases he with rfl | rfl <;> cases hpath'

end Inferno.Login
