import Inferno.Login.ReceiveLoops

/-!
# Timeouts

The loop in `signup_user` that receives the username looks at the clock after each `recv`. If more
than `TIMEOUT` microseconds have passed it sends the client `-1`, and goes on as before: it may find
so again, and after the loop the sign-up takes its course.

## What is proved

* `timeoutIsFinal_iff` — a sign-up sends one status at most, and does nothing else if that is `-1`,
  exactly if no reading of the clock in the loop is late, or one is and the sign-up gets no further
  than the port.
-/

namespace Inferno.Login

open CStr Counting

/-- One status is sent at most, and with `-1` no port, and no row is inserted. -/
def TimeoutIsFinal (es : List SessionEvent) : Prop :=
  (statuses es).length ≤ 1 ∧
    (.status (-1) ∈ es → (∀ port, .port port ∉ es) ∧ insertedRows es = [] ∧ statuses es = [-1])

/-- What `recv` gives in a sign-up is no more than it is asked for. -/
structure SignupEnv.Answers (e : SignupEnv) : Prop where
  length : e.lengthRead.bytes.length ≤ 2
  name : ∀ r ∈ e.reads, r.1.bytes.length ≤ 16

/-- The length that the client announces for its username. -/
def SignupEnv.announced (e : SignupEnv) : ℤ := shortOf (copyAt e.namelen 0 e.lengthRead.bytes)

/-- How many readings of the clock are late, while less has been received than was announced. -/
def lateReadings (namelen : ℤ) (t0 : Timeval) : ℤ → List (Read × Timeval) → ℕ
  | _, [] => 0
  | received, (r, t1) :: reads =>
    if received < namelen then
      (if 5000000 < Timeval.elapsed t0 t1 then 1 else 0) + lateReadings namelen t0 (received + r.returned) reads
    else 0

/-- The username is never complete. -/
def SignupEnv.Incomplete (e : SignupEnv) : Prop :=
  ¬ Reaches Read.returned (fun _ _ => True) e.announced 0 (e.reads.map Prod.fst)

/-- No reading is late, or one is, and either the username is never complete or the `send` of the port
fails. -/
def SignupEnv.InTime (e : SignupEnv) : Prop :=
  lateReadings e.announced e.t0 0 e.reads = 0 ∨
    lateReadings e.announced e.t0 0 e.reads = 1 ∧ (e.Incomplete ∨ e.setup.sent < 0)

variable {e : SignupEnv}

/-- The loop sends `-1` for every late reading. -/
theorem recvName_fst (namelen : ℤ) (t0 : Timeval) (received : ℤ) (unameBuffer : Bytes) {reads : List (Read × Timeval)}
    (hfit : ∀ r ∈ reads, r.1.bytes.length ≤ 16) :
    (recvName namelen t0 received unameBuffer reads).1 =
      List.replicate (lateReadings namelen t0 received reads) (.status (-1)) := by
  induction reads generalizing received unameBuffer with
  | nil => rfl
  | cons r reads ih =>
    obtain ⟨r, t1⟩ := r
    have hrest := fun received unameBuffer => ih received unameBuffer fun r hr => hfit r (List.mem_cons_of_mem _ hr)
    simp only [recvName, lateReadings, timeoutEvents, if_pos (hfit (r, t1) List.mem_cons_self)]
    split_ifs with hmore hlate
    · simp only [hrest, Nat.add_comm 1, List.replicate_succ, List.singleton_append]
    · simp only [hrest, Nat.zero_add, List.nil_append]
    · rfl

/-- The loop ends if the username is complete. -/
theorem recvName_ok_iff {namelen : ℤ} (t0 : Timeval) {received : ℤ} (unameBuffer : Bytes)
    {reads : List (Read × Timeval)} (hfit : ∀ r ∈ reads, r.1.bytes.length ≤ 16) :
    (∃ buffer, (recvName namelen t0 received unameBuffer reads).2 = .ok buffer) ↔
      Reaches Read.returned (fun _ _ => True) namelen received (reads.map Prod.fst) := by
  rw [recvName_snd]
  exact readName_ok_iff (by simpa using hfit)

/-- If the port cannot be sent there is no password. -/
theorem recvPassword_of_sent_neg (server : Counters) (h : e.setup.sent < 0) :
    (recvPassword server e).2.2 = .error (.returned false) := by
  have hclosed : e.setup.opens = false := by simp [Setup.opens, not_le.mpr h]
  simp only [recvPassword, hclosed, Bool.not_false, if_true]

/-- **What a sign-up sends and does**: `-1` for every late reading, then nothing if the username is
not complete or the port cannot be sent, and else the port and at most one status. -/
theorem events_signupUser (sha : Bytes → Fin 32 → UInt8) (server : Counters) (h : e.Answers) :
    ∃ rest, (signupUser sha server e).events =
        List.replicate (lateReadings e.announced e.t0 0 e.reads) (.status (-1)) ++ rest ∧
      ((e.Incomplete ∨ e.setup.sent < 0) ∧ rest = [] ∨
        ¬ (e.Incomplete ∨ e.setup.sent < 0) ∧ ∃ port tail, rest = .port port :: tail ∧
          .status (-1) ∉ tail ∧ (statuses tail).length ≤ 1) := by
  have hlen : readShort e.namelen [e.lengthRead] = .ok (e.announced, []) := by
    rw [readShort, if_pos h.length, SignupEnv.announced]
  have hfst := recvName_fst e.announced e.t0 0 (List.replicate 16 0) h.name
  have hcomplete : _ ↔ ¬ e.Incomplete := (recvName_ok_iff e.t0 (List.replicate 16 0) h.name).trans not_not.symm
  rcases signupUser_cases sha server e with ⟨why, herror, -⟩ | ⟨namelen, hlen', events, result, hloop, hgoes⟩
  · cases hlen.symm.trans herror
  obtain ⟨rfl, -⟩ := Prod.mk.inj (Except.ok.inj (hlen.symm.trans hlen'))
  rw [hloop] at hfst hcomplete
  obtain rfl : events = _ := hfst
  rcases hgoes with ⟨why, rfl, hevents⟩ | ⟨unameBuffer, rfl, hpassword⟩
  · have hincomplete : e.Incomplete := by
      by_contra hname
      obtain ⟨buffer, hbuffer⟩ := hcomplete.mpr hname
      cases hbuffer
    exact ⟨[], hevents.trans (List.append_nil _).symm, Or.inl ⟨Or.inl hincomplete, rfl⟩⟩
  have hname : ¬ e.Incomplete := hcomplete.mp ⟨unameBuffer, rfl⟩
  rw [recvPassword_events, Setup.events] at hpassword
  rcases lt_or_ge e.setup.sent 0 with hfailed | hsent
  · rw [if_pos hfailed, recvPassword_of_sent_neg server hfailed] at hpassword
    rcases hpassword with ⟨outcome, -, hevents⟩ | ⟨password, hok, -⟩
    · exact ⟨[], hevents, Or.inl ⟨Or.inr hfailed, rfl⟩⟩
    · cases hok
  · rw [if_neg (not_lt.mpr hsent)] at hpassword
    have hnot : ¬ (e.Incomplete ∨ e.setup.sent < 0) := not_or.mpr ⟨hname, not_lt.mpr hsent⟩
    rcases hpassword with ⟨outcome, -, hevents⟩ | ⟨password, -, hevents⟩
    · exact ⟨_, hevents, Or.inr ⟨hnot, _, [], rfl, by simp, by simp [statuses]⟩⟩
    · refine ⟨_, hevents.trans (List.append_assoc _ _ _), Or.inr ⟨hnot, _, _, rfl, ?_, ?_⟩⟩
      · cases e.executes <;> simp
      · cases e.executes <;> simp [statuses]

theorem statuses_replicate_append (n : ℕ) (code : Int16) (es : List SessionEvent) :
    statuses (List.replicate n (.status code) ++ es) = List.replicate n code ++ statuses es := by
  rw [statuses, List.filterMap_append, List.filterMap_replicate]
  rfl

/-- **When a timeout is final.** -/
theorem timeoutIsFinal_iff (sha : Bytes → Fin 32 → UInt8) (server : Counters) (h : e.Answers) :
    TimeoutIsFinal (signupUser sha server e).events ↔ e.InTime := by
  obtain ⟨rest, hevents, hrest⟩ := events_signupUser sha server h
  rw [SignupEnv.InTime, hevents]
  generalize lateReadings e.announced e.t0 0 e.reads = late
  have hlength : (statuses (List.replicate late (.status (-1)) ++ rest)).length = late + (statuses rest).length := by
    rw [statuses_replicate_append, List.length_append, List.length_replicate]
  rcases hrest with ⟨hstops, rfl⟩ | ⟨hgoes, port, tail, rfl, hnot, htail⟩
  · constructor
    · rintro ⟨hle, -⟩
      rw [hlength] at hle
      rcases late with _ | _ | late
      · exact Or.inl rfl
      · exact Or.inr ⟨rfl, hstops⟩
      · omega
    · intro hlate
      have hle : late ≤ 1 := by omega
      refine ⟨by rw [hlength]; simpa [statuses] using hle, fun hmem => ?_⟩
      have hne : late ≠ 0 := by
        rintro rfl
        simp at hmem
      obtain rfl : late = 1 := by omega
      exact ⟨by simp, rfl, rfl⟩
  · have hport : .port port ∈ List.replicate late (.status (-1)) ++ .port port :: tail := by simp
    constructor
    · rintro ⟨-, hfinal⟩
      by_contra hlate
      have hne : late ≠ 0 := fun hzero => hlate (Or.inl hzero)
      exact (hfinal (by simp [hne])).1 port hport
    · rintro (rfl | ⟨-, hstops⟩)
      · refine ⟨by simpa [statuses] using htail, fun hmem => absurd hmem ?_⟩
        simpa using hnot
      · exact absurd hstops hgoes

/-- `bob` signs up. -/
theorem timeoutIsFinal_bob :
    TimeoutIsFinal (signupUser firstBytes .constructed (.plain bobCredentials)).events ↔
      (SignupEnv.plain bobCredentials).InTime :=
  timeoutIsFinal_iff firstBytes .constructed ⟨by decide, by decide⟩

/-- He signs up, but his username takes six seconds: he is sent `-1`, and then a port. -/
theorem port_after_timeout :
    ¬ TimeoutIsFinal (signupUser firstBytes .constructed
        { SignupEnv.plain bobCredentials with
          reads := [(.data (bobCredentials.username ++ List.replicate 13 0), ⟨6, 0⟩)] }).events := by
  rintro ⟨hstatuses, -⟩
  exact absurd hstatuses (by decide)

end Inferno.Login
