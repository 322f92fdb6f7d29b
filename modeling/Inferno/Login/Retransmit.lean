import Inferno.Login.ServerAuth

/-!
# Sending again

One call of `chat_server_auth` or `match_server_auth`, with the system calls it makes in their order
and what each of them gave. The loop has three exits: an ACK, a `sendto` that fails, and more than
ten `tries`. A try is counted before its datagram is sent and `tries` is tested after it, so the
datagram that is one too many is sent as well.

`elapsed_time` is an `int`. A time too long for it comes out shorter than it is, and perhaps as a
negative number, so a datagram can be sent late but none is sent early.

## What is proved

* `retransmission_spec` — a call sends the same datagram, at most twelve times, each but the first
  more than half a second after the one before, and it returns `true` exactly if it takes an ACK before
  a `sendto` has failed or the eleventh retransmission was sent, and `false` exactly if one of
  these has happened. What it takes, sends and reads is what the iterations give it, `ps`.
-/

namespace Inferno.Login

open Machine

variable {A : Type*}

/-- A system call, and what it gave. -/
inductive SysCall where
  | sendto (contents : Bytes) (returned : ℤ)
  /-- `bytes > 0`. -/
  | recvfrom (positive : Bool)
  | readT0 (t0 : Timeval)
  | readT1 (t1 : Timeval)
  deriving DecidableEq

/-- The system calls of an iteration of the loop. -/
def Waiting.calls (w : Waiting) (p : Poll A) : List SysCall :=
  if p.acked then [.recvfrom true]
  else if p.retries w.t0 then
    [.recvfrom false, .readT1 p.t1, .sendto w.contents p.sent] ++ if p.sent ≤ 0 then [] else [.readT0 p.t0]
  else [.recvfrom false, .readT1 p.t1]

/-- A call of one of the two routines: where it is, and what it has done. -/
structure AuthCall where
  status : Status
  calls : List SysCall

/-- The routine that talks to a socket. -/
def Sock.routine : Sock → Contents → Bytes → Bytes → ℤ → Timeval → Status
  | .chatSock => chatServerAuth
  | .matchSock => matchServerAuth

/-- A call up to its loop. -/
def AuthCall.start (sock : Sock) (contents : Contents) (authToken username : Bytes) (sent : ℤ) (t0 : Timeval) :
    AuthCall where
  status := sock.routine contents authToken username sent t0
  calls := .sendto (authContents contents authToken username) sent :: if sent ≤ 0 then [] else [.readT0 t0]

/-- An iteration of the loop, if the call has not returned. -/
def AuthCall.poll (s : AuthCall) (p : Poll A) : Option AuthCall :=
  match s.status with
  | .waiting sock w => some ⟨w.iterate sock p, s.calls ++ w.calls p⟩
  | _ => none

/-! ### What is looked at -/

/-- The clock's reading, of a call that takes one. -/
def SysCall.reading : SysCall → Option Timeval
  | .readT0 t0 => some t0
  | .readT1 t1 => some t1
  | _ => none

/-- The clock does not go back. -/
def SteadyClock (calls : List SysCall) : Prop :=
  (calls.filterMap SysCall.reading).Pairwise fun t t' => t.micros ≤ t'.micros

/-- The contents that a call sends, and what `sendto` returned. -/
def SysCall.sending : SysCall → Option (Bytes × ℤ)
  | .sendto contents returned => some (contents, returned)
  | _ => none

/-- The datagrams sent. -/
def sendings (calls : List SysCall) : List (Bytes × ℤ) := calls.filterMap SysCall.sending

/-- A call that neither sends nor sets the timer. -/
def SysCall.quiet : SysCall → Bool
  | .recvfrom _ => true
  | .readT1 _ => true
  | _ => false

/-- The last datagram was followed by the reading `t0` of the timer, and no other since. -/
def TimerAt (calls : List SysCall) (t0 : Timeval) : Prop :=
  ∃ before contents returned since, calls = before ++ .sendto contents returned :: .readT0 t0 :: since ∧
    ∀ c ∈ since, c.quiet

/-- Every datagram but the first comes behind a reading that is more than half a second after the
one that the timer was set to when the datagram before had been sent. -/
def Paced (calls : List SysCall) : Prop :=
  ∀ before contents returned after, calls = before ++ .sendto contents returned :: after →
    before = [] ∨
      ∃ earlier t0 t1, before = earlier ++ [.readT1 t1] ∧ TimerAt earlier t0 ∧ 500000 < t1.micros - t0.micros

theorem sendings_append (cs ds : List SysCall) : sendings (cs ++ ds) = sendings cs ++ sendings ds :=
  List.filterMap_append

/-- Calls that do not send. -/
theorem sendings_append_of_silent (cs : List SysCall) {ds : List SysCall} (hds : ∀ c ∈ ds, c.sending = none) :
    sendings (cs ++ ds) = sendings cs := by
  rw [sendings_append, sendings, sendings, List.filterMap_eq_nil_iff.mpr hds, List.append_nil]

/-! ### What the iterations give -/

/-- `bytes > 0`, of a `recvfrom`. -/
def SysCall.received : SysCall → Option Bool
  | .recvfrom positive => some positive
  | _ => none

/-- What the timer is set to. -/
def SysCall.set : SysCall → Option Timeval
  | .readT0 t0 => some t0
  | _ => none

/-- What the time is, when it is compared with the timer. -/
def SysCall.compared : SysCall → Option Timeval
  | .readT1 t1 => some t1
  | _ => none

/-- The iterations that send again, with the timer at `t0` before them. -/
def resends (t0 : Timeval) : List (Poll A) → List (Poll A)
  | [] => []
  | p :: ps => if p.retries t0 then p :: resends p.t0 ps else resends t0 ps

/-- The timer after them. -/
def timer (t0 : Timeval) : List (Poll A) → Timeval
  | [] => t0
  | p :: ps => if p.retries t0 then timer p.t0 ps else timer t0 ps

theorem resends_concat (t0 : Timeval) (ps : List (Poll A)) (p : Poll A) :
    resends t0 (ps ++ [p]) = resends t0 ps ++ if p.retries (timer t0 ps) then [p] else [] := by
  induction ps generalizing t0 with
  | nil => rfl
  | cons q ps ih =>
    simp only [List.cons_append, resends, timer]
    split_ifs with hq hp hp
    · rw [ih, if_pos hp, List.cons_append]
    · rw [ih, if_neg hp, List.cons_append]
    · rw [ih, if_pos hp]
    · rw [ih, if_neg hp]

theorem timer_concat (t0 : Timeval) (ps : List (Poll A)) (p : Poll A) :
    timer t0 (ps ++ [p]) = if p.retries (timer t0 ps) then p.t0 else timer t0 ps := by
  induction ps generalizing t0 with
  | nil => rfl
  | cons q ps ih =>
    simp only [List.cons_append, timer]
    split_ifs with hq hp hp
    · rw [ih, if_pos hp]
    · rw [ih, if_neg hp]
    · rw [ih, if_pos hp]
    · rw [ih, if_neg hp]

/-- **The calls got what the iterations give**, in order: each iteration takes a datagram or none; the ones that
send again send; and the clock is read before each of them, and after each `sendto` that did not fail. -/
structure Gets (calls : List SysCall) (sent : ℤ) (t0 : Timeval) (ps : List (Poll A)) : Prop where
  received : calls.filterMap SysCall.received = ps.map Poll.acked
  returned : (sendings calls).map Prod.snd = sent :: (resends t0 ps).map Poll.sent
  compared : calls.filterMap SysCall.compared = (ps.filter (!·.acked)).map Poll.t1
  set : calls.filterMap SysCall.set = if sent ≤ 0 then [] else t0 :: ((resends t0 ps).filter (0 < ·.sent)).map Poll.t0

/-- One more iteration. -/
theorem Gets.concat {calls : List SysCall} {sent : ℤ} {t0 : Timeval} {ps : List (Poll A)} (h : Gets calls sent t0 ps)
    (hsent : ¬ sent ≤ 0) {w : Waiting} (htimer : w.t0 = timer t0 ps) (p : Poll A) :
    Gets (calls ++ w.calls p) sent t0 (ps ++ [p]) := by
  obtain ⟨hreceived, hreturned, hcompared, hset⟩ := h
  rw [if_neg hsent] at hset
  by_cases hacked : p.acked = true
  · have hretries : p.retries w.t0 = false := by simp [Poll.retries, hacked]
    have hcalls : w.calls p = [.recvfrom true] := if_pos hacked
    rw [hcalls]
    refine ⟨?_, ?_, ?_, ?_⟩
    · simp [hreceived, SysCall.received, hacked]
    · rw [sendings_append, List.map_append, hreturned, resends_concat, ← htimer, hretries]
      simp [sendings, SysCall.sending]
    · simp [hcompared, SysCall.compared, hacked]
    · rw [List.filterMap_append, hset, resends_concat, ← htimer, hretries, if_neg hsent]
      simp [SysCall.set]
  by_cases hretries : p.retries w.t0 = true
  · have hcalls : w.calls p = [.recvfrom false, .readT1 p.t1, .sendto w.contents p.sent] ++
        if p.sent ≤ 0 then [] else [.readT0 p.t0] := by
      rw [Waiting.calls, if_neg hacked, if_pos hretries]
    have hsending : sendings (w.calls p) = [(w.contents, p.sent)] := by
      rw [hcalls]
      split_ifs <;> rfl
    have hreading : (w.calls p).filterMap SysCall.compared = [p.t1] := by
      rw [hcalls]
      split_ifs <;> rfl
    have hsetting : (w.calls p).filterMap SysCall.set = if p.sent ≤ 0 then [] else [p.t0] := by
      rw [hcalls]
      split_ifs <;> rfl
    refine ⟨?_, ?_, ?_, ?_⟩
    · rw [List.filterMap_append, hreceived, hcalls]
      split_ifs <;> simp [SysCall.received, hacked]
    · rw [sendings_append, List.map_append, hreturned, hsending, resends_concat, ← htimer, if_pos hretries]
      simp
    · rw [List.filterMap_append, hcompared, hreading]
      simp [hacked]
    · rw [List.filterMap_append, hset, hsetting, resends_concat, ← htimer, if_pos hretries, if_neg hsent]
      split_ifs with hfailed
      · simp [not_lt.mpr hfailed]
      · simp [not_le.mp hfailed]
  · have hcalls : w.calls p = [.recvfrom false, .readT1 p.t1] := by
      rw [Waiting.calls, if_neg hacked, if_neg hretries]
    rw [hcalls]
    refine ⟨?_, ?_, ?_, ?_⟩
    · simp [hreceived, SysCall.received, hacked]
    · rw [sendings_append, List.map_append, hreturned, resends_concat, ← htimer, if_neg hretries]
      simp [sendings, SysCall.sending]
    · rw [List.filterMap_append, hcompared, List.filter_append, List.map_append]
      simp only [List.filter_cons, hacked]
      rfl
    · rw [List.filterMap_append, hset, resends_concat, ← htimer, if_neg hretries, if_neg hsent]
      simp [SysCall.set]

/-! ### The timer -/

/-- Calls that leave the timer alone. -/
theorem TimerAt.append {cs ds : List SysCall} {t0 : Timeval} (h : TimerAt cs t0) (hds : ∀ c ∈ ds, c.quiet) :
    TimerAt (cs ++ ds) t0 := by
  obtain ⟨before, contents, returned, since, rfl, hsince⟩ := h
  refine ⟨before, contents, returned, since ++ ds, by simp, fun c hc => ?_⟩
  rcases List.mem_append.mp hc with hc | hc
  · exact hsince c hc
  · exact hds c hc

/-- The timer is set. -/
theorem TimerAt.set (cs : List SysCall) (contents : Bytes) (returned : ℤ) (t0 : Timeval) :
    TimerAt (cs ++ [.sendto contents returned, .readT0 t0]) t0 := ⟨cs, contents, returned, [], rfl, by simp⟩

/-- A reading behind the timer's is no earlier. -/
theorem TimerAt.le_micros {cs : List SysCall} {t0 t1 : Timeval} (h : TimerAt cs t0)
    (hclock : SteadyClock (cs ++ [.readT1 t1])) : t0.micros ≤ t1.micros := by
  obtain ⟨before, contents, returned, since, rfl, -⟩ := h
  rw [SteadyClock, List.filterMap_append] at hclock
  refine (List.pairwise_append.mp hclock).2.2 t0 ?_ t1 (by simp [SysCall.reading])
  simp [SysCall.reading]

/-- **A time that is long for `elapsed_time` is long**, also if it does not fit. -/
theorem elapsed_of_elapsedTime {t0 t1 : Timeval} (hle : t0.micros ≤ t1.micros) (h : 500000 < elapsedTime t0 t1) :
    500000 < t1.micros - t0.micros := by
  have helapsed : Timeval.elapsed t0 t1 = t1.micros - t0.micros := by
    simp only [Timeval.elapsed, Timeval.micros]
    omega
  rw [elapsedTime, helapsed, Int.bmod_def] at h
  split_ifs at h <;> omega

/-! ### Pacing -/

/-- What one more system call has to meet. -/
theorem paced_concat {cs : List SysCall} {c : SysCall} :
    Paced (cs ++ [c]) ↔ Paced cs ∧ (c.sending.isSome → cs = [] ∨ ∃ earlier t0 t1, cs = earlier ++ [.readT1 t1] ∧
      TimerAt earlier t0 ∧ 500000 < t1.micros - t0.micros) := by
  constructor
  · intro h
    refine ⟨fun before contents returned after hcs => h before contents returned (after ++ [c]) (by simp [hcs]), ?_⟩
    intro hc
    cases c with
    | sendto contents returned => exact h cs contents returned [] rfl
    | recvfrom => cases hc
    | readT0 => cases hc
    | readT1 => cases hc
  · rintro ⟨h, hlast⟩ before contents returned after hcs
    rcases List.eq_nil_or_concat after with rfl | ⟨after, d, rfl⟩
    · obtain ⟨rfl, hc⟩ := List.append_inj' hcs rfl
      obtain rfl := (List.cons.inj hc).1
      exact hlast rfl
    · rw [List.concat_eq_append, ← List.cons_append, ← List.append_assoc] at hcs
      exact h before contents returned after (List.append_inj' hcs rfl).1

theorem paced_nil : Paced [] := by
  intro before contents returned after h
  simp at h

/-- Calls that do not send. -/
theorem Paced.append {cs ds : List SysCall} (h : Paced cs) (hds : ∀ c ∈ ds, c.sending = none) : Paced (cs ++ ds) := by
  induction ds using List.reverseRecOn with
  | nil => rwa [List.append_nil]
  | append_singleton ds d ih =>
    rw [← List.append_assoc, paced_concat]
    refine ⟨ih fun c hc => hds c (List.mem_append_left _ hc), ?_⟩
    rw [hds d (by simp)]
    simp

/-! ### A call -/

/-- Where a call is once it has gone through the iterations `ps`. -/
def AuthCall.Stage (s : AuthCall) (sent : ℤ) (t0 : Timeval) (ps : List (Poll A)) : Prop :=
  match s.status with
  | .idle => False
  | .waiting _ w => 0 < sent ∧ w.t0 = timer t0 ps ∧ w.tries = (resends t0 ps).length ∧ w.tries ≤ 10 ∧
      (∀ q ∈ resends t0 ps, 0 < q.sent) ∧ (∀ p ∈ ps, p.acked = false) ∧ TimerAt s.calls w.t0
  | .returned true => 0 < sent ∧ ∃ before p, ps = before ++ [p] ∧ p.acked = true ∧
      (∀ q ∈ resends t0 before, 0 < q.sent) ∧ (resends t0 before).length ≤ 10 ∧ resends t0 ps = resends t0 before
  | .returned false => (∀ p ∈ ps, p.acked = false) ∧ (resends t0 ps).length ≤ 11 ∧
      (sent ≤ 0 ∨ (∃ q ∈ resends t0 ps, q.sent ≤ 0) ∨ (resends t0 ps).length = 11)

/-- A call that has made its calls with what the iterations gave it, has sent nothing but `contents`, and has waited
each time. -/
structure AuthCall.Sound (s : AuthCall) (contents : Bytes) (sent : ℤ) (t0 : Timeval) (ps : List (Poll A)) : Prop where
  stage : s.Stage sent t0 ps
  gets : Gets s.calls sent t0 ps
  sends : ∀ sock w, s.status = .waiting sock w → w.contents = contents
  same : ∀ x ∈ sendings s.calls, x.1 = contents
  paced : Paced s.calls

/-- A call begins with one datagram. -/
theorem AuthCall.Sound.start (sock : Sock) (contents : Contents) (authToken username : Bytes) (sent : ℤ)
    (t0 : Timeval) :
    (AuthCall.start sock contents authToken username sent t0).Sound (authContents contents authToken username) sent t0
      ([] : List (Poll A)) := by
  have hstatus : sock.routine contents authToken username sent t0 =
      serverAuth sock contents authToken username sent t0 := by
    cases sock <;> rfl
  have hfirst : ∀ c : SysCall, Paced [c] := fun c => paced_concat.mpr ⟨paced_nil, fun _ => Or.inl rfl⟩
  by_cases hsent : sent ≤ 0
  · have hcalls : (AuthCall.start sock contents authToken username sent t0).calls =
        [.sendto (authContents contents authToken username) sent] := by
      rw [AuthCall.start, if_pos hsent]
    have hreturned : (AuthCall.start sock contents authToken username sent t0).status = .returned false := by
      rw [AuthCall.start, hstatus, serverAuth, if_pos hsent]
    refine ⟨?_, ?_, ?_, ?_, ?_⟩
    · simp [AuthCall.Stage, hreturned, resends, hsent]
    · rw [hcalls]
      exact ⟨rfl, rfl, rfl, by rw [if_pos hsent]; rfl⟩
    · simp [hreturned]
    · simp [hcalls, sendings, SysCall.sending]
    · rw [hcalls]
      exact hfirst _
  · have hcalls : (AuthCall.start sock contents authToken username sent t0).calls =
        [.sendto (authContents contents authToken username) sent, .readT0 t0] := by
      rw [AuthCall.start, if_neg hsent]
    have hwaiting : (AuthCall.start sock contents authToken username sent t0).status =
        .waiting sock ⟨authContents contents authToken username, 0, t0⟩ := by
      rw [AuthCall.start, hstatus, serverAuth, if_neg hsent]
    refine ⟨?_, ?_, ?_, ?_, ?_⟩
    · simp only [AuthCall.Stage, hwaiting, hcalls]
      exact ⟨not_le.mp hsent, rfl, rfl, Nat.zero_le _, by simp [resends], by simp, TimerAt.set [] _ _ _⟩
    · rw [hcalls]
      exact ⟨rfl, rfl, rfl, by rw [if_neg hsent]; rfl⟩
    · rintro _ _ hw
      rw [hwaiting] at hw
      cases hw
      rfl
    · simp [hcalls, sendings, SysCall.sending]
    · have hreads : ∀ c ∈ [SysCall.readT0 t0], c.sending = none := by simp [SysCall.sending]
      rw [hcalls]
      exact (hfirst _).append hreads

theorem SteadyClock.prefix {cs ds : List SysCall} (h : SteadyClock (cs ++ ds)) : SteadyClock cs := by
  rw [SteadyClock, List.filterMap_append] at h
  exact (List.pairwise_append.mp h).1

/-- A datagram that is sent again comes late enough. -/
theorem Paced.retry {cs : List SysCall} {t0 : Timeval} {p : Poll A} (h : Paced cs) (htimer : TimerAt cs t0)
    (hretries : p.retries t0 = true) (hclock : SteadyClock (cs ++ [.recvfrom false, .readT1 p.t1]))
    (contents : Bytes) (returned : ℤ) :
    Paced (cs ++ [.recvfrom false, .readT1 p.t1] ++ [.sendto contents returned]) := by
  have htimer' : TimerAt (cs ++ [.recvfrom false]) t0 := htimer.append (by simp [SysCall.quiet])
  rw [show cs ++ [.recvfrom false, .readT1 p.t1] = cs ++ [.recvfrom false] ++ [.readT1 p.t1] by simp] at hclock
  simp only [Poll.retries, Bool.and_eq_true, decide_eq_true_eq] at hretries
  refine paced_concat.mpr ⟨h.append (by simp [SysCall.sending]), fun _ => Or.inr ?_⟩
  exact ⟨cs ++ [.recvfrom false], t0, p.t1, by simp, htimer',
    elapsed_of_elapsedTime (htimer'.le_micros hclock) hretries.2⟩

/-- An iteration sends nothing but the contents. -/
theorem Waiting.same_calls {w : Waiting} {p : Poll A} {x : Bytes × ℤ} (hx : x ∈ sendings (w.calls p)) :
    x.1 = w.contents := by
  have hsendings : sendings (w.calls p) = [] ∨ sendings (w.calls p) = [(w.contents, p.sent)] := by
    unfold Waiting.calls
    split_ifs
    · exact Or.inl rfl
    · exact Or.inr rfl
    · exact Or.inr rfl
    · exact Or.inl rfl
  rcases hsendings with hnone | hone
  · rw [hnone] at hx
    cases hx
  · rw [hone] at hx
    rw [List.mem_singleton.mp hx]

/-- An iteration waits before it sends. -/
theorem Waiting.paced_calls {w : Waiting} {calls : List SysCall} {p : Poll A} (hpaced : Paced calls)
    (htimer : TimerAt calls w.t0) (hclock : SteadyClock (calls ++ w.calls p)) : Paced (calls ++ w.calls p) := by
  by_cases hacked : p.acked = true
  · rw [Waiting.calls, if_pos hacked]
    exact hpaced.append (by simp [SysCall.sending])
  by_cases hretries : p.retries w.t0 = true
  · have hcalls : calls ++ w.calls p = calls ++ [.recvfrom false, .readT1 p.t1] ++ [.sendto w.contents p.sent] ++
        if p.sent ≤ 0 then [] else [.readT0 p.t0] := by
      simp [Waiting.calls, if_neg hacked, if_pos hretries]
    rw [hcalls] at hclock ⊢
    refine Paced.append ?_ (by split_ifs <;> simp [SysCall.sending])
    exact hpaced.retry htimer hretries hclock.prefix.prefix _ _
  · rw [Waiting.calls, if_neg hacked, if_neg hretries]
    exact hpaced.append (by simp [SysCall.sending])

/-- An iteration takes a call from one stage to the next. -/
theorem AuthCall.Stage.iterate {sock : Sock} {w : Waiting} {calls : List SysCall} {sent : ℤ} {t0 : Timeval}
    {ps : List (Poll A)} (h : AuthCall.Stage ⟨.waiting sock w, calls⟩ sent t0 ps) (p : Poll A) :
    AuthCall.Stage ⟨w.iterate sock p, calls ++ w.calls p⟩ sent t0 (ps ++ [p]) := by
  obtain ⟨hsent, htimer, htries, hle, hpositive, hnone, hset⟩ := h
  have hresends := resends_concat t0 ps p
  rw [← htimer] at hresends
  by_cases hacked : p.acked = true
  · have hretries : p.retries w.t0 = false := by simp [Poll.retries, hacked]
    rw [hretries, if_neg Bool.false_ne_true, List.append_nil] at hresends
    simp only [Waiting.iterate, if_pos hacked]
    exact ⟨hsent, ps, p, rfl, hacked, hpositive, htries ▸ hle, hresends⟩
  have hnone' : ∀ q ∈ ps ++ [p], q.acked = false := by
    simp only [List.mem_append, List.mem_singleton]
    rintro q (hq | rfl)
    · exact hnone q hq
    · simpa using hacked
  by_cases hretries : p.retries w.t0 = true
  · rw [if_pos hretries] at hresends
    have hlength : (resends t0 (ps ++ [p])).length = w.tries + 1 := by rw [hresends, htries]; simp
    have hlast : p ∈ resends t0 (ps ++ [p]) := by rw [hresends]; simp
    simp only [Waiting.iterate, if_neg hacked, if_pos hretries]
    split_ifs with hfailed hmore
    · exact ⟨hnone', by omega, Or.inr (Or.inl ⟨p, hlast, hfailed⟩)⟩
    · exact ⟨hnone', by omega, Or.inr (Or.inr (by omega))⟩
    · refine ⟨hsent, ?_, hlength.symm, not_lt.mp hmore, fun q hq => ?_, hnone', ?_⟩
      · rw [timer_concat, ← htimer, if_pos hretries]
      · rw [hresends] at hq
        rcases List.mem_append.mp hq with hq | hq
        · exact hpositive q hq
        · rw [List.mem_singleton.mp hq]
          exact not_le.mp hfailed
      · have hcalls : calls ++ w.calls p =
            calls ++ [.recvfrom false, .readT1 p.t1] ++ [.sendto w.contents p.sent, .readT0 p.t0] := by
          simp [Waiting.calls, if_neg hacked, if_pos hretries, hfailed]
        rw [hcalls]
        exact TimerAt.set _ _ _ _
  · rw [if_neg hretries, List.append_nil] at hresends
    simp only [Waiting.iterate, if_neg hacked, if_neg hretries, if_neg (not_lt.mpr hle)]
    refine ⟨hsent, ?_, hresends.symm ▸ htries, hle, hresends.symm ▸ hpositive, hnone', ?_⟩
    · rw [timer_concat, ← htimer, if_neg hretries]
    · rw [Waiting.calls, if_neg hacked, if_neg hretries]
      exact hset.append (by simp [SysCall.quiet])

/-- What a call sends is the same in the next iteration. -/
theorem Waiting.contents_of_iterate {sock sock' : Sock} {w w' : Waiting} {p : Poll A}
    (h : w.iterate sock p = .waiting sock' w') : w'.contents = w.contents := by
  unfold Waiting.iterate at h
  split_ifs at h <;> cases h <;> rfl

/-- An iteration undoes nothing. -/
theorem AuthCall.calls_of_poll {s s' : AuthCall} {p : Poll A} (hstep : s.poll p = some s') :
    ∃ ds, s'.calls = s.calls ++ ds := by
  obtain ⟨status, calls⟩ := s
  cases status with
  | idle => cases hstep
  | returned result => cases hstep
  | waiting sock w =>
    cases hstep
    exact ⟨w.calls p, rfl⟩

/-- **An iteration keeps count and waits.** -/
theorem AuthCall.Sound.poll {s s' : AuthCall} {p : Poll A} {contents : Bytes} {sent : ℤ} {t0 : Timeval}
    {ps : List (Poll A)} (h : s.Sound contents sent t0 ps) (hstep : s.poll p = some s')
    (hclock : SteadyClock s'.calls) : s'.Sound contents sent t0 (ps ++ [p]) := by
  obtain ⟨status, calls⟩ := s
  cases status with
  | idle => cases hstep
  | returned result => cases hstep
  | waiting sock w =>
    cases hstep
    obtain ⟨hstage, hgets, hsends, hsame, hpaced⟩ := h
    obtain ⟨hsent, htimer, -, -, -, -, hset⟩ := id hstage
    have hcontents := hsends sock w rfl
    refine ⟨hstage.iterate p, hgets.concat (not_le.mpr hsent) htimer p, fun sock' w' hw' => ?_, fun x hx => ?_,
      Waiting.paced_calls hpaced hset hclock⟩
    · exact (Waiting.contents_of_iterate hw').trans hcontents
    · rw [sendings_append] at hx
      rcases List.mem_append.mp hx with hx | hx
      · exact hsame x hx
      · exact (Waiting.same_calls hx).trans hcontents

/-- **A call keeps count and waits**, whatever the socket gives it. -/
theorem AuthCall.sound_of_run {sock : Sock} {contents : Contents} {authToken username : Bytes} {sent : ℤ}
    {t0 : Timeval} {ps : List (Poll A)} {s : AuthCall}
    (hrun : run AuthCall.poll (AuthCall.start sock contents authToken username sent t0) ps = some s)
    (hclock : SteadyClock s.calls) : s.Sound (authContents contents authToken username) sent t0 ps := by
  revert hclock
  refine run_history
    (P := fun ps s => SteadyClock s.calls → s.Sound (authContents contents authToken username) sent t0 ps) ?_ ?_ hrun
  · exact fun _ => AuthCall.Sound.start sock contents authToken username sent t0
  · intro ps p s s' _ ih hstep hclock
    obtain ⟨ds, hcalls⟩ := AuthCall.calls_of_poll hstep
    refine (ih ?_).poll hstep hclock
    rw [hcalls] at hclock
    exact hclock.prefix

/-- A call has returned `true` if its last iteration took an ACK in time. -/
theorem AuthCall.Stage.returned_true_iff {s : AuthCall} {sent : ℤ} {t0 : Timeval} {ps : List (Poll A)}
    (h : s.Stage sent t0 ps) :
    s.status = .returned true ↔ 0 < sent ∧ ∃ before p after, ps = before ++ p :: after ∧ p.acked = true ∧
      (∀ q ∈ resends t0 before, 0 < q.sent) ∧ (resends t0 before).length < 11 := by
  obtain ⟨status, calls⟩ := s
  have hno : (∀ p ∈ ps, p.acked = false) → ¬ (0 < sent ∧ ∃ before p after, ps = before ++ p :: after ∧ p.acked = true ∧
      (∀ q ∈ resends t0 before, 0 < q.sent) ∧ (resends t0 before).length < 11) := by
    rintro hnone ⟨-, before, p, after, rfl, hacked, -⟩
    rw [hnone p (List.mem_append_right _ List.mem_cons_self)] at hacked
    cases hacked
  match status, h with
  | .waiting _ _, ⟨_, _, _, _, _, hnone, _⟩ => exact iff_of_false (by simp) (hno hnone)
  | .returned true, ⟨hsent, before, p, hps, hacked, hpositive, hlength, _⟩ =>
    exact iff_of_true rfl ⟨hsent, before, p, [], hps, hacked, hpositive, Nat.lt_succ_of_le hlength⟩
  | .returned false, ⟨hnone, _⟩ => exact iff_of_false (by simp) (hno hnone)

/-- A call has returned `false` if it could not send, or has sent all it may. -/
theorem AuthCall.Stage.returned_false_iff {s : AuthCall} {sent : ℤ} {t0 : Timeval} {ps : List (Poll A)}
    (h : s.Stage sent t0 ps) :
    s.status = .returned false ↔
      sent ≤ 0 ∨ (∃ q ∈ resends t0 ps, q.sent ≤ 0) ∨ (resends t0 ps).length = 11 := by
  obtain ⟨status, calls⟩ := s
  have hnone : 0 < sent → (∀ q ∈ resends t0 ps, 0 < q.sent) → (resends t0 ps).length ≤ 10 →
      ¬ (sent ≤ 0 ∨ (∃ q ∈ resends t0 ps, q.sent ≤ 0) ∨ (resends t0 ps).length = 11) := by
    rintro hsent hpositive hlength (hfailed | ⟨q, hq, hfailed⟩ | hall)
    · omega
    · exact absurd (hpositive q hq) (not_lt.mpr hfailed)
    · omega
  match status, h with
  | .waiting _ w, ⟨hsent, _, htries, hle, hpositive, _, _⟩ =>
    exact iff_of_false (by simp) (hnone hsent hpositive (htries ▸ hle))
  | .returned true, ⟨hsent, before, p, _, _, hpositive, hlength, hsame⟩ =>
    exact iff_of_false (by simp) (hnone hsent (hsame ▸ hpositive) (hsame ▸ hlength))
  | .returned false, ⟨_, _, hdone⟩ => exact iff_of_true rfl hdone

/-- It has sent again no more often than it may. -/
theorem AuthCall.Stage.length_resends_le {s : AuthCall} {sent : ℤ} {t0 : Timeval} {ps : List (Poll A)}
    (h : s.Stage sent t0 ps) : (resends t0 ps).length ≤ 11 := by
  obtain ⟨status, calls⟩ := s
  match status, h with
  | .waiting _ w, ⟨_, _, htries, hle, _⟩ => omega
  | .returned true, ⟨_, before, p, _, _, _, hlength, hsame⟩ =>
    rw [hsame]
    exact hlength.trans (Nat.le_succ 10)
  | .returned false, ⟨_, hlength, _⟩ => exact hlength

/-- **A call sends one datagram, at most twelve times and half a second apart**, until one of its iterations `ps` takes
an ACK, a `sendto` fails or all twelve are sent; and the system calls it makes get what the iterations give. -/
theorem retransmission_spec {sock : Sock} {contents : Contents} {authToken username : Bytes} {sent : ℤ} {t0 : Timeval}
    {ps : List (Poll A)} {s : AuthCall}
    (hrun : run AuthCall.poll (AuthCall.start sock contents authToken username sent t0) ps = some s)
    (hclock : SteadyClock s.calls) :
    (sendings s.calls).length ≤ 12 ∧
    (∀ x ∈ sendings s.calls, x.1 = authContents contents authToken username) ∧
    Paced s.calls ∧ Gets s.calls sent t0 ps ∧
    (s.status = .returned true ↔ 0 < sent ∧ ∃ before p after, ps = before ++ p :: after ∧ p.acked = true ∧
      (∀ q ∈ resends t0 before, 0 < q.sent) ∧ (resends t0 before).length < 11) ∧
    (s.status = .returned false ↔
      sent ≤ 0 ∨ (∃ q ∈ resends t0 ps, q.sent ≤ 0) ∨ (resends t0 ps).length = 11) := by
  obtain ⟨hstage, hgets, -, hsame, hpaced⟩ := AuthCall.sound_of_run hrun hclock
  have hlength : (sendings s.calls).length = (resends t0 ps).length + 1 := by
    rw [← show ((sendings s.calls).map Prod.snd).length = _ from List.length_map _, hgets.returned, List.length_cons,
      List.length_map]
  refine ⟨?_, hsame, hpaced, hgets, hstage.returned_true_iff, hstage.returned_false_iff⟩
  rw [hlength]
  exact Nat.succ_le_succ hstage.length_resends_le

/-- Nothing comes in 0.5 and in 1.1 seconds, and then an ACK. -/
def twice : List (Poll Unit) :=
  [⟨none, ⟨8, 400000⟩, 2, ⟨8, 400001⟩⟩, ⟨none, ⟨9, 0⟩, 2, ⟨9, 1⟩⟩, ⟨some ((), [1, 0]), ⟨9, 500000⟩, 2, ⟨9, 500000⟩⟩]

/-- A call that sends twice, and has its ACK 1.6 seconds after it began. -/
theorem retransmission_twice :
    ∃ s, run AuthCall.poll (AuthCall.start .chatSock .zeroed [97] [98] 2 ⟨7, 900000⟩) twice
          = some s ∧
      (sendings s.calls).length ≤ 12 ∧
      (∀ x ∈ sendings s.calls, x.1 = authContents .zeroed [97] [98]) ∧
      Paced s.calls ∧ Gets s.calls 2 ⟨7, 900000⟩ twice ∧
      (s.status = .returned true ↔ 0 < (2 : ℤ) ∧ ∃ before p after, twice = before ++ p :: after ∧ p.acked = true ∧
        (∀ q ∈ resends ⟨7, 900000⟩ before, 0 < q.sent) ∧ (resends ⟨7, 900000⟩ before).length < 11) ∧
      (s.status = .returned false ↔ (2 : ℤ) ≤ 0 ∨ (∃ q ∈ resends ⟨7, 900000⟩ twice, q.sent ≤ 0) ∨
        (resends ⟨7, 900000⟩ twice).length = 11) := by
  let calls : List SysCall :=
    [.sendto [97, 98] 2, .readT0 ⟨7, 900000⟩, .recvfrom false, .readT1 ⟨8, 400000⟩, .recvfrom false, .readT1 ⟨9, 0⟩,
      .sendto [97, 98] 2, .readT0 ⟨9, 1⟩, .recvfrom true]
  have hrun : run AuthCall.poll (AuthCall.start .chatSock .zeroed [97] [98] 2 ⟨7, 900000⟩)
      twice = some ⟨.returned true, calls⟩ := rfl
  have hclock : SteadyClock calls := by
    unfold SteadyClock
    decide
  exact ⟨_, hrun, retransmission_spec hrun hclock⟩

end Inferno.Login
