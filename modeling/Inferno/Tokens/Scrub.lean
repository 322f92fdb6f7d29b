import Inferno.Tokens.MatchMaker

/-!
# Scrubbing

`ChatServer::update`, and `MatchMaker::update_tokens`, which is the same text: `receive_new` and
then `scrub_list`, over and over. The loop of `scrub_list` looks at `front()` before it knows that
there is one. It stops at the first entry whose time has not come; if there is none it takes
off all entries and goes on to look at the front of an empty deque.

## What is proved

* `scrubsExactly_iff_fresh` — every scrub of a run takes off just the entries that have expired, and
  looks at nothing else, in exactly the runs in which each comes no longer than `lifetime`
  after some datagram.
-/

namespace Inferno.Tokens

open Machine Inferno.Login

/-- What one iteration of the update loop is fed with: what the local buffers of `receive_new` hold,
the datagrams it gets, with the clock's reading after each, and the reading that `scrub_list` takes. -/
structure Round where
  locals : Locals
  datagrams : List (Bytes × Timeval)
  tv : Timeval

/-- What happens to the store in a round. -/
def Round.events (r : Round) : List Event := (r.locals.receive r.datagrams).map .processed ++ [.scrubbed r.tv]

/-- One iteration of `update`. -/
def update (st : Store) (r : Round) : Option Store := scrubList (receiveNew r.locals st r.datagrams) r.tv

/-- The scrub of a round ends, and leaves the entries whose time is not below its reading. -/
def ScrubsExactly (st : Store) (r : Round) : Prop :=
  ∃ st', update st r = some st' ∧
    st'.expiry = (receiveNew r.locals st r.datagrams).expiry.filter fun x => r.tv.micros ≤ x.2

/-- Every scrub has a datagram before it, in its round or an earlier one, that is not older than
`lifetime`. -/
def Fresh (rs : List Round) : Prop :=
  ∀ pre r post, rs = pre ++ r :: post →
    ∃ r' ∈ pre ++ [r], ∃ d ∈ r'.datagrams, r.tv.micros ≤ d.2.micros + lifetime

/-- The clock does not go back. -/
abbrev ClockedRounds (rs : List Round) : Prop := Clocked (rs.flatMap Round.events)

/-! ### One scrub -/

/-- A scrub of a sorted deque that ends leaves the entries that have not expired. -/
theorem expiry_scrub {now : ℤ} {users : Bytes → Option Bytes} {q : List (Bytes × ℤ)} {st : Store}
    (hq : q.Pairwise fun x y => x.2 ≤ y.2) (h : scrub now users q = some st) :
    st.expiry = q.filter fun x => now ≤ x.2 := by
  induction q generalizing users with
  | nil => cases h
  | cons x q ih =>
    obtain ⟨username, time⟩ := x
    obtain ⟨hhead, hq⟩ := List.pairwise_cons.mp hq
    simp only [scrub] at h
    split_ifs at h with htime
    · rw [ih hq h, List.filter_cons_of_neg (by simpa using htime)]
    · cases h
      refine (List.filter_eq_self.mpr fun y hy => decide_eq_true ?_).symm
      rcases List.mem_cons.mp hy with rfl | hy
      · exact not_lt.mp htime
      · exact (not_lt.mp htime).trans (hhead y hy)

/-- **When a scrub does what it should**: when not all entries have expired. -/
theorem scrubsExactly_iff {st : Store} {r : Round}
    (hsort : (receiveNew r.locals st r.datagrams).expiry.Pairwise fun x y => x.2 ≤ y.2) :
    ScrubsExactly st r ↔ ∃ x ∈ (receiveNew r.locals st r.datagrams).expiry, r.tv.micros ≤ x.2 := by
  have hlive : update st r ≠ none ↔ ∃ x ∈ (receiveNew r.locals st r.datagrams).expiry, r.tv.micros ≤ x.2 := by
    rw [update, Tokens.scrubList, Ne, scrub_eq_none_iff]
    simp only [not_forall, not_lt, exists_prop]
  rw [← hlive, Option.ne_none_iff_exists']
  constructor
  · rintro ⟨st', h, -⟩
    exact ⟨st', h⟩
  · rintro ⟨st', h⟩
    exact ⟨st', h, expiry_scrub hsort h⟩

/-! ### Rounds as events -/

/-- The times of the records of a run are those of its datagrams. -/
theorem exists_processed_iff (rs : List Round) (P : Timeval → Prop) :
    (∃ x, .processed x ∈ rs.flatMap Round.events ∧ P x.tv) ↔ ∃ r ∈ rs, ∃ d ∈ r.datagrams, P d.2 := by
  have hround : ∀ r : Round, (∃ x, .processed x ∈ r.events ∧ P x.tv) ↔ ∃ d ∈ r.datagrams, P d.2 := by
    intro r
    simp only [Round.events, List.mem_append, List.mem_map, Event.processed.injEq, exists_eq_right, List.mem_singleton,
      reduceCtorEq, or_false, receive_eq]
    constructor
    · rintro ⟨x, ⟨d, hd, rfl⟩, hx⟩
      exact ⟨d, hd, hx⟩
    · rintro ⟨d, hd, hx⟩
      exact ⟨_, ⟨d, hd, rfl⟩, hx⟩
  simp only [← hround, List.mem_flatMap]
  constructor
  · rintro ⟨x, ⟨r, hr, hx⟩, hP⟩
    exact ⟨r, hr, x, hx, hP⟩
  · rintro ⟨r, hr, x, hx, hP⟩
    exact ⟨x, ⟨r, hr, hx⟩, hP⟩

/-- A run of the update loop is the run of its events. -/
theorem run_update (st : Store) (rs : List Round) : run update st rs = run step st (rs.flatMap Round.events) := by
  induction rs generalizing st with
  | nil => rfl
  | cons r rs ih =>
    have hround : run step st r.events = update st r := by
      rw [Round.events, run_append, run_receiveNew, Option.bind_some]
      simp only [run, step, update]
      cases scrubList (receiveNew r.locals st r.datagrams) r.tv <;> rfl
    rw [List.flatMap_cons, run_append, hround]
    simp only [run]
    cases update st r with
    | none => rfl
    | some st' => exact ih st'

/-- **The entries that are live at a scrub** are those of the datagrams that are fresh. -/
theorem live_iff {pre : List Round} {r : Round} {st : Store} (hclock : ClockedRounds (pre ++ [r]))
    (hrun : run update .empty pre = some st) :
    (receiveNew r.locals st r.datagrams).expiry.Pairwise (fun x y => x.2 ≤ y.2) ∧
      ((∃ x ∈ (receiveNew r.locals st r.datagrams).expiry, r.tv.micros ≤ x.2) ↔
        ∃ r' ∈ pre ++ [r], ∃ d ∈ r'.datagrams, r.tv.micros ≤ d.2.micros + lifetime) := by
  have hevents : (pre ++ [r]).flatMap Round.events =
      (pre.flatMap Round.events ++ (r.locals.receive r.datagrams).map .processed) ++ [.scrubbed r.tv] := by
    simp [Round.events]
  rw [ClockedRounds, hevents] at hclock
  obtain ⟨hclock, -, hle⟩ := List.pairwise_append.mp hclock
  have hstore : run step .empty (pre.flatMap Round.events ++ (r.locals.receive r.datagrams).map .processed) =
      some (receiveNew r.locals st r.datagrams) := by
    rw [run_append, ← run_update, hrun, Option.bind_some, run_receiveNew]
  obtain ⟨hsort, hsource, hentry⟩ := kept_of_run hclock hstore
  refine ⟨hsort, ?_⟩
  rw [← exists_processed_iff (pre ++ [r]) fun tv => r.tv.micros ≤ tv.micros + lifetime, hevents]
  constructor
  · rintro ⟨⟨u, e⟩, he, hlive⟩
    obtain ⟨x, hx, -, rfl⟩ := hsource u e he
    refine ⟨x, List.mem_append_left _ hx, ?_⟩
    rw [Record.expiryTime] at hlive
    omega
  · rintro ⟨x, hx, hlive⟩
    have hx : Event.processed x ∈ pre.flatMap Round.events ++ (r.locals.receive r.datagrams).map .processed := by
      simpa using hx
    have htime : r.tv.micros ≤ x.expiryTime := by
      rw [Record.expiryTime]
      omega
    rcases hentry x hx with hx | ⟨tv, htv, hlt⟩
    · exact ⟨_, hx, htime⟩
    · -- an earlier scrub has read no more than this one
      have hlast := hle _ htv _ (List.mem_singleton_self _)
      simp only [Event.tv] at hlast
      omega

/-! ### Whole runs -/

/-- **When scrubs are safe and exact**: when each finds a fresh datagram before it. -/
theorem scrubsExactly_iff_fresh {rs : List Round} (hclock : ClockedRounds rs) :
    EachStep update ScrubsExactly .empty rs ↔ Fresh rs := by
  have hone : ∀ {pre r post st}, rs = pre ++ r :: post → run update .empty pre = some st →
      (ScrubsExactly st r ↔ ∃ r' ∈ pre ++ [r], ∃ d ∈ r'.datagrams, r.tv.micros ≤ d.2.micros + lifetime) := by
    rintro pre r post st rfl hrun
    rw [← List.singleton_append, ← List.append_assoc, ClockedRounds, List.flatMap_append] at hclock
    obtain ⟨hsort, hlive⟩ := live_iff (List.pairwise_append.mp hclock).1 hrun
    rw [scrubsExactly_iff hsort, hlive]
  constructor
  · intro hexact pre r post hrs
    -- the rounds before have all ended
    have hrun : run update .empty pre ≠ none := by
      intro hnone
      obtain ⟨pre', r', post', st, rfl, hrun, hstuck⟩ := run_eq_none_iff.mp hnone
      rw [List.append_assoc, List.cons_append] at hrs
      obtain ⟨st', hst', -⟩ := hexact pre' r' _ st hrs hrun
      rw [hstuck] at hst'
      cases hst'
    obtain ⟨st, hst⟩ := Option.ne_none_iff_exists'.mp hrun
    exact (hone hrs hst).mp (hexact pre r post st hrs hst)
  · intro hfresh pre r post st hrs hrun
    exact (hone hrs hrun).mpr (hfresh pre r post hrs)

/-- A datagram at `0 s`, scrubs at `0 s` and at `300 s`. -/
theorem scrubsExactly_within_lifetime :
    EachStep update ScrubsExactly .empty [⟨.zeroed, [([], ⟨0, 0⟩)], ⟨0, 0⟩⟩, ⟨.zeroed, [], ⟨300, 0⟩⟩] ↔
      Fresh [⟨.zeroed, [([], ⟨0, 0⟩)], ⟨0, 0⟩⟩, ⟨.zeroed, [], ⟨300, 0⟩⟩] :=
  scrubsExactly_iff_fresh (by simp [ClockedRounds, Clocked, Round.events, receive_eq, Event.tv, Timeval.micros])

/-- The first round of a server that nobody has logged in to. -/
theorem first_scrub_errs : ¬ EachStep update ScrubsExactly .empty [⟨.zeroed, [], ⟨0, 0⟩⟩] := by
  intro h
  obtain ⟨st, hst, -⟩ := h [] ⟨.zeroed, [], ⟨0, 0⟩⟩ [] .empty rfl rfl
  cases hst

end Inferno.Tokens
