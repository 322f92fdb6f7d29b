import Inferno.Lib.Runs
import Inferno.Tokens.Store
import Mathlib.Data.List.Pairwise

/-!
# How long an authorisation lasts

The token store over whole runs: `receive_new` recording what its loop read, and
`scrub_list`, in any order, at clock readings that do not decrease. A run that
evaluates `front()` of an empty deque is stuck.

`expiry` gets an entry for every record; `current_users` has one entry for each
username. `scrub_list` erases a username with the *first* of its entries to
expire, so a renewed authorisation ends when the one before it does.

## What is proved

* `Kept` — what every run keeps: `expiry` is sorted, its entries are records of the
  run, and a record stays in it until a scrub reads a later time than its expiry.
* `lasts_iff_spares` — authorisations last their full lifetime in exactly those runs
  whose scrubs find no username with both an expired entry and a live one.
-/

namespace Inferno.Tokens

open Machine Inferno.Login

/-- What happens to the store. -/
inductive Event where
  /-- `receive_new` records what one iteration of its loop read. -/
  | processed (r : Record)
  /-- `scrub_list` runs. -/
  | scrubbed (tv : Timeval)

/-- The clock reading taken. -/
def Event.tv : Event → Timeval
  | .processed r => r.tv
  | .scrubbed tv => tv

/-- One event. -/
def step (st : Store) : Event → Option Store
  | .processed r => some (record st r)
  | .scrubbed tv => scrubList st tv

/-- A call of `receive_new` is the run of the records it makes. -/
theorem run_receiveNew (l : Locals) (st : Store) (ds : List (Bytes × Timeval)) :
    run step st ((l.receive ds).map .processed) = some (receiveNew l st ds) := by
  rw [receiveNew]
  generalize l.receive ds = rs
  induction rs generalizing st with
  | nil => rfl
  | cons r rs ih => exact ih (record st r)

/-- The clock does not go back. -/
def Clocked (es : List Event) : Prop := es.Pairwise fun e e' => e.tv.micros ≤ e'.tv.micros

/-! ### What a scrub does -/

/-- A scrub of a sorted deque takes off exactly the entries that have expired, and erases
their users; every other user keeps what it had. -/
theorem scrub_spec {now : ℤ} {users : Bytes → Option Bytes} {q : List (Bytes × ℤ)} {st : Store}
    (hq : q.Pairwise fun x y => x.2 ≤ y.2) (h : scrub now users q = some st) :
    (∀ x, x ∈ st.expiry ↔ x ∈ q ∧ now ≤ x.2) ∧ (st.expiry.Pairwise fun x y => x.2 ≤ y.2) ∧
      (∀ u e, (u, e) ∈ q → e < now → st.currentUsers u = none) ∧
      ∀ u, (∀ e, (u, e) ∈ q → now ≤ e) → st.currentUsers u = users u := by
  induction q generalizing users with
  | nil => simp [scrub] at h
  | cons x q ih =>
    obtain ⟨username, time⟩ := x
    obtain ⟨hhead, hq⟩ := List.pairwise_cons.mp hq
    simp only [scrub] at h
    split_ifs at h with htime
    · obtain ⟨hmem, hsort, hgone, hkept⟩ := ih hq h
      refine ⟨fun x => ?_, hsort, fun u e hu he => ?_, fun u hu => ?_⟩
      · rw [hmem, List.mem_cons]
        constructor
        · exact fun hx => ⟨Or.inr hx.1, hx.2⟩
        · rintro ⟨rfl | hx, hx'⟩
          · exact absurd hx' (not_le.mpr htime)
          · exact ⟨hx, hx'⟩
      · rcases List.mem_cons.mp hu with hu | hu
        · obtain ⟨rfl, rfl⟩ := Prod.mk.inj hu
          -- the popped user: erased here, and a later entry only erases it again
          by_cases hagain : ∃ e', (u, e') ∈ q ∧ e' < now
          · obtain ⟨e', hu', he'⟩ := hagain
            exact hgone u e' hu' he'
          · rw [hkept u fun e' hu' => not_lt.mp fun he' => hagain ⟨e', hu', he'⟩, Function.update_self]
        · exact hgone u e hu he
      · have hne : u ≠ username := fun hu' =>
          absurd (hu time (hu' ▸ List.mem_cons_self)) (not_le.mpr htime)
        rw [hkept u fun e hu' => hu e (List.mem_cons_of_mem _ hu'), Function.update_of_ne hne]
    · cases h
      have hall : ∀ x ∈ (username, time) :: q, now ≤ x.2 := by
        intro x hx
        rcases List.mem_cons.mp hx with rfl | hx
        · exact not_lt.mp htime
        · exact (not_lt.mp htime).trans (hhead x hx)
      exact ⟨fun x => ⟨fun hx => ⟨hx, hall x hx⟩, And.left⟩, List.pairwise_cons.mpr ⟨hhead, hq⟩,
        fun u e hu he => absurd (hall _ hu) (not_le.mpr he), fun _ _ => rfl⟩

/-! ### What every run keeps -/

/-- The state of the store after the events `es`. -/
structure Kept (es : List Event) (st : Store) : Prop where
  sorted : st.expiry.Pairwise fun x y => x.2 ≤ y.2
  /-- Every entry is a record's. -/
  source : ∀ u e, (u, e) ∈ st.expiry → ∃ r, .processed r ∈ es ∧ r.username = u ∧ r.expiryTime = e
  /-- Every record has its entry, unless a scrub came after its expiry. -/
  entry : ∀ r, .processed r ∈ es →
    (r.username, r.expiryTime) ∈ st.expiry ∨ ∃ tv, .scrubbed tv ∈ es ∧ r.expiryTime < tv.micros

theorem Kept.empty : Kept [] .empty := ⟨List.Pairwise.nil, by simp [Store.empty], by simp⟩

/-- Recording keeps it: the new entry is no earlier than any other. -/
theorem Kept.processed {es : List Event} {st : Store} {r : Record} (h : Kept es st)
    (hclock : Clocked (es ++ [.processed r])) : Kept (es ++ [.processed r]) (record st r) := by
  obtain ⟨hsort, hsource, hentry⟩ := h
  obtain ⟨-, -, hle⟩ := List.pairwise_append.mp hclock
  refine ⟨?_, fun u e hu => ?_, fun r' hr' => ?_⟩
  · refine List.pairwise_append.mpr ⟨hsort, List.pairwise_singleton _ _, ?_⟩
    rintro ⟨u, e⟩ hx y hy
    rw [List.mem_singleton] at hy
    subst hy
    obtain ⟨r', hr', rfl, rfl⟩ := hsource u e hx
    have hr := hle _ hr' _ (List.mem_singleton_self _)
    simp only [Event.tv, Record.expiryTime] at hr ⊢
    omega
  · rcases List.mem_append.mp hu with hu | hu
    · obtain ⟨r', hr', h'⟩ := hsource u e hu
      exact ⟨r', List.mem_append_left _ hr', h'⟩
    · obtain ⟨rfl, rfl⟩ := Prod.mk.inj (List.mem_singleton.mp hu)
      exact ⟨r, List.mem_append_right _ (List.mem_singleton_self _), rfl, rfl⟩
  · rcases List.mem_append.mp hr' with hr' | hr'
    · rcases hentry r' hr' with hmem | ⟨tv, htv, hlt⟩
      · exact Or.inl (List.mem_append_left _ hmem)
      · exact Or.inr ⟨tv, List.mem_append_left _ htv, hlt⟩
    · rw [List.mem_singleton, Event.processed.injEq] at hr'
      subst hr'
      exact Or.inl (List.mem_append_right _ (List.mem_singleton_self _))

/-- So does scrubbing. -/
theorem Kept.scrubbed {es : List Event} {st st' : Store} {tv : Timeval} (h : Kept es st)
    (hstep : scrubList st tv = some st') : Kept (es ++ [.scrubbed tv]) st' := by
  obtain ⟨hsort, hsource, hentry⟩ := h
  obtain ⟨hmem, hsort', -, -⟩ := scrub_spec hsort hstep
  refine ⟨hsort', fun u e hu => ?_, fun r hr => ?_⟩
  · obtain ⟨r, hr, h'⟩ := hsource u e ((hmem _).mp hu).1
    exact ⟨r, List.mem_append_left _ hr, h'⟩
  · have hr : Event.processed r ∈ es := by simpa using hr
    rcases hentry r hr with hin | ⟨tv', htv', hlt⟩
    · by_cases hlt : r.expiryTime < tv.micros
      · exact Or.inr ⟨tv, List.mem_append_right _ (List.mem_singleton_self _), hlt⟩
      · exact Or.inl ((hmem _).mpr ⟨hin, not_lt.mp hlt⟩)
    · exact Or.inr ⟨tv', List.mem_append_left _ htv', hlt⟩

/-- Every run from the constructor keeps it. -/
theorem kept_of_run {es : List Event} {st : Store} (hclock : Clocked es)
    (h : run step .empty es = some st) : Kept es st := by
  refine run_history (P := fun es st => Clocked es → Kept es st) (fun _ => Kept.empty) ?_ h hclock
  intro es e st st' _ ih hstep hclock
  have hkept := ih (List.pairwise_append.mp hclock).1
  cases e with
  | processed r =>
    cases hstep
    exact hkept.processed hclock
  | scrubbed tv => exact hkept.scrubbed hstep

/-! ### The lifetime of an authorisation -/

/-- After every part of the run, everyone of whom a record has not yet expired at the
latest clock reading is a key of `current_users`. -/
def Lasts (es : List Event) : Prop :=
  ∀ pre e post st, es = pre ++ e :: post → run step .empty (pre ++ [e]) = some st →
    ∀ r, .processed r ∈ pre ++ [e] → e.tv.micros ≤ lifetime + r.tv.micros →
      (st.currentUsers r.username).isSome

/-- No scrub of the run finds a username with an entry that has expired and another that
has not. -/
def Spares (es : List Event) : Prop :=
  ∀ pre tv post st, es = pre ++ .scrubbed tv :: post → run step .empty pre = some st →
    ∀ u e e', (u, e) ∈ st.expiry → (u, e') ∈ st.expiry → e < tv.micros → e' < tv.micros

theorem Spares.prefix {es₁ es₂ : List Event} (h : Spares (es₁ ++ es₂)) : Spares es₁ := by
  intro pre tv post st hes
  exact h pre tv (post ++ es₂) st (by rw [hes, List.append_assoc, List.cons_append])

/-- Recording leaves every key, and adds its own. -/
theorem isSome_insertUser {users : Bytes → Option Bytes} {u username token : Bytes} :
    (insertUser users username token u).isSome ↔ u = username ∨ (users u).isSome := by
  simp only [insertUser]
  split_ifs with h
  · constructor
    · exact Or.inr
    · rintro (rfl | hu)
      · exact h
      · exact hu
  · by_cases hu : u = username
    · subst hu
      simp
    · rw [Function.update_of_ne hu]
      simp [hu]

/-- While scrubs spare renewed users, everyone with an entry is a key. -/
theorem isSome_of_spares {es : List Event} {st : Store} (hclock : Clocked es) (hspares : Spares es)
    (h : run step .empty es = some st) : ∀ u e, (u, e) ∈ st.expiry → (st.currentUsers u).isSome := by
  refine run_history (P := fun es st => Clocked es → Spares es →
    ∀ u e, (u, e) ∈ st.expiry → (st.currentUsers u).isSome) ?_ ?_ h hclock hspares
  · intro _ _ u e hu
    simp [Store.empty] at hu
  · intro es ev st st' hrun ih hstep hclock hspares u e hu
    have hclock' := (List.pairwise_append.mp hclock).1
    have ih := ih hclock' hspares.prefix
    cases ev with
    | processed r =>
      cases hstep
      rw [record, isSome_insertUser]
      rcases List.mem_append.mp hu with hu | hu
      · exact Or.inr (ih u e hu)
      · exact Or.inl (Prod.mk.inj (List.mem_singleton.mp hu)).1
    | scrubbed tv =>
      obtain ⟨hmem, -, -, hkept⟩ := scrub_spec (kept_of_run hclock' hrun).sorted hstep
      obtain ⟨hin, hnow⟩ := (hmem _).mp hu
      rw [hkept u fun e' hu' => not_lt.mp fun he' =>
        absurd (hspares es tv [] st rfl hrun u e' e hu' hin he') (not_lt.mpr hnow)]
      exact ih u e hin

/-- **When a renewed authorisation lasts its full lifetime**: when no scrub finds an expired
entry of a user who has a live one. -/
theorem lasts_iff_spares {es : List Event} (hclock : Clocked es) (hrun : (run step .empty es).isSome) :
    Lasts es ↔ Spares es := by
  constructor
  · rintro hlasts pre tv post st rfl hpre u e e' hu hu' he
    by_contra he'
    obtain ⟨st₂, hst₂⟩ := Option.isSome_iff_exists.mp hrun
    rw [← List.singleton_append, ← List.append_assoc] at hst₂
    obtain ⟨st', hst', -⟩ := run_prefix hst₂
    obtain ⟨st₁, hst₁, hstep⟩ := run_concat_eq_some.mp hst'
    obtain rfl : st = st₁ := Option.some.inj (hpre.symm.trans hst₁)
    have hkept := kept_of_run (List.pairwise_append.mp hclock).1 hpre
    obtain ⟨r, hr, rfl, rfl⟩ := hkept.source u e' hu'
    have hsome := hlasts pre (.scrubbed tv) post st' rfl hst' r (List.mem_append_left _ hr) (not_lt.mp he')
    rw [(scrub_spec hkept.sorted hstep).2.2.1 _ e hu he] at hsome
    cases hsome
  · rintro hspares pre e post st rfl hst r hr hnow
    rw [← List.singleton_append, ← List.append_assoc] at hclock hspares
    have hclock := (List.pairwise_append.mp hclock).1
    rcases (kept_of_run hclock hst).entry r hr with hin | ⟨tv, htv, hlt⟩
    · exact isSome_of_spares hclock hspares.prefix hst _ _ hin
    · -- no scrub can have read more than the latest reading
      have hle : tv.micros ≤ e.tv.micros := by
        rcases List.mem_append.mp htv with htv | htv
        · exact (List.pairwise_append.mp hclock).2.2 _ htv e (List.mem_singleton_self _)
        · rw [List.mem_singleton] at htv
          rw [← htv]
          rfl
      exact absurd (hle.trans hnow) (not_le.mpr hlt)

/-- `bob` logs in at `0 s`, and a scrub at `299 s` leaves him alone. -/
theorem lasts_iff_spares_bob :
    Lasts [.processed ⟨[98, 111, 98], [49], ⟨0, 0⟩⟩, .scrubbed ⟨299, 0⟩] ↔
      Spares [.processed ⟨[98, 111, 98], [49], ⟨0, 0⟩⟩, .scrubbed ⟨299, 0⟩] :=
  lasts_iff_spares (by simp [Clocked, Event.tv, Timeval.micros]) (by decide)

/-- `bob` logs in at `0 s` and again at `100 s`. The scrub at `301 s` takes off the first
entry and erases him, `99 s` before his time. -/
theorem renewed_login_erased :
    let es : List Event := [.processed ⟨[98, 111, 98], [49], ⟨0, 0⟩⟩,
      .processed ⟨[98, 111, 98], [50], ⟨100, 0⟩⟩, .scrubbed ⟨301, 0⟩]
    Clocked es ∧ (run step .empty es).isSome ∧ ¬ Lasts es := by
  refine ⟨by simp [Clocked, Event.tv, Timeval.micros], by decide, fun h => ?_⟩
  have hbob := h [.processed ⟨[98, 111, 98], [49], ⟨0, 0⟩⟩, .processed ⟨[98, 111, 98], [50], ⟨100, 0⟩⟩]
    (.scrubbed ⟨301, 0⟩) [] _ rfl rfl ⟨[98, 111, 98], [50], ⟨100, 0⟩⟩ (by simp) (by decide)
  exact absurd hbob (by decide)

end Inferno.Tokens
