import Inferno.Tokens.Calls

/-!
# Whom the store lets in

The token store keeps one fact in two places: who is authorised in `current_users`, and
until when in `expiry`. They are changed by different rules. A record adds its username
to the map only if it is not there, and always appends its entry to the deque;
`scrub_list` takes entries off the front, and erases by name.

## What is proved

* `coherent_of_run` — after any calls of the two routines the deque is sorted, everyone in the
  map has an entry in it, and nobody is in the map after a scrub whose datagrams had all
  expired at its clock reading.

## Scope

A user's datagrams are those that `receive_new` records under the username (`RecordedUnder`). That is the
name that its loop reads, which is not what the datagram says (`receive_eq`).
-/

namespace Inferno.Tokens

open Machine

/-- Everyone authorised has an entry that will end it. -/
def Keyed (st : Store) : Prop := ∀ u, (st.currentUsers u).isSome → ∃ e, (u, e) ∈ st.expiry

theorem Keyed.empty : Keyed .empty := by
  intro u hu
  cases hu

/-- Recording keeps it: who is added to the map gets an entry. -/
theorem Keyed.record {st : Store} (h : Keyed st) (r : Record) : Keyed (record st r) := by
  intro u hu
  rcases isSome_insertUser.mp hu with rfl | hu
  · exact ⟨r.expiryTime, List.mem_append_right _ (List.mem_singleton_self _)⟩
  · obtain ⟨e, he⟩ := h u hu
    exact ⟨e, List.mem_append_left _ he⟩

/-- Scrubbing keeps it, and leaves nobody with an entry that has expired. -/
theorem Keyed.scrubList {st st' : Store} {tv : Timeval} (h : Keyed st)
    (hsort : st.expiry.Pairwise fun x y => x.2 ≤ y.2) (hstep : scrubList st tv = some st') :
    ∀ u, (st'.currentUsers u).isSome → ∃ e, (u, e) ∈ st'.expiry ∧ tv.micros ≤ e := by
  obtain ⟨hmem, -, hgone, hkept⟩ := scrub_spec hsort hstep
  intro u hu
  -- an expired entry of `u` would have taken him along
  have hlive : ∀ e, (u, e) ∈ st.expiry → tv.micros ≤ e := by
    intro e he
    by_contra hlt
    rw [hgone u e he (not_le.mp hlt)] at hu
    cases hu
  rw [hkept u hlive] at hu
  obtain ⟨e, he⟩ := h u hu
  exact ⟨e, (hmem _).mpr ⟨he, hlive e he⟩, hlive e he⟩

/-- Every run from the constructor keeps everyone authorised in `expiry`. -/
theorem keyed_of_run {es : List Event} {st : Store} (hclock : Clocked es)
    (h : run step .empty es = some st) : Keyed st := by
  refine run_history (P := fun es st => Clocked es → Keyed st) (fun _ => Keyed.empty) ?_ h hclock
  intro es e st st' hrun ih hstep hclock
  have hclock' := (List.pairwise_append.mp hclock).1
  cases e with
  | processed r =>
    cases hstep
    exact (ih hclock').record r
  | scrubbed tv =>
    intro u hu
    obtain ⟨e, he, -⟩ := (ih hclock').scrubList (kept_of_run hclock' hrun).sorted hstep u hu
    exact ⟨e, he⟩

/-- The store after the calls `cs`: the deque is in order, nobody is authorised for ever, and
right after a scrub nobody is whose time was over. -/
structure Coherent (cs : List StoreCall) (st : Store) : Prop where
  sorted : st.expiry.Pairwise fun x y => x.2 ≤ y.2
  keyed : ∀ u, (st.currentUsers u).isSome → ∃ e, (u, e) ∈ st.expiry
  /-- If the last call was a scrub, everyone authorised had a datagram processed no longer
  than `lifetime` before it. -/
  fresh : ∀ pre tv, cs = pre ++ [.scrubList tv] → ∀ u, (st.currentUsers u).isSome →
    ∃ tv', RecordedUnder pre u tv' ∧ tv.micros ≤ tv'.micros + lifetime

/-- **The store is coherent after any calls.** -/
theorem coherent_of_run {cs : List StoreCall} {st : Store} (hclock : ClockedCalls cs)
    (h : run Store.call .empty cs = some st) : Coherent cs st := by
  rw [← clocked_events_iff] at hclock
  rw [run_call] at h
  refine ⟨(kept_of_run hclock h).sorted, keyed_of_run hclock h, ?_⟩
  rintro pre tv rfl u hu
  rw [List.flatMap_append] at hclock h
  obtain ⟨st₁, hrun, hstep⟩ := run_concat_eq_some.mp h
  have hclock' := (List.pairwise_append.mp hclock).1
  have hkept := kept_of_run hclock' hrun
  obtain ⟨e, he, hnow⟩ := (keyed_of_run hclock' hrun).scrubList hkept.sorted hstep u hu
  obtain ⟨r, hr, rfl, rfl⟩ := hkept.source u e (((scrub_spec hkept.sorted hstep).1 _).mp he).1
  exact ⟨r.tv, recordedUnder_of_processed hr, by rwa [Record.expiryTime, Int.add_comm] at hnow⟩

/-- A datagram is recorded under `bob` at `0 s` and one under `al` at `200 s`; the scrub at `301 s` finds only `al`
in time. -/
theorem coherent_bob_al :
    ∃ st, run Store.call .empty [.receiveNew (.naming [98, 111, 98]) [([], ⟨0, 0⟩)],
        .receiveNew (.naming [97, 108]) [([], ⟨200, 0⟩)], .scrubList ⟨301, 0⟩] = some st ∧
      Coherent [.receiveNew (.naming [98, 111, 98]) [([], ⟨0, 0⟩)], .receiveNew (.naming [97, 108]) [([], ⟨200, 0⟩)],
        .scrubList ⟨301, 0⟩] st :=
  ⟨_, rfl, coherent_of_run (by simp [ClockedCalls, StoreCall.readings, Timeval.micros]) rfl⟩

end Inferno.Tokens
