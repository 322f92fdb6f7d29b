import Inferno.Tokens.Lifetime

/-!
# Calls of the store's routines

A run of `receive_new` and `scrub_list` as the calls that are made, in any order. What `receive_new` makes of a
datagram is the business of its loop (`Locals.receive`): the username it reads is the one that the datagram
is *recorded under*, and need not be the one in the datagram. What the store makes of that is in
`Tokens.Lifetime`, one event for each record.

## What is proved

* `run_call` — a run of calls is the run of their events.
* `clocked_events_iff` — the clock's readings are those of the calls.
-/

namespace Inferno.Tokens

open Machine Inferno.Login

/-- A call, with what it is fed with: what the local buffers of `receive_new` hold and the datagrams it gets, with
the clock's reading after each; and the reading that `scrub_list` takes. -/
inductive StoreCall where
  | receiveNew (locals : Locals) (ds : List (Bytes × Timeval))
  | scrubList (tv : Timeval)

/-- One call. -/
def Store.call (st : Store) : StoreCall → Option Store
  | .receiveNew locals ds => some (receiveNew locals st ds)
  | .scrubList tv => scrubList st tv

/-- What happens to the store in a call. -/
def StoreCall.events : StoreCall → List Event
  | .receiveNew locals ds => (locals.receive ds).map .processed
  | .scrubList tv => [.scrubbed tv]

/-- The clock's readings in a call. -/
def StoreCall.readings : StoreCall → List Timeval
  | .receiveNew _ ds => ds.map Prod.snd
  | .scrubList tv => [tv]

/-- The clock does not go back. -/
def ClockedCalls (cs : List StoreCall) : Prop :=
  (cs.flatMap StoreCall.readings).Pairwise fun t t' => t.micros ≤ t'.micros

/-- Some call of `receive_new` among `cs` records its `k`-th datagram, at clock reading `tv`, under the
username `u`. -/
def RecordedUnder (cs : List StoreCall) (u : Bytes) (tv : Timeval) : Prop :=
  ∃ locals ds, .receiveNew locals ds ∈ cs ∧ ∃ (k : ℕ) (d : Bytes × Timeval) (r : Record),
    ds[k]? = some d ∧ (locals.receive ds)[k]? = some r ∧ d.2 = tv ∧ r.username = u

/-- The buffers of a call that finds a name in its `buffer`, behind a NUL. -/
def Locals.naming (name : Bytes) : Locals where
  __ := Locals.zeroed
  buffer := List.replicate 64 0 ++ (name ++ List.replicate 21 0).take 21
  length_buffer := by simp
  nul_buffer := List.mem_append_left _ (by decide)

/-- **A run of calls is the run of their events.** -/
theorem run_call (st : Store) (cs : List StoreCall) :
    run Store.call st cs = run step st (cs.flatMap StoreCall.events) := by
  induction cs generalizing st with
  | nil => rfl
  | cons c cs ih =>
    have hcall : run step st c.events = st.call c := by
      cases c with
      | receiveNew locals ds => exact run_receiveNew locals st ds
      | scrubList tv =>
        simp only [StoreCall.events, run, step, Store.call]
        cases scrubList st tv <;> rfl
    rw [List.flatMap_cons, run_append, hcall]
    simp only [run]
    cases st.call c with
    | none => rfl
    | some st' => exact ih st'

/-- The reading of each event is the call's. -/
theorem map_tv_events (c : StoreCall) : c.events.map Event.tv = c.readings := by
  cases c with
  | receiveNew locals ds =>
    rw [StoreCall.events, receive_eq, List.map_map, List.map_map]
    rfl
  | scrubList tv => rfl

/-- **The clock of the events is the clock of the calls.** -/
theorem clocked_events_iff (cs : List StoreCall) : Clocked (cs.flatMap StoreCall.events) ↔ ClockedCalls cs := by
  have hreadings : (cs.flatMap StoreCall.events).map Event.tv = cs.flatMap StoreCall.readings := by
    rw [List.map_flatMap]
    exact congrArg (List.flatMap · cs) (funext map_tv_events)
  rw [ClockedCalls, ← hreadings, List.pairwise_map, Clocked]

/-- A record comes of a datagram. -/
theorem recordedUnder_of_processed {cs : List StoreCall} {r : Record} (h : .processed r ∈ cs.flatMap StoreCall.events) :
    RecordedUnder cs r.username r.tv := by
  obtain ⟨c, hc, hr⟩ := List.mem_flatMap.mp h
  cases c with
  | scrubList tv => simp [StoreCall.events] at hr
  | receiveNew locals ds =>
    obtain ⟨r', hr', hprocessed⟩ := List.mem_map.mp hr
    cases hprocessed
    obtain ⟨k, hk⟩ := List.mem_iff_getElem?.mp hr'
    have hd := hk
    rw [receive_eq, List.getElem?_map] at hd
    obtain ⟨d, hd, hmade⟩ := Option.map_eq_some_iff.mp hd
    exact ⟨locals, ds, hc, k, d, r, hd, hk, congrArg Record.tv hmade, rfl⟩

end Inferno.Tokens
