import Inferno.Tokens.Calls
import Inferno.Tokens.Scrub

/-!
# Leases

The token store as each of its users sees it. All users share one deque, and `scrub_list` stops at the first
entry whose time has not come, whoever's it is. What one user has of the store is a `Lease`: the token, and the
times at which it is to be taken away. A lease has a machine of its own, which knows of no other user.

## What is proved

* `run_leases` — the store is all those machines side by side: each user's part of it is the lease that comes of
  the datagrams recorded under the username and of the scrubs, and a run errs exactly if some scrub finds
  that everyone's lease is over.
* `users_apart` — so what is recorded under other names does not matter to a user: two runs with the same records
  for the user, and the same scrubs, leave the user with the same token until the same times.

## Scope

A user's datagrams are those that `receive_new` records under the username, with the token it records. These
are what its loop reads, which is not what the datagram says (`receive_eq`).
-/

namespace Inferno.Tokens

open Machine Inferno.Login

/-- What a user has of the store. -/
structure Lease where
  token : Option Bytes
  /-- When the token is to be taken away. -/
  deadlines : List ℤ
  deriving DecidableEq

/-- A user nobody knows. -/
def Lease.empty : Lease := ⟨none, []⟩

/-- Another token arrives: who has one keeps it, until one more time. -/
def Lease.grant (l : Lease) (token : Bytes) (deadline : ℤ) : Lease :=
  ⟨some (l.token.getD token), l.deadlines ++ [deadline]⟩

/-- Time passes: the token is taken away if one of its times has come. -/
def Lease.lapse (l : Lease) (now : ℤ) : Lease :=
  ⟨if ∃ d ∈ l.deadlines, d < now then none else l.token, l.deadlines.filter (now ≤ ·)⟩

/-- What an event is to a user. -/
def Lease.next (u : Bytes) (l : Lease) : Event → Lease
  | .processed r => if r.username = u then l.grant r.token r.expiryTime else l
  | .scrubbed tv => l.lapse tv.micros

/-- The lease of a user after some events. -/
def leaseAfter (u : Bytes) (es : List Event) : Lease := es.foldl (Lease.next u) .empty

/-- The lease of a user after some calls. -/
def lease (u : Bytes) (cs : List StoreCall) : Lease := leaseAfter u (cs.flatMap StoreCall.events)

/-- The part of the store that is a user's. -/
def Store.leaseOf (st : Store) (u : Bytes) : Lease := ⟨st.currentUsers u, (st.expiry.filter (·.1 = u)).map Prod.snd⟩

/-- An event is a record of the user, or a scrub. -/
def Event.Concerns (u : Bytes) : Event → Prop
  | .processed r => r.username = u
  | .scrubbed _ => True

instance (u : Bytes) : DecidablePred (Event.Concerns u)
  | .processed r => inferInstanceAs (Decidable (r.username = u))
  | .scrubbed _ => .isTrue trivial

/-! ### One event -/

theorem leaseAfter_concat (u : Bytes) (es : List Event) (e : Event) :
    leaseAfter u (es ++ [e]) = (leaseAfter u es).next u e := by
  rw [leaseAfter, List.foldl_concat, leaseAfter]

/-- The times in a user's lease are those of the entries with the username. -/
theorem Store.mem_deadlines_iff {st : Store} {u : Bytes} {d : ℤ} :
    d ∈ (st.leaseOf u).deadlines ↔ (u, d) ∈ st.expiry := by
  simp [Store.leaseOf]

/-- Recording a token is a grant to its user. -/
theorem Store.leaseOf_record (st : Store) (r : Record) (u : Bytes) :
    (record st r).leaseOf u = (st.leaseOf u).next u (.processed r) := by
  simp only [Store.leaseOf, record, Lease.next, Lease.grant, List.filter_append, List.map_append]
  by_cases hu : r.username = u
  · subst hu
    cases huser : st.currentUsers r.username with
    | none => simp [insertUser, huser]
    | some token => simp [insertUser, huser]
  · have hother : insertUser st.currentUsers r.username r.token u = st.currentUsers u := by
      rw [insertUser]
      split_ifs
      · rfl
      · rw [Function.update_of_ne (Ne.symm hu)]
    simp [hu, hother]

/-- A scrub of a sorted deque that ends is a lapse for everyone. -/
theorem Store.leaseOf_scrubList {st st' : Store} {tv : Timeval} (hsort : st.expiry.Pairwise fun x y => x.2 ≤ y.2)
    (h : scrubList st tv = some st') (u : Bytes) : st'.leaseOf u = (st.leaseOf u).next u (.scrubbed tv) := by
  obtain ⟨-, -, hgone, hkept⟩ := scrub_spec hsort h
  have hdeadlines : (st'.leaseOf u).deadlines = (st.leaseOf u).deadlines.filter (tv.micros ≤ ·) := by
    simp only [Store.leaseOf, expiry_scrub hsort h, List.filter_map, List.filter_filter]
    congr 1
    apply List.filter_congr
    intro x _
    exact Bool.and_comm _ _
  have htoken : st'.currentUsers u =
      if ∃ d ∈ (st.leaseOf u).deadlines, d < tv.micros then none else st.currentUsers u := by
    split_ifs with hpast
    · obtain ⟨d, hd, hlt⟩ := hpast
      exact hgone u d (Store.mem_deadlines_iff.mp hd) hlt
    · apply hkept
      intro d hd
      exact not_lt.mp fun hlt => hpast ⟨d, Store.mem_deadlines_iff.mpr hd, hlt⟩
  rw [Lease.next, Lease.lapse, ← hdeadlines]
  exact congrArg (Lease.mk · _) htoken

/-! ### Runs -/

/-- **Everyone's part of the store** is the lease that the user's own records make. -/
theorem leaseOf_events {es : List Event} {st : Store} (hclock : Clocked es) (h : run step .empty es = some st)
    (u : Bytes) : st.leaseOf u = leaseAfter u es := by
  apply run_history (P := fun es st => Clocked es → st.leaseOf u = leaseAfter u es) (fun _ => rfl) _ h hclock
  intro es e st st' hrun ih hstep hclock
  have hclock' := (List.pairwise_append.mp hclock).1
  rw [leaseAfter_concat, ← ih hclock']
  cases e with
  | processed r =>
    cases hstep
    exact st.leaseOf_record r u
  | scrubbed tv => exact Store.leaseOf_scrubList (kept_of_run hclock' hrun).sorted hstep u

theorem leaseOf_run {cs : List StoreCall} {st : Store} (hclock : ClockedCalls cs)
    (h : run Store.call .empty cs = some st)
    (u : Bytes) : st.leaseOf u = lease u cs := by
  rw [run_call] at h
  exact leaseOf_events ((clocked_events_iff cs).mpr hclock) h u

theorem ClockedCalls.prefix {cs cs' : List StoreCall} (h : ClockedCalls (cs ++ cs')) : ClockedCalls cs := by
  rw [ClockedCalls, List.flatMap_append] at h
  exact (List.pairwise_append.mp h).1

/-- A lease comes of the events that concern its user. -/
theorem leaseAfter_filter (u : Bytes) (es : List Event) :
    leaseAfter u (es.filter fun e => e.Concerns u) = leaseAfter u es := by
  rw [leaseAfter, List.foldl_filter, leaseAfter]
  congr 1
  funext l e
  cases e with
  | processed r => by_cases hu : r.username = u <;> simp [Event.Concerns, Lease.next, hu]
  | scrubbed tv => rfl

/-- What some calls record under a username, and their scrubs, in order. -/
def concerning (u : Bytes) (cs : List StoreCall) : List Event :=
  (cs.flatMap StoreCall.events).filter fun e => e.Concerns u

/-- **Users do not interfere**: what is recorded for others changes nothing for a user, as long as the scrubs
are the same. -/
theorem users_apart {cs cs' : List StoreCall} {st st' : Store} (hclock : ClockedCalls cs) (hclock' : ClockedCalls cs')
    (h : run Store.call .empty cs = some st) (h' : run Store.call .empty cs' = some st') (u : Bytes)
    (hsame : concerning u cs = concerning u cs') :
    st.currentUsers u = st'.currentUsers u ∧ ∀ d, (u, d) ∈ st.expiry ↔ (u, d) ∈ st'.expiry := by
  have hlease : st.leaseOf u = st'.leaseOf u := by
    have hpart : ∀ cs, lease u cs = leaseAfter u (concerning u cs) := fun cs => (leaseAfter_filter u _).symm
    rw [leaseOf_run hclock h, leaseOf_run hclock' h', hpart, hpart, hsame]
  refine ⟨congrArg Lease.token hlease, fun d => ?_⟩
  rw [← Store.mem_deadlines_iff, ← Store.mem_deadlines_iff, hlease]

/-- Whether `al` has one datagram or two, `bob` is gone after `301 s`. -/
theorem users_apart_bob :
    let cs : List StoreCall := [.receiveNew (.naming [98, 111, 98]) [([], ⟨0, 0⟩)],
      .receiveNew (.naming [97, 108]) [([], ⟨200, 0⟩)], .scrubList ⟨301, 0⟩]
    let cs' : List StoreCall := [.receiveNew (.naming [97, 108]) [([1], ⟨0, 0⟩)],
      .receiveNew (.naming [98, 111, 98]) [([], ⟨0, 0⟩)], .receiveNew (.naming [97, 108]) [([2], ⟨100, 0⟩)],
      .scrubList ⟨301, 0⟩]
    ∃ st st', run Store.call .empty cs = some st ∧ run Store.call .empty cs' = some st' ∧
      st.currentUsers [98, 111, 98] = st'.currentUsers [98, 111, 98] ∧
      ∀ d, ([98, 111, 98], d) ∈ st.expiry ↔ ([98, 111, 98], d) ∈ st'.expiry := by
  intro cs cs'
  have hclock : ClockedCalls cs := by simp [cs, ClockedCalls, StoreCall.readings, Timeval.micros]
  have hclock' : ClockedCalls cs' := by simp [cs', ClockedCalls, StoreCall.readings, Timeval.micros]
  exact ⟨_, _, rfl, rfl, users_apart hclock hclock' rfl rfl [98, 111, 98] rfl⟩

end Inferno.Tokens
