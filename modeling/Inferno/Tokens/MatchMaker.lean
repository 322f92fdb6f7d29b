import Inferno.Tokens.Coherence

/-!
# The two keepers of tokens

`receive_new` and `scrub_list` of `MatchMaker` were copied from `ChatServer`, and with
them the members they use: `current_users`, `expiry` and `login_sock`. `ChatServer`'s
constructor allocates the first two and sets up the third. `MatchMaker`'s does none of
this. It opens a `request_sock` that the copied routines never look at.

So what is a run of one server is no run of the other. To use a member that was never
assigned is an error, and so is `front()` of an empty deque; a step that does either has
no result.

## What is proved

* `agree_iff` — the two servers agree on exactly the runs in which `ChatServer` errs too.

## Scope

How `setup_UDP_client_connection` comes by its socket is not modelled, only what it leaves in
`login_sock`.
-/

namespace Inferno.Tokens

open Machine Inferno.Login

/-- The two servers. -/
inductive Keeper where
  | chatServer
  | matchMaker
  deriving DecidableEq

/-- The members that `receive_new` and `scrub_list` use, of either server. -/
structure Server where
  /-- What `current_users` and `expiry` point to, or `none` if neither was ever assigned. -/
  store : Option Store
  /-- `login_sock`, or `none` if it was never assigned. -/
  loginSock : Option ℤ

/-- The constructors. `sock` is what `setup_UDP_client_connection` leaves in `login_sock`;
it leaves it alone if there is no address to try. -/
def Keeper.construct (sock : Option ℤ) : Keeper → Server
  | .chatServer => ⟨some .empty, sock⟩
  | .matchMaker => ⟨none, none⟩

/-- What a step of the update loop is fed with. -/
inductive Update where
  /-- `receive_new`: the datagrams it gets, with the clock's reading after each, and what its
  local buffers hold in either server. -/
  | receiveNew (locals : Keeper → Locals) (ds : List (Bytes × Timeval))
  /-- `scrub_list`. -/
  | scrubList (tv : Timeval)

/-- `receive_new` as a member function. On a descriptor that is not one `recvfrom` fails at
once. -/
def Server.receiveNew (s : Server) (l : Locals) (ds : List (Bytes × Timeval)) : Option Server :=
  match s.loginSock with
  | none => none
  | some sock =>
    if sock < 0 ∨ ds = [] then some s
    else s.store.map fun st => { s with store := some (Tokens.receiveNew l st ds) }

/-- `scrub_list` as a member function. -/
def Server.scrubList (s : Server) (tv : Timeval) : Option Server :=
  match s.store with
  | none => none
  | some st => (Tokens.scrubList st tv).map fun st => { s with store := some st }

/-- A step of the update loop. -/
def Keeper.step (k : Keeper) (s : Server) : Update → Option Server
  | .receiveNew locals ds => s.receiveNew (locals k) ds
  | .scrubList tv => s.scrubList tv

/-- The server after some steps of its update loop. -/
abbrev Keeper.update (k : Keeper) (sock : Option ℤ) (us : List Update) : Option Server :=
  run k.step (k.construct sock) us

/-- Neither server errs without the other, and they come to the same store. -/
def Agree (sock : Option ℤ) (us : List Update) : Prop :=
  match Keeper.chatServer.update sock us, Keeper.matchMaker.update sock us with
  | some chat, some maker => chat.store = maker.store
  | none, none => True
  | _, _ => False

/-- `ChatServer` itself errs: its socket was left alone and is used, or a scrub finds no entry
whose time has not come. -/
def ChatErrs (sock : Option ℤ) (us : List Update) : Prop :=
  ∃ pre u post s, us = pre ++ u :: post ∧ Keeper.chatServer.update sock pre = some s ∧
    match u with
    | .receiveNew _ _ => sock = none
    | .scrubList tv => ∀ st ∈ s.store, ∀ x ∈ st.expiry, x.2 < tv.micros

/-- A scrub comes to the end of the deque if every entry has expired. -/
theorem scrub_eq_none_iff {now : ℤ} {users : Bytes → Option Bytes} {q : List (Bytes × ℤ)} :
    scrub now users q = none ↔ ∀ x ∈ q, x.2 < now := by
  induction q generalizing users with
  | nil => simp [scrub]
  | cons x q ih =>
    obtain ⟨username, time⟩ := x
    simp only [scrub, List.forall_mem_cons]
    split_ifs with htime
    · rw [ih]
      simp [htime]
    · simp [htime]

/-- `ChatServer` keeps its members. -/
theorem assigned_of_update {sock : Option ℤ} {us : List Update} {s : Server}
    (h : Keeper.chatServer.update sock us = some s) : s.store.isSome ∧ s.loginSock = sock := by
  refine run_history (P := fun _ s => s.store.isSome ∧ s.loginSock = sock) ⟨rfl, rfl⟩ ?_ h
  rintro us u s s' - ⟨hstore, hsock⟩ hstep
  cases u with
  | receiveNew locals ds =>
    simp only [Keeper.step, Server.receiveNew] at hstep
    split at hstep
    · cases hstep
    · split_ifs at hstep
      · cases hstep
        exact ⟨hstore, hsock⟩
      · obtain ⟨st, -, rfl⟩ := Option.map_eq_some_iff.mp hstep
        exact ⟨rfl, hsock⟩
  | scrubList tv =>
    simp only [Keeper.step, Server.scrubList] at hstep
    split at hstep
    · cases hstep
    · obtain ⟨st, -, rfl⟩ := Option.map_eq_some_iff.mp hstep
      exact ⟨rfl, hsock⟩

/-- When a run of `ChatServer` errs. -/
theorem update_chatServer_eq_none_iff {sock : Option ℤ} {us : List Update} :
    Keeper.chatServer.update sock us = none ↔ ChatErrs sock us := by
  rw [Keeper.update, run_eq_none_iff]
  refine exists_congr fun pre => exists_congr fun u => exists_congr fun post => exists_congr fun s =>
    and_congr_right fun _ => and_congr_right fun hrun => ?_
  obtain ⟨hstore, hsock⟩ := assigned_of_update hrun
  obtain ⟨st, hst⟩ := Option.isSome_iff_exists.mp hstore
  cases u with
  | receiveNew locals ds =>
    simp only [Keeper.step, Server.receiveNew, hsock]
    cases sock with
    | none => simp
    | some sock =>
      by_cases hnone : sock < 0 ∨ ds = [] <;> simp [hnone, hst]
  | scrubList tv =>
    simp only [Keeper.step, Server.scrubList, hst, Option.map_eq_none_iff, Tokens.scrubList, scrub_eq_none_iff,
      Option.mem_def, Option.some.injEq, forall_eq']

/-- Any step of `MatchMaker` is an error. -/
theorem update_matchMaker_cons (sock : Option ℤ) (u : Update) (us : List Update) :
    Keeper.matchMaker.update sock (u :: us) = none := by
  cases u <;> rfl

/-- **When the two servers agree**: when `ChatServer` errs as well. -/
theorem agree_iff (sock : Option ℤ) (us : List Update) : Agree sock us ↔ ChatErrs sock us := by
  rw [← update_chatServer_eq_none_iff, Agree]
  cases us with
  | nil => simp [Keeper.update, Keeper.construct]
  | cons u us =>
    rw [update_matchMaker_cons]
    cases Keeper.chatServer.update sock (u :: us) <;> simp

/-- The datagram for `bob` arrives on socket `3`: `ChatServer` takes it and `MatchMaker` has
no socket to take it from. -/
theorem bob_not_in_both :
    ¬ Agree (some 3) [.receiveNew (fun _ => .zeroed) [(bob.datagram .zeroed, ⟨0, 0⟩)]] := by
  rw [Agree, update_matchMaker_cons]
  exact id

end Inferno.Tokens
