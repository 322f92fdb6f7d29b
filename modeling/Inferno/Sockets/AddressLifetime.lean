import Inferno.Sockets.ServerSocket

/-!
# Address lists and when they are freed

`setup_UDP_server_connection`, `setup_UDP_client_connection` and `UDP_Socket::initialize_client`. The first two
free the list also if `getaddrinfo` has not given one, the first also whenever a `bind` fails, and then asks the
list for the next candidate; the third frees it before it takes the address from it.

## What is proved

* `setupUDPServerConnection_iff` — the first uses the list well exactly if it gets one, and the first socket that
  it opens can be bound.
* `setupUDPClientConnection_iff` — the second exactly if it gets one.
* `initializeClient_iff` — the third exactly if it gets none.
-/

namespace Inferno.Sockets

open HeapList SysResults

/-- `setup_UDP_server_connection`; `sock` is what is in the variable before. -/
def setupUDPServerConnection (sock : ℤ) (info : Option (List Candidate)) : Except Fault (Bool × Routine) :=
  let s := State.start info (.start sock)
  match info with
  | none => do
    let s ← s.free
    return (false, s)
  | some serverInfo => do
    let (i, s) ← walk (serverBody (fun errval => errval = -1) State.free) s serverInfo
    if i.isEmpty then
      let s ← s.free
      return (false, s)
    let s ← s.free
    return (true, s)

/-- `setup_UDP_client_connection`. -/
def setupUDPClientConnection (sock : ℤ) (info : Option (List Candidate)) : Except Fault (Bool × Routine) :=
  let s := State.start info (.start sock)
  match info with
  | none => do
    let s ← s.free
    return (false, s)
  | some serverInfo => do
    let (i, s) ← walk clientBody s serverInfo
    if i.isEmpty then
      let s ← s.free
      return (false, s)
    let s ← storeAddr s i
    let s ← s.free
    return (true, s)

/-- `UDP_Socket::initialize_client`. -/
def initializeClient (sockFd : ℤ) (info : Option (List Candidate)) : Except Fault (Bool × Routine) :=
  let s := State.start info (.start sockFd)
  match info with
  | none => .ok (false, s)
  | some serverInfo => do
    let (i, s) ← walk clientBody s serverInfo
    let s ← s.free
    let s ← storeAddr s i
    if i.isEmpty then return (false, s) else return (true, s)

/-- A routine uses the list well: without a fault, it frees what it obtained, and it returns `false` if no
candidate can be used. -/
def UsesListWell (usable : Candidate → Bool) (info : Option (List Candidate))
    (outcome : Except Fault (Bool × Routine)) : Prop :=
  ∃ success s, outcome = .ok (success, s) ∧ s.freed = info.isSome ∧
    ((∀ c ∈ info.getD [], ¬ usable c) → success = false)

/-- The first socket that is opened can be bound. -/
def FirstOpenedBinds (cs : List Candidate) : Prop := ∀ c, cs.find? Candidate.opens = some c → c.binds

/-! ### Servers -/

theorem firstOpenedBinds_cons {c : Candidate} {cs : List Candidate} :
    FirstOpenedBinds (c :: cs) ↔ if c.opens then c.binds = true else FirstOpenedBinds cs := by
  rw [FirstOpenedBinds, List.find?_cons]
  cases hopens : c.opens with
  | true =>
    rw [if_pos rfl]
    constructor
    · exact fun h => h c rfl
    · rintro hbinds _ ⟨⟩
      exact hbinds
  | false => rfl

/-- **The loop of `setup_UDP_server_connection`** ends without a fault if the first socket that it opens can be
bound, or it opens none. -/
theorem walk_serverBody_free {failed : ℤ → Bool} (hfailed : Detects failed) (cs : List Candidate)
    {as : List Candidate} {s : Routine} (hlist : s.list = some as) (hs : s.freed = false) :
    (FirstOpenedBinds cs → ∃ s', walk (serverBody failed State.free) s cs = .ok (cs.dropWhile (!·.usable), s') ∧
        s'.list = some as ∧ s'.freed = false) ∧
      (¬ FirstOpenedBinds cs → walk (serverBody failed State.free) s cs = .error .readFreed) := by
  induction cs generalizing s with
  | nil => exact ⟨fun _ => ⟨s, rfl, hlist, hs⟩, fun h => absurd (fun c hc => by cases hc) h⟩
  | cons c cs ih =>
    have hbody : serverBody failed State.free s c = _ := serverBody_eq hfailed s c
    rw [firstOpenedBinds_cons, List.dropWhile_cons]
    rw [Candidate.usable] at hbody ⊢
    cases hopens : c.opens with
    | false =>
      -- on to the next candidate, with the list as it was
      rw [hopens, Bool.false_and, Bool.false_and, if_neg Bool.false_ne_true] at hbody
      rw [walk_continue hs hbody hs]
      exact ih hlist hs
    | true =>
      rw [hopens, Bool.true_and, Bool.true_and] at hbody
      cases hbinds : c.binds with
      | true =>
        rw [hbinds, Bool.not_true, if_neg Bool.false_ne_true] at hbody
        exact ⟨fun _ => ⟨_, walk_break hs hbody cs, hlist, hs⟩, fun h => absurd rfl h⟩
      | false =>
        have hfree : State.free { s with vars := (tryServer s.vars c).2 } =
            .ok ⟨s.list, true, (tryServer s.vars c).2⟩ := State.free_eq hlist hs
        rw [hbinds, Bool.not_false, if_pos rfl, hfree] at hbody
        exact ⟨fun h => absurd h Bool.false_ne_true, fun _ => walk_freed hs hbody rfl cs⟩

/-- If no candidate can be used the loop goes to the end of the list. -/
theorem dropWhile_eq_nil {p : Candidate → Bool} {cs : List Candidate} (h : ∀ c ∈ cs, ¬ p c) :
    cs.dropWhile (!p ·) = [] := by
  rw [List.dropWhile_eq_nil_iff]
  simpa using h

/-- What a fault ends is not used well. -/
theorem not_usesListWell_error (usable : Candidate → Bool) (info : Option (List Candidate)) (fault : Fault) :
    ¬ UsesListWell usable info (.error fault) := by
  rintro ⟨success, s, herror, -⟩
  cases herror

/-- **When `setup_UDP_server_connection` uses the list well.** -/
theorem setupUDPServerConnection_iff (sock : ℤ) (info : Option (List Candidate)) :
    UsesListWell Candidate.usable info (setupUDPServerConnection sock info) ↔
      ∃ cs, info = some cs ∧ FirstOpenedBinds cs := by
  cases info with
  | none => exact iff_of_false (not_usesListWell_error _ _ _) (by simp)
  | some cs =>
    obtain ⟨hok, herror⟩ := walk_serverBody_free .eq_minusOne cs
      (show (State.start (some cs) (Attempt.start sock)).list = some cs from rfl) rfl
    by_cases hfirst : FirstOpenedBinds cs
    · refine iff_of_true ?_ ⟨cs, rfl, hfirst⟩
      obtain ⟨s', hwalk, hlist, hs'⟩ := hok hfirst
      have hreturns : setupUDPServerConnection sock (some cs) =
          .ok (!(cs.dropWhile (!·.usable)).isEmpty, { s' with freed := true }) := by
        simp only [setupUDPServerConnection, hwalk, State.free_eq hlist hs', bind, Except.bind]
        cases (cs.dropWhile (!·.usable)).isEmpty <;> rfl
      refine ⟨_, _, hreturns, rfl, fun hnone => ?_⟩
      rw [Option.getD_some] at hnone
      rw [dropWhile_eq_nil hnone]
      rfl
    · refine iff_of_false ?_ ?_
      · have hfault : setupUDPServerConnection sock (some cs) = .error .readFreed := by
          simp only [setupUDPServerConnection, herror hfirst, bind, Except.bind]
        rw [hfault]
        exact not_usesListWell_error _ _ _
      · rintro ⟨_, ⟨⟩, hbinds⟩
        exact hfirst hbinds

/-! ### Clients -/

/-- The loop of a client ends at the first candidate that can be opened. -/
theorem walk_clientBody (sock : ℤ) (cs : List Candidate) :
    ∃ v, walk clientBody (State.start (some cs) (Attempt.start sock)) cs =
      .ok (cs.dropWhile (!·.opens), ⟨some cs, false, v⟩) := by
  have hwalk := walk_start clientBody_ok (.start sock) cs
  rw [scan_fst (p := Candidate.opens) fun _ _ => rfl] at hwalk
  exact ⟨_, hwalk⟩

/-- **When `setup_UDP_client_connection` uses the list well**: when it gets one. -/
theorem setupUDPClientConnection_iff (sock : ℤ) (info : Option (List Candidate)) :
    UsesListWell Candidate.opens info (setupUDPClientConnection sock info) ↔ info.isSome := by
  cases info with
  | none => exact iff_of_false (not_usesListWell_error _ _ _) (by simp)
  | some cs =>
    refine iff_of_true ?_ rfl
    obtain ⟨v, hwalk⟩ := walk_clientBody sock cs
    cases hi : cs.dropWhile (!·.opens) with
    | nil =>
      rw [hi] at hwalk
      refine ⟨false, ⟨some cs, true, v⟩, ?_, rfl, fun _ => rfl⟩
      simp only [setupUDPClientConnection, hwalk, bind, Except.bind]
      rfl
    | cons c rest =>
      rw [hi] at hwalk
      refine ⟨true, ⟨some cs, true, v.store c⟩, ?_, rfl, fun hnone => ?_⟩
      · simp only [setupUDPClientConnection, hwalk, bind, Except.bind]
        rfl
      · rw [Option.getD_some] at hnone
        rw [dropWhile_eq_nil hnone] at hi
        cases hi

/-- **When `initialize_client` uses the list well**: when it gets none. -/
theorem initializeClient_iff (sockFd : ℤ) (info : Option (List Candidate)) :
    UsesListWell Candidate.opens info (initializeClient sockFd info) ↔ info = none := by
  cases info with
  | none => exact iff_of_true ⟨false, _, rfl, rfl, fun _ => rfl⟩ rfl
  | some cs =>
    refine iff_of_false ?_ (by simp)
    obtain ⟨v, hwalk⟩ := walk_clientBody sockFd cs
    -- it ends at a candidate that is not there any more, or at none
    have hfault : ∃ fault, initializeClient sockFd (some cs) = .error fault := by
      cases hi : cs.dropWhile (!·.opens) with
      | nil =>
        rw [hi] at hwalk
        refine ⟨.readNull, ?_⟩
        simp only [initializeClient, hwalk, bind, Except.bind]
        rfl
      | cons c rest =>
        rw [hi] at hwalk
        refine ⟨.readFreed, ?_⟩
        simp only [initializeClient, hwalk, bind, Except.bind]
        rfl
    obtain ⟨fault, hfault⟩ := hfault
    rw [hfault]
    exact not_usesListWell_error _ _ _

/-! ### All three -/

/-- **When the address lists are used well**, in each of the routines. -/
theorem usesListWell_iff (sock : ℤ) (info : Option (List Candidate)) :
    (UsesListWell Candidate.usable info (setupUDPServerConnection sock info) ↔
        ∃ cs, info = some cs ∧ FirstOpenedBinds cs) ∧
      (UsesListWell Candidate.opens info (setupUDPClientConnection sock info) ↔ info.isSome) ∧
      (UsesListWell Candidate.opens info (initializeClient sock info) ↔ info = none) :=
  ⟨setupUDPServerConnection_iff sock info, setupUDPClientConnection_iff sock info, initializeClient_iff sock info⟩

/-- A candidate that can be opened and not bound, and one that can be both. -/
def boundCandidate (binds : Bool) : Candidate := ⟨.ipv4 (.replicate 16 0), some 4, binds⟩

/-- Of a list whose first candidate cannot be bound the second is asked for when it has been freed; without a list
one is freed; and the address of a client is taken from a list that has been freed. -/
theorem list_used_after_free :
    setupUDPServerConnection 0 (some [boundCandidate false, boundCandidate true]) = .error .readFreed ∧
      setupUDPClientConnection 0 none = .error .notObtained ∧
      initializeClient 0 (some [boundCandidate true]) = .error .readFreed ∧
      ¬ UsesListWell Candidate.usable (some [boundCandidate false, boundCandidate true])
        (setupUDPServerConnection 0 (some [boundCandidate false, boundCandidate true])) ∧
      ¬ UsesListWell Candidate.opens none (setupUDPClientConnection 0 none) ∧
      ¬ UsesListWell Candidate.opens (some [boundCandidate true]) (initializeClient 0 (some [boundCandidate true])) :=
  ⟨rfl, rfl, rfl, not_usesListWell_error _ _ .readFreed, not_usesListWell_error _ _ .notObtained,
    not_usesListWell_error _ _ .readFreed⟩

end Inferno.Sockets
