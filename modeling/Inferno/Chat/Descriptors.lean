import Inferno.Chat.FdSets
import Inferno.Lib.Runs

/-!
# The descriptors of a chat session

What the main loop calls are made on. `recv` and `close` are called on members of `temp_set`, which is
what was watched when the pass began, `send` on members of `client_set`, which is what is watched now. In
between the handlers close and accept, and `accept` may give a descriptor again that has just been
closed.

## What is proved

* `mainLoop_uses_open` — all the same each of these calls is on an accepted client that is open, as long as no
  descriptor is behind the end of an `fd_set`; `behind_the_set` is a run in which one is.
* `withinCapacity_iff` — a session stays within its capacity, and within an `fd_set`, exactly if nobody
  who connects makes it leave them: it turns nobody away. It is about the loop in steps of one handler
  each, and `exists_run_start` says that what the loop does in passes is a run of them.

## Scope

The listening socket stays open, and `accept` gives no descriptor that is open (`FreshAccepts`, and in
`Position.step`).
-/

namespace Inferno.Chat

open Machine

/-- The client that a call is made on. -/
def Call.client : Call → Option ℕ
  | .accept _ => none
  | .recv fd => some fd
  | .send fd _ => some fd
  | .close fd => some fd

/-- `P` holds of each call, and of the descriptors open at that moment; `o` are those at the start. -/
def EachCall (P : FdSet → Call → Prop) (o : FdSet) (cs : List Call) : Prop :=
  ∀ pre c post, cs = pre ++ c :: post → P (openAfter o pre) c

/-- `accept` gives a descriptor that is not open: neither the listening socket's nor a client's. -/
def FreshAccepts (connSocket : ℕ) : FdSet → List Call → Prop :=
  EachCall fun o c => ∀ fd, c = .accept (some fd) → fd ≠ connSocket ∧ fd ∉ o

/-- `recv`, `send` and `close` are called on clients that are open. -/
def UsesOpen : FdSet → List Call → Prop := EachCall fun o c => ∀ fd ∈ c.client, fd ∈ o

/-- No descriptor is closed twice without being accepted in between. -/
def ClosesOnce (cs : List Call) : Prop :=
  ∀ pre mid post fd, cs = pre ++ .close fd :: (mid ++ .close fd :: post) → .accept (some fd) ∈ mid

/-! ### Traces -/

variable {P : FdSet → Call → Prop} {o : FdSet} {cs ds : List Call}

theorem eachCall_nil : EachCall P o [] := by
  intro pre c post h
  simp at h

theorem eachCall_cons {c : Call} : EachCall P o (c :: cs) ↔ P o c ∧ EachCall P (openAfter o [c]) cs := by
  have hopen : ∀ pre, openAfter (openAfter o [c]) pre = openAfter o (c :: pre) := by
    intro pre
    rw [← openAfter_append, List.singleton_append]
  simp only [EachCall, hopen]
  exact forall_split_cons

theorem eachCall_append : EachCall P o (cs ++ ds) ↔ EachCall P o cs ∧ EachCall P (openAfter o cs) ds := by
  induction cs generalizing o with
  | nil => simp [eachCall_nil, openAfter]
  | cons c cs ih =>
    rw [List.cons_append, eachCall_cons, eachCall_cons, ih, and_assoc, ← openAfter_append, List.singleton_append]

/-- What is open was open at the start or has been accepted. -/
theorem mem_openAfter {fd : ℕ} (h : fd ∈ openAfter o cs) : fd ∈ o ∨ .accept (some fd) ∈ cs := by
  induction cs generalizing o with
  | nil => exact Or.inl h
  | cons c cs ih =>
    rw [← List.singleton_append, openAfter_append] at h
    rcases ih h with h | h
    · cases c with
      | accept fd' =>
        cases fd' with
        | none => exact Or.inl h
        | some fd' =>
          rcases Finset.mem_insert.mp h with rfl | h
          · exact Or.inr List.mem_cons_self
          · exact Or.inl h
      | recv fd' => exact Or.inl h
      | send fd' bytes => exact Or.inl h
      | close fd' => exact Or.inl (Finset.mem_of_mem_erase h)
    · exact Or.inr (List.mem_cons_of_mem _ h)

/-- **Who only closes what is open closes nothing twice.** -/
theorem UsesOpen.closesOnce (h : UsesOpen o cs) : ClosesOnce cs := by
  intro pre mid post fd hcs
  have hopen := h (pre ++ .close fd :: mid) (.close fd) post (by rw [hcs]; simp) fd rfl
  rw [← List.singleton_append, openAfter_append, openAfter_append] at hopen
  rcases mem_openAfter hopen with hclosed | hmem
  · exact absurd rfl (Finset.ne_of_mem_erase hclosed)
  · exact hmem

/-! ### One pass -/

/-- The invariant of a scan that has the candidates `is` before it: what is watched, and what of `temp_set`
is before it, is open, but for the listening socket. -/
structure Tracks (connSocket : ℕ) (s : Session) (o : FdSet) (is : List ℕ) : Prop where
  socket : s.connSocket = connSocket
  watched : ∀ i ∈ s.clientSet, i ≠ connSocket → i ∈ o
  ahead : ∀ i ∈ is, i ∈ s.tempSet → i ≠ connSocket → i ∈ o
  conn : connSocket ∉ o

/-- `handle_recv` sends to clients that are open. -/
theorem usesOpen_relay {connSocket : ℕ} {s : Session} {is : List ℕ} (h : Tracks connSocket s o is) (sender : ℕ)
    (bytes : List UInt8) : UsesOpen o (s.relay sender bytes) := by
  have hall : ∀ fds : List ℕ, (∀ fd ∈ fds, fd ∈ o) → UsesOpen o (fds.map (.send · bytes)) := by
    intro fds hfds
    induction fds with
    | nil => exact eachCall_nil
    | cons fd fds ih =>
      refine eachCall_cons.mpr ⟨?_, ih fun fd hfd => hfds fd (List.mem_cons_of_mem _ hfd)⟩
      rintro _ ⟨⟩
      exact hfds fd List.mem_cons_self
  refine hall _ fun fd hfd => ?_
  obtain ⟨hset, hconn, -⟩ := of_decide_eq_true (List.mem_filter.mp hfd).2
  exact h.watched fd hset (h.socket ▸ hconn)

/-- **A handler uses what is open**, and keeps the invariant for the candidates behind it. -/
theorem Tracks.handle {connSocket : ℕ} {s : Session} {p : Pass} {i : ℕ} {is : List ℕ}
    (h : Tracks connSocket s o (i :: is)) (hi : i ∉ is) (htemp : i ∈ s.tempSet)
    (hfresh : FreshAccepts connSocket o (s.handle p i).2) :
    UsesOpen o (s.handle p i).2 ∧ Tracks connSocket (s.handle p i).1 (openAfter o (s.handle p i).2) is := by
  have hahead : ∀ j ∈ is, j ∈ s.tempSet → j ≠ connSocket → j ∈ o := fun j hj => h.ahead j (List.mem_cons_of_mem _ hj)
  unfold Session.handle at hfresh ⊢
  rw [h.socket] at hfresh ⊢
  split_ifs at hfresh ⊢ with hconn
  · cases haccept : p.accepted with
    | none =>
      refine ⟨eachCall_cons.mpr ⟨?_, eachCall_nil⟩, h.socket, h.watched, hahead, h.conn⟩
      rintro _ ⟨⟩
    | some fd =>
      rw [haccept] at hfresh
      obtain ⟨hne, -⟩ := (eachCall_cons.mp hfresh).1 fd rfl
      refine ⟨eachCall_cons.mpr ⟨?_, eachCall_nil⟩, h.socket, fun j hj hjc => ?_, fun j hj ht hjc => ?_, ?_⟩
      · rintro _ ⟨⟩
      · rcases Finset.mem_insert.mp hj with rfl | hj
        · exact Finset.mem_insert_self _ _
        · exact Finset.mem_insert_of_mem (h.watched j hj hjc)
      · exact Finset.mem_insert_of_mem (hahead j hj ht hjc)
      · exact fun hmem => (Finset.mem_insert.mp hmem).elim (fun heq => hne heq.symm) h.conn
  · have hopen : i ∈ o := h.ahead i List.mem_cons_self htemp hconn
    unfold Session.handleRecv
    split_ifs with hbytes
    · refine ⟨eachCall_cons.mpr ⟨?_, eachCall_cons.mpr ⟨?_, eachCall_nil⟩⟩, h.socket, fun j hj hjc => ?_,
        fun j hj ht hjc => ?_, fun hmem => h.conn (Finset.mem_of_mem_erase hmem)⟩
      · rintro _ ⟨⟩
        exact hopen
      · rintro _ ⟨⟩
        exact hopen
      · obtain ⟨hji, hj⟩ := Finset.mem_erase.mp hj
        exact Finset.mem_erase.mpr ⟨hji, h.watched j hj hjc⟩
      · -- the candidates are different, so that it is another one that was closed
        refine Finset.mem_erase.mpr ⟨?_, hahead j hj ht hjc⟩
        rintro rfl
        exact hi hj
    · have hrelay : openAfter o (.recv i :: s.relay i (p.received i)) = o := by
        rw [← List.singleton_append, openAfter_append]
        exact openAfter_relay s o i _
      refine ⟨eachCall_cons.mpr ⟨?_, usesOpen_relay h i _⟩, ?_⟩
      · rintro _ ⟨⟩
        exact hopen
      · rw [hrelay]
        exact ⟨h.socket, h.watched, hahead, h.conn⟩

/-- **A scan uses what is open.** -/
theorem Tracks.scan {connSocket : ℕ} {s : Session} {p : Pass} {is : List ℕ} (h : Tracks connSocket s o is)
    (hnodup : is.Nodup) (hfresh : FreshAccepts connSocket o (s.scan p is).2) :
    UsesOpen o (s.scan p is).2 ∧ Tracks connSocket (s.scan p is).1 (openAfter o (s.scan p is).2) [] := by
  have hdone : ∀ {s : Session} {o : FdSet} {is : List ℕ}, Tracks connSocket s o is → Tracks connSocket s o [] :=
    fun h => ⟨h.socket, h.watched, by simp, h.conn⟩
  induction is generalizing s o with
  | nil => exact ⟨eachCall_nil, h⟩
  | cons i is ih =>
    obtain ⟨hi, hnodup⟩ := List.nodup_cons.mp hnodup
    unfold Session.scan at hfresh ⊢
    split_ifs at hfresh ⊢ with hmax htemp
    · obtain ⟨hfresh, hfresh'⟩ := eachCall_append.mp hfresh
      obtain ⟨huse, htracks⟩ := h.handle hi htemp hfresh
      obtain ⟨huse', htracks'⟩ := ih htracks hnodup hfresh'
      rw [openAfter_append]
      exact ⟨eachCall_append.mpr ⟨huse, huse'⟩, htracks'⟩
    · exact ih ⟨h.socket, h.watched, fun j hj => h.ahead j (List.mem_cons_of_mem _ hj), h.conn⟩ hnodup hfresh
    · exact ⟨eachCall_nil, hdone h⟩

/-! ### The main loop -/

/-- **A run of the main loop uses what is open.** -/
theorem Tracks.mainLoop {connSocket : ℕ} {s : Session} (h : Tracks connSocket s o []) (ps : List Pass)
    (hfresh : FreshAccepts connSocket o (s.mainLoop ps).2) : UsesOpen o (s.mainLoop ps).2 := by
  induction ps generalizing s o with
  | nil => exact eachCall_nil
  | cons p ps ih =>
    cases hready : p.ready with
    | none =>
      simp only [Session.mainLoop, Session.iterate, hready]
      exact eachCall_nil
    | some ready =>
      simp only [Session.mainLoop, Session.iterate, hready] at hfresh ⊢
      obtain ⟨hfresh, hfresh'⟩ := eachCall_append.mp hfresh
      -- the snapshot is what was watched
      have hpass : Tracks connSocket { s with tempSet := s.clientSet, clientSet := s.clientSet ∩ ready } o
          (List.range (s.clientSet.sup id + 1)) :=
        ⟨h.socket, fun i hi => h.watched i (Finset.mem_of_mem_inter_left hi), fun i _ => h.watched i, h.conn⟩
      obtain ⟨huse, htracks⟩ := hpass.scan List.nodup_range hfresh
      exact eachCall_append.mpr ⟨huse, ih htracks hfresh'⟩

/-- A session that was made with rosters uses what is open. -/
theorem start_uses_open (junk : Session) (maxClients teamSize : Int32) (redClients blueClients : List ClientPtr)
    (connSocket : ℕ) (ps : List Pass)
    (hfresh : FreshAccepts connSocket ∅
      ((junk.construct maxClients teamSize (.teams redClients blueClients)).start connSocket ps).2) :
    UsesOpen ∅ ((junk.construct maxClients teamSize (.teams redClients blueClients)).start connSocket ps).2 := by
  have hstart : Tracks connSocket
      ((junk.construct maxClients teamSize (.teams redClients blueClients)).enterMainLoop connSocket) ∅ [] := by
    refine ⟨rfl, fun i hi hne => ?_, by simp, Finset.notMem_empty _⟩
    rcases Finset.mem_insert.mp hi with rfl | hi
    · exact absurd rfl hne
    · exact hi
  exact hstart.mainLoop ps hfresh

/-- **No closed descriptor is used**, in any run of a session that was made with rosters and whose descriptors are
inside an `fd_set`: whatever is received from, sent to or closed is an accepted client that is open, and
nothing is closed twice. A `send` may end the process, so that `cs` is any part of the run's calls from
their start. -/
theorem mainLoop_uses_open (junk : SessionImage) (maxClients teamSize : Int32)
    (redClients blueClients : List ClientPtr) {connSocket : ℕ} (hconn : connSocket < fdSetSize) {ps : List Pass}
    (hps : ∀ p ∈ ps, p.Fits)
    (hfresh : FreshAccepts connSocket ∅
      ((junk.construct maxClients teamSize (.teams redClients blueClients)).start connSocket ps).2)
    {cs : List Call}
    (hcs : cs <+: ((junk.construct maxClients teamSize (.teams redClients blueClients)).start connSocket ps).2) :
    UsesOpen ∅ cs ∧ ClosesOnce cs := by
  have hview := congrArg Prod.snd (start_view junk maxClients teamSize redClients blueClients hconn hps)
  simp only [Prod.map_snd, id_eq] at hview
  rw [hview] at hfresh hcs
  obtain ⟨ds, hds⟩ := hcs
  have huse := start_uses_open junk.view maxClients teamSize redClients blueClients connSocket ps hfresh
  rw [← hds] at huse
  have huse : UsesOpen ∅ cs := (eachCall_append.mp huse).1
  exact ⟨huse, huse.closesOnce⟩

/-- A run of a session in memory that was all zeros. -/
def sample (connSocket : ℕ) (ps : List Pass) : SessionImage × List Call :=
  (SessionImage.construct ⟨0, 0, 0, 0, ∅, [], []⟩ 6 3 (.teams [] [])).start connSocket ps

/-- Client `4` leaves, and in the same pass another gets its descriptor, and leaves. -/
theorem descriptor_reused :
    UsesOpen ∅ (sample 5 [⟨some {5}, some 4, fun _ => []⟩, ⟨some {4, 5}, some 4, fun _ => []⟩,
        ⟨some {4}, none, fun _ => []⟩]).2 ∧
      ClosesOnce (sample 5 [⟨some {5}, some 4, fun _ => []⟩, ⟨some {4, 5}, some 4, fun _ => []⟩,
        ⟨some {4}, none, fun _ => []⟩]).2 := by
  have hcalls : (sample 5 [⟨some {5}, some 4, fun _ => []⟩, ⟨some {4, 5}, some 4, fun _ => []⟩,
      ⟨some {4}, none, fun _ => []⟩]).2 =
      [.accept (some 4), .recv 4, .close 4, .accept (some 4), .recv 4, .close 4, .accept none] := by decide
  refine mainLoop_uses_open _ 6 3 [] [] (show 5 < fdSetSize by decide) (fun p hp => ?_) ?_ (List.prefix_refl _)
  · simp only [List.mem_cons, List.not_mem_nil, or_false] at hp
    rcases hp with rfl | rfl | rfl <;> rintro _ ⟨⟩ <;> decide
  · refine Eq.subst (motive := FreshAccepts 5 ∅) hcalls.symm ?_
    simp [FreshAccepts, eachCall_cons, eachCall_nil, openAfter]

/-- On listening socket `3` somebody gets descriptor `1030`, which is `6` in `temp_set`: `recv` and `close` are called
on `6`, which nobody has accepted. -/
theorem behind_the_set :
    FreshAccepts 3 ∅ (sample 3 [⟨some {3}, some 1030, fun _ => []⟩]).2 ∧
      ¬ (UsesOpen ∅ (sample 3 [⟨some {3}, some 1030, fun _ => []⟩]).2 ∧
        ClosesOnce (sample 3 [⟨some {3}, some 1030, fun _ => []⟩]).2) := by
  have hcalls : (sample 3 [⟨some {3}, some 1030, fun _ => []⟩]).2 = [.accept (some 1030), .recv 6, .close 6] := by
    decide +kernel
  rw [hcalls]
  refine ⟨by simp [FreshAccepts, eachCall_cons, eachCall_nil, openAfter], fun h => ?_⟩
  have hopen := h.1 [.accept (some 1030)] (.recv 6) [.close 6] rfl 6 rfl
  exact absurd hopen (by decide)

/-! ### Capacity -/

/-- Where the main loop stands: the session, the candidates of the scan that are before it, and the
accepted descriptors not yet closed. -/
structure Position where
  session : Session
  pending : List ℕ
  opened : FdSet

/-- What the system calls give, one at a time. -/
inductive Event where
  | select (ready : FdSet)
  | accept (fd : Option ℕ)
  | recv (bytes : List UInt8)

/-- The next candidate that a handler is called for, and those behind it. -/
def Session.next (s : Session) : List ℕ → Option (ℕ × List ℕ)
  | [] => none
  | i :: is =>
    if i ≤ s.maxFd then
      if i ∈ s.tempSet then some (i, is) else s.next is
    else none

/-- The main loop up to its next handler: `select` where the scan is over, and else the handler of the next
candidate. -/
def Position.step (pos : Position) : Event → Option Position
  | .select ready =>
    match pos.session.next pos.pending with
    | none => some ⟨pos.session.selected ready, List.range (pos.session.clientSet.sup id + 1), pos.opened⟩
    | some _ => none
  | .accept fd =>
    match pos.session.next pos.pending with
    | none => none
    | some (i, is) =>
      if i = pos.session.connSocket ∧ ∀ fd' ∈ fd, fd' ≠ pos.session.connSocket ∧ fd' ∉ pos.opened then
        some ⟨(pos.session.handleAccept fd).1, is, openAfter pos.opened (pos.session.handleAccept fd).2⟩
      else none
  | .recv bytes =>
    match pos.session.next pos.pending with
    | none => none
    | some (i, is) =>
      if i = pos.session.connSocket then none
      else
        some ⟨(pos.session.handleRecv i bytes).1, is, openAfter pos.opened (pos.session.handleRecv i bytes).2⟩

/-- A session that enters the main loop. -/
def Session.entered (s : Session) (connSocket : ℕ) : Position := ⟨s.enterMainLoop connSocket, [], ∅⟩

/-- What a session should keep to: there are no more clients than `MAXCLIENTS`, each descriptor in `client_set` is
inside an `fd_set`, and those that are looked up are, too. -/
structure WithinCapacity (pos : Position) : Prop where
  clients : pos.opened.card ≤ pos.session.maxClients.toNat
  put : ∀ fd ∈ pos.session.clientSet, fd < fdSetSize
  lookedUp : pos.session.maxFd < fdSetSize

/-- Whoever connects finds fewer than `MAXCLIENTS` clients, and gets a descriptor that is inside an `fd_set`. -/
def FindsRoom (pos : Position) (e : Event) : Prop :=
  ∀ fd, e = .accept (some fd) → pos.opened.card < pos.session.maxClients.toNat ∧ fd < fdSetSize

/-- **What a step does**: `select` takes descriptors out of `client_set`, `accept` puts one in that was not
open, if any, and `recv` closes one at most. -/
theorem Position.step_cases {pos pos' : Position} {e : Event} (h : pos.step e = some pos') :
    pos'.session.maxClients = pos.session.maxClients ∧
      ((∃ fd, e = .accept (some fd) ∧ fd ∉ pos.opened ∧ pos'.opened = insert fd pos.opened ∧
          pos'.session.clientSet = insert fd pos.session.clientSet ∧
          pos'.session.maxFd = if pos.session.maxFd < fd then fd else pos.session.maxFd) ∨
        (∀ fd, e ≠ .accept (some fd)) ∧ pos'.opened ⊆ pos.opened ∧
          pos'.session.clientSet ⊆ pos.session.clientSet ∧ pos'.session.maxFd = pos.session.maxFd) := by
  cases hnext : pos.session.next pos.pending with
  | none =>
    cases e with
    | select ready =>
      simp only [Position.step, hnext, Option.some.injEq] at h
      subst h
      exact ⟨rfl, Or.inr ⟨by simp, Finset.Subset.refl _, Finset.inter_subset_left, rfl⟩⟩
    | accept fd => simp [Position.step, hnext] at h
    | recv bytes => simp [Position.step, hnext] at h
  | some found =>
    obtain ⟨i, is⟩ := found
    cases e with
    | select ready => simp [Position.step, hnext] at h
    | accept fd =>
      simp only [Position.step, hnext, Option.ite_none_right_eq_some, Option.some.injEq] at h
      obtain ⟨⟨-, hfresh⟩, rfl⟩ := h
      cases fd with
      | none => exact ⟨rfl, Or.inr ⟨by simp, Finset.Subset.refl _, Finset.Subset.refl _, rfl⟩⟩
      | some fd => exact ⟨rfl, Or.inl ⟨fd, rfl, (hfresh fd rfl).2, rfl, rfl, rfl⟩⟩
    | recv bytes =>
      simp only [Position.step, hnext, Option.ite_none_left_eq_some, Option.some.injEq] at h
      obtain ⟨-, rfl⟩ := h
      unfold Session.handleRecv
      split_ifs with hbytes
      · exact ⟨rfl, Or.inr ⟨by simp, Finset.erase_subset _ _, Finset.erase_subset _ _, rfl⟩⟩
      · refine ⟨rfl, Or.inr ⟨by simp, ?_, Finset.Subset.refl _, rfl⟩⟩
        show openAfter pos.opened (pos.session.relay i bytes) ⊆ pos.opened
        rw [openAfter_relay]

/-- **A step stays within the capacity** exactly if it does not connect somebody who finds no room. -/
theorem withinCapacity_step_iff {pos pos' : Position} {e : Event} (hpos : WithinCapacity pos)
    (h : pos.step e = some pos') : WithinCapacity pos' ↔ FindsRoom pos e := by
  obtain ⟨hclients, hput, hlookedUp⟩ := hpos
  obtain ⟨hmax, ⟨fd, rfl, hfresh, hopened, hset, hmaxFd⟩ | ⟨hne, hopened, hset, hmaxFd⟩⟩ := pos.step_cases h
  · have hcard : pos'.opened.card = pos.opened.card + 1 := by rw [hopened, Finset.card_insert_of_notMem hfresh]
    constructor
    · rintro ⟨hclients', hput', -⟩ _ ⟨⟩
      rw [hcard, hmax] at hclients'
      refine ⟨hclients', hput' fd ?_⟩
      rw [hset]
      exact Finset.mem_insert_self _ _
    · intro hroom
      obtain ⟨hlt, hfd⟩ := hroom fd rfl
      refine ⟨?_, fun fd' hfd' => ?_, ?_⟩
      · rw [hcard, hmax]
        exact hlt
      · rw [hset] at hfd'
        rcases Finset.mem_insert.mp hfd' with rfl | hfd'
        · exact hfd
        · exact hput fd' hfd'
      · rw [hmaxFd]
        split_ifs <;> assumption
  · refine iff_of_true ⟨?_, fun fd hfd => hput fd (hset hfd), ?_⟩ fun fd he => absurd he (hne fd)
    · rw [hmax]
      exact (Finset.card_le_card hopened).trans hclients
    · rw [hmaxFd]
      exact hlookedUp

/-- **When a session stays within its capacity** in every state of a run: when the listening socket is inside an
`fd_set` and everybody who connects finds room. -/
theorem withinCapacity_iff (junk : Session) (maxClients teamSize : Int32) (ctor : Ctor) (connSocket : ℕ)
    (hjunk : ∀ fd ∈ junk.clientSet, fd < fdSetSize) {events : List Event} {pos : Position}
    (hrun : run Position.step ((junk.construct maxClients teamSize ctor).entered connSocket) events = some pos) :
    EachState Position.step WithinCapacity ((junk.construct maxClients teamSize ctor).entered connSocket) events ↔
      connSocket < fdSetSize ∧
        EachStep Position.step FindsRoom ((junk.construct maxClients teamSize ctor).entered connSocket) events := by
  have hclear : ∀ fd ∈ (junk.construct maxClients teamSize ctor).clientSet, fd < fdSetSize := by
    cases ctor with
    | teams red blue => exact fun fd hfd => absurd hfd (Finset.notMem_empty fd)
    | bare => exact hjunk
  by_cases hconn : connSocket < fdSetSize
  · rw [and_iff_right hconn]
    refine eachState_iff_eachStep (I := fun _ => True) trivial ⟨Nat.zero_le _, fun fd hfd => ?_, hconn⟩
      (fun _ _ _ _ _ => trivial) (fun _ _ _ _ hpos hstep => withinCapacity_step_iff hpos hstep) hrun
    rcases Finset.mem_insert.mp hfd with rfl | hfd
    · exact hconn
    · exact hclear fd hfd
  · refine iff_of_false (fun h => ?_) fun h => hconn h.1
    exact hconn (h [] events _ rfl rfl).lookedUp

/-- A client that finds room for one, and says something. -/
theorem withinCapacity_one :
    EachState Position.step WithinCapacity ((Session.construct ⟨0, 0, 0, 0, ∅, ∅, [], []⟩ 1 3 (.teams [] [])).entered 3)
        [.select {3}, .accept (some 4), .select {3, 4}, .accept none, .recv [104]] ↔
      3 < fdSetSize ∧
        EachStep Position.step FindsRoom ((Session.construct ⟨0, 0, 0, 0, ∅, ∅, [], []⟩ 1 3 (.teams [] [])).entered 3)
          [.select {3}, .accept (some 4), .select {3, 4}, .accept none, .recv [104]] :=
  withinCapacity_iff _ 1 3 (.teams [] []) 3 (by simp) rfl

/-- A session for one client admits a second, and one for 2000 a descriptor behind the end of its set. -/
theorem capacity_exceeded :
    ¬ EachState Position.step WithinCapacity
        ((Session.construct ⟨0, 0, 0, 0, ∅, ∅, [], []⟩ 1 3 (.teams [] [])).entered 3)
        [.select {3}, .accept (some 4), .select {3, 4}, .accept (some 5)] ∧
      ¬ EachState Position.step WithinCapacity
        ((Session.construct ⟨0, 0, 0, 0, ∅, ∅, [], []⟩ 2000 3 (.teams [] [])).entered 3)
        [.select {3}, .accept (some 1024)] := by
  constructor
  · intro h
    have hlast := h [.select {3}, .accept (some 4), .select {3, 4}, .accept (some 5)] [] _ rfl rfl
    exact absurd hlast.clients (by decide)
  · intro h
    have hlast := h [.select {3}, .accept (some 1024)] [] _ rfl rfl
    exact absurd (hlast.put 1024 (by decide)) (by decide)

/-! ### The passes are runs of the steps -/

/-- Two positions with the same next candidate step alike. -/
theorem Position.step_congr {s : Session} {is js : List ℕ} (h : s.next is = s.next js) (o : FdSet) (e : Event) :
    Position.step ⟨s, is, o⟩ e = Position.step ⟨s, js, o⟩ e := by
  cases e <;> simp only [Position.step, h]

/-- A candidate is handled in one step. -/
theorem Position.step_handle {s : Session} {p : Pass} {i : ℕ} {is js : List ℕ} (h : s.next js = some (i, is))
    (hfresh : FreshAccepts s.connSocket o (s.handle p i).2) :
    Position.step ⟨s, js, o⟩ (if i = s.connSocket then .accept p.accepted else .recv (p.received i)) =
      some ⟨(s.handle p i).1, is, openAfter o (s.handle p i).2⟩ := by
  unfold Session.handle at hfresh ⊢
  split_ifs at hfresh ⊢ with hi
  · have hnew : ∀ fd ∈ p.accepted, fd ≠ s.connSocket ∧ fd ∉ o := by
      intro fd hfd
      rw [Option.mem_def.mp hfd] at hfresh
      exact (eachCall_cons.mp hfresh).1 fd rfl
    simp only [Position.step, h]
    exact if_pos ⟨hi, hnew⟩
  · simp only [Position.step, h, if_neg hi]

/-- A scan is a run that ends where no candidate is left. -/
theorem exists_run_scan (s : Session) (p : Pass) (is : List ℕ)
    (hfresh : FreshAccepts s.connSocket o (s.scan p is).2) :
    ∃ events js, run Position.step ⟨s, is, o⟩ events = some ⟨(s.scan p is).1, js, openAfter o (s.scan p is).2⟩ ∧
      (s.scan p is).1.next js = none := by
  induction is generalizing s o with
  | nil => exact ⟨[], [], rfl, rfl⟩
  | cons i is ih =>
    unfold Session.scan at hfresh ⊢
    by_cases hi : i ≤ s.maxFd
    · by_cases htemp : i ∈ s.tempSet
      · simp only [if_pos hi, if_pos htemp] at hfresh ⊢
        obtain ⟨hfirst, hrest⟩ := eachCall_append.mp hfresh
        have hnext : s.next (i :: is) = some (i, is) := by rw [Session.next, if_pos hi, if_pos htemp]
        obtain ⟨events, js, hrun, hover⟩ := ih (s.handle p i).1 ((handle_spec s p i).1 ▸ hrest)
        refine ⟨(if i = s.connSocket then .accept p.accepted else .recv (p.received i)) :: events, js, ?_, hover⟩
        rw [run, Position.step_handle hnext hfirst, openAfter_append]
        exact hrun
      · -- passed over, so that the run is the one from the candidates behind it
        simp only [if_pos hi, if_neg htemp] at hfresh ⊢
        have hnext : s.next (i :: is) = s.next is := by rw [Session.next, if_pos hi, if_neg htemp]
        obtain ⟨events, js, hrun, hover⟩ := ih s hfresh
        cases events with
        | nil =>
          obtain ⟨hs, hjs, ho⟩ := Position.mk.inj (Option.some.inj hrun)
          rw [← hs, ← hjs] at hover
          refine ⟨[], i :: is, ?_, ?_⟩
          · rw [run_nil, ← hs, ← ho]
          · rw [← hs, hnext]
            exact hover
        | cons e events =>
          refine ⟨e :: events, js, ?_, hover⟩
          rw [run, Position.step_congr hnext]
          exact hrun
    · simp only [if_neg hi]
      exact ⟨[], i :: is, rfl, if_neg hi⟩

/-- **Every run of the main loop is a run of its steps**, in which the same clients are open at the end. -/
theorem exists_run_mainLoop (s : Session) {is : List ℕ} (hover : s.next is = none) (ps : List Pass)
    (hfresh : FreshAccepts s.connSocket o (s.mainLoop ps).2) :
    ∃ events js, run Position.step ⟨s, is, o⟩ events =
      some ⟨(s.mainLoop ps).1, js, openAfter o (s.mainLoop ps).2⟩ := by
  induction ps generalizing s is o with
  | nil => exact ⟨[], is, rfl⟩
  | cons p ps ih =>
    cases hit : s.iterate p with
    | none =>
      simp only [Session.mainLoop, hit]
      exact ⟨[], is, rfl⟩
    | some result =>
      obtain ⟨s', cs⟩ := result
      simp only [Session.mainLoop, hit] at hfresh ⊢
      obtain ⟨ready, -, hscan⟩ := iterate_eq_some_iff.mp hit
      obtain ⟨hpass, hrest⟩ := eachCall_append.mp hfresh
      obtain rfl : ((s.selected ready).scan p _).2 = cs := congrArg Prod.snd hscan
      obtain rfl : ((s.selected ready).scan p _).1 = s' := congrArg Prod.fst hscan
      obtain ⟨events, js, hrun, hover'⟩ := exists_run_scan (s.selected ready) p _ hpass
      have hconn : ((s.selected ready).scan p (List.range (s.clientSet.sup id + 1))).1.connSocket = s.connSocket :=
        scan_induction (s := s.selected ready) (P := fun s' => s'.connSocket = s.connSocket)
          (fun s i hs => (handle_spec s p i).1.trans hs) rfl _
      obtain ⟨events', js', hrun'⟩ := ih _ hover' (hconn ▸ hrest)
      refine ⟨.select ready :: (events ++ events'), js', ?_⟩
      have hselect : Position.step ⟨s, is, o⟩ (.select ready) =
          some ⟨s.selected ready, List.range (s.clientSet.sup id + 1), o⟩ := by
        simp only [Position.step, hover]
      rw [run, hselect, openAfter_append]
      show run Position.step _ (events ++ events') = _
      rw [run_append, hrun]
      exact hrun'

/-- **What `start` does is a run of the steps** that `withinCapacity_iff` is about. -/
theorem exists_run_start (s : Session) (connSocket : ℕ) (ps : List Pass)
    (hfresh : FreshAccepts connSocket ∅ (s.start connSocket ps).2) :
    ∃ events js, run Position.step (s.entered connSocket) events =
      some ⟨(s.start connSocket ps).1, js, openAfter ∅ (s.start connSocket ps).2⟩ :=
  exists_run_mainLoop (s.enterMainLoop connSocket) rfl ps hfresh

end Inferno.Chat
