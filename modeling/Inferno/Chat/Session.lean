import Mathlib.Data.Finset.Lattice.Fold
import Mathlib.Data.List.Range
import Mathlib.Order.Lattice.Nat

/-!
# The chat session

`Session`: the two constructors, the two rosters, the main loop and its two
handlers. What `select`, `accept` and `recv` give in one iteration of the main loop is
a `Pass`; the loop run on a list of them leaves the session and the calls it made, in order.

An `fd_set` is here the finite set of its descriptors, with no bound on them. In memory it is
`FD_SETSIZE` bits, and that the loop does the same over those, as long as no descriptor is
behind their end, is what `Chat.FdSets` shows.

`temp_set` gets a copy of `client_set`, and it is `client_set` that goes to
`select`, which overwrites it. So the scan goes over the set of everything
watched, and the set of everything watched shrinks to what was ready.

What is *not* modelled: the log file, the printed lines, and the address that
`accept` reports. A `send` to a client that has gone may end the process (`SIGPIPE`); what
the session has called until then is a prefix of the calls here.
-/

namespace Inferno.Chat

/-- `FD_SETSIZE`. -/
def fdSetSize : ℕ := 1024

/-- `fd_set`, as the set of its descriptors. -/
abbrev FdSet := Finset ℕ

/-- A `Client*`: its address. -/
abbrev ClientPtr := ℕ

/-- `class Session`. -/
structure Session where
  maxClients : UInt32
  teamSize : UInt32
  connSocket : ℕ
  maxFd : ℕ
  clientSet : FdSet
  tempSet : FdSet
  redClients : List ClientPtr
  blueClients : List ClientPtr

/-- The two constructors: `Session(int, int, list*, list*)` and `Session(int, int)`. -/
inductive Ctor where
  | teams (redClients blueClients : List ClientPtr)
  | bare

/-- A session as a constructor leaves it. A member the constructor does not assign keeps
what was in memory before, `junk`; only the first constructor clears the two sets. -/
def Session.construct (junk : Session) (maxClients teamSize : Int32) : Ctor → Session
  | .teams red blue =>
    { junk with maxClients := maxClients.toUInt32, teamSize := teamSize.toUInt32,
                redClients := red, blueClients := blue, clientSet := ∅, tempSet := ∅ }
  | .bare =>
    { junk with maxClients := maxClients.toUInt32, teamSize := teamSize.toUInt32,
                redClients := [], blueClients := [] }

/-- The calls a session makes on its descriptors. -/
inductive Call where
  /-- `accept` on the listening socket, and the descriptor it gave, if any. -/
  | accept (fd : Option ℕ)
  /-- `recv` on a descriptor. -/
  | recv (fd : ℕ)
  /-- `send` of some bytes to a descriptor. -/
  | send (fd : ℕ) (bytes : List UInt8)
  /-- `close`. -/
  | close (fd : ℕ)
  deriving DecidableEq

/-- `Session::handle_accept`, given what `accept` returns (`none` for an error). -/
def Session.handleAccept (s : Session) : Option ℕ → Session × List Call
  | none => (s, [.accept none])
  | some fd =>
    ({ s with clientSet := insert fd s.clientSet, maxFd := if s.maxFd < fd then fd else s.maxFd },
      [.accept (some fd)])

/-- The `send`s of `Session::handle_recv`: `for(i = 0; i < max_fd; i++)`. -/
def Session.relay (s : Session) (sender : ℕ) (bytes : List UInt8) : List Call :=
  ((List.range s.maxFd).filter fun i => i ∈ s.clientSet ∧ i ≠ s.connSocket ∧ i ≠ sender).map (.send · bytes)

/-- `Session::handle_recv`, given the bytes `recv` puts in the buffer (none when it
returns `0` or `-1`, which the source treats alike). -/
def Session.handleRecv (s : Session) (sender : ℕ) (bytes : List UInt8) : Session × List Call :=
  if bytes = [] then
    ({ s with clientSet := s.clientSet.erase sender }, [.recv sender, .close sender])
  else
    (s, .recv sender :: s.relay sender bytes)

/-- What the system calls give in one iteration of the main loop. -/
structure Pass where
  /-- The descriptors `select` reports readable, or `none` when it fails. -/
  ready : Option FdSet
  /-- What `accept` returns. -/
  accepted : Option ℕ
  /-- The bytes `recv` delivers on each descriptor. -/
  received : ℕ → List UInt8

/-- The body of the scan, for a descriptor that is in `temp_set`. -/
def Session.handle (s : Session) (p : Pass) (i : ℕ) : Session × List Call :=
  if i = s.connSocket then s.handleAccept p.accepted else s.handleRecv i (p.received i)

/-- `for(i = 0; i <= max_fd; i++) if(FD_ISSET(i, &temp_set)) …`, over the candidates
`i` in order. The handlers may raise `max_fd` while the scan runs. -/
def Session.scan (p : Pass) : Session → List ℕ → Session × List Call
  | s, [] => (s, [])
  | s, i :: is =>
    if i ≤ s.maxFd then
      if i ∈ s.tempSet then
        let (s₁, cs₁) := s.handle p i
        let (s₂, cs₂) := Session.scan p s₁ is
        (s₂, cs₁ ++ cs₂)
      else Session.scan p s is
    else (s, [])

/-- One iteration of the main loop. `select` overwrites the set it is given with the
part of it that is ready; when it fails the loop returns. No candidate above the
largest member of `temp_set` is in it, so the scan stops there. -/
def Session.iterate (s : Session) (p : Pass) : Option (Session × List Call) :=
  match p.ready with
  | none => none
  | some ready =>
    let s := { s with tempSet := s.clientSet, clientSet := s.clientSet ∩ ready }
    some (Session.scan p s (List.range (s.tempSet.sup id + 1)))

/-- `Session::start` up to the loop: the bound listening socket, then the first two
statements of `enter_main_loop`. -/
def Session.enterMainLoop (s : Session) (connSocket : ℕ) : Session :=
  { s with connSocket := connSocket, clientSet := insert connSocket s.clientSet, maxFd := connSocket }

/-- The main loop, until `select` fails or `ps` ends: the session, and the calls in order. -/
def Session.mainLoop : Session → List Pass → Session × List Call
  | s, [] => (s, [])
  | s, p :: ps =>
    match s.iterate p with
    | none => (s, [])
    | some (s', cs) =>
      let (s'', cs') := s'.mainLoop ps
      (s'', cs ++ cs')

/-- `Session::start`, given the listening socket. -/
def Session.start (s : Session) (connSocket : ℕ) (ps : List Pass) : Session × List Call :=
  (s.enterMainLoop connSocket).mainLoop ps

/-- The descriptors a call is made on. -/
def Call.handled (connSocket : ℕ) : Call → Option ℕ
  | .accept _ => some connSocket
  | .recv fd => some fd
  | _ => none

/-- The accepted descriptors not yet closed, after some calls. -/
def openAfter (opened : FdSet) (cs : List Call) : FdSet :=
  cs.foldl (fun o c => match c with
    | .accept (some fd) => insert fd o
    | .close fd => o.erase fd
    | _ => o) opened

theorem openAfter_append (o : FdSet) (cs₁ cs₂ : List Call) :
    openAfter o (cs₁ ++ cs₂) = openAfter (openAfter o cs₁) cs₂ := by simp [openAfter]

/-- Sending neither opens nor closes. -/
theorem openAfter_relay (s : Session) (o : FdSet) (sender : ℕ) (bytes : List UInt8) :
    openAfter o (s.relay sender bytes) = o := by
  unfold Session.relay
  generalize (List.range s.maxFd).filter _ = is
  induction is with
  | nil => rfl
  | cons i is ih => simpa [openAfter] using ih

/-- The descriptors that some calls handle. -/
def handled (connSocket : ℕ) (cs : List Call) : List ℕ := cs.filterMap (Call.handled connSocket)

theorem handled_append (c : ℕ) (cs₁ cs₂ : List Call) :
    handled c (cs₁ ++ cs₂) = handled c cs₁ ++ handled c cs₂ := by simp [handled]

theorem handled_relay (c : ℕ) (s : Session) (sender : ℕ) (bytes : List UInt8) :
    handled c (s.relay sender bytes) = [] := by
  simp [handled, Session.relay, List.filterMap_eq_nil_iff, Call.handled]

/-! ### What a handler and a scan do -/

/-- Neither handler changes the listening socket or `temp_set`, neither lowers
`max_fd`, and each handles the one descriptor it is called for. -/
theorem handle_spec (s : Session) (p : Pass) (i : ℕ) :
    (s.handle p i).1.connSocket = s.connSocket ∧ (s.handle p i).1.tempSet = s.tempSet ∧
      s.maxFd ≤ (s.handle p i).1.maxFd ∧ handled s.connSocket (s.handle p i).2 = [i] := by
  unfold Session.handle
  split_ifs with hi
  · subst hi
    cases p.accepted with
    | none => exact ⟨rfl, rfl, le_rfl, rfl⟩
    | some fd =>
      refine ⟨rfl, rfl, ?_, rfl⟩
      simp only [Session.handleAccept]
      split_ifs <;> omega
  · unfold Session.handleRecv
    split_ifs with hb
    · exact ⟨rfl, rfl, le_rfl, rfl⟩
    · refine ⟨rfl, rfl, le_rfl, ?_⟩
      show i :: handled _ (s.relay i _) = [i]
      rw [handled_relay]

/-- **What the handlers keep** a scan keeps. -/
theorem scan_induction {s : Session} {p : Pass} {P : Session → Prop} (hstep : ∀ s i, P s → P (s.handle p i).1)
    (h : P s) (is : List ℕ) :
    P (s.scan p is).1 := by
  induction is generalizing s with
  | nil => exact h
  | cons j is ih =>
    unfold Session.scan
    split_ifs
    · exact ih (hstep s j h)
    · exact ih h
    · exact h

/-- Nothing is watched above `max_fd`. -/
def Session.Bounded (s : Session) : Prop := ∀ i ∈ s.clientSet, i ≤ s.maxFd

/-- Nothing above `max_fd` is watched, after a handler as before. -/
theorem bound_handle {s : Session} (hbound : s.Bounded) (p : Pass) (i : ℕ) : (s.handle p i).1.Bounded := by
  unfold Session.handle
  split_ifs with hi
  · cases p.accepted with
    | none => exact hbound
    | some fd =>
      intro j hj
      simp only [Session.handleAccept, Finset.mem_insert] at hj ⊢
      have hle : j = fd ∨ j ≤ s.maxFd := hj.imp id (hbound j)
      split_ifs <;> omega
  · unfold Session.handleRecv
    split_ifs
    · exact fun j hj => hbound j (Finset.mem_of_mem_erase hj)
    · exact hbound

/-- The loop's invariant: the listening socket and everything open (`o`) are watched,
and nothing watched is above `max_fd`. -/
structure Watches (s : Session) (o : FdSet) : Prop where
  conn : s.connSocket ∈ s.clientSet
  opened : o ⊆ s.clientSet
  bound : s.Bounded

/-- Both handlers keep the invariant. -/
theorem handle_watches {s : Session} {o : FdSet} (h : Watches s o) (p : Pass) (i : ℕ) :
    Watches (s.handle p i).1 (openAfter o (s.handle p i).2) := by
  obtain ⟨hc, ho, hb⟩ := h
  have hbound := bound_handle hb p i
  unfold Session.handle at hbound ⊢
  split_ifs at hbound ⊢ with hi
  · cases hacc : p.accepted with
    | none => exact ⟨hc, ho, hb⟩
    | some fd => exact ⟨Finset.mem_insert_of_mem hc, Finset.insert_subset_insert fd ho, hacc ▸ hbound⟩
  · unfold Session.handleRecv at hbound ⊢
    split_ifs at hbound ⊢ with hbytes
    · exact ⟨Finset.mem_erase.mpr ⟨fun h => hi h.symm, hc⟩, Finset.erase_subset_erase i ho, hbound⟩
    · refine ⟨hc, ?_, hb⟩
      show openAfter o (s.relay i _) ⊆ _
      rw [openAfter_relay]
      exact ho

/-- A scan keeps the invariant, the listening socket and `temp_set`. -/
theorem scan_watches {s : Session} {o : FdSet} (h : Watches s o) (p : Pass) (is : List ℕ) :
    Watches (s.scan p is).1 (openAfter o (s.scan p is).2) ∧ (s.scan p is).1.connSocket = s.connSocket := by
  induction is generalizing s o with
  | nil => exact ⟨h, rfl⟩
  | cons i is ih =>
    unfold Session.scan
    split_ifs with hi ht
    · obtain ⟨hw, hc⟩ := ih (handle_watches h p i)
      refine ⟨?_, hc.trans (handle_spec s p i).1⟩
      rw [openAfter_append]
      exact hw
    · exact ih h
    · exact ⟨h, rfl⟩

/-- A scan handles members of `temp_set` only. -/
theorem scan_handled_subset (s : Session) (p : Pass) (is : List ℕ) {i : ℕ}
    (h : i ∈ handled s.connSocket (s.scan p is).2) : i ∈ s.tempSet := by
  induction is generalizing s with
  | nil => simp [Session.scan, handled] at h
  | cons j is ih =>
    unfold Session.scan at h
    split_ifs at h with hj ht
    · obtain ⟨hc, htemp, -, hh⟩ := handle_spec s p j
      rw [handled_append, hh, List.mem_append, List.mem_singleton] at h
      rcases h with rfl | h
      · exact ht
      · rw [← htemp]
        exact ih _ (hc ▸ h)
    · exact ih s h
    · simp [handled] at h

/-- A scan in increasing order handles every member of `temp_set` up to `max_fd`. -/
theorem mem_handled_scan (s : Session) (p : Pass) {is : List ℕ} (hs : is.Pairwise (· < ·)) {i : ℕ}
    (hi : i ∈ is) (ht : i ∈ s.tempSet) (hm : i ≤ s.maxFd) : i ∈ handled s.connSocket (s.scan p is).2 := by
  induction is generalizing s with
  | nil => cases hi
  | cons j is ih =>
    obtain ⟨hlt, hs⟩ := List.pairwise_cons.mp hs
    have hjm : j ≤ s.maxFd := by
      rcases List.mem_cons.mp hi with rfl | hi
      · exact hm
      · exact (hlt i hi).le.trans hm
    unfold Session.scan
    rw [if_pos hjm]
    split_ifs with hj
    · obtain ⟨hc, htemp, hmax, hh⟩ := handle_spec s p j
      rw [handled_append, hh, List.mem_append, List.mem_singleton]
      rcases List.mem_cons.mp hi with rfl | hi
      · exact Or.inl rfl
      · exact Or.inr (hc ▸ ih _ hs hi (htemp ▸ ht) (hm.trans hmax))
    · rcases List.mem_cons.mp hi with rfl | hi
      · exact absurd ht hj
      · exact ih s hs hi ht hm

/-! ### The main loop -/

/-- The session after `select`: everything watched is in `temp_set`, and what is ready is still watched. -/
def Session.selected (s : Session) (ready : FdSet) : Session :=
  { s with tempSet := s.clientSet, clientSet := s.clientSet ∩ ready }

/-- A pass is a scan of what was watched. -/
theorem iterate_eq_some_iff {s s' : Session} {p : Pass} {cs : List Call} :
    s.iterate p = some (s', cs) ↔ ∃ ready, p.ready = some ready ∧
      (s.selected ready).scan p (List.range (s.clientSet.sup id + 1)) = (s', cs) := by
  cases hready : p.ready with
  | none => simp [Session.iterate, hready]
  | some ready =>
    simp only [Session.iterate, hready, Option.some.injEq, exists_eq_left']
    rfl

/-- A pass leaves nothing above `max_fd`, does not lower it, and keeps the listening socket. -/
theorem iterate_keeps {s s' : Session} {p : Pass} {cs : List Call} (hbound : s.Bounded)
    (h : s.iterate p = some (s', cs)) :
    s'.Bounded ∧ s.maxFd ≤ s'.maxFd ∧ s'.connSocket = s.connSocket := by
  obtain ⟨ready, -, hscan⟩ := iterate_eq_some_iff.mp h
  obtain rfl : ((s.selected ready).scan p _).1 = s' := congrArg Prod.fst hscan
  have hstart : (s.selected ready).Bounded := fun i hi => hbound i (Finset.mem_of_mem_inter_left hi)
  refine ⟨?_, ?_, ?_⟩
  · exact scan_induction (P := Session.Bounded) (fun s i hs => bound_handle hs p i) hstart _
  · exact scan_induction (P := fun s' => s.maxFd ≤ s'.maxFd) (fun s i hs => hs.trans (handle_spec s p i).2.2.1)
      (le_refl (s.selected ready).maxFd) _
  · exact scan_induction (P := fun s' => s'.connSocket = s.connSocket) (fun s i hs => (handle_spec s p i).1.trans hs)
      (show (s.selected ready).connSocket = s.connSocket from rfl) _

/-- Nothing above `max_fd` is watched in a session that was made with rosters. -/
theorem bounded_mainLoop {s : Session} (hbound : s.Bounded) (ps : List Pass) : (s.mainLoop ps).1.Bounded := by
  induction ps generalizing s with
  | nil => exact hbound
  | cons p ps ih =>
    simp only [Session.mainLoop]
    cases hit : s.iterate p with
    | none => exact hbound
    | some result => exact ih (iterate_keeps hbound hit).1

/-- The scan of one iteration handles exactly what was watched. -/
theorem iterate_handled {s s' : Session} {o : FdSet} {p : Pass} {cs : List Call} (h : Watches s o)
    (hit : s.iterate p = some (s', cs)) (i : ℕ) : i ∈ handled s.connSocket cs ↔ i ∈ s.clientSet := by
  unfold Session.iterate at hit
  cases hr : p.ready with
  | none => simp [hr] at hit
  | some ready =>
    simp only [hr, Option.some.injEq] at hit
    have hcs := congrArg Prod.snd hit
    simp only at hcs
    constructor
    · intro hi
      rw [← hcs] at hi
      exact scan_handled_subset { s with tempSet := s.clientSet, clientSet := s.clientSet ∩ ready } p _ hi
    · intro hi
      rw [← hcs]
      refine mem_handled_scan { s with tempSet := s.clientSet, clientSet := s.clientSet ∩ ready } p
        List.pairwise_lt_range ?_ hi (h.bound i hi)
      rw [List.mem_range]
      exact Nat.lt_succ_of_le (Finset.le_sup (f := id) hi)

/-- When everything watched is ready, an iteration keeps the invariant. -/
theorem iterate_watches {s s' : Session} {o ready : FdSet} {p : Pass} {cs : List Call} (h : Watches s o)
    (hr : p.ready = some ready) (hall : s.clientSet ⊆ ready) (hit : s.iterate p = some (s', cs)) :
    Watches s' (openAfter o cs) ∧ s'.connSocket = s.connSocket := by
  unfold Session.iterate at hit
  simp only [hr, Option.some.injEq] at hit
  rw [Finset.inter_eq_left.mpr hall] at hit
  have := scan_watches (s := { s with tempSet := s.clientSet }) (o := o) ⟨h.conn, h.opened, h.bound⟩ p
    (List.range (s.clientSet.sup id + 1))
  rw [hit] at this
  exact this

/-! ### Relaying a message -/

/-- The state of a session with clients `clients`: it watches the listening socket and
them, and `max_fd` is the largest of these descriptors. -/
structure Hub (s : Session) (clients : FdSet) : Prop where
  watched : s.clientSet = insert s.connSocket clients
  conn : s.connSocket ∉ clients
  mem : s.maxFd ∈ s.clientSet
  bound : ∀ i ∈ s.clientSet, i ≤ s.maxFd

/-- What some calls send to a descriptor, in order. -/
def sentTo (cs : List Call) (fd : ℕ) : List (List UInt8) :=
  cs.filterMap fun c => match c with
    | .send d bytes => if d = fd then some bytes else none
    | _ => none

/-- Every client but the sender is sent the bytes once, and nobody else is sent
anything. -/
def Broadcasts (cs : List Call) (clients : FdSet) (sender : ℕ) (bytes : List UInt8) : Prop :=
  (∀ c ∈ clients, c ≠ sender → sentTo cs c = [bytes]) ∧
    ∀ c, c = sender ∨ c ∉ clients → sentTo cs c = []

/-- The accepted descriptor joins the clients and `max_fd` stays the largest. -/
theorem handleAccept_hub {s : Session} {clients : FdSet} (h : Hub s clients) {fd : ℕ}
    (hfd : fd ≠ s.connSocket) : Hub (s.handleAccept (some fd)).1 (insert fd clients) := by
  refine ⟨?_, ?_, ?_, fun i hi => ?_⟩
  · simp only [Session.handleAccept]
    rw [h.watched, Finset.insert_comm]
  · simp only [Session.handleAccept, Finset.mem_insert, not_or]
    exact ⟨hfd.symm, h.conn⟩
  · simp only [Session.handleAccept]
    split_ifs
    · exact Finset.mem_insert_self _ _
    · exact Finset.mem_insert_of_mem h.mem
  · simp only [Session.handleAccept, Finset.mem_insert] at hi ⊢
    have hle : i = fd ∨ i ≤ s.maxFd := hi.imp id (h.bound i)
    split_ifs <;> omega

/-- What `handle_recv` sends to a descriptor. -/
theorem sentTo_relay (s : Session) (sender : ℕ) (bytes : List UInt8) (c : ℕ) :
    sentTo (s.relay sender bytes) c =
      if c < s.maxFd ∧ c ∈ s.clientSet ∧ c ≠ s.connSocket ∧ c ≠ sender then [bytes] else [] := by
  have key : ∀ is : List ℕ, is.Nodup →
      sentTo (is.map (.send · bytes)) c = if c ∈ is then [bytes] else [] := by
    intro is hnd
    induction is with
    | nil => rfl
    | cons i is ih =>
      obtain ⟨hi, hnd⟩ := List.nodup_cons.mp hnd
      have ih := ih hnd
      unfold sentTo at ih ⊢
      rw [List.map_cons, List.filterMap_cons]
      by_cases hic : i = c
      · subst hic
        simp only [if_pos, ih, if_neg hi, List.mem_cons_self]
      · have hci : c ∈ i :: is ↔ c ∈ is := by simp [Ne.symm hic]
        simp only [if_neg hic, ih, hci]
  unfold Session.relay
  rw [key _ (List.nodup_range.filter _)]
  simp

/-- **When a message reaches everyone**: when the largest descriptor is the sender's or the
listening socket's. The loop stops before `max_fd`. -/
theorem handleRecv_broadcasts_iff {s : Session} {clients : FdSet} (h : Hub s clients) (sender : ℕ)
    {bytes : List UInt8} (hbytes : bytes ≠ []) :
    Broadcasts (s.handleRecv sender bytes).2 clients sender bytes ↔
      s.maxFd = sender ∨ s.maxFd = s.connSocket := by
  have hsent : ∀ c, sentTo (s.handleRecv sender bytes).2 c = sentTo (s.relay sender bytes) c := by
    intro c
    unfold Session.handleRecv
    rw [if_neg hbytes]
    rfl
  have hmem : ∀ {c}, c ∈ clients ↔ c ∈ s.clientSet ∧ c ≠ s.connSocket := by
    intro c
    rw [h.watched, Finset.mem_insert]
    constructor
    · exact fun hc => ⟨Or.inr hc, fun e => h.conn (e ▸ hc)⟩
    · rintro ⟨rfl | hc, hne⟩
      · exact absurd rfl hne
      · exact hc
  simp only [Broadcasts, hsent, sentTo_relay]
  constructor
  · rintro ⟨hall, -⟩
    by_contra hmax
    obtain ⟨hs, hc⟩ := not_or.mp hmax
    have := hall s.maxFd (hmem.mpr ⟨h.mem, hc⟩) hs
    simp at this
  · intro hmax
    refine ⟨fun c hc hcs => ?_, fun c hc => ?_⟩
    · obtain ⟨hset, hconn⟩ := hmem.mp hc
      rw [if_pos]
      refine ⟨lt_of_le_of_ne (h.bound c hset) ?_, hset, hconn, hcs⟩
      rintro rfl
      rcases hmax with hmax | hmax
      · exact hcs hmax
      · exact hconn hmax
    · rw [if_neg]
      rintro ⟨-, hset, hconn, hcs⟩
      rcases hc with hc | hc
      · exact hcs hc
      · exact hc (hmem.mpr ⟨hset, hconn⟩)

/-- With the listening socket on the largest descriptor, client `3` reaches `4`. -/
theorem broadcast_below_listener :
    Broadcasts (Session.handleRecv ⟨6, 3, 5, 5, {3, 4, 5}, ∅, [], []⟩ 3 [104, 105]).2 {3, 4} 3 [104, 105] := by
  have hub : Hub ⟨6, 3, 5, 5, {3, 4, 5}, ∅, [], []⟩ {3, 4} := ⟨by decide, by decide, by decide, by decide⟩
  exact (handleRecv_broadcasts_iff hub 3 (by decide)).mpr (Or.inr rfl)

/-- Clients `4` and `5` on listening socket `3`: what `4` says does not reach `5`. -/
theorem last_client_not_reached :
    Hub ⟨6, 3, 3, 5, {3, 4, 5}, ∅, [], []⟩ {4, 5} ∧
      ¬ Broadcasts (Session.handleRecv ⟨6, 3, 3, 5, {3, 4, 5}, ∅, [], []⟩ 4 [104, 105]).2 {4, 5} 4 [104, 105] := by
  refine ⟨⟨by decide, by decide, by decide, by decide⟩, fun h => ?_⟩
  exact absurd (h.1 5 (by decide) (by decide)) (by decide)

end Inferno.Chat
