import Inferno.Chat.Session

/-!
# The descriptor sets in memory

`client_set` and `temp_set` lie one behind the other, and each is `FD_SETSIZE` bits. `FD_SET`, `FD_CLR` and `FD_ISSET`
count from the start of the set they are given and compare nothing with `FD_SETSIZE`, so that a descriptor
behind the end of `client_set` is a bit of `temp_set`, and `FD_SET` of it in the middle of a scan is a
descriptor for the scan to find. `SessionImage` is the session with that memory.

## What is proved

* `mainLoop_view` — as long as no descriptor is behind the end of a set the main loop does what
  `Session.mainLoop` does on the two sets.
* `keepsClients_iff` — within that bound the session keeps its clients exactly while nobody is idle.

## Scope

Bits from `2 * fdSetSize` on lie behind both sets. The loop reaches them through the sets alone: it does
not look at the rosters, which may lie there.
-/

namespace Inferno.Chat

/-- `class Session`, with its two sets as they lie in memory: `bits` are the ones among the bits counted from
`&client_set`. -/
structure SessionImage where
  maxClients : UInt32
  teamSize : UInt32
  connSocket : ℕ
  maxFd : ℕ
  bits : Finset ℕ
  redClients : List ClientPtr
  blueClients : List ClientPtr

namespace SessionImage

/-- `client_set`: the first `FD_SETSIZE` bits. -/
def clientSet (m : SessionImage) : FdSet := m.bits.filter (· < fdSetSize)

/-- `temp_set`: the next. -/
def tempSet (m : SessionImage) : FdSet := (Finset.range fdSetSize).filter (fdSetSize + · ∈ m.bits)

/-- The two constructors. The first clears both sets with `FD_ZERO`. -/
def construct (junk : SessionImage) (maxClients teamSize : Int32) : Ctor → SessionImage
  | .teams red blue =>
    { junk with maxClients := maxClients.toUInt32, teamSize := teamSize.toUInt32,
                redClients := red, blueClients := blue, bits := junk.bits.filter (2 * fdSetSize ≤ ·) }
  | .bare =>
    { junk with maxClients := maxClients.toUInt32, teamSize := teamSize.toUInt32,
                redClients := [], blueClients := [] }

/-- `Session::handle_accept`, with `FD_SET(fd, &client_set)`. -/
def handleAccept (m : SessionImage) : Option ℕ → SessionImage × List Call
  | none => (m, [.accept none])
  | some fd =>
    ({ m with bits := insert fd m.bits, maxFd := if m.maxFd < fd then fd else m.maxFd }, [.accept (some fd)])

/-- The `send`s of `Session::handle_recv`, with `FD_ISSET(i, &client_set)`. -/
def relay (m : SessionImage) (sender : ℕ) (bytes : List UInt8) : List Call :=
  ((List.range m.maxFd).filter fun i => i ∈ m.bits ∧ i ≠ m.connSocket ∧ i ≠ sender).map (.send · bytes)

/-- `Session::handle_recv`, with `FD_CLR(sender_fd, &client_set)`. -/
def handleRecv (m : SessionImage) (sender : ℕ) (bytes : List UInt8) : SessionImage × List Call :=
  if bytes = [] then
    ({ m with bits := m.bits.erase sender }, [.recv sender, .close sender])
  else
    (m, .recv sender :: m.relay sender bytes)

/-- The body of the scan, for a descriptor that is in `temp_set`. -/
def handle (m : SessionImage) (p : Pass) (i : ℕ) : SessionImage × List Call :=
  if i = m.connSocket then m.handleAccept p.accepted else m.handleRecv i (p.received i)

/-- `for(i = 0; i <= max_fd; i++) if(FD_ISSET(i, &temp_set)) …`, over the candidates `i` in order. -/
def scan (p : Pass) : SessionImage → List ℕ → SessionImage × List Call
  | m, [] => (m, [])
  | m, i :: is =>
    if i ≤ m.maxFd then
      if fdSetSize + i ∈ m.bits then
        let (m₁, cs₁) := m.handle p i
        let (m₂, cs₂) := scan p m₁ is
        (m₂, cs₁ ++ cs₂)
      else scan p m is
    else (m, [])

/-- `temp_set = client_set`. -/
def copySet (m : SessionImage) : SessionImage :=
  { m with bits := m.bits.filter (fun k => k < fdSetSize ∨ 2 * fdSetSize ≤ k) ∪ m.clientSet.image (fdSetSize + ·) }

/-- `select(max_fd + 1, &client_set, NULL, NULL, NULL)`: of the first `max_fd + 1` bits the ones that are ready
are left. -/
def select (m : SessionImage) (ready : FdSet) : SessionImage :=
  { m with bits := m.bits.filter fun k => k ∈ ready ∨ m.maxFd < k }

/-- One iteration of the main loop. There is one `accept` at most in a scan, so that `max_fd` stays below the
candidates' end. -/
def iterate (m : SessionImage) (p : Pass) : Option (SessionImage × List Call) :=
  match p.ready with
  | none => none
  | some ready => some (scan p (m.copySet.select ready) (List.range (max m.maxFd (p.accepted.getD 0) + 1)))

/-- The first two statements of `enter_main_loop`. -/
def enterMainLoop (m : SessionImage) (connSocket : ℕ) : SessionImage :=
  { m with connSocket := connSocket, bits := insert connSocket m.bits, maxFd := connSocket }

/-- The main loop, until `select` fails or `ps` ends. -/
def mainLoop : SessionImage → List Pass → SessionImage × List Call
  | m, [] => (m, [])
  | m, p :: ps =>
    match m.iterate p with
    | none => (m, [])
    | some (m', cs) =>
      let (m'', cs') := m'.mainLoop ps
      (m'', cs ++ cs')

/-- `Session::start`, given the listening socket. -/
def start (m : SessionImage) (connSocket : ℕ) (ps : List Pass) : SessionImage × List Call :=
  (m.enterMainLoop connSocket).mainLoop ps

/-- The session with its sets. -/
def view (m : SessionImage) : Session :=
  ⟨m.maxClients, m.teamSize, m.connSocket, m.maxFd, m.clientSet, m.tempSet, m.redClients, m.blueClients⟩

end SessionImage

/-- What `accept` gives in a pass is inside an `fd_set`. -/
def Pass.Fits (p : Pass) : Prop := ∀ fd, p.accepted = some fd → fd < fdSetSize

variable {m m' : SessionImage} {p : Pass}

/-! ### The bits of a set -/

theorem mem_clientSet {i : ℕ} : i ∈ m.clientSet ↔ i ∈ m.bits ∧ i < fdSetSize := Finset.mem_filter

theorem mem_tempSet {i : ℕ} : i ∈ m.tempSet ↔ i < fdSetSize ∧ fdSetSize + i ∈ m.bits := by
  rw [SessionImage.tempSet, Finset.mem_filter, Finset.mem_range]

/-- The bits after the copy: those of `temp_set` are now those of `client_set`. -/
theorem mem_copySet {k : ℕ} : k ∈ m.copySet.bits ↔
    k ∈ m.bits ∧ (k < fdSetSize ∨ 2 * fdSetSize ≤ k) ∨ ∃ i, (i ∈ m.bits ∧ i < fdSetSize) ∧ fdSetSize + i = k := by
  simp only [SessionImage.copySet, Finset.mem_union, Finset.mem_filter, Finset.mem_image, mem_clientSet]

theorem mem_select {ready : FdSet} {k : ℕ} : k ∈ (m.select ready).bits ↔ k ∈ m.bits ∧ (k ∈ ready ∨ m.maxFd < k) :=
  Finset.mem_filter

/-- `FD_SET` inside `client_set`. -/
theorem view_insert {fd : ℕ} (h : fd < fdSetSize) (maxFd : ℕ) :
    { m with bits := insert fd m.bits, maxFd := maxFd }.view =
      { m.view with clientSet := insert fd m.clientSet, maxFd := maxFd } := by
  have hclient : { m with bits := insert fd m.bits, maxFd := maxFd }.clientSet = insert fd m.clientSet := by
    ext i
    simp only [mem_clientSet, Finset.mem_insert]
    grind
  have htemp : { m with bits := insert fd m.bits, maxFd := maxFd }.tempSet = m.tempSet := by
    ext i
    simp only [mem_tempSet, Finset.mem_insert]
    grind
  simp only [SessionImage.view, hclient, htemp]

/-- `FD_CLR` inside `client_set`. -/
theorem view_erase {fd : ℕ} (h : fd < fdSetSize) :
    { m with bits := m.bits.erase fd }.view = { m.view with clientSet := m.clientSet.erase fd } := by
  have hclient : { m with bits := m.bits.erase fd }.clientSet = m.clientSet.erase fd := by
    ext i
    simp only [mem_clientSet, Finset.mem_erase]
    exact and_assoc
  have htemp : { m with bits := m.bits.erase fd }.tempSet = m.tempSet := by
    ext i
    simp only [mem_tempSet, Finset.mem_erase]
    grind
  simp only [SessionImage.view, hclient, htemp]

/-- The copy, and then `select`, where nothing is watched above `max_fd`. -/
theorem view_selected (hmax : m.maxFd < fdSetSize) (hbound : m.view.Bounded) (ready : FdSet) :
    (m.copySet.select ready).view = m.view.selected ready := by
  have hle : ∀ i ∈ m.clientSet, i ≤ m.maxFd := hbound
  have hmaxFd : m.copySet.maxFd = m.maxFd := rfl
  have hclient : (m.copySet.select ready).clientSet = m.clientSet ∩ ready := by
    ext i
    have hi := hle i
    simp only [mem_clientSet, mem_select, mem_copySet, Finset.mem_inter, hmaxFd] at hi ⊢
    grind
  have htemp : (m.copySet.select ready).tempSet = m.clientSet := by
    ext i
    simp only [mem_tempSet, mem_clientSet, mem_select, mem_copySet, hmaxFd]
    grind
  simp only [SessionImage.view, Session.selected, hclient, htemp]
  rfl

theorem view_construct (junk : SessionImage) (maxClients teamSize : Int32) (ctor : Ctor) :
    (junk.construct maxClients teamSize ctor).view = junk.view.construct maxClients teamSize ctor := by
  cases ctor with
  | bare => rfl
  | teams red blue =>
    have hclient : (junk.construct maxClients teamSize (.teams red blue)).clientSet = ∅ := by
      apply Finset.eq_empty_of_forall_notMem
      intro i hi
      simp only [SessionImage.construct, mem_clientSet, Finset.mem_filter] at hi
      grind
    have htemp : (junk.construct maxClients teamSize (.teams red blue)).tempSet = ∅ := by
      apply Finset.eq_empty_of_forall_notMem
      intro i hi
      simp only [SessionImage.construct, mem_tempSet, Finset.mem_filter] at hi
      grind
    simp only [SessionImage.view, hclient, htemp]
    rfl

theorem view_enterMainLoop {connSocket : ℕ} (h : connSocket < fdSetSize) :
    (m.enterMainLoop connSocket).view = m.view.enterMainLoop connSocket := by
  have hset := view_insert (m := { m with connSocket := connSocket }) h connSocket
  exact hset

/-! ### One descriptor -/

/-- What `accept` gives is put into `client_set`. -/
theorem view_handleAccept {accepted : Option ℕ} (h : ∀ fd, accepted = some fd → fd < fdSetSize) :
    Prod.map SessionImage.view id (m.handleAccept accepted) = m.view.handleAccept accepted := by
  cases accepted with
  | none => rfl
  | some fd => exact congrArg (·, [Call.accept (some fd)]) (view_insert (h fd rfl) _)

theorem view_relay (hmax : m.maxFd < fdSetSize) (sender : ℕ) (bytes : List UInt8) :
    m.relay sender bytes = m.view.relay sender bytes := by
  unfold SessionImage.relay Session.relay
  congr 1
  refine List.filter_congr fun i hi => ?_
  have hlt : i < fdSetSize := (List.mem_range.mp hi).trans hmax
  have hmem : i ∈ m.bits ↔ i ∈ m.view.clientSet := (mem_clientSet.trans (and_iff_left hlt)).symm
  rw [decide_eq_decide, hmem]
  rfl

theorem view_handleRecv (hmax : m.maxFd < fdSetSize) {sender : ℕ} (h : sender < fdSetSize) (bytes : List UInt8) :
    Prod.map SessionImage.view id (m.handleRecv sender bytes) = m.view.handleRecv sender bytes := by
  unfold SessionImage.handleRecv Session.handleRecv
  split_ifs
  · exact congrArg (·, [Call.recv sender, Call.close sender]) (view_erase h)
  · rw [Prod.map_apply, view_relay hmax]
    rfl

theorem view_handle (hmax : m.maxFd < fdSetSize) (hp : p.Fits) {i : ℕ} (h : i < fdSetSize) :
    Prod.map SessionImage.view id (m.handle p i) = m.view.handle p i := by
  unfold SessionImage.handle Session.handle
  show Prod.map SessionImage.view id (if i = m.connSocket then _ else _) = if i = m.connSocket then _ else _
  split_ifs
  · exact view_handleAccept hp
  · exact view_handleRecv hmax h _

/-- No handler takes `max_fd` over the end of a set. -/
theorem maxFd_handle_lt (hmax : m.maxFd < fdSetSize) (hp : p.Fits) (i : ℕ) : (m.handle p i).1.maxFd < fdSetSize := by
  unfold SessionImage.handle
  split_ifs
  · cases hacc : p.accepted with
    | none => exact hmax
    | some fd =>
      have hfd := hp fd hacc
      simp only [SessionImage.handleAccept]
      split_ifs <;> assumption
  · unfold SessionImage.handleRecv
    split_ifs <;> exact hmax

/-! ### One pass -/

/-- **A scan of the bits is a scan of the sets.** -/
theorem view_scan (hmax : m.maxFd < fdSetSize) (hp : p.Fits) (is : List ℕ) :
    Prod.map SessionImage.view id (m.scan p is) = m.view.scan p is ∧ (m.scan p is).1.maxFd < fdSetSize := by
  induction is generalizing m with
  | nil => exact ⟨rfl, hmax⟩
  | cons i is ih =>
    unfold SessionImage.scan Session.scan
    show Prod.map SessionImage.view id (if i ≤ m.maxFd then _ else _) = (if i ≤ m.maxFd then _ else _) ∧ _
    by_cases hi : i ≤ m.maxFd
    · have hlt : i < fdSetSize := hi.trans_lt hmax
      have htemp : fdSetSize + i ∈ m.bits ↔ i ∈ m.view.tempSet := (mem_tempSet.trans (and_iff_right hlt)).symm
      simp only [if_pos hi, htemp]
      by_cases hmem : i ∈ m.view.tempSet
      · obtain ⟨hscan, hmax'⟩ := ih (maxFd_handle_lt hmax hp i)
        simp only [if_pos hmem, ← view_handle hmax hp hlt, Prod.map_fst, Prod.map_snd, ← hscan]
        exact ⟨rfl, hmax'⟩
      · simp only [if_neg hmem]
        exact ih hmax
    · simp only [if_neg hi]
      exact ⟨rfl, hmax⟩

/-- Candidates that are not in `temp_set` are passed over. -/
theorem scan_append_of_notMem (s : Session) (is : List ℕ) {js : List ℕ} (h : ∀ j ∈ js, j ∉ s.tempSet) :
    s.scan p (is ++ js) = s.scan p is := by
  induction is generalizing s with
  | nil =>
    induction js with
    | nil => rfl
    | cons j js ih =>
      obtain ⟨hj, hjs⟩ := List.forall_mem_cons.mp h
      have hrest : s.scan p js = (s, []) := ih hjs
      simp only [List.nil_append, Session.scan, if_neg hj, hrest, ite_self]
  | cons i is ih =>
    have htempSet := (handle_spec s p i).2.1
    simp only [List.cons_append, Session.scan, ih s h, ih (s.handle p i).1 (by rwa [htempSet])]

/-- **A pass over the bits is a pass over the sets**, and keeps `max_fd` below the end of a set. -/
theorem view_iterate (hmax : m.maxFd < fdSetSize) (hbound : m.view.Bounded) (hp : p.Fits) :
    (m.iterate p).map (Prod.map SessionImage.view id) = m.view.iterate p ∧
      ∀ m' cs, m.iterate p = some (m', cs) → m'.maxFd < fdSetSize := by
  unfold SessionImage.iterate Session.iterate
  cases p.ready with
  | none => exact ⟨rfl, by simp⟩
  | some ready =>
    obtain ⟨hscan, hmax'⟩ := view_scan (m := m.copySet.select ready) hmax hp
      (List.range (max m.maxFd (p.accepted.getD 0) + 1))
    -- nothing in `temp_set` is above `max_fd`, so that both ranges of candidates reach over it
    have hsup : m.clientSet.sup id ≤ m.maxFd := Finset.sup_le hbound
    obtain ⟨n, hn⟩ : ∃ n, max m.maxFd (p.accepted.getD 0) + 1 = (m.clientSet.sup id + 1) + n :=
      Nat.exists_eq_add_of_le (by omega)
    have hidle : ∀ j ∈ (List.range n).map (m.clientSet.sup id + 1 + ·), j ∉ (m.view.selected ready).tempSet := by
      intro j hj hmem
      obtain ⟨k, -, rfl⟩ := List.mem_map.mp hj
      have hle : m.clientSet.sup id + 1 + k ≤ m.clientSet.sup id := Finset.le_sup (f := id) hmem
      omega
    rw [hn, List.range_add, view_selected hmax hbound, scan_append_of_notMem _ _ hidle, ← List.range_add, ← hn] at hscan
    refine ⟨congrArg some hscan, ?_⟩
    intro m' cs hm'
    rw [Option.some.injEq] at hm'
    rw [hm'] at hmax'
    exact hmax'

/-- The two passes by their results. -/
theorem iterate_view_of_eq_some {cs : List Call} (hmax : m.maxFd < fdSetSize) (hbound : m.view.Bounded) (hp : p.Fits)
    (h : m.iterate p = some (m', cs)) : m.view.iterate p = some (m'.view, cs) ∧ m'.maxFd < fdSetSize := by
  obtain ⟨hview, hmax'⟩ := view_iterate hmax hbound hp
  rw [h] at hview
  exact ⟨hview.symm, hmax' m' cs h⟩

/-! ### The main loop -/

/-- **The main loop over the bits is the main loop over the sets.** -/
theorem mainLoop_view (hmax : m.maxFd < fdSetSize) (hbound : m.view.Bounded) {ps : List Pass} (hps : ∀ p ∈ ps, p.Fits) :
    Prod.map SessionImage.view id (m.mainLoop ps) = m.view.mainLoop ps ∧ (m.mainLoop ps).1.maxFd < fdSetSize := by
  induction ps generalizing m with
  | nil => exact ⟨rfl, hmax⟩
  | cons p ps ih =>
    obtain ⟨hp, hps⟩ := List.forall_mem_cons.mp hps
    obtain ⟨hview, -⟩ := view_iterate hmax hbound hp
    unfold SessionImage.mainLoop Session.mainLoop
    cases hit : m.iterate p with
    | none =>
      rw [hit] at hview
      rw [← hview]
      exact ⟨rfl, hmax⟩
    | some result =>
      obtain ⟨m', cs⟩ := result
      obtain ⟨hit', hmax'⟩ := iterate_view_of_eq_some hmax hbound hp hit
      obtain ⟨hrest, hmax''⟩ := ih hmax' (iterate_keeps hbound hit').1 hps
      simp only [hit', ← hrest]
      exact ⟨rfl, hmax''⟩

/-- A session that was made with rosters watches nothing above `max_fd`. -/
theorem bounded_enterMainLoop (junk : Session) (maxClients teamSize : Int32) (redClients blueClients : List ClientPtr)
    (connSocket : ℕ) :
    ((junk.construct maxClients teamSize (.teams redClients blueClients)).enterMainLoop connSocket).Bounded := by
  intro i hi
  rcases Finset.mem_insert.mp hi with rfl | hi
  · exact le_rfl
  · exact absurd hi (Finset.notMem_empty i)

/-- **The session in memory is the session**, in any run of one that was made with rosters. -/
theorem start_view (junk : SessionImage) (maxClients teamSize : Int32) (redClients blueClients : List ClientPtr)
    {connSocket : ℕ} (hconn : connSocket < fdSetSize) {ps : List Pass} (hps : ∀ p ∈ ps, p.Fits) :
    Prod.map SessionImage.view id
        ((junk.construct maxClients teamSize (.teams redClients blueClients)).start connSocket ps) =
      (junk.view.construct maxClients teamSize (.teams redClients blueClients)).start connSocket ps := by
  have hview := view_enterMainLoop (m := junk.construct maxClients teamSize (.teams redClients blueClients)) hconn
  rw [view_construct] at hview
  have hbound := bounded_enterMainLoop junk.view maxClients teamSize redClients blueClients connSocket
  rw [← hview] at hbound
  rw [SessionImage.start, (mainLoop_view hconn hbound hps).1, hview]
  rfl

/-! ### The clients of a session -/

/-- What the session owes its clients over the iterations `ps` from `m`, with `o` the
descriptors open at the start: each iteration handles only descriptors its `select`
reported readable, and leaves the listening socket and every open descriptor watched. -/
def SessionImage.Serves (m : SessionImage) (o : FdSet) : List Pass → Prop
  | [] => True
  | p :: ps => ∀ ready m' cs, p.ready = some ready → m.iterate p = some (m', cs) →
      (∀ i ∈ handled m.connSocket cs, i ∈ ready) ∧ m'.connSocket ∈ m'.clientSet ∧
        openAfter o cs ⊆ m'.clientSet ∧ m'.Serves (openAfter o cs) ps

/-- In each of the iterations `ps` from `m`, `select` reports everything watched as
readable. -/
def SessionImage.AllReady (m : SessionImage) : List Pass → Prop
  | [] => True
  | p :: ps => ∀ ready m' cs, p.ready = some ready → m.iterate p = some (m', cs) →
      m.clientSet ⊆ ready ∧ m'.AllReady ps

/-- **The loop serves its clients exactly while nobody is idle.** -/
theorem serves_iff_allReady (hmax : m.maxFd < fdSetSize) {o : FdSet} (h : Watches m.view o) {ps : List Pass}
    (hps : ∀ p ∈ ps, p.Fits) : m.Serves o ps ↔ m.AllReady ps := by
  induction ps generalizing m o with
  | nil => exact Iff.rfl
  | cons p ps ih =>
    obtain ⟨hp, hps⟩ := List.forall_mem_cons.mp hps
    unfold SessionImage.Serves SessionImage.AllReady
    refine forall_congr' fun ready => forall_congr' fun m' => forall_congr' fun cs =>
      forall_congr' fun hr => forall_congr' fun hit => ?_
    obtain ⟨hview, hmax'⟩ := iterate_view_of_eq_some hmax h.bound hp hit
    constructor
    · rintro ⟨hready, hc, ho, hs⟩
      have hall : m.clientSet ⊆ ready := fun i hi => hready i ((iterate_handled h hview i).mpr hi)
      exact ⟨hall, (ih hmax' (iterate_watches h hr hall hview).1 hps).mp hs⟩
    · rintro ⟨hall, hs⟩
      obtain ⟨hw, -⟩ := iterate_watches h hr hall hview
      exact ⟨fun i hi => hall ((iterate_handled h hview i).mp hi), hw.conn, hw.opened, (ih hmax' hw hps).mpr hs⟩

/-- What the main loop owes: at its entry only the listening socket is watched, and from
there on it serves its clients. -/
def SessionImage.KeepsClients (m : SessionImage) (connSocket : ℕ) (ps : List Pass) : Prop :=
  (m.enterMainLoop connSocket).clientSet = {connSocket} ∧ (m.enterMainLoop connSocket).Serves ∅ ps

/-- The constructor leaves nothing to watch but, at most, the listening socket: always with
rosters, and without them if that is what was in memory. -/
def Ctor.Clears (junk : SessionImage) (connSocket : ℕ) : Ctor → Prop
  | .teams _ _ => True
  | .bare => junk.clientSet ⊆ {connSocket}

theorem enterMainLoop_clientSet_iff (junk : SessionImage) (maxClients teamSize : Int32) (ctor : Ctor)
    {connSocket : ℕ} (hconn : connSocket < fdSetSize) :
    ((junk.construct maxClients teamSize ctor).enterMainLoop connSocket).clientSet = {connSocket} ↔
      ctor.Clears junk connSocket := by
  have hview := congrArg Session.clientSet (view_enterMainLoop (m := junk.construct maxClients teamSize ctor) hconn)
  rw [view_construct] at hview
  change ((junk.construct maxClients teamSize ctor).enterMainLoop connSocket).clientSet = _ at hview
  rw [hview]
  cases ctor with
  | teams red blue => simp [Session.enterMainLoop, Session.construct, Ctor.Clears]
  | bare =>
    show insert connSocket junk.clientSet = {connSocket} ↔ junk.clientSet ⊆ {connSocket}
    rw [Finset.eq_singleton_iff_unique_mem, Finset.subset_singleton_iff']
    simp

/-- **When the session keeps its clients**, while no descriptor is behind the end of a set: when the
constructor cleared `client_set` and each `select` reports every descriptor it watches as readable. -/
theorem keepsClients_iff (junk : SessionImage) (maxClients teamSize : Int32) (ctor : Ctor) {connSocket : ℕ}
    (hconn : connSocket < fdSetSize) {ps : List Pass} (hps : ∀ p ∈ ps, p.Fits) :
    (junk.construct maxClients teamSize ctor).KeepsClients connSocket ps ↔
      ctor.Clears junk connSocket ∧
        ((junk.construct maxClients teamSize ctor).enterMainLoop connSocket).AllReady ps := by
  unfold SessionImage.KeepsClients
  rw [enterMainLoop_clientSet_iff junk maxClients teamSize ctor hconn]
  refine and_congr_right fun hclear => ?_
  have hset : ((junk.construct maxClients teamSize ctor).enterMainLoop connSocket).view.clientSet = {connSocket} :=
    (enterMainLoop_clientSet_iff junk maxClients teamSize ctor hconn).mpr hclear
  refine serves_iff_allReady hconn ⟨?_, Finset.empty_subset _, fun i hi => ?_⟩ hps
  · rw [hset]
    exact Finset.mem_singleton_self _
  · rw [hset, Finset.mem_singleton] at hi
    exact hi.le

/-- Client `4` connects on listening socket `3`, and is ready in the next pass. -/
theorem keepsClients_ready :
    (SessionImage.construct ⟨0, 0, 0, 0, ∅, [], []⟩ 6 3 .bare).KeepsClients 3
        [⟨some {3}, some 4, fun _ => []⟩, ⟨some {3, 4}, some 5, fun _ => [104]⟩] ↔
      Ctor.bare.Clears ⟨0, 0, 0, 0, ∅, [], []⟩ 3 ∧
        ((SessionImage.construct ⟨0, 0, 0, 0, ∅, [], []⟩ 6 3 .bare).enterMainLoop 3).AllReady
          [⟨some {3}, some 4, fun _ => []⟩, ⟨some {3, 4}, some 5, fun _ => [104]⟩] := by
  apply keepsClients_iff _ 6 3 .bare (by decide)
  intro p hp
  simp only [List.mem_cons, List.not_mem_nil, or_false] at hp
  rcases hp with rfl | rfl
  · rintro _ ⟨⟩
    decide
  · rintro _ ⟨⟩
    decide

/-- Client `4` connects on listening socket `3`. In the next iteration only the listening
socket is readable, and `recv` is called on `4` all the same. -/
theorem idle_client_received_from :
    ¬ (SessionImage.construct ⟨0, 0, 0, 0, ∅, [], []⟩ 6 3 (.teams [] [])).KeepsClients 3
        [⟨some {3}, some 4, fun _ => []⟩, ⟨some {3}, some 5, fun _ => []⟩] := by
  rintro ⟨-, h⟩
  have h₁ := (h _ _ _ rfl rfl).2.2.2
  have h₂ := (h₁ _ _ _ rfl rfl).1 4
  exact absurd (h₂ (by decide)) (by decide)

end Inferno.Chat
