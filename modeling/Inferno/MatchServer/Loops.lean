import Inferno.Lib.CString
import Inferno.Lib.Positions
import Inferno.Lib.Runs

/-!
# The match server's two loops

`Acceptor::startReceiving` and `Converter::convert`, each on a thread of its own, with a
queue between them. The Acceptor takes datagrams into one buffer, over and over, and pushes
a copy of the buffer; the Converter pops and processes. Both ignore what the calls they make
return. So a failed `recvfrom` pushes the buffer as it was, and a `pop` from the empty queue
leaves the last packet to be processed again.

An iteration of the Acceptor is two steps, `recvfrom` and `push`; one of the Converter is a
single step, as `processPacket` touches nothing that the Acceptor does.

## What is proved

* `inOrder_iff` — the packets processed are a subsequence of the datagrams received in exactly
  the runs in which every `pop` finds a packet of a datagram that was not processed yet.

## Scope

`recvfrom` fills in the whole of `currentClient`. Nothing is printed. The queue is taken to be what
`boost::lockfree::spsc_queue` is documented to be: first in, first out, with room for 2000 packets, where
`push` and `pop` take effect at once and do not wait.
-/

namespace Inferno.MatchServer

open CStr Machine Positions

/-- `MAXPACKETSIZE`. -/
def maxPacketSize : ℕ := 1024

/-- The capacity of `converter_queue`. -/
def capacity : ℕ := 2000

/-- A datagram, as sent. -/
structure Datagram (A : Type) where
  address : A
  bytes : List UInt8

/-- `struct packet`. `origin` is no member of it; it says which datagram the bytes in `data` were
received as, counted from one, or zero for a packet made before there was any. -/
structure Packet (A : Type) where
  address : A
  data : List UInt8
  origin : ℕ

/-- The variables of the two loops, the queue, and what has come in and gone out. -/
structure Loops (A : Type) where
  /-- `startReceiving`'s `buffer`. -/
  buffer : List UInt8
  /-- `startReceiving`'s `currentClient`. -/
  currentClient : A
  /-- `startReceiving`'s `pack`, from where it is built to where it is pushed. -/
  pack : Option (Packet A)
  queue : List (Packet A)
  /-- `convert`'s `currentPacket`. -/
  currentPacket : Packet A
  /-- The datagrams for which `recvfrom` succeeded. -/
  received : List (Datagram A)
  /-- The packets passed to `processPacket`. -/
  processed : List (Packet A)

variable {A : Type}

/-- Both loops are about to begin. `client` is what `currentClient` holds, and `address` and `data`
what `currentPacket` does; nothing initializes them. -/
def start (client address : A) (data : List UInt8) : Loops A where
  buffer := List.replicate maxPacketSize 0
  currentClient := client
  pack := none
  queue := []
  currentPacket := ⟨address, data, 0⟩
  received := []
  processed := []

/-- `spsc_queue::push`, which refuses when there is no room. -/
def push (queue : List (Packet A)) (pack : Packet A) : Bool × List (Packet A) :=
  if queue.length < capacity then (true, queue ++ [pack]) else (false, queue)

/-- `spsc_queue::pop(currentPacket)`, which leaves `currentPacket` alone when there is nothing. -/
def pop (queue : List (Packet A)) (currentPacket : Packet A) : Bool × Packet A × List (Packet A) :=
  match queue with
  | [] => (false, currentPacket, [])
  | pack :: queue => (true, pack, queue)

/-- `recvfrom(sock, buffer, MAXPACKETSIZE - 1, …)`, of a datagram or of none. -/
def recvfrom (s : Loops A) : Option (Datagram A) → Loops A
  | none => s
  | some d =>
    { s with buffer := copyAt s.buffer 0 (d.bytes.take (maxPacketSize - 1)), currentClient := d.address,
             received := s.received ++ [d] }

/-- `Acceptor::buildpacket`. -/
def buildpacket (addr : A) (inputData : List UInt8) (origin : ℕ) : Packet A :=
  ⟨addr, inputData.take maxPacketSize, origin⟩

/-- What happens next. -/
inductive Event (A : Type) where
  /-- The Acceptor calls `recvfrom`, which fails or gets a datagram, and builds the packet. -/
  | receive (r : Option (Datagram A))
  /-- The Acceptor calls `push`. -/
  | push
  /-- The Converter calls `pop` and then `processPacket`. -/
  | convert

/-- A step of one of the loops. -/
def step (s : Loops A) : Event A → Option (Loops A)
  | .receive r =>
    match s.pack with
    | some _ => none
    | none =>
      let s := recvfrom s r
      some { s with pack := some (buildpacket s.currentClient s.buffer s.received.length) }
  | .push =>
    match s.pack with
    | none => none
    | some pack => some { s with pack := none, queue := (push s.queue pack).2 }
  | .convert =>
    let (_, currentPacket, queue) := pop s.queue s.currentPacket
    some { s with currentPacket := currentPacket, queue := queue, processed := s.processed ++ [currentPacket] }

/-- A packet with a datagram in it: whence it came, and its bytes, of which `recvfrom` had room for
all but the last. -/
def Packet.Holds (p : Packet A) (d : Datagram A) : Prop :=
  p.address = d.address ∧ d.bytes.take (maxPacketSize - 1) <+: p.data

/-- The packets processed hold datagrams received, in order and none of them twice. -/
def InOrder (s : Loops A) : Prop := Embeds Packet.Holds Packet.origin s.processed s.received

/-- The queue is not empty, and what a pop finds is of a datagram that was received and not
processed. -/
def Fresh (s : Loops A) : Event A → Prop
  | .convert => ∃ p ∈ s.queue.head?, p.origin ≠ 0 ∧ ∀ p' ∈ s.processed, p'.origin ≠ p.origin
  | _ => True

/-! ### What a step does -/

theorem step_receive {s s' : Loops A} {r : Option (Datagram A)} (h : step s (.receive r) = some s') :
    s.pack = none ∧
      s' = { recvfrom s r with
        pack := some (buildpacket (recvfrom s r).currentClient (recvfrom s r).buffer
          (recvfrom s r).received.length) } := by
  simp only [step] at h
  split at h
  · cases h
  · next hpack =>
    cases h
    exact ⟨hpack, rfl⟩

theorem step_push {s s' : Loops A} (h : step s .push = some s') :
    ∃ pack, s.pack = some pack ∧ s' = { s with pack := none, queue := (push s.queue pack).2 } := by
  simp only [step] at h
  split at h
  · cases h
  · next pack hpack =>
    cases h
    exact ⟨pack, hpack, rfl⟩

/-- The Converter takes the first packet of the queue, or has the last one again. -/
theorem step_convert {s s' : Loops A} (h : step s .convert = some s') :
    (∃ p queue, s.queue = p :: queue ∧
        s' = { s with currentPacket := p, queue := queue, processed := s.processed ++ [p] }) ∨
      s.queue = [] ∧ s' = { s with processed := s.processed ++ [s.currentPacket] } := by
  obtain ⟨buffer, client, pack, queue, current, received, processed⟩ := s
  cases queue with
  | nil =>
    cases h
    exact Or.inr ⟨rfl, rfl⟩
  | cons p queue =>
    cases h
    exact Or.inl ⟨p, queue, rfl, rfl⟩

/-! ### The line of packets -/

/-- All packets there are, the oldest first. -/
def Loops.line (s : Loops A) : List (Packet A) :=
  s.processed ++ s.currentPacket :: (s.queue ++ s.pack.toList)

/-- What is true in every state of a run: what is in the buffer and in the packets, and that no
packet is before one that was built earlier. -/
structure Sound (s : Loops A) : Prop where
  buffer : ∀ d ∈ s.received.getLast?,
    s.currentClient = d.address ∧ d.bytes.take (maxPacketSize - 1) <+: s.buffer
  holds : ∀ p ∈ s.line, p.origin ≠ 0 → ∃ d, s.received[p.origin - 1]? = some d ∧ p.Holds d
  sorted : s.line.Pairwise fun p p' => p.origin ≤ p'.origin
  origin_le : ∀ p ∈ s.line, p.origin ≤ s.received.length
  current : s.currentPacket.origin = 0 ∨ ∃ p ∈ s.processed, p.origin = s.currentPacket.origin

theorem Sound.start (client address : A) (data : List UInt8) : Sound (start client address data) where
  buffer := by simp [MatchServer.start]
  holds := by simp [MatchServer.start, Loops.line]
  sorted := by simp [MatchServer.start, Loops.line]
  origin_le := by simp [MatchServer.start, Loops.line]
  current := Or.inl rfl

/-- A packet of the line may be there twice. -/
theorem pairwise_twice {l r : List (Packet A)} {p : Packet A}
    (h : (l ++ p :: r).Pairwise fun p p' => p.origin ≤ p'.origin) :
    (l ++ p :: p :: r).Pairwise fun p p' => p.origin ≤ p'.origin := by
  simp only [List.pairwise_append, List.pairwise_cons, List.mem_cons] at h ⊢
  obtain ⟨hl, ⟨hp, hr⟩, hlr⟩ := h
  refine ⟨hl, ⟨?_, hp, hr⟩, ?_⟩
  · rintro q (rfl | hq)
    · exact le_rfl
    · exact hp q hq
  · rintro q hq q' (rfl | hq')
    · exact hlr q hq q' (Or.inl rfl)
    · exact hlr q hq q' hq'

/-- A step that brings in nothing new. -/
theorem Sound.of_mem {s s' : Loops A} (hs : Sound s)
    (hacceptor : s'.buffer = s.buffer ∧ s'.currentClient = s.currentClient ∧ s'.received = s.received)
    (hmem : ∀ p ∈ s'.line, p ∈ s.line) (hsorted : s'.line.Pairwise fun p p' => p.origin ≤ p'.origin)
    (hcurrent : s'.currentPacket.origin = 0 ∨ ∃ p ∈ s'.processed, p.origin = s'.currentPacket.origin) : Sound s' := by
  obtain ⟨hbuffer, hclient, hreceived⟩ := hacceptor
  refine ⟨?_, fun p hp => ?_, hsorted, fun p hp => ?_, hcurrent⟩
  · rw [hreceived, hclient, hbuffer]
    exact hs.buffer
  · rw [hreceived]
    exact hs.holds p (hmem p hp)
  · rw [hreceived]
    exact hs.origin_le p (hmem p hp)

theorem Sound.push {s s' : Loops A} (hs : Sound s) (h : MatchServer.step s .push = some s') : Sound s' := by
  obtain ⟨pack, hpack, rfl⟩ := step_push h
  have hline : s.line = s.processed ++ s.currentPacket :: (s.queue ++ [pack]) := by
    rw [Loops.line, hpack, Option.toList_some]
  have hsub : (s.processed ++ s.currentPacket :: ((MatchServer.push s.queue pack).2 ++ [])).Sublist s.line := by
    rw [hline, List.append_nil]
    refine List.Sublist.append_left (List.Sublist.cons_cons _ ?_) _
    by_cases hroom : s.queue.length < capacity
    · rw [MatchServer.push, if_pos hroom]
    · rw [MatchServer.push, if_neg hroom]
      exact List.sublist_append_left _ _
  exact hs.of_mem ⟨rfl, rfl, rfl⟩ (fun p hp => hsub.subset hp) (hs.sorted.sublist hsub) hs.current

theorem Sound.convert {s s' : Loops A} (hs : Sound s) (h : MatchServer.step s .convert = some s') : Sound s' := by
  have hsorted := hs.sorted
  rcases step_convert h with ⟨p, queue, hq, rfl⟩ | ⟨hq, rfl⟩
  · refine hs.of_mem ⟨rfl, rfl, rfl⟩ (fun p' hp' => ?_) ?_ (Or.inr ⟨p, by simp, rfl⟩)
    · simp only [Loops.line, hq, List.mem_append, List.mem_cons] at hp' ⊢
      tauto
    · simp only [Loops.line, hq, List.append_assoc, List.cons_append, List.nil_append] at hsorted ⊢
      exact pairwise_twice (hsorted.sublist (List.Sublist.append_left (List.sublist_cons_self _ _) _))
  · refine hs.of_mem ⟨rfl, rfl, rfl⟩ (fun p' hp' => ?_) ?_ (Or.inr ⟨s.currentPacket, by simp, rfl⟩)
    · simp only [Loops.line, List.mem_append, List.mem_cons] at hp' ⊢
      tauto
    · simp only [Loops.line, List.append_assoc, List.cons_append, List.nil_append] at hsorted ⊢
      exact pairwise_twice hsorted

theorem Sound.receive {s s' : Loops A} {r : Option (Datagram A)} (hs : Sound s)
    (h : MatchServer.step s (.receive r) = some s') : Sound s' := by
  obtain ⟨hpack, rfl⟩ := step_receive h
  -- the datagrams received so far keep their places, and the last of them is in the buffer
  have hget : ∀ (i : ℕ) (d : Datagram A), s.received[i]? = some d → (recvfrom s r).received[i]? = some d := by
    intro i d hd
    cases r with
    | none => exact hd
    | some d' => exact List.getElem?_append_left (List.getElem?_eq_some_iff.mp hd).1 ▸ hd
  have hlen : s.received.length ≤ (recvfrom s r).received.length := by
    cases r with
    | none => exact le_rfl
    | some d' => simp [recvfrom]
  have hbuffer : ∀ d ∈ (recvfrom s r).received.getLast?,
      (recvfrom s r).currentClient = d.address ∧ d.bytes.take (maxPacketSize - 1) <+: (recvfrom s r).buffer := by
    cases r with
    | none => exact hs.buffer
    | some d' =>
      intro d hd
      obtain rfl : d' = d := by simpa [recvfrom] using hd
      exact ⟨rfl, by simp [recvfrom, copyAt]⟩
  have hline : Loops.line { recvfrom s r with
      pack := some (buildpacket (recvfrom s r).currentClient (recvfrom s r).buffer (recvfrom s r).received.length) } =
      s.line ++ [buildpacket (recvfrom s r).currentClient (recvfrom s r).buffer (recvfrom s r).received.length] := by
    cases r <;> simp [Loops.line, hpack, recvfrom]
  refine ⟨hbuffer, ?_, ?_, ?_, ?_⟩
  · intro p hp hone
    rw [hline, List.mem_append, List.mem_singleton] at hp
    rcases hp with hp | rfl
    · obtain ⟨d, hd, hholds⟩ := hs.holds p hp hone
      exact ⟨d, hget _ d hd, hholds⟩
    · obtain ⟨d, hd⟩ := Option.ne_none_iff_exists'.mp (mt List.getLast?_eq_none_iff.mp (List.ne_nil_of_length_pos
        (Nat.pos_of_ne_zero hone)))
      obtain ⟨haddress, hbytes⟩ := hbuffer d hd
      refine ⟨d, by rw [← hd, List.getLast?_eq_getElem?]; rfl, haddress, ?_⟩
      rw [buildpacket, List.prefix_take_iff]
      exact ⟨hbytes, by simp [maxPacketSize]⟩
  · rw [hline, List.pairwise_append]
    refine ⟨hs.sorted, List.pairwise_singleton _ _, fun p hp p' hp' => ?_⟩
    rw [List.mem_singleton] at hp'
    subst hp'
    exact (hs.origin_le p hp).trans hlen
  · intro p hp
    rw [hline, List.mem_append, List.mem_singleton] at hp
    rcases hp with hp | rfl
    · exact (hs.origin_le p hp).trans hlen
    · exact le_rfl
  · cases r <;> exact hs.current

/-- **Whatever the loops do**, what holds of them is kept. -/
theorem Sound.step {s s' : Loops A} {e : Event A} (hs : Sound s) (h : MatchServer.step s e = some s') : Sound s' := by
  cases e with
  | receive r => exact hs.receive h
  | push => exact hs.push h
  | convert => exact hs.convert h

/-- **In every state of a run**, `Sound`. -/
theorem Sound.of_run {client address : A} {data : List UInt8} {es : List (Event A)} {s : Loops A}
    (h : run MatchServer.step (MatchServer.start client address data) es = some s) : Sound s :=
  run_history (P := fun _ s => Sound s) (Sound.start client address data) (fun _ _ _ _ _ ih hstep => ih.step hstep) h

/-! ### When the order is kept -/

/-- The packets processed are in order if their datagrams' positions increase. -/
theorem inOrder_iff_pairwise {s : Loops A} (hs : Sound s) :
    InOrder s ↔ (0 :: s.processed.map Packet.origin).Pairwise (· < ·) :=
  embeds_iff fun p hp => hs.holds p (List.mem_append_left _ hp)

/-- One more packet is in order if it is of a later datagram than all the ones before. -/
theorem inOrder_concat_iff {s s' : Loops A} {p : Packet A} (hs : Sound s) (hs' : Sound s')
    (h : s'.processed = s.processed ++ [p]) :
    InOrder s' ↔ InOrder s ∧ p.origin ≠ 0 ∧ ∀ p' ∈ s.processed, p'.origin < p.origin := by
  rw [inOrder_iff_pairwise hs, inOrder_iff_pairwise hs', h, List.map_append, ← List.cons_append,
    List.pairwise_append]
  simp [Nat.pos_iff_ne_zero]

/-- A step keeps the order if what it pops, if it pops, is fresh. -/
theorem inOrder_step_iff {s s' : Loops A} {e : Event A} (hs : Sound s) (hs' : Sound s') (hin : InOrder s)
    (h : step s e = some s') : InOrder s' ↔ Fresh s e := by
  cases e with
  | receive r =>
    obtain ⟨-, rfl⟩ := step_receive h
    refine iff_of_true ?_ trivial
    rw [inOrder_iff_pairwise hs] at hin
    rw [inOrder_iff_pairwise hs']
    cases r <;> exact hin
  | push =>
    obtain ⟨pack, -, rfl⟩ := step_push h
    exact iff_of_true hin trivial
  | convert =>
    rcases step_convert h with ⟨p, queue, hq, rfl⟩ | ⟨hq, rfl⟩
    · rw [inOrder_concat_iff hs hs' rfl, Fresh, hq]
      simp only [hin, true_and, List.head?_cons, Option.mem_some_iff, exists_eq_left']
      refine and_congr_right fun _ => forall₂_congr fun p' hp' => ?_
      -- the packets processed are not of later datagrams than those in the queue
      have hle : p'.origin ≤ p.origin := by
        have hsorted := hs.sorted
        rw [Loops.line, List.pairwise_append] at hsorted
        exact hsorted.2.2 p' hp' p (by simp [hq])
      omega
    · refine iff_of_false ?_ ?_
      · rw [inOrder_concat_iff hs hs' rfl]
        rintro ⟨-, hone, hlt⟩
        rcases hs.current with hzero | ⟨p, hp, hsame⟩
        · exact hone hzero
        · exact absurd (hlt p hp) (by omega)
      · rintro ⟨p, hp, -⟩
        rw [hq] at hp
        cases hp

/-- **When the packets processed are a subsequence of the datagrams received**: as long as each
pop finds a packet of a datagram not yet processed. -/
theorem inOrder_iff {client address : A} {data : List UInt8} {es : List (Event A)} {s : Loops A}
    (h : run step (start client address data) es = some s) :
    EachState step InOrder (start client address data) es ↔ EachStep step Fresh (start client address data) es := by
  apply eachState_iff_eachStep (I := Sound) (Sound.start client address data) _ _ _ h
  · rw [inOrder_iff_pairwise (Sound.start client address data)]
    simp [start]
  · exact fun s e s' hs hstep => hs.step hstep
  · exact fun s e s' hs hin hstep => inOrder_step_iff hs (hs.step hstep) hin hstep

/-- A datagram is received, pushed and processed. -/
theorem inOrder_one_datagram :
    EachState step InOrder (start 0 0 []) [.receive (some ⟨7, [1, 2]⟩), .push, .convert] ↔
      EachStep step Fresh (start 0 0 []) [.receive (some ⟨7, [1, 2]⟩), .push, .convert] :=
  inOrder_iff (s := (run step (start 0 0 []) [.receive (some ⟨7, [1, 2]⟩), .push, .convert]).get rfl) rfl

/-- The Converter comes round a second time before there is a second datagram, and processes the
first again. -/
theorem datagram_processed_twice :
    ¬ EachState step InOrder (start 0 0 []) [.receive (some ⟨7, [1, 2]⟩), .push, .convert, .convert] := by
  intro h
  have hrun : run step (start 0 0 []) [.receive (some ⟨7, [1, 2]⟩), .push, .convert, .convert] =
      some ((run step (start 0 0 []) [.receive (some ⟨7, [1, 2]⟩), .push, .convert, .convert]).get rfl) := rfl
  have hin := h _ [] _ (List.append_nil _).symm hrun
  rw [inOrder_iff_pairwise (Sound.of_run hrun)] at hin
  exact absurd hin (by decide)

end Inferno.MatchServer
