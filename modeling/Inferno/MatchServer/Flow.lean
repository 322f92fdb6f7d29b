import Inferno.Lib.BoundedQueue
import Inferno.MatchServer.Buffer

/-!
# What flows through the match server

The packets on their way from `Acceptor::startReceiving` through the queue to `Converter::convert`, in every
run of the two loops. The queue is one of bounded length to which the Acceptor only offers and the Converter
only polls; the Acceptor does not see that an offer is refused, nor the Converter that a poll finds nothing.

## What is proved

* `flow` — what is built, offered, let in, found and processed: the Acceptor builds what the calls of
  `recvfrom` say, whatever the Converter does; the packets let in are those found and those waiting, of which
  there are never more than there is room for; a push is refused exactly while that many are waiting; and the
  packets processed are those found, with one for each poll that finds none, of the packet before it.
* `lossless_iff` — the packets processed, waiting and about to be pushed are all that were built, in order and
  once each, for as long as every push finds room and every pop finds a packet, and no longer.

## Scope

As for the two loops, and for their queue.
-/

namespace Inferno.MatchServer

open BoundedQueue Machine

variable {A : Type}

/-- What a step of one of the loops does to the queue. -/
def queueOp (s : Loops A) : Event A → List (Op (Packet A))
  | .receive _ => []
  | .push => s.pack.toList.map .offer
  | .convert => [.poll]

/-- What a run does to it. -/
def queueOps (s : Loops A) (es : List (Event A)) : List (Op (Packet A)) := collect step queueOp s es

/-- What the calls of `recvfrom` give. -/
def receives : List (Event A) → List (Option (Datagram A))
  | [] => []
  | .receive r :: es => r :: receives es
  | .push :: es => receives es
  | .convert :: es => receives es

/-- The packets that the Acceptor builds when its calls of `recvfrom` give `rs`. -/
def Loops.packets (s : Loops A) : List (Option (Datagram A)) → List (Packet A)
  | [] => []
  | r :: rs => (s.iterate r).2 ++ (s.iterate r).1.packets rs

/-- What becomes of the packets built from what `recvfrom` gave in `rs`, when `ops` is what was done to the queue. -/
structure Flow (s₀ s : Loops A) (rs : List (Option (Datagram A))) (ops : List (Op (Packet A))) : Prop where
  offered : offered ops ++ s.pack.toList = s₀.packets rs
  queue : s.queue = after capacity [] ops
  accepted : accepted capacity [] ops = (polled capacity [] ops).reduceOption ++ s.queue
  length_le : s.queue.length ≤ capacity
  refused : ∀ pack, (push s.queue pack).1 = false ↔
    (BoundedQueue.accepted capacity [] ops).length = (polled capacity [] ops).reduceOption.length + capacity
  processed : s.processed = held s₀.currentPacket (polled capacity [] ops)

/-- The packets processed, waiting and about to be pushed are those that were built. -/
def Lossless (s₀ s : Loops A) (rs : List (Option (Datagram A))) : Prop :=
  s.processed ++ s.queue ++ s.pack.toList = s₀.packets rs

/-- The step's call on the queue succeeds. -/
def Served (s : Loops A) : Event A → Prop
  | .receive _ => True
  | .push => s.queue.length < capacity
  | .convert => s.queue ≠ []

/-! ### The Acceptor -/

theorem receives_concat (es : List (Event A)) (e : Event A) : receives (es ++ [e]) = receives es ++ receives [e] := by
  induction es with
  | nil => rfl
  | cons e' es ih => cases e' <;> simp only [List.cons_append, receives, ih]

theorem packets_concat (s : Loops A) (rs : List (Option (Datagram A))) (r : Option (Datagram A)) :
    s.packets (rs ++ [r]) = s.packets rs ++ ((s.afterReceiving rs).iterate r).2 := by
  induction rs generalizing s with
  | nil => rfl
  | cons r' rs ih =>
    rw [List.cons_append, Loops.packets, Loops.packets, ih, List.append_assoc]
    rfl

/-- The variables of the Acceptor's that it builds a packet from. -/
def Loops.acceptor (s : Loops A) : List UInt8 × A × List (Datagram A) := (s.buffer, s.currentClient, s.received)

/-- It builds a packet from no others. -/
theorem iterate_congr {s s' : Loops A} (h : s.acceptor = s'.acceptor) (r : Option (Datagram A)) :
    (s.iterate r).1.acceptor = (s'.iterate r).1.acceptor ∧ (s.iterate r).2 = (s'.iterate r).2 := by
  simp only [Loops.acceptor, Prod.mk.injEq] at h
  obtain ⟨hbuffer, hclient, hreceived⟩ := h
  cases r <;> simp [Loops.iterate, recvfrom, Loops.acceptor, hbuffer, hclient, hreceived]

/-- What the Acceptor has does not depend on what the Converter does, nor on when its own pushes come. -/
theorem acceptor_of_run {s₀ s : Loops A} {es : List (Event A)} (h : run step s₀ es = some s) :
    s.acceptor = (s₀.afterReceiving (receives es)).acceptor := by
  apply run_history (P := fun es s => s.acceptor = (s₀.afterReceiving (receives es)).acceptor) rfl _ h
  intro es e s₁ s₂ _ ih hstep
  rw [receives_concat]
  cases e with
  | receive r =>
    obtain ⟨-, rfl⟩ := step_receive hstep
    rw [receives, receives, Loops.afterReceiving, List.foldl_concat]
    exact (iterate_congr ih r).1
  | push =>
    obtain ⟨pack, -, rfl⟩ := step_push hstep
    rw [receives, receives, List.append_nil]
    exact ih
  | convert =>
    rw [receives, receives, List.append_nil]
    rcases step_convert hstep with ⟨p, queue, -, rfl⟩ | ⟨-, rfl⟩ <;> exact ih

/-- The packet that is built next. -/
theorem packets_receive {s₀ s s' : Loops A} {es : List (Event A)} {r : Option (Datagram A)}
    (h : run step s₀ es = some s) (hstep : step s (.receive r) = some s') :
    s₀.packets (receives (es ++ [.receive r])) = s₀.packets (receives es) ++ s'.pack.toList := by
  obtain ⟨-, rfl⟩ := step_receive hstep
  rw [receives_concat, receives, receives, packets_concat, ← (iterate_congr (acceptor_of_run h) r).2]
  rfl

/-! ### The queue -/

theorem queueOps_concat {s₀ s : Loops A} {es : List (Event A)} (h : run step s₀ es = some s) (e : Event A) :
    queueOps s₀ (es ++ [e]) = queueOps s₀ es ++ queueOp s e :=
  collect_concat h

/-- **The queue is one of bounded length**, and the Converter has what its polls find. -/
theorem queue_of_run {s₀ s : Loops A} {es : List (Event A)} (hqueue : s₀.queue = []) (hprocessed : s₀.processed = [])
    (h : run step s₀ es = some s) :
    s.queue = after capacity [] (queueOps s₀ es) ∧
      s.currentPacket = kept s₀.currentPacket (polled capacity [] (queueOps s₀ es)) ∧
      s.processed = held s₀.currentPacket (polled capacity [] (queueOps s₀ es)) := by
  apply run_history (P := fun es s => s.queue = after capacity [] (queueOps s₀ es) ∧
    s.currentPacket = kept s₀.currentPacket (polled capacity [] (queueOps s₀ es)) ∧
    s.processed = held s₀.currentPacket (polled capacity [] (queueOps s₀ es))) ⟨hqueue, rfl, hprocessed⟩ _ h
  intro es e s₁ s₂ hrun ih hstep
  obtain ⟨hqueue, hcurrent, hprocessed⟩ := ih
  rw [queueOps_concat hrun, after_append, polled_append, ← hqueue]
  cases e with
  | receive r =>
    obtain ⟨-, rfl⟩ := step_receive hstep
    rw [queueOp, polled, List.append_nil]
    cases r <;> exact ⟨rfl, hcurrent, hprocessed⟩
  | push =>
    obtain ⟨pack, hpack, rfl⟩ := step_push hstep
    rw [queueOp, hpack, Option.toList_some, List.map_singleton, polled, polled, List.append_nil]
    refine ⟨?_, hcurrent, hprocessed⟩
    change (push s₁.queue pack).2 = BoundedQueue.step capacity s₁.queue (.offer pack)
    rw [push, BoundedQueue.step]
    split_ifs <;> rfl
  | convert =>
    rw [queueOp, polled, polled, kept_concat, held_concat, ← hcurrent, ← hprocessed]
    rcases step_convert hstep with ⟨p, queue, hq, rfl⟩ | ⟨hq, rfl⟩
    · rw [hq]
      exact ⟨rfl, rfl, rfl⟩
    · rw [hq]
      exact ⟨rfl, rfl, rfl⟩

/-- Every packet built is offered, or about to be. -/
theorem offered_of_run {s₀ s : Loops A} {es : List (Event A)} (hpack : s₀.pack = none) (h : run step s₀ es = some s) :
    offered (queueOps s₀ es) ++ s.pack.toList = s₀.packets (receives es) := by
  apply run_history
    (P := fun es s => offered (queueOps s₀ es) ++ s.pack.toList = s₀.packets (receives es)) _ _ h
  · rw [hpack]
    rfl
  · intro es e s₁ s₂ hrun ih hstep
    rw [queueOps_concat hrun, offered_append]
    cases e with
    | receive r =>
      rw [packets_receive hrun hstep, ← ih]
      obtain ⟨hnone, rfl⟩ := step_receive hstep
      rw [hnone, queueOp, BoundedQueue.offered, Option.toList_none, List.append_nil]
    | push =>
      obtain ⟨pack, hsome, rfl⟩ := step_push hstep
      rw [receives_concat, receives, receives, List.append_nil, ← ih, queueOp, hsome]
      simp [offered]
    | convert =>
      rw [receives_concat, receives, receives, List.append_nil, ← ih, queueOp, BoundedQueue.offered,
        BoundedQueue.offered, List.append_nil]
      rcases step_convert hstep with ⟨p, queue, -, rfl⟩ | ⟨-, rfl⟩ <;> rfl

/-- **What becomes of the packets**, in every state of a run. -/
theorem flow {client address : A} {data : List UInt8} {es : List (Event A)} {s : Loops A}
    (h : run step (start client address data) es = some s) :
    Flow (start client address data) s (receives es) (queueOps (start client address data) es) := by
  obtain ⟨hqueue, -, hprocessed⟩ := queue_of_run rfl rfl h
  refine ⟨offered_of_run rfl h, hqueue, ?_, ?_, fun pack => ?_, hprocessed⟩
  · have happend := append_accepted capacity [] (queueOps (start client address data) es)
    rw [List.nil_append] at happend
    rw [happend, hqueue]
  · rw [hqueue]
    exact length_after_le (Nat.zero_le _) _
  · rw [← full_iff, ← hqueue, push]
    split_ifs with hroom
    · exact iff_of_false (by decide) (not_not_intro hroom)
    · exact iff_of_true rfl hroom

/-- Two datagrams are received and pushed before the Converter comes round three times: it processes
the first, the second, and the second again. -/
theorem flow_two_datagrams :
    let es := [.receive (some ⟨7, [1]⟩), .push, .receive (some ⟨8, [2]⟩), .push, .convert, .convert, .convert]
    ∃ s, Flow (start 0 0 []) s (receives es) (queueOps (start 0 0 []) es) ∧ s.processed.map Packet.origin = [1, 2, 2] :=
  let es := [.receive (some ⟨7, [1]⟩), .push, .receive (some ⟨8, [2]⟩), .push, .convert, .convert, .convert]
  ⟨(run step (start 0 0 []) es).get rfl, @flow _ _ _ _ es _ rfl, rfl⟩

/-! ### When nothing is lost -/

/-- What a step leaves of it: a packet refused is lost, and one processed again is one too many. -/
theorem lossless_step_iff {s₀ s s' : Loops A} {es : List (Event A)} {e : Event A} (h : run step s₀ es = some s)
    (hall : Lossless s₀ s (receives es)) (hstep : step s e = some s') :
    Lossless s₀ s' (receives (es ++ [e])) ↔ Served s e := by
  rw [Lossless] at hall ⊢
  cases e with
  | receive r =>
    apply iff_of_true _ trivial
    rw [packets_receive h hstep, ← hall]
    obtain ⟨hnone, rfl⟩ := step_receive hstep
    rw [hnone, Option.toList_none, List.append_nil]
    cases r <;> rfl
  | push =>
    obtain ⟨pack, hsome, rfl⟩ := step_push hstep
    rw [receives_concat, receives, receives, List.append_nil, ← hall, hsome, push, Served]
    split_ifs with hroom
    · simp [hroom]
    · simp [hroom]
  | convert =>
    rw [receives_concat, receives, receives, List.append_nil, ← hall, Served]
    rcases step_convert hstep with ⟨p, queue, hq, rfl⟩ | ⟨hq, rfl⟩
    · simp [hq]
    · simp [hq]

/-- **When nothing is lost and nothing doubled**: for as long as every push finds room and every pop finds
a packet. -/
theorem lossless_iff {client address : A} {data : List UInt8} {es : List (Event A)} {s : Loops A}
    (h : run step (start client address data) es = some s) :
    EachPrefix step (fun es s => Lossless (start client address data) s (receives es)) (start client address data) es ↔
      EachStep step Served (start client address data) es := by
  apply eachPrefix_iff_eachStep (I := fun es s => run step (start client address data) es = some s) rfl rfl _ _ h
  · exact fun as s₁ a s₂ hrun hstep => run_concat_eq_some.mpr ⟨s₁, hrun, hstep⟩
  · exact fun as s₁ a s₂ hrun hall hstep => lossless_step_iff hrun hall hstep

/-- A datagram is received, pushed and processed. -/
theorem lossless_one_datagram :
    EachPrefix step (fun es s => Lossless (start 0 0 []) s (receives es)) (start 0 0 [])
        [.receive (some ⟨7, [1, 2]⟩), .push, .convert] ↔
      EachStep step Served (start 0 0 []) [.receive (some ⟨7, [1, 2]⟩), .push, .convert] :=
  lossless_iff (s := (run step (start 0 0 []) [.receive (some ⟨7, [1, 2]⟩), .push, .convert]).get rfl) rfl

end Inferno.MatchServer
