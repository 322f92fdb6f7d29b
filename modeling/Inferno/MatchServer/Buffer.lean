import Inferno.MatchServer.Loops
import Mathlib.Data.List.GetD
import Mathlib.Data.List.ReduceOption

/-!
# The Acceptor's buffer

`Acceptor::startReceiving` receives all datagrams into one buffer and pushes copies of the whole of it,
without their lengths. So behind the end of a datagram a packet has what longer ones before it left
there, and what a failed `recvfrom` pushes is the buffer as it was.

## What is proved

* `buffer_afterReceiving` — each byte of the buffer is of the last datagram that was long enough for it.
* `noninterfering_iff` — what is pushed for a datagram does not depend on the datagrams before it exactly if
  no `recvfrom` fails, the datagram fits, and the last one before it that was long enough for a byte
  behind its end had a zero there.

## Scope

As for the two loops, and for their queue. What is pushed to a queue that is full counts as pushed.
-/

namespace Inferno.MatchServer

open CStr Machine

variable {A : Type}

/-- An iteration of the loop of `startReceiving`: the variables after it, and the packets that it has pushed.
A failed `recvfrom` is only reported. -/
def Loops.iterate (s : Loops A) (r : Option (Datagram A)) : Loops A × List (Packet A) :=
  let s := recvfrom s r
  (s, [buildpacket s.currentClient s.buffer s.received.length])

/-- The variables after some iterations. -/
def Loops.afterReceiving (s : Loops A) (rs : List (Option (Datagram A))) : Loops A :=
  rs.foldl (fun s r => (s.iterate r).1) s

/-- The data of the packets that are pushed for `r` after the iterations for `pre`. -/
def Loops.pushedData (s : Loops A) (pre : List (Option (Datagram A))) (r : Option (Datagram A)) : List (List UInt8) :=
  ((s.afterReceiving pre).iterate r).2.map Packet.data

/-- What the data of a packet should be: the bytes of the datagram, then zeros. -/
def Datagram.padded (d : Datagram A) : List UInt8 :=
  d.bytes ++ List.replicate (maxPacketSize - d.bytes.length) 0

/-- The `k`-th datagram that is received is `d`, after the iterations for `pre`. -/
def Receives (rs : List (Option (Datagram A))) (k : ℕ) (pre : List (Option (Datagram A))) (d : Datagram A) : Prop :=
  ∃ post, rs = pre ++ some d :: post ∧ pre.reduceOption.length = k

/-- Two runs do not interfere with what they both receive: for a `k`-th datagram that is the same in both, both push the
same data, which is its own, and for a `recvfrom` that fails neither pushes anything. -/
structure Noninterfering (s s' : Loops A) (rs rs' : List (Option (Datagram A))) : Prop where
  same : ∀ k d pre pre', Receives rs k pre d → Receives rs' k pre' d →
    s.pushedData pre (some d) = [d.padded] ∧ s'.pushedData pre' (some d) = [d.padded]
  failed : ∀ pre post, rs = pre ++ none :: post → s.pushedData pre none = []
  failed' : ∀ pre post, rs' = pre ++ none :: post → s'.pushedData pre none = []

/-- The byte at `i` of the last of some datagrams that was long enough for it, or zero; `recvfrom` has room for all
bytes of the buffer but the last. -/
def lastByte (earlier : List (Datagram A)) (i : ℕ) : UInt8 :=
  (earlier.reverse.findSome? fun d => (d.bytes.take (maxPacketSize - 1))[i]?).getD 0

/-- A datagram that fits in a packet, where a byte for which `recvfrom` has no room is a zero, as are all bytes
that the datagrams before it have left behind its end. -/
structure Clean (earlier : List (Datagram A)) (d : Datagram A) : Prop where
  length_le : d.bytes.length ≤ maxPacketSize
  last : d.bytes.getD (maxPacketSize - 1) 0 = 0
  behind : ∀ i < maxPacketSize, d.bytes.length ≤ i → lastByte earlier i = 0

/-! ### An iteration -/

/-- It is two steps of the Acceptor. -/
theorem run_iteration {s : Loops A} (hpack : s.pack = none) (r : Option (Datagram A)) :
    run step s [.receive r, .push] =
      some { (s.iterate r).1 with
        queue := (s.iterate r).2.foldl (fun queue pack => (push queue pack).2) s.queue } := by
  obtain ⟨buffer, client, pack, queue, current, received, processed⟩ := s
  cases hpack
  cases r <;> rfl

/-- What a byte is after one more datagram. -/
theorem lastByte_concat (earlier : List (Datagram A)) (d : Datagram A) (i : ℕ) :
    lastByte (earlier ++ [d]) i = ((d.bytes.take (maxPacketSize - 1))[i]?).getD (lastByte earlier i) := by
  rw [lastByte, List.reverse_append, List.reverse_singleton, List.singleton_append, List.findSome?_cons]
  cases (d.bytes.take (maxPacketSize - 1))[i]? <;> rfl

/-- The last byte of the buffer is never received. -/
theorem lastByte_of_le (earlier : List (Datagram A)) {i : ℕ} (hi : maxPacketSize - 1 ≤ i) : lastByte earlier i = 0 := by
  have hnone : (earlier.reverse.findSome? fun d => (d.bytes.take (maxPacketSize - 1))[i]?) = none := by
    rw [List.findSome?_eq_none_iff]
    intro d _
    rw [List.getElem?_eq_none_iff, List.length_take]
    omega
  rw [lastByte, hnone, Option.getD_none]

/-- **What is in the buffer**: of each byte, the last that was received there. -/
theorem buffer_afterReceiving (client address : A) (data : List UInt8) (rs : List (Option (Datagram A))) :
    ((start client address data).afterReceiving rs).buffer =
      (List.range maxPacketSize).map (lastByte rs.reduceOption) := by
  induction rs using List.reverseRecOn with
  | nil =>
    have hzero : lastByte ([] : List (Datagram A)) = fun _ => 0 := rfl
    rw [List.reduceOption_nil, hzero, List.map_const', List.length_range]
    rfl
  | append_singleton rs r ih =>
    rw [Loops.afterReceiving, List.foldl_concat, List.reduceOption_append, List.reduceOption_singleton]
    change (recvfrom ((start client address data).afterReceiving rs) r).buffer = _
    cases r with
    | none => rw [recvfrom, ih, Option.toList_none, List.append_nil]
    | some d =>
      rw [recvfrom, Option.toList_some]
      apply List.ext_getElem?
      intro i
      rw [getElem?_copyAt_zero, ih, List.getElem?_map, List.getElem?_map]
      by_cases hi : i < maxPacketSize
      · rw [List.getElem?_range hi, Option.map_some, Option.map_some, lastByte_concat]
        split_ifs with hlt
        · rw [List.getElem?_eq_getElem hlt, Option.getD_some]
        · rw [List.getElem?_eq_none (not_lt.mp hlt), Option.getD_none]
      · have hshort : ¬ i < (d.bytes.take (maxPacketSize - 1)).length := by
          rw [List.length_take]
          omega
        rw [if_neg hshort, List.getElem?_eq_none (by simpa using hi), Option.map_none, Option.map_none]

/-- What is pushed for a datagram. -/
theorem pushedData_some (client address : A) (data : List UInt8) (pre : List (Option (Datagram A))) (d : Datagram A) :
    (start client address data).pushedData pre (some d) =
      [(List.range maxPacketSize).map (lastByte (pre.reduceOption ++ [d]))] := by
  have hbuffer := buffer_afterReceiving client address data (pre ++ [some d])
  rw [Loops.afterReceiving, List.foldl_concat, List.reduceOption_append, List.reduceOption_singleton,
    Option.toList_some] at hbuffer
  change (recvfrom ((start client address data).afterReceiving pre) (some d)).buffer = _ at hbuffer
  rw [Loops.pushedData, Loops.iterate, List.map_singleton, buildpacket, hbuffer]
  rw [List.take_of_length_le (by simp)]

/-- The padded datagram, byte by byte. -/
theorem Datagram.padded_eq {d : Datagram A} (hlen : d.bytes.length ≤ maxPacketSize) :
    d.padded = (List.range maxPacketSize).map fun i => d.bytes.getD i 0 := by
  apply List.ext_getElem
  · simp only [Datagram.padded, List.length_append, List.length_replicate, List.length_map, List.length_range]
    omega
  · intro i hi hi'
    rw [List.getElem_map, List.getElem_range]
    by_cases hlt : i < d.bytes.length
    · simp only [Datagram.padded, List.getElem_append_left hlt, List.getD_eq_getElem _ _ hlt]
    · have hge := not_lt.mp hlt
      simp only [Datagram.padded, List.getElem_append_right hge, List.getElem_replicate, List.getD_eq_default _ _ hge]

/-- **When it is the datagram's own.** -/
theorem map_lastByte_eq_padded_iff (earlier : List (Datagram A)) (d : Datagram A) :
    (List.range maxPacketSize).map (lastByte (earlier ++ [d])) = d.padded ↔ Clean earlier d := by
  by_cases hlen : d.bytes.length ≤ maxPacketSize
  · rw [Datagram.padded_eq hlen, List.map_inj_left]
    have hget : ∀ i < d.bytes.length, i < maxPacketSize - 1 → lastByte (earlier ++ [d]) i = d.bytes.getD i 0 := by
      intro i hi hroom
      rw [lastByte_concat, List.getElem?_take_of_lt hroom, List.getElem?_eq_getElem hi, Option.getD_some,
        List.getD_eq_getElem _ _ hi]
    have hbehind : ∀ i, d.bytes.length ≤ i → lastByte (earlier ++ [d]) i = lastByte earlier i := by
      intro i hi
      rw [lastByte_concat, List.getElem?_eq_none (by rw [List.length_take]; omega), Option.getD_none]
    constructor
    · intro hall
      refine ⟨hlen, ?_, fun i hi hge => ?_⟩
      · rw [← hall (maxPacketSize - 1) (List.mem_range.mpr (by decide))]
        exact lastByte_of_le _ le_rfl
      · rw [← hbehind i hge, hall i (List.mem_range.mpr hi), List.getD_eq_default _ _ hge]
    · intro hclean i hi
      have hi := List.mem_range.mp hi
      by_cases hlt : i < d.bytes.length
      · by_cases hroom : i < maxPacketSize - 1
        · exact hget i hlt hroom
        · have hi : i = maxPacketSize - 1 := by omega
          rw [hi, hclean.last]
          exact lastByte_of_le _ le_rfl
      · have hge := not_lt.mp hlt
        rw [hbehind i hge, hclean.behind i hi hge, List.getD_eq_default _ _ hge]
  · refine iff_of_false (fun heq => hlen ?_) fun hclean => hlen hclean.length_le
    have hlength := congrArg List.length heq
    rw [Datagram.padded, List.length_append, List.length_replicate, List.length_map, List.length_range] at hlength
    omega

/-- So for what is pushed. -/
theorem pushedData_eq_padded_iff (client address : A) (data : List UInt8) (pre : List (Option (Datagram A)))
    (d : Datagram A) :
    (start client address data).pushedData pre (some d) = [d.padded] ↔ Clean pre.reduceOption d := by
  rw [pushedData_some, List.singleton_inj, map_lastByte_eq_padded_iff]

/-- Something is pushed in every iteration. -/
theorem failed_iff (s : Loops A) (rs : List (Option (Datagram A))) :
    (∀ pre post, rs = pre ++ none :: post → s.pushedData pre none = []) ↔ none ∉ rs := by
  constructor
  · intro h hmem
    obtain ⟨pre, post, hrs⟩ := List.append_of_mem hmem
    cases h pre post hrs
  · rintro h pre post rfl
    exact absurd (List.mem_append_right _ List.mem_cons_self) h

/-! ### Two runs -/

/-- **When two runs do not interfere**: when neither fails to receive, and what both receive is clean
in both. -/
theorem noninterfering_iff (client client' address address' : A) (data data' : List UInt8)
    (rs rs' : List (Option (Datagram A))) :
    Noninterfering (start client address data) (start client' address' data') rs rs' ↔
      (none ∉ rs ∧ none ∉ rs') ∧ ∀ k d pre pre', Receives rs k pre d → Receives rs' k pre' d →
        Clean pre.reduceOption d ∧ Clean pre'.reduceOption d := by
  constructor
  · rintro ⟨hsame, hfailed, hfailed'⟩
    refine ⟨⟨(failed_iff _ _).mp hfailed, (failed_iff _ _).mp hfailed'⟩, fun k d pre pre' h h' => ?_⟩
    obtain ⟨hown, hown'⟩ := hsame k d pre pre' h h'
    exact ⟨(pushedData_eq_padded_iff _ _ _ _ _).mp hown, (pushedData_eq_padded_iff _ _ _ _ _).mp hown'⟩
  · rintro ⟨⟨hnone, hnone'⟩, hclean⟩
    refine ⟨fun k d pre pre' h h' => ?_, (failed_iff _ _).mpr hnone, (failed_iff _ _).mpr hnone'⟩
    obtain ⟨hown, hown'⟩ := hclean k d pre pre' h h'
    exact ⟨(pushedData_eq_padded_iff _ _ _ _ _).mpr hown, (pushedData_eq_padded_iff _ _ _ _ _).mpr hown'⟩

/-- A datagram of one byte after one of three, and after one of one: the packets differ. -/
theorem short_after_long :
    (start 0 0 []).pushedData [some ⟨0, [1, 2, 3]⟩] (some ⟨0, [4]⟩) ≠
        (start 0 0 []).pushedData [some ⟨0, [1]⟩] (some ⟨0, [4]⟩) ∧
      ¬ Noninterfering (start 0 0 []) (start 0 0 []) [some ⟨0, [1, 2, 3]⟩, some ⟨0, [4]⟩]
        [some ⟨0, [1]⟩, some ⟨0, [4]⟩] := by
  constructor
  · rw [pushedData_some, pushedData_some, Ne, List.singleton_inj, List.map_inj_left]
    intro h
    exact absurd (h 1 (List.mem_range.mpr (by decide))) (by decide)
  · intro h
    obtain ⟨hown, -⟩ := h.same 1 ⟨0, [4]⟩ [some ⟨0, [1, 2, 3]⟩] [some ⟨0, [1]⟩] ⟨[], rfl, rfl⟩ ⟨[], rfl, rfl⟩
    have hclean := (pushedData_eq_padded_iff _ _ _ _ _).mp hown
    exact absurd (hclean.behind 1 (by decide) (by decide)) (by decide)

end Inferno.MatchServer
