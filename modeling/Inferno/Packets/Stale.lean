import Inferno.Packets.Kind

/-!
# Stale bytes

`get_packet_size` counts more than `serialize` writes: the base layer's size has a byte for
`type`, which is not copied, and the second layers of the `G_*` and `C_*` classes add the
size of a header that the base layer's covers. What is sent from there is what was in the
buffer before.

## What is proved

* `sent_eq_iff` — what is sent of a packet is the same from two buffers exactly if they had the
  same in them at those last bytes: three for a `G_*` packet, one for an `I_*` packet and two
  for a `C_*` packet.
* `serialize_within` — nothing behind what is sent is written.
-/

namespace Inferno.Packets

open ByteMem

variable {X : Concrete}

/-- What the caller sends of a packet that it has serialized to `data`, in memory that was `m`. -/
def Obj.sent (p : Obj X) (m : Mem) (data : ℤ) : List UInt8 :=
  load (execAll (X.cls.serialize p.this p.body data) m) data X.cls.getPacketSize

/-- The bytes of a buffer at `data` that are sent and not written. -/
def Concrete.stale (X : Concrete) (m : Mem) (data : ℤ) : List UInt8 :=
  load m (data + (X.cls.headerAt + 12 : ℕ)) X.cls.family.unwritten

/-- **When what is sent is the same from two buffers**: when their last bytes were. -/
theorem sent_eq_iff (p : Obj X) (m m' : Mem) (data data' : ℤ) :
    p.sent m data = p.sent m' data' ↔ X.stale m data = X.stale m' data' := by
  rw [Obj.sent, Obj.sent, p.load_serialize, p.load_serialize, List.append_cancel_left_eq, Concrete.stale,
    Concrete.stale]

/-- A `C_Ping_Packet` in a buffer of zeros, and in one of ones. -/
theorem ping_sends_buffer :
    ¬ Obj.sent (X := .cPing) ⟨(⟨⟨⟨59343074, 1, 2, 3, 0⟩⟩, ⟨0⟩⟩ : ProtocolPacket), (⟨7⟩ : CPing)⟩ (fun _ => 0) 0 =
      Obj.sent (X := .cPing) ⟨(⟨⟨⟨59343074, 1, 2, 3, 0⟩⟩, ⟨0⟩⟩ : ProtocolPacket), (⟨7⟩ : CPing)⟩ (fun _ => 1) 0 := by
  intro h
  have hlast := congrArg List.getLast? h
  rw [Obj.sent, Obj.sent, Obj.load_serialize, Obj.load_serialize] at hlast
  simp [load, Concrete.cls, cPingPacket, Family.unwritten] at hlast

/-- **A packet stays within its size**: `serialize` changes no byte of a buffer at
`get_packet_size` or behind. -/
theorem serialize_within (X : Concrete) (this : X.cls.family.layer.Pkt) (body : X.cls.Body) (m : Mem) (data : ℤ)
    (i : ℕ) (hi : X.cls.getPacketSize ≤ i) : execAll (X.cls.serialize this body data) m (data + i) = m (data + i) := by
  have hwidth : Layout.width (X.wire.Fields × UInt32 × UInt16 × UInt16 × UInt32) = X.cls.headerAt + 12 := by
    rw [← X.wire.width_eq]
    rfl
  rw [X.getPacketSize_eq] at hi
  rw [X.wire.execAll_serialize]
  refine execAll_of_outside (fun w hw => Or.inr ?_) m
  have hfin := (Layout.within data _ w hw).2
  rw [hwidth] at hfin
  push_cast at hfin
  omega

/-- The byte behind an `I_Minion_Packet`, in a buffer of ones. -/
theorem minion_within :
    execAll (iMinionPacket.serialize (⟨⟨⟨59343074, 1, 2, 3, 0⟩⟩, ⟨0, 1⟩⟩ : SyncPacket)
      (⟨7, 100, 100, 0, 1, 0, 0, 0, 0, 0⟩ : MinionUpdate) 0) (fun _ => 1) (0 + (43 : ℕ)) = 1 :=
  serialize_within .iMinion (⟨⟨⟨59343074, 1, 2, 3, 0⟩⟩, ⟨0, 1⟩⟩ : SyncPacket)
    (⟨7, 100, 100, 0, 1, 0, 0, 0, 0, 0⟩ : MinionUpdate) (fun _ => 1) 0 43 (by decide)

end Inferno.Packets
