import Inferno.Packets.Codec

/-!
# The kind of a packet

The field `type` of `packet_header` is counted in `Packet::get_header_size`, but
`Packet::add_header` does not copy it, so nothing on the wire says what it was. The second
layer's header is covered by the base layer's. What does tell the classes apart is how
much there is to send: no two of them have the same `get_packet_size`, so the length of a
packet gives its class (`classOfSize`) and with it its second layer.

## What is proved

* `bytes_eq_iff` — two packets are the same bytes if they are of one class and what of their
  bodies and headers reaches the wire is the same.
* `identifies_iff` — so the bytes do not identify the kinds of just those packets that
  differ in `type` and are the same in all of this.
-/

namespace Inferno.Packets

open ByteMem

variable {X Y : Concrete}

/-- A packet of a concrete class. -/
structure Obj (X : Concrete) where
  this : X.cls.family.layer.Pkt
  body : X.cls.Body

/-- The member `header`. -/
def Obj.header (p : Obj X) : PacketHeader := (X.cls.family.layer.base p.this).header

/-- The packet, serialized into a zeroed buffer at `data`. -/
def Obj.bytes (p : Obj X) (data : ℤ) : List UInt8 :=
  load (execAll (X.cls.serialize p.this p.body data) fun _ => 0) data X.cls.getPacketSize

/-- From equal bytes follow the same type and the same second layer. -/
def Identifies (p : Obj X) (q : Obj Y) : Prop :=
  ∀ data data', p.bytes data = q.bytes data' → p.header.type = q.header.type ∧ X.cls.family = Y.cls.family

/-- Two packets of one class that differ in `type` but not in what reaches the wire: the header's
other fields, and of the body all of it, except `experience` of a `G_Primary_Notify_Packet` and
the second half of `z` of an `I_Minion_Packet`. -/
def Twins (p : Obj X) (q : Obj Y) : Prop :=
  ∃ h : Y = X, X.wire.fields p.body = X.wire.fields (h ▸ q).body ∧ p.header.sent = q.header.sent ∧
    p.header.type ≠ q.header.type

/-- The bytes that `get_packet_size` counts and no layer writes. -/
def Family.unwritten : Family → ℕ
  | .event => 3
  | .sync => 1
  | .protocol => 2

theorem Concrete.getPacketSize_eq (X : Concrete) :
    X.cls.getPacketSize = X.cls.headerAt + 12 + X.cls.family.unwritten := by
  cases X <;> rfl

/-- **What there is to send** after `serialize`: the fields, the base header, and what was in the
buffer behind them. -/
theorem Obj.load_serialize (p : Obj X) (data : ℤ) (m : Mem) :
    load (execAll (X.cls.serialize p.this p.body data) m) data X.cls.getPacketSize =
      Layout.encode (X.wire.fields p.body, p.header.sent) ++
        load m (data + (X.cls.headerAt + 12 : ℕ)) X.cls.family.unwritten := by
  have hwidth : X.cls.headerAt + 12 = Layout.width (X.wire.Fields × UInt32 × UInt16 × UInt16 × UInt32) := by
    rw [← X.wire.width_eq]
    rfl
  rw [X.wire.execAll_serialize, X.getPacketSize_eq, hwidth, load_add, Layout.load_write,
    Layout.load_write_of_disjoint _ (Or.inr le_rfl)]
  rfl

/-- A packet's bytes in a zeroed buffer. -/
theorem Obj.bytes_eq (p : Obj X) (data : ℤ) :
    p.bytes data =
      Layout.encode (X.wire.fields p.body, p.header.sent) ++ List.replicate X.cls.family.unwritten 0 := by
  rw [Obj.bytes, p.load_serialize, load_zeros]

/-- The class whose packets have this many bytes. -/
def classOfSize : ℕ → Option Concrete
  | 15 => some .cPing
  | 16 => some .cSYN
  | 17 => some .gAutoRequest
  | 18 => some .iLastHit
  | 22 => some .gAutoNotify
  | 24 => some .gPing
  | 27 => some .gMoveRequest
  | 28 => some .gMoveNotify
  | 32 => some .iAuto
  | 33 => some .iObjective
  | 40 => some .gPrimaryRequest
  | 41 => some .gPrimaryNotify
  | 42 => some .iPrimary
  | 43 => some .iMinion
  | 59 => some .iLocalPlayer
  | _ => none

/-- **The length of a packet gives its class.** -/
theorem classOfSize_length (p : Obj X) (data : ℤ) : classOfSize (p.bytes data).length = some X := by
  rw [Obj.bytes, length_load]
  cases X <;> rfl

/-- Two packets with the same bytes are of one class. -/
theorem eq_of_bytes_eq {p : Obj X} {q : Obj Y} {data data' : ℤ} (h : p.bytes data = q.bytes data') : Y = X := by
  refine Option.some.inj ?_
  rw [← classOfSize_length p data, ← classOfSize_length q data', h]

/-- **When two packets are the same bytes.** -/
theorem bytes_eq_iff (p : Obj X) (q : Obj Y) (data data' : ℤ) :
    p.bytes data = q.bytes data' ↔
      ∃ h : Y = X, X.wire.fields p.body = X.wire.fields (h ▸ q).body ∧ p.header.sent = q.header.sent := by
  constructor
  · intro h
    obtain rfl := eq_of_bytes_eq h
    rw [Obj.bytes_eq, Obj.bytes_eq, List.append_cancel_right_eq] at h
    obtain ⟨hfields, hsent⟩ := Prod.mk.inj (Layout.encode_injective h)
    exact ⟨rfl, hfields, hsent⟩
  · rintro ⟨rfl, hfields, hsent⟩
    rw [Obj.bytes_eq, Obj.bytes_eq, hfields, hsent]

/-- **When the bytes identify the kinds**: unless the packets are twins. -/
theorem identifies_iff (p : Obj X) (q : Obj Y) : Identifies p q ↔ ¬ Twins p q := by
  constructor
  · rintro hid ⟨h, hfields, hsent, htype⟩
    exact htype (hid 0 0 ((bytes_eq_iff p q 0 0).mpr ⟨h, hfields, hsent⟩)).1
  · intro htwins data data' hbytes
    obtain ⟨h, hfields, hsent⟩ := (bytes_eq_iff p q data data').mp hbytes
    by_cases htype : p.header.type = q.header.type
    · exact ⟨htype, by rw [h]⟩
    · exact absurd ⟨h, hfields, hsent, htype⟩ htwins

/-- A `C_Ping_Packet` of type `STATE_CHANGE_PACKET` and the same of type `STATE_SYNC_PACKET`. -/
theorem ping_types_lost :
    ¬ Identifies (X := .cPing) (Y := .cPing) ⟨(⟨⟨⟨59343074, 1, 2, 3, 0⟩⟩, ⟨0⟩⟩ : ProtocolPacket), (⟨7⟩ : CPing)⟩
      ⟨(⟨⟨⟨59343074, 1, 2, 3, 1⟩⟩, ⟨0⟩⟩ : ProtocolPacket), (⟨7⟩ : CPing)⟩ := by
  intro h
  have hbytes := (bytes_eq_iff (X := .cPing) (Y := .cPing)
    ⟨(⟨⟨⟨59343074, 1, 2, 3, 0⟩⟩, ⟨0⟩⟩ : ProtocolPacket), (⟨7⟩ : CPing)⟩
    ⟨(⟨⟨⟨59343074, 1, 2, 3, 1⟩⟩, ⟨0⟩⟩ : ProtocolPacket), (⟨7⟩ : CPing)⟩ 0 0).mpr ⟨rfl, rfl, rfl⟩
  exact absurd (h 0 0 hbytes).1 (by decide)

end Inferno.Packets
