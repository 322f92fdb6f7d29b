import Inferno.Lib.Layout
import Inferno.Packets.Bodies

/-!
# The body codecs

What of a body reaches the wire is a tuple of numbers, in the order in which they lie
there (`Wire`). For thirteen of the classes the tuple is all of the body's fields and
`deserialize` reads it back (`Fieldwise`). The other two are `I_Minion_Packet`, of whose
`z` only the half is left that `rot_x` does not cover, and `G_Primary_Notify_Packet`,
which leaves `experience` out.

## What is proved

* `thirteen_codecs` — `serialize` and `deserialize` of the thirteen undo each other, in both directions.
-/

namespace Inferno.Packets

open ByteMem

/-- What of a class's bodies reaches the wire, and in what order. -/
structure Wire (X : PacketClass) where
  /-- The fields as they lie in the packet. -/
  Fields : Type
  layout : Layout Fields
  /-- Those of a body. -/
  fields : X.Body → Fields
  width_eq : layout.width = X.headerAt
  execAll_copies : ∀ data body m, execAll (X.copies data body) m = execAll (layout.write data (fields body)) m

/-- A class that copies every field once, each right behind the last, and back from the
same places. Once the fields are listed, that it does is seen by evaluating both routines. -/
structure Fieldwise (X : PacketClass) where
  /-- The fields in the order in which they are copied. -/
  Fields : Type
  layout : Layout Fields := by infer_instance
  /-- Those of a body. -/
  fields : X.Body → Fields
  injective : ∀ body body', fields body = fields body' → body = body' := by
    rintro ⟨⟩ ⟨⟩ h
    cases h
    rfl
  width_eq : layout.width = X.headerAt := by rfl
  copies_eq : ∀ data body, X.copies data body = layout.write data (fields body) := by
    intros
    simp [add_assoc]
  fields_deserialize : ∀ m data content,
      fields (X.deserialize m (data + X.headerAt) content) = layout.read m data := by
    intros
    simp [add_sub_assoc, add_assoc]

/-- What such a class has on the wire. -/
def Fieldwise.wire {X : PacketClass} (F : Fieldwise X) : Wire X where
  Fields := F.Fields
  layout := F.layout
  fields := F.fields
  width_eq := F.width_eq
  execAll_copies data body m := by rw [F.copies_eq]

attribute [instance] Wire.layout Fieldwise.layout

/-! ### The fields of each class -/

section

attribute [local simp] cPingPacket cSYNPacket gAutoNotifyPacket gAutoRequestPacket gMoveNotifyPacket
  gMoveRequestPacket gPingPacket gPrimaryNotifyPacket gPrimaryRequestPacket iAutoPacket iLastHitPacket
  iLocalPlayerPacket iObjectivePacket iPrimaryPacket

def cPingFields : Fieldwise cPingPacket where
  Fields := UInt8
  fields b := b.stamp

def cSYNFields : Fieldwise cSYNPacket where
  Fields := UInt8 × UInt8
  fields b := (b.req, b.confNumber)

def gAutoNotifyFields : Fieldwise gAutoNotifyPacket where
  Fields := UInt16 × UInt16 × UInt16 × UInt8
  fields b := (b.target, b.experience, b.damage, b.conf)

def gAutoRequestFields : Fieldwise gAutoRequestPacket where
  Fields := UInt16
  fields b := b.target

def gMoveNotifyFields : Fieldwise gMoveNotifyPacket where
  Fields := UInt32 × UInt32 × UInt32 × UInt8
  fields b := (b.x, b.y, b.z, b.conf)

def gMoveRequestFields : Fieldwise gMoveRequestPacket where
  Fields := UInt32 × UInt32 × UInt32
  fields b := (b.x, b.y, b.z)

def gPingFields : Fieldwise gPingPacket where
  Fields := UInt8 × UInt32 × UInt32
  fields b := (b.ping, b.x, b.y)

def gPrimaryRequestFields : Fieldwise gPrimaryRequestPacket where
  Fields := UInt8 × UInt32 × UInt32 × UInt32 × UInt32 × UInt32 × UInt32
  fields b := (b.pAttack, b.playerX, b.playerY, b.playerZ, b.targetX, b.targetY, b.targetZ)

def iAutoFields : Fieldwise iAutoPacket where
  Fields := UInt32 × UInt32 × UInt32 × UInt16 × UInt16 × UInt16 × UInt8
  fields b := (b.x, b.y, b.z, b.owner, b.target, b.damage, b.removed)

def iLastHitFields : Fieldwise iLastHitPacket where
  Fields := UInt16 × UInt16 × UInt8
  fields b := (b.attackerId, b.targetId, b.kill)

def iLocalPlayerFields : Fieldwise iLocalPlayerPacket where
  Fields := UInt16 × UInt16 × UInt16 × UInt16 × UInt16 × UInt16 × UInt16 × UInt32 × UInt32 × UInt32 × UInt32 ×
    UInt32 × UInt32 × UInt32 × UInt16 × UInt8 × UInt8
  fields b := (b.playerId, b.gold, b.health, b.maxHealth, b.mana, b.maxMana, b.cs, b.experience, b.x, b.y, b.z,
    b.rotX, b.rotY, b.rotZ, b.autoTarget, b.respawnTimer, b.level)

def iObjectiveFields : Fieldwise iObjectivePacket where
  Fields := UInt16 × UInt16 × UInt16 × UInt32 × UInt32 × UInt32 × UInt16
  fields b := (b.id, b.health, b.maxHealth, b.x, b.y, b.z, b.autoTarget)

def iPrimaryFields : Fieldwise iPrimaryPacket where
  Fields := UInt16 × UInt32 × UInt32 × UInt32 × UInt32 × UInt32 × UInt32 × UInt16 × UInt8
  fields b := (b.id, b.x, b.y, b.z, b.targetX, b.targetY, b.targetZ, b.damage, b.removed)

/-- All fields but `experience`. -/
def gPrimaryNotifyWire : Wire gPrimaryNotifyPacket where
  Fields := UInt8 × UInt32 × UInt32 × UInt32 × UInt32 × UInt32 × UInt32 × UInt8
  layout := inferInstance
  fields b := (b.pAttack, b.playerX, b.playerY, b.playerZ, b.targetX, b.targetY, b.targetZ, b.conf)
  width_eq := rfl
  execAll_copies data body m := by simp [add_assoc]

end

/-- Of a number whose second half is copied over, the first half is left. -/
theorem exec_put_of_half_covered (p : ℤ) (z r : UInt32) (m : Mem) :
    (put (p + 2) r).exec ((put p z).exec m) = (put (p + 2) r).exec ((put p z.toUInt16).exec m) := by
  have hbytes : bytesOf z = bytesOf z.toUInt16 ++ leBytes 2 (z.toNat / 65536) := by
    simp only [bytesOf, HostField.width, HostField.toNat, leBytes, UInt32.toNat_toUInt16, List.cons_append,
      List.nil_append, List.cons.injEq, and_true]
    refine ⟨?_, ?_, ?_, ?_⟩ <;> congr 1 <;> omega
  rw [put, put, put, hbytes]
  refine exec_exec_of_end_covered ?_ ?_ m
  · simp
  · simp [Memcpy.fin]

/-- All fields, with the half of `z` that is left. -/
def iMinionWire : Wire iMinionPacket where
  Fields := UInt16 × UInt16 × UInt16 × UInt32 × UInt32 × UInt16 × UInt32 × UInt32 × UInt32 × UInt16
  layout := inferInstance
  fields b := (b.id, b.health, b.maxHealth, b.x, b.y, b.z.toUInt16, b.rotX, b.rotY, b.rotZ, b.autoTarget)
  width_eq := rfl
  execAll_copies data body m := by
    have hz := fun m => exec_put_of_half_covered (data + 14) body.z body.rotX m
    rw [show data + 14 + 2 = data + 16 by ring] at hz
    simp [iMinionPacket, add_assoc, hz]

/-- What of a class's bodies reaches the wire. -/
def Concrete.wire : (X : Concrete) → Wire X.cls
  | .cPing => cPingFields.wire
  | .cSYN => cSYNFields.wire
  | .gAutoNotify => gAutoNotifyFields.wire
  | .gAutoRequest => gAutoRequestFields.wire
  | .gMoveNotify => gMoveNotifyFields.wire
  | .gMoveRequest => gMoveRequestFields.wire
  | .gPing => gPingFields.wire
  | .gPrimaryNotify => gPrimaryNotifyWire
  | .gPrimaryRequest => gPrimaryRequestFields.wire
  | .iAuto => iAutoFields.wire
  | .iLastHit => iLastHitFields.wire
  | .iLocalPlayer => iLocalPlayerFields.wire
  | .iMinion => iMinionWire
  | .iObjective => iObjectiveFields.wire
  | .iPrimary => iPrimaryFields.wire

/-- All but two of the classes copy field by field. -/
theorem Concrete.fieldwise (X : Concrete) (hminion : X ≠ .iMinion) (hnotify : X ≠ .gPrimaryNotify) :
    Nonempty (Fieldwise X.cls) := by
  cases X with
  | cPing => exact ⟨cPingFields⟩
  | cSYN => exact ⟨cSYNFields⟩
  | gAutoNotify => exact ⟨gAutoNotifyFields⟩
  | gAutoRequest => exact ⟨gAutoRequestFields⟩
  | gMoveNotify => exact ⟨gMoveNotifyFields⟩
  | gMoveRequest => exact ⟨gMoveRequestFields⟩
  | gPing => exact ⟨gPingFields⟩
  | gPrimaryNotify => exact absurd rfl hnotify
  | gPrimaryRequest => exact ⟨gPrimaryRequestFields⟩
  | iAuto => exact ⟨iAutoFields⟩
  | iLastHit => exact ⟨iLastHitFields⟩
  | iLocalPlayer => exact ⟨iLocalPlayerFields⟩
  | iMinion => exact absurd rfl hminion
  | iObjective => exact ⟨iObjectiveFields⟩
  | iPrimary => exact ⟨iPrimaryFields⟩

/-! ### Whole packets -/

/-- What of the base header reaches the wire. -/
def PacketHeader.sent (h : PacketHeader) : UInt32 × UInt16 × UInt16 × UInt32 :=
  (h.gameID, h.serverID, h.sequenceNum, h.ackBitfield)

theorem Packet.addHeader_eq_write (this : Packet) (tail : ℤ) :
    this.addHeader tail = Layout.write tail this.header.sent := by
  simp [Packet.addHeader, PacketHeader.sent, add_assoc]

/-- **What `serialize` leaves in memory**: the fields, and right behind them the base header. -/
theorem Wire.execAll_serialize {X : PacketClass} (W : Wire X) (this : X.family.layer.Pkt) (body : X.Body) (data : ℤ)
    (m : Mem) :
    execAll (X.serialize this body data) m =
      execAll (Layout.write data (W.fields body, (X.family.layer.base this).header.sent)) m := by
  rw [PacketClass.serialize, execAll_append, W.execAll_copies, (X.family.addHeader_eq_base this _ _).1,
    Packet.addHeader_eq_write, Layout.write_prod data, execAll_append, ← W.width_eq]

/-- The bytes before the header are the fields'. -/
theorem Wire.load_serialize {X : PacketClass} (W : Wire X) (this : X.family.layer.Pkt) (body : X.Body) (data : ℤ)
    (m : Mem) :
    load (execAll (X.serialize this body data) m) data X.headerAt = Layout.encode (W.fields body) := by
  rw [W.execAll_serialize, ← W.width_eq, Layout.write_prod, execAll_append,
    Layout.load_write_of_disjoint _ (Or.inl le_rfl), Layout.load_write]

/-- What `deserialize` makes of what `serialize` wrote is the body it was given, and what
`serialize` writes of what `deserialize` made of `b` is `b`. -/
def PacketClass.Codec (X : PacketClass) : Prop :=
  (∀ this body m data content,
      X.deserialize (execAll (X.serialize this body data) m) (data + X.headerAt) content = body) ∧
    ∀ this (b : List UInt8) m data content m' data', load m data X.headerAt = b →
      load (execAll (X.serialize this (X.deserialize m (data + X.headerAt) content) data') m') data' X.headerAt = b

/-- A class that copies field by field is a codec. -/
theorem Fieldwise.codec {X : PacketClass} (F : Fieldwise X) : X.Codec := by
  constructor
  · intro this body m data content
    refine F.injective _ _ ?_
    have hbytes := F.wire.load_serialize this body data m
    rw [← F.width_eq] at hbytes
    rw [F.fields_deserialize, Layout.read_of_load hbytes]
    rfl
  · rintro this b m data content m' data' rfl
    have hfields : F.wire.fields (X.deserialize m (data + X.headerAt) content) = Layout.read m data :=
      F.fields_deserialize m data content
    rw [F.wire.load_serialize, hfields, ← F.width_eq, ← Layout.load_write m' data']
    exact Layout.load_write_read m data m' data'

/-- **The codecs**: all of the classes but two are. -/
theorem thirteen_codecs (X : Concrete) (hminion : X ≠ .iMinion) (hnotify : X ≠ .gPrimaryNotify) : X.cls.Codec := by
  obtain ⟨F⟩ := X.fieldwise hminion hnotify
  exact F.codec

/-- `G_Ping_Packet` is one. -/
theorem codec_gPing : Concrete.gPing.cls.Codec := thirteen_codecs .gPing (by decide) (by decide)

end Inferno.Packets
