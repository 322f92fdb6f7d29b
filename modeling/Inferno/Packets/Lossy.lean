import Inferno.Packets.Codec

/-!
# Two bodies that change on the way

Of the fifteen classes two do not give back what they are given. In `I_Minion_Packet` the copies
of `z` and of `rot_x` overlap by two bytes, and `deserialize` reads `z` and `y` where they would
lie if the two bytes had been taken from `x`. `G_Primary_Notify_Packet` has a field, `experience`,
that neither of its routines mentions.

## What is proved

* `iMinion_roundTrip_iff` — a minion comes back as it was exactly if each half of its `y` and of
  its `z` is the high half of its `x`.
* `gPrimaryNotify_roundTrip_iff` — an attack comes back as it was exactly if the structure that it
  is read into has the same `experience` already.
-/

namespace Inferno.Packets

open ByteMem

/-- What `deserialize` makes of `content` when it is given the position at which `serialize` has
started the header. -/
def PacketClass.roundTrip (X : PacketClass) (this : X.family.layer.Pkt) (body : X.Body) (m : Mem) (data : ℤ)
    (content : X.Body) : X.Body :=
  X.deserialize (execAll (X.serialize this body data) m) (data + X.headerAt) content

/-- The fields that reach the wire can be read behind `data`. -/
theorem Wire.read_serialize {X : PacketClass} (W : Wire X) (this : X.family.layer.Pkt) (body : X.Body) (data : ℤ)
    (m : Mem) : Layout.read (execAll (X.serialize this body data) m) data = W.fields body := by
  refine Layout.read_of_load ?_
  rw [W.width_eq]
  exact W.load_serialize this body data m

/-! ### Minions -/

/-- Two bytes from the high half of one field and two from the low half of the next. -/
def straddling (a b : UInt32) : UInt32 := UInt32.ofNat (a.toNat / 65536 + 65536 * (b.toNat % 65536))

/-- **What is read between two fields**, of which the second has at least its low half left. -/
theorem get_straddling {m : Mem} {p : ℤ} {a b : UInt32} (ha : get m p = a) (hb : get m (p + 4) = b.toUInt16) :
    get m (p + 2) = straddling a b := by
  have hfst := toNat_get_uInt32 m p
  have hmid := toNat_get_uInt32 m (p + 2)
  have hlow := (ByteMem.get m p : UInt16).toNat_lt
  have hhigh := (ByteMem.get m (p + 2) : UInt16).toNat_lt
  rw [show p + 2 + 2 = p + 4 by ring, hb, UInt32.toNat_toUInt16] at hmid
  rw [ha] at hfst
  rw [← UInt32.toNat_inj, straddling, UInt32.toNat_ofNat', hmid]
  omega

/-- The low half of a field. -/
theorem get_low_half {m : Mem} {p : ℤ} {b : UInt32} (hb : get m p = b) : get m p = b.toUInt16 := by
  have hboth := toNat_get_uInt32 m p
  have hlow := (ByteMem.get m p : UInt16).toNat_lt
  rw [hb] at hboth
  rw [← UInt16.toNat_inj, UInt32.toNat_toUInt16]
  omega

/-- It is the second field if both halves of the second are the high half of the first. -/
theorem straddling_eq_iff {a b : UInt32} : straddling a b = b ↔ b.toNat = a.toNat / 65536 * 65537 := by
  have ha := a.toNat_lt
  have hb := b.toNat_lt
  rw [← UInt32.toNat_inj, straddling, UInt32.toNat_ofNat']
  omega

/-- **What comes back of a minion**: all of it but `y` and `z`, each of which starts with the
high half of the coordinate before it. -/
theorem iMinion_roundTrip (this : SyncPacket) (body : MinionUpdate) (m : Mem) (data : ℤ) (content : MinionUpdate) :
    iMinionPacket.roundTrip this body m data content =
      { body with y := straddling body.x body.y, z := straddling body.y body.z } := by
  have hread : (Layout.read (execAll (iMinionPacket.serialize this body data) m) data :
      UInt16 × UInt16 × UInt16 × UInt32 × UInt32 × UInt16 × UInt32 × UInt32 × UInt32 × UInt16) = _ :=
    iMinionWire.read_serialize this body data m
  simp only [iMinionWire, Layout.read_prod, Layout.read_uInt16, Layout.read_uInt32, Layout.width_uInt16,
    Layout.width_uInt32, Prod.mk.injEq, add_assoc, Nat.cast_ofNat, Int.reduceAdd] at hread
  unfold PacketClass.roundTrip
  generalize execAll (iMinionPacket.serialize this body data) m = m' at hread
  obtain ⟨hid, hhealth, hmaxHealth, hx, hy, hz, hrotX, hrotY, hrotZ, hautoTarget⟩ := hread
  have hmidY : ByteMem.get m' (data + 8) = straddling body.x body.y := by
    rw [show data + 8 = data + 6 + 2 by ring]
    refine get_straddling hx ?_
    rw [show data + 6 + 4 = data + 10 by ring]
    exact get_low_half hy
  have hmidZ : ByteMem.get m' (data + 12) = straddling body.y body.z := by
    rw [show data + 12 = data + 10 + 2 by ring]
    refine get_straddling hy ?_
    rw [show data + 10 + 4 = data + 14 by ring]
    exact hz
  simp only [iMinionPacket, Nat.cast_ofNat, add_sub_assoc, Int.reduceSub, add_zero, hid, hhealth, hmaxHealth, hx,
    hmidY, hmidZ, hrotX, hrotY, hrotZ, hautoTarget]

/-- Each half of `y` and of `z` is the high half of `x`. -/
def MinionUpdate.HalvesAgree (body : MinionUpdate) : Prop :=
  body.y.toNat = body.x.toNat / 65536 * 65537 ∧ body.z.toNat = body.x.toNat / 65536 * 65537

/-- **When a minion comes back as it was.** -/
theorem iMinion_roundTrip_iff (this : SyncPacket) (body : MinionUpdate) (m : Mem) (data : ℤ)
    (content : MinionUpdate) : iMinionPacket.roundTrip this body m data content = body ↔ body.HalvesAgree := by
  have hback : iMinionPacket.roundTrip this body m data content = body ↔
      straddling body.x body.y = body.y ∧ straddling body.y body.z = body.z := by
    rw [iMinion_roundTrip]
    constructor
    · exact fun h => ⟨congrArg MinionUpdate.y h, congrArg MinionUpdate.z h⟩
    · rintro ⟨hy, hz⟩
      rw [hy, hz]
  have hx := body.x.toNat_lt
  rw [hback, straddling_eq_iff, straddling_eq_iff, MinionUpdate.HalvesAgree]
  refine and_congr_right fun hy => ?_
  rw [hy, show body.x.toNat / 65536 * 65537 / 65536 = body.x.toNat / 65536 by omega]

/-- A minion at `(0, 1, 0)` comes back at `(0, 65536, 0)`. -/
theorem minion_moves :
    ¬ iMinionPacket.roundTrip (⟨⟨⟨59343074, 1, 2, 3, 0⟩⟩, ⟨0, 1⟩⟩ : SyncPacket)
        (⟨7, 100, 100, 0, 1, 0, 0, 0, 0, 0⟩ : MinionUpdate) (fun _ => 0) 0 ⟨0, 0, 0, 0, 0, 0, 0, 0, 0, 0⟩ =
      (⟨7, 100, 100, 0, 1, 0, 0, 0, 0, 0⟩ : MinionUpdate) := by
  intro h
  rw [iMinion_roundTrip] at h
  exact absurd (congrArg MinionUpdate.y h) (by decide)

/-! ### Attacks -/

/-- **What comes back of an attack**: all of it but `experience`. -/
theorem gPrimaryNotify_roundTrip (this : EventPacket) (body : PrimaryNotify) (m : Mem) (data : ℤ)
    (content : PrimaryNotify) :
    gPrimaryNotifyPacket.roundTrip this body m data content = { body with experience := content.experience } := by
  have hread : (Layout.read (execAll (gPrimaryNotifyPacket.serialize this body data) m) data :
      UInt8 × UInt32 × UInt32 × UInt32 × UInt32 × UInt32 × UInt32 × UInt8) = _ :=
    gPrimaryNotifyWire.read_serialize this body data m
  simp only [gPrimaryNotifyWire, Layout.read_prod, Layout.read_uInt8, Layout.read_uInt32, Layout.width_uInt8,
    Layout.width_uInt32, Prod.mk.injEq, add_assoc, Nat.cast_ofNat, Nat.cast_one, Int.reduceAdd] at hread
  unfold PacketClass.roundTrip
  generalize execAll (gPrimaryNotifyPacket.serialize this body data) m = m' at hread
  obtain ⟨hattack, hplayerX, hplayerY, hplayerZ, htargetX, htargetY, htargetZ, hconf⟩ := hread
  simp only [gPrimaryNotifyPacket, Nat.cast_ofNat, add_sub_assoc, Int.reduceSub, add_zero,
    hattack, hplayerX, hplayerY, hplayerZ, htargetX, htargetY, htargetZ, hconf]

/-- **When an attack comes back as it was.** -/
theorem gPrimaryNotify_roundTrip_iff (this : EventPacket) (body : PrimaryNotify) (m : Mem) (data : ℤ)
    (content : PrimaryNotify) :
    gPrimaryNotifyPacket.roundTrip this body m data content = body ↔ content.experience = body.experience := by
  rw [gPrimaryNotify_roundTrip]
  constructor
  · intro h
    have hexperience := congrArg PrimaryNotify.experience h
    exact hexperience
  · intro h
    rw [h]

/-- An attack worth `50`, read into a structure of zeros, is worth nothing. -/
theorem experience_lost :
    ¬ gPrimaryNotifyPacket.roundTrip (⟨⟨⟨59343074, 1, 2, 3, 0⟩⟩, ⟨0, 1⟩⟩ : EventPacket)
        (⟨1, 10, 20, 30, 40, 50, 60, 50, 1⟩ : PrimaryNotify) (fun _ => 0) 0 ⟨0, 0, 0, 0, 0, 0, 0, 0, 0⟩ =
      (⟨1, 10, 20, 30, 40, 50, 60, 50, 1⟩ : PrimaryNotify) := by
  intro h
  rw [gPrimaryNotify_roundTrip] at h
  exact absurd (congrArg PrimaryNotify.experience h) (by decide)

end Inferno.Packets
