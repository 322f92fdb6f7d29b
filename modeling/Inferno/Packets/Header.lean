import Inferno.Lib.Memory

/-!
# Packet headers

`Packet`, and the three classes over it: `Event_Packet`, `Sync_Packet` and
`Protocol_Packet`. `addHeader` is the list of `memcpy`s the source makes at the
packet's tail, in program order; `deserialize` takes the memory and the tail
pointer and gives the tail it leaves and the header it fills in.

A second layer writes its own fields at the tail and then calls
`Packet::add_header` with the same tail. The base header covers those bytes, so
they never reach the wire (`EventPacket.execAll_addHeader` and its siblings),
while both `deserialize`s move the tail.

What is *not* modelled: the enumerators of `event_type`, `sync_type` and
`protocol_op`, which no routine here looks at. Each is an `enum : uint8_t`, so
any byte is a value of it.
-/

namespace Inferno.Packets

open ByteMem

/-- `struct packet_header`. -/
@[ext]
structure PacketHeader where
  gameID : UInt32
  serverID : UInt16
  sequenceNum : UInt16
  ackBitfield : UInt32
  type : UInt8
  deriving DecidableEq, Repr

/-- `class Packet`. -/
structure Packet where
  header : PacketHeader

/-- `Packet::add_header`. -/
def Packet.addHeader (this : Packet) (tail : ℤ) : List Memcpy :=
  [put tail this.header.gameID, put (tail + 4) this.header.serverID,
    put (tail + 6) this.header.sequenceNum, put (tail + 8) this.header.ackBitfield]

/-- `Packet::deserialize`. The field `type` is left as it was. -/
def Packet.deserialize (m : Mem) (tail : ℤ) (h : PacketHeader) : ℤ × PacketHeader :=
  (tail - 12, { h with gameID := get m (tail - 12), serverID := get m (tail - 8),
                       sequenceNum := get m (tail - 6), ackBitfield := get m (tail - 4) })

/-- `Packet::get_header_size`. -/
def Packet.getHeaderSize : ℕ := 13

theorem Packet.endOf_addHeader (this : Packet) {tail e : ℤ} (h : e ≤ tail + 12) :
    endOf e (this.addHeader tail) = tail + 12 := by
  simp only [endOf, Packet.addHeader, List.foldl_cons, List.foldl_nil, fin_put, width_uInt32, width_uInt16]
  omega

/-- The base layer is read back from twelve bytes past the tail it was written at, and
gives that tail back. -/
theorem Packet.deserialize_addHeader (this : Packet) (m : Mem) (tail : ℤ) (h : PacketHeader) :
    Packet.deserialize (execAll (this.addHeader tail) m) (tail + 12) h =
      (tail, { this.header with type := h.type }) := by
  have h₀ : get (execAll (this.addHeader tail) m) tail = this.header.gameID :=
    get_execAll_put [] (by simp) m
  have h₁ : get (execAll (this.addHeader tail) m) (tail + 4) = this.header.serverID :=
    get_execAll_put [put tail this.header.gameID] (by simp; omega) m
  have h₂ : get (execAll (this.addHeader tail) m) (tail + 6) = this.header.sequenceNum :=
    get_execAll_put [put tail this.header.gameID, put (tail + 4) this.header.serverID]
      (by simp; omega) m
  have h₃ : get (execAll (this.addHeader tail) m) (tail + 8) = this.header.ackBitfield :=
    get_execAll_put [put tail this.header.gameID, put (tail + 4) this.header.serverID,
      put (tail + 6) this.header.sequenceNum] (by simp) m
  unfold Packet.deserialize
  rw [show tail + 12 - 12 = tail by ring, show tail + 12 - 8 = tail + 4 by ring,
    show tail + 12 - 6 = tail + 6 by ring, show tail + 12 - 4 = tail + 8 by ring, h₀, h₁, h₂, h₃]

/-- The base layer covers the tail's first bytes: copies made there before it leave no
trace. -/
theorem Packet.execAll_append_addHeader (this : Packet) {ws : List Memcpy} {tail : ℤ}
    (h : ∀ w ∈ ws, tail ≤ w.dst ∧ w.fin ≤ tail + 4) (m : Mem) :
    execAll (ws ++ this.addHeader tail) m = execAll (this.addHeader tail) m := by
  induction ws generalizing m with
  | nil => rfl
  | cons w ws ih =>
    obtain ⟨hd, hf⟩ := h w List.mem_cons_self
    have hcov : (put tail this.header.gameID).exec (w.exec m) = (put tail this.header.gameID).exec m :=
      exec_exec_of_covered (by simpa using hd) (by simpa using hf) m
    rw [List.cons_append, execAll_cons, ih fun w' hw' => h w' (List.mem_cons_of_mem _ hw')]
    simp only [Packet.addHeader, execAll_cons, hcov]

/-! ### The second layers -/

/-- `struct event_header`. -/
structure EventHeader where
  priority : UInt8
  event : UInt8
  deriving DecidableEq, Repr

/-- `class Event_Packet`. -/
structure EventPacket extends Packet where
  eHeader : EventHeader

/-- `Event_Packet::add_header`. -/
def EventPacket.addHeader (this : EventPacket) (tail : ℤ) : List Memcpy :=
  [put tail this.eHeader.priority, put (tail + 1) this.eHeader.event] ++ this.toPacket.addHeader tail

/-- `Event_Packet::deserialize`. -/
def EventPacket.deserialize (m : Mem) (tail : ℤ) (h : EventHeader) : ℤ × EventHeader :=
  (tail - 2, { h with priority := get m (tail - 2), event := get m (tail - 1) })

/-- `Event_Packet::get_header_size`. -/
def EventPacket.getHeaderSize : ℕ := 2 + Packet.getHeaderSize

/-- `struct sync_header`. -/
structure SyncHeader where
  priority : UInt8
  sync : UInt8
  deriving DecidableEq, Repr

/-- `class Sync_Packet`. It declares no `get_header_size`, so `Packet`'s is the one its
subclasses call. -/
structure SyncPacket extends Packet where
  sHeader : SyncHeader

/-- `Sync_Packet::add_header`. -/
def SyncPacket.addHeader (this : SyncPacket) (tail : ℤ) : List Memcpy :=
  [put tail this.sHeader.priority, put (tail + 1) this.sHeader.sync] ++ this.toPacket.addHeader tail

/-- `Sync_Packet::deserialize`. -/
def SyncPacket.deserialize (m : Mem) (tail : ℤ) (h : SyncHeader) : ℤ × SyncHeader :=
  (tail - 2, { h with priority := get m (tail - 2), sync := get m (tail - 1) })

/-- `struct protocol_header`. -/
structure ProtocolHeader where
  op : UInt8
  deriving DecidableEq, Repr

/-- `class Protocol_Packet`. -/
structure ProtocolPacket extends Packet where
  prHeader : ProtocolHeader

/-- `Protocol_Packet::add_header`. -/
def ProtocolPacket.addHeader (this : ProtocolPacket) (tail : ℤ) : List Memcpy :=
  [put tail this.prHeader.op] ++ this.toPacket.addHeader tail

/-- `Protocol_Packet::deserialize`. -/
def ProtocolPacket.deserialize (m : Mem) (tail : ℤ) (h : ProtocolHeader) : ℤ × ProtocolHeader :=
  (tail - 1, { h with op := get m (tail - 1) })

/-- `Protocol_Packet::get_header_size`. -/
def ProtocolPacket.getHeaderSize : ℕ := 1 + Packet.getHeaderSize

/-- **The second layer is overwritten**: memory after `Event_Packet::add_header` is
memory after `Packet::add_header`, whatever the event header. -/
theorem EventPacket.execAll_addHeader (this : EventPacket) (tail : ℤ) (m : Mem) :
    execAll (this.addHeader tail) m = execAll (this.toPacket.addHeader tail) m :=
  this.toPacket.execAll_append_addHeader (by
    simp only [List.mem_cons, List.not_mem_nil, or_false, forall_eq_or_imp, forall_eq, dst_put, fin_put, width_uInt8]
    omega) m

/-- The sync header is overwritten. -/
theorem SyncPacket.execAll_addHeader (this : SyncPacket) (tail : ℤ) (m : Mem) :
    execAll (this.addHeader tail) m = execAll (this.toPacket.addHeader tail) m :=
  this.toPacket.execAll_append_addHeader (by
    simp only [List.mem_cons, List.not_mem_nil, or_false, forall_eq_or_imp, forall_eq, dst_put, fin_put, width_uInt8]
    omega) m

/-- The protocol header is overwritten. -/
theorem ProtocolPacket.execAll_addHeader (this : ProtocolPacket) (tail : ℤ) (m : Mem) :
    execAll (this.addHeader tail) m = execAll (this.toPacket.addHeader tail) m :=
  this.toPacket.execAll_append_addHeader (by simp) m

/-! ### Peeling the layers off -/

/-- What the three second layers have in common: a writer at the tail that ends with
the base layer's, and a reader that moves the tail back. -/
structure Layer where
  /-- The class. -/
  Pkt : Type
  /-- Its header. -/
  Hdr : Type
  /-- The base class part of an object. -/
  base : Pkt → Packet
  /-- The header an object carries. -/
  hdr : Pkt → Hdr
  /-- `X::add_header`. -/
  addHeader : Pkt → ℤ → List Memcpy
  /-- `X::deserialize`. -/
  deserialize : Mem → ℤ → Hdr → ℤ × Hdr

/-- `Packet::deserialize(&e, ph)` and then `X::deserialize(&e, xh)`. -/
def Layer.peel (X : Layer) (m : Mem) (e : ℤ) (ph : PacketHeader) (xh : X.Hdr) : ℤ × PacketHeader × X.Hdr :=
  let (e, ph) := Packet.deserialize m e ph
  let (e, xh) := X.deserialize m e xh
  (e, ph, xh)

/-- What peeling finds in memory after `X::add_header(tail)`, begun one past the highest
byte it wrote. -/
def Layer.roundTrip (X : Layer) (this : X.Pkt) (m : Mem) (tail : ℤ) (ph : PacketHeader) (xh : X.Hdr) :
    ℤ × PacketHeader × X.Hdr :=
  X.peel (execAll (X.addHeader this tail) m) (endOf tail (X.addHeader this tail)) ph xh

/-- Both headers survive the wire, and peeling ends at the tail they were written at. -/
def Layer.Survives (X : Layer) (this : X.Pkt) (m : Mem) (tail : ℤ) : Prop :=
  ∀ (ph : PacketHeader) (xh : X.Hdr),
    let out := X.roundTrip this m tail ph xh
    out.2.1.gameID = (X.base this).header.gameID ∧ out.2.1.serverID = (X.base this).header.serverID ∧
      out.2.1.sequenceNum = (X.base this).header.sequenceNum ∧
      out.2.1.ackBitfield = (X.base this).header.ackBitfield ∧ out.2.2 = X.hdr this ∧ out.1 = tail

/-- The three families. -/
inductive Family where
  | event
  | sync
  | protocol

/-- The second layer of a family. -/
def Family.layer : Family → Layer
  | .event => ⟨EventPacket, EventHeader, EventPacket.toPacket, EventPacket.eHeader,
      EventPacket.addHeader, EventPacket.deserialize⟩
  | .sync => ⟨SyncPacket, SyncHeader, SyncPacket.toPacket, SyncPacket.sHeader,
      SyncPacket.addHeader, SyncPacket.deserialize⟩
  | .protocol => ⟨ProtocolPacket, ProtocolHeader, ProtocolPacket.toPacket, ProtocolPacket.prHeader,
      ProtocolPacket.addHeader, ProtocolPacket.deserialize⟩

/-- How far a family's `deserialize` moves the tail back. -/
def Family.stripped : Family → ℤ
  | .event => 2
  | .sync => 2
  | .protocol => 1

/-- Every second layer writes what the base layer writes, and ends where it ends. -/
theorem Family.addHeader_eq_base (X : Family) (this : X.layer.Pkt) (m : Mem) (tail : ℤ) :
    execAll (X.layer.addHeader this tail) m = execAll ((X.layer.base this).addHeader tail) m ∧
      endOf tail (X.layer.addHeader this tail) = tail + 12 := by
  have hend : ∀ (ws : List Memcpy) (p : Packet), (∀ w ∈ ws, w.fin ≤ tail + 12) →
      endOf tail (ws ++ p.addHeader tail) = tail + 12 := fun ws p hws => by
    rw [endOf_append, p.endOf_addHeader (endOf_le (by omega) hws)]
  cases X with
  | event => exact ⟨EventPacket.execAll_addHeader _ _ _, hend _ _ (by
      simp only [List.mem_cons, List.not_mem_nil, or_false, forall_eq_or_imp, forall_eq, fin_put, width_uInt8]
      omega)⟩
  | sync => exact ⟨SyncPacket.execAll_addHeader _ _ _, hend _ _ (by
      simp only [List.mem_cons, List.not_mem_nil, or_false, forall_eq_or_imp, forall_eq, fin_put, width_uInt8]
      omega)⟩
  | protocol => exact ⟨ProtocolPacket.execAll_addHeader _ _ _, hend _ _ (by simp)⟩

/-- **What peeling finds**: the base header, and below the tail a second header made of
whatever bytes the body ends with; the tail is left inside the body. -/
theorem Family.roundTrip_eq (X : Family) (this : X.layer.Pkt) (m : Mem) (tail : ℤ) (ph : PacketHeader)
    (xh : X.layer.Hdr) :
    X.layer.roundTrip this m tail ph xh =
      (tail - X.stripped, { (X.layer.base this).header with type := ph.type },
        (X.layer.deserialize (execAll ((X.layer.base this).addHeader tail) m) tail xh).2) := by
  obtain ⟨hm, he⟩ := X.addHeader_eq_base this m tail
  unfold Layer.roundTrip Layer.peel
  rw [hm, he, Packet.deserialize_addHeader]
  cases X <;> rfl

/-- **No second header survives**: peeling leaves the tail short of where the body ends,
for every family, every header, every body and every start. -/
theorem Family.not_survives (X : Family) (this : X.layer.Pkt) (m : Mem) (tail : ℤ) :
    ¬ X.layer.Survives this m tail := by
  intro h
  obtain ⟨-, -, -, -, -, htail⟩ := h (X.layer.base this).header (X.layer.hdr this)
  rw [X.roundTrip_eq] at htail
  cases X <;> simp [Family.stripped] at htail

/-- An event header with priority `7` behind a nine-byte body of zeros does not survive:
it comes back as two of the body's zeros. -/
theorem event_priority_lost :
    ¬ Family.event.layer.Survives
      (⟨⟨⟨59343074, 1, 2, 3, 0⟩⟩, ⟨7, 1⟩⟩ : EventPacket) (fun _ => 0) 9 := by
  intro h
  have hxh := (h ⟨0, 0, 0, 0, 0⟩ (⟨0, 0⟩ : EventHeader)).2.2.2.2.1
  exact absurd (congrArg EventHeader.priority hxh) (by decide)

end Inferno.Packets
