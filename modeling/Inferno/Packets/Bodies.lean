import Inferno.Packets.Header

/-!
# Packet bodies

The fifteen concrete packet classes. Each is a body behind which `serialize` starts the
header, so each is written here by what is its own: the copies of its fields, the offset at
which the header starts, what `deserialize` copies back from before the tail, and the size
that the caller is told to send. `PacketClass.serialize` is the rest.

Every multi-byte field is copied in host order. The enumerations are `enum : uint8_t`, so
any byte is a value of one.

`I_Primary_Packet`'s constructor initializes its body with a pointer to one; it is taken to
store a copy of what is pointed to, as the other constructors do.
-/

namespace Inferno.Packets

open ByteMem

/-- What a concrete class adds to its second layer. -/
structure PacketClass where
  /-- The class it derives from. -/
  family : Family
  /-- The structure its constructor is given. -/
  Body : Type
  /-- Where `serialize(data)` copies the fields to. -/
  copies : ℤ → Body → List Memcpy
  /-- The offset at which `serialize` then calls `add_header`. -/
  headerAt : ℕ
  /-- `deserialize(tail, content)`. -/
  deserialize : Mem → ℤ → Body → Body
  /-- `get_packet_size`. -/
  getPacketSize : ℕ

/-- `serialize(data)`, of every class. -/
def PacketClass.serialize (X : PacketClass) (this : X.family.layer.Pkt) (body : X.Body) (data : ℤ) : List Memcpy :=
  X.copies data body ++ X.family.layer.addHeader this (data + X.headerAt)

/-! ### Protocol packets -/

/-- `struct c_ping`. -/
structure CPing where
  stamp : UInt8
  deriving DecidableEq, Repr

/-- `class C_Ping_Packet`. -/
def cPingPacket : PacketClass where
  family := .protocol
  Body := CPing
  copies data rtt := [put data rtt.stamp]
  headerAt := 1
  deserialize m tail content := { content with stamp := get m (tail - 1) }
  getPacketSize := 1 + ProtocolPacket.getHeaderSize

/-- `struct syn_request`. -/
structure SynRequest where
  req : UInt8
  confNumber : UInt8
  deriving DecidableEq, Repr

/-- `class C_SYN_Packet`. -/
def cSYNPacket : PacketClass where
  family := .protocol
  Body := SynRequest
  copies data synContent := [put data synContent.req, put (data + 1) synContent.confNumber]
  headerAt := 2
  deserialize m tail content := { content with confNumber := get m (tail - 1), req := get m (tail - 2) }
  getPacketSize := 2 + ProtocolPacket.getHeaderSize

/-! ### Event packets -/

/-- `struct auto_notify`. -/
structure AutoNotify where
  target : UInt16
  experience : UInt16
  damage : UInt16
  conf : UInt8
  deriving DecidableEq, Repr

/-- `class G_Auto_Notify_Packet`. -/
def gAutoNotifyPacket : PacketClass where
  family := .event
  Body := AutoNotify
  copies data autoConfirm :=
    [put data autoConfirm.target, put (data + 2) autoConfirm.experience, put (data + 4) autoConfirm.damage,
      put (data + 6) autoConfirm.conf]
  headerAt := 7
  deserialize m tail content :=
    { content with conf := get m (tail - 1), damage := get m (tail - 3), experience := get m (tail - 5),
                   target := get m (tail - 7) }
  getPacketSize := 7 + EventPacket.getHeaderSize

/-- `struct auto_request`. -/
structure AutoRequest where
  target : UInt16
  deriving DecidableEq, Repr

/-- `class G_Auto_Request_Packet`. -/
def gAutoRequestPacket : PacketClass where
  family := .event
  Body := AutoRequest
  copies data autoAttack := [put data autoAttack.target]
  headerAt := 2
  deserialize m tail content := { content with target := get m (tail - 2) }
  getPacketSize := 2 + EventPacket.getHeaderSize

/-- `struct move_notify`. -/
structure MoveNotify where
  x : UInt32
  y : UInt32
  z : UInt32
  conf : UInt8
  deriving DecidableEq, Repr

/-- `class G_Move_Notify_Packet`. -/
def gMoveNotifyPacket : PacketClass where
  family := .event
  Body := MoveNotify
  copies data move := [put data move.x, put (data + 4) move.y, put (data + 8) move.z, put (data + 12) move.conf]
  headerAt := 13
  deserialize m tail content :=
    { content with conf := get m (tail - 1), z := get m (tail - 5), y := get m (tail - 9), x := get m (tail - 13) }
  getPacketSize := 13 + EventPacket.getHeaderSize

/-- `struct move_request`. -/
structure MoveRequest where
  x : UInt32
  y : UInt32
  z : UInt32
  deriving DecidableEq, Repr

/-- `class G_Move_Request_Packet`. -/
def gMoveRequestPacket : PacketClass where
  family := .event
  Body := MoveRequest
  copies data move := [put data move.x, put (data + 4) move.y, put (data + 8) move.z]
  headerAt := 12
  deserialize m tail content :=
    { content with z := get m (tail - 4), y := get m (tail - 8), x := get m (tail - 12) }
  getPacketSize := 12 + EventPacket.getHeaderSize

/-- `struct g_ping`. -/
structure GPing where
  ping : UInt8
  x : UInt32
  y : UInt32
  deriving DecidableEq, Repr

/-- `class G_Ping_Packet`. -/
def gPingPacket : PacketClass where
  family := .event
  Body := GPing
  copies data pingData := [put data pingData.ping, put (data + 1) pingData.x, put (data + 5) pingData.y]
  headerAt := 9
  deserialize m tail content :=
    { content with y := get m (tail - 4), x := get m (tail - 8), ping := get m (tail - 9) }
  getPacketSize := 9 + EventPacket.getHeaderSize

/-- `struct primary_notify`. -/
structure PrimaryNotify where
  pAttack : UInt8
  playerX : UInt32
  playerY : UInt32
  playerZ : UInt32
  targetX : UInt32
  targetY : UInt32
  targetZ : UInt32
  experience : UInt16
  conf : UInt8
  deriving DecidableEq, Repr

/-- `class G_Primary_Notify_Packet`. Neither routine copies `experience`. -/
def gPrimaryNotifyPacket : PacketClass where
  family := .event
  Body := PrimaryNotify
  copies data attack :=
    [put data attack.pAttack, put (data + 1) attack.playerX, put (data + 5) attack.playerY,
      put (data + 9) attack.playerZ, put (data + 13) attack.targetX, put (data + 17) attack.targetY,
      put (data + 21) attack.targetZ, put (data + 25) attack.conf]
  headerAt := 26
  deserialize m tail content :=
    { content with conf := get m (tail - 1), targetZ := get m (tail - 5), targetY := get m (tail - 9),
                   targetX := get m (tail - 13), playerZ := get m (tail - 17), playerY := get m (tail - 21),
                   playerX := get m (tail - 25), pAttack := get m (tail - 26) }
  getPacketSize := 26 + EventPacket.getHeaderSize

/-- `struct primary_request`. -/
structure PrimaryRequest where
  pAttack : UInt8
  playerX : UInt32
  playerY : UInt32
  playerZ : UInt32
  targetX : UInt32
  targetY : UInt32
  targetZ : UInt32
  deriving DecidableEq, Repr

/-- `class G_Primary_Request_Packet`. -/
def gPrimaryRequestPacket : PacketClass where
  family := .event
  Body := PrimaryRequest
  copies data attack :=
    [put data attack.pAttack, put (data + 1) attack.playerX, put (data + 5) attack.playerY,
      put (data + 9) attack.playerZ, put (data + 13) attack.targetX, put (data + 17) attack.targetY,
      put (data + 21) attack.targetZ]
  headerAt := 25
  deserialize m tail content :=
    { content with targetZ := get m (tail - 4), targetY := get m (tail - 8), targetX := get m (tail - 12),
                   playerZ := get m (tail - 16), playerY := get m (tail - 20), playerX := get m (tail - 24),
                   pAttack := get m (tail - 25) }
  getPacketSize := 25 + EventPacket.getHeaderSize

/-! ### Sync packets

`Sync_Packet::get_header_size` is `Packet::get_header_size`. -/

/-- `struct auto_update`. -/
structure AutoUpdate where
  x : UInt32
  y : UInt32
  z : UInt32
  owner : UInt16
  target : UInt16
  damage : UInt16
  removed : UInt8
  deriving DecidableEq, Repr

/-- `class I_Auto_Packet`. -/
def iAutoPacket : PacketClass where
  family := .sync
  Body := AutoUpdate
  copies data autoData :=
    [put data autoData.x, put (data + 4) autoData.y, put (data + 8) autoData.z, put (data + 12) autoData.owner,
      put (data + 14) autoData.target, put (data + 16) autoData.damage, put (data + 18) autoData.removed]
  headerAt := 19
  deserialize m tail content :=
    { content with removed := get m (tail - 1), damage := get m (tail - 3), target := get m (tail - 5),
                   owner := get m (tail - 7), z := get m (tail - 11), y := get m (tail - 15),
                   x := get m (tail - 19) }
  getPacketSize := 19 + Packet.getHeaderSize

/-- `struct lasthit_update`. -/
structure LasthitUpdate where
  attackerId : UInt16
  targetId : UInt16
  kill : UInt8
  deriving DecidableEq, Repr

/-- `class I_LastHit_Packet`. -/
def iLastHitPacket : PacketClass where
  family := .sync
  Body := LasthitUpdate
  copies data lhData := [put data lhData.attackerId, put (data + 2) lhData.targetId, put (data + 4) lhData.kill]
  headerAt := 5
  deserialize m tail content :=
    { content with kill := get m (tail - 1), targetId := get m (tail - 3), attackerId := get m (tail - 5) }
  getPacketSize := 5 + Packet.getHeaderSize

/-- `struct player_update`. -/
structure PlayerUpdate where
  playerId : UInt16
  gold : UInt16
  health : UInt16
  maxHealth : UInt16
  mana : UInt16
  maxMana : UInt16
  cs : UInt16
  experience : UInt32
  x : UInt32
  y : UInt32
  z : UInt32
  rotX : UInt32
  rotY : UInt32
  rotZ : UInt32
  autoTarget : UInt16
  respawnTimer : UInt8
  level : UInt8
  deriving DecidableEq, Repr

/-- `class I_Local_Player_Packet`. -/
def iLocalPlayerPacket : PacketClass where
  family := .sync
  Body := PlayerUpdate
  copies data playerData :=
    [put data playerData.playerId, put (data + 2) playerData.gold, put (data + 4) playerData.health,
      put (data + 6) playerData.maxHealth, put (data + 8) playerData.mana, put (data + 10) playerData.maxMana,
      put (data + 12) playerData.cs, put (data + 14) playerData.experience, put (data + 18) playerData.x,
      put (data + 22) playerData.y, put (data + 26) playerData.z, put (data + 30) playerData.rotX,
      put (data + 34) playerData.rotY, put (data + 38) playerData.rotZ, put (data + 42) playerData.autoTarget,
      put (data + 44) playerData.respawnTimer, put (data + 45) playerData.level]
  headerAt := 46
  deserialize m tail content :=
    { content with level := get m (tail - 1), respawnTimer := get m (tail - 2), autoTarget := get m (tail - 4),
                   rotZ := get m (tail - 8), rotY := get m (tail - 12), rotX := get m (tail - 16),
                   z := get m (tail - 20), y := get m (tail - 24), x := get m (tail - 28),
                   experience := get m (tail - 32), cs := get m (tail - 34), maxMana := get m (tail - 36),
                   mana := get m (tail - 38), maxHealth := get m (tail - 40), health := get m (tail - 42),
                   gold := get m (tail - 44), playerId := get m (tail - 46) }
  getPacketSize := 46 + Packet.getHeaderSize

/-- `struct minion_update`. -/
structure MinionUpdate where
  id : UInt16
  health : UInt16
  maxHealth : UInt16
  x : UInt32
  y : UInt32
  z : UInt32
  rotX : UInt32
  rotY : UInt32
  rotZ : UInt32
  autoTarget : UInt16
  deriving DecidableEq, Repr

/-- `class I_Minion_Packet`. `rot_x` is copied over the second half of `z`. -/
def iMinionPacket : PacketClass where
  family := .sync
  Body := MinionUpdate
  copies data minionData :=
    [put data minionData.id, put (data + 2) minionData.health, put (data + 4) minionData.maxHealth,
      put (data + 6) minionData.x, put (data + 10) minionData.y, put (data + 14) minionData.z,
      put (data + 16) minionData.rotX, put (data + 20) minionData.rotY, put (data + 24) minionData.rotZ,
      put (data + 28) minionData.autoTarget]
  headerAt := 30
  deserialize m tail content :=
    { content with autoTarget := get m (tail - 2), rotZ := get m (tail - 6), rotY := get m (tail - 10),
                   rotX := get m (tail - 14), z := get m (tail - 18), y := get m (tail - 22),
                   x := get m (tail - 24), maxHealth := get m (tail - 26), health := get m (tail - 28),
                   id := get m (tail - 30) }
  getPacketSize := 30 + Packet.getHeaderSize

/-- `struct objective_update`. -/
structure ObjectiveUpdate where
  id : UInt16
  health : UInt16
  maxHealth : UInt16
  x : UInt32
  y : UInt32
  z : UInt32
  autoTarget : UInt16
  deriving DecidableEq, Repr

/-- `class I_Objective_Packet`. -/
def iObjectivePacket : PacketClass where
  family := .sync
  Body := ObjectiveUpdate
  copies data objData :=
    [put data objData.id, put (data + 2) objData.health, put (data + 4) objData.maxHealth,
      put (data + 6) objData.x, put (data + 10) objData.y, put (data + 14) objData.z,
      put (data + 18) objData.autoTarget]
  headerAt := 20
  deserialize m tail content :=
    { content with autoTarget := get m (tail - 2), z := get m (tail - 6), y := get m (tail - 10),
                   x := get m (tail - 14), maxHealth := get m (tail - 16), health := get m (tail - 18),
                   id := get m (tail - 20) }
  getPacketSize := 20 + Packet.getHeaderSize

/-- `struct primary_update`. -/
structure PrimaryUpdate where
  id : UInt16
  x : UInt32
  y : UInt32
  z : UInt32
  targetX : UInt32
  targetY : UInt32
  targetZ : UInt32
  damage : UInt16
  removed : UInt8
  deriving DecidableEq, Repr

/-- `class I_Primary_Packet`. -/
def iPrimaryPacket : PacketClass where
  family := .sync
  Body := PrimaryUpdate
  copies data primaryData :=
    [put data primaryData.id, put (data + 2) primaryData.x, put (data + 6) primaryData.y,
      put (data + 10) primaryData.z, put (data + 14) primaryData.targetX, put (data + 18) primaryData.targetY,
      put (data + 22) primaryData.targetZ, put (data + 26) primaryData.damage, put (data + 28) primaryData.removed]
  headerAt := 29
  deserialize m tail content :=
    { content with removed := get m (tail - 1), damage := get m (tail - 3), targetZ := get m (tail - 7),
                   targetY := get m (tail - 11), targetX := get m (tail - 15), z := get m (tail - 19),
                   y := get m (tail - 23), x := get m (tail - 27), id := get m (tail - 29) }
  getPacketSize := 29 + Packet.getHeaderSize

/-! ### All of them -/

/-- The concrete classes. -/
inductive Concrete where
  | cPing
  | cSYN
  | gAutoNotify
  | gAutoRequest
  | gMoveNotify
  | gMoveRequest
  | gPing
  | gPrimaryNotify
  | gPrimaryRequest
  | iAuto
  | iLastHit
  | iLocalPlayer
  | iMinion
  | iObjective
  | iPrimary
  deriving DecidableEq, Repr

/-- The class of that name. -/
def Concrete.cls : Concrete → PacketClass
  | .cPing => cPingPacket
  | .cSYN => cSYNPacket
  | .gAutoNotify => gAutoNotifyPacket
  | .gAutoRequest => gAutoRequestPacket
  | .gMoveNotify => gMoveNotifyPacket
  | .gMoveRequest => gMoveRequestPacket
  | .gPing => gPingPacket
  | .gPrimaryNotify => gPrimaryNotifyPacket
  | .gPrimaryRequest => gPrimaryRequestPacket
  | .iAuto => iAutoPacket
  | .iLastHit => iLastHitPacket
  | .iLocalPlayer => iLocalPlayerPacket
  | .iMinion => iMinionPacket
  | .iObjective => iObjectivePacket
  | .iPrimary => iPrimaryPacket

end Inferno.Packets
