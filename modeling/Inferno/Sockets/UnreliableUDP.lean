import Inferno.Lib.CString
import Inferno.Lib.Conversions
import Mathlib.Data.List.Induction

/-!
# The unreliable UDP socket

`Unreliable_UDP_Socket`: what its four routines do with what `recvfrom` and `sendto` give them. A datagram
that is longer than the buffer loses its end, and `recvfrom` says nothing of it: it returns
what it has copied. The address of the sender goes to `last_addr`, which has room for an IPv4 address, and
as much of it is stored as `last_addrlen` says, which is the length of the address before.

## What is proved

* `deliversWhole_iff` — `recv_str` delivers a message as it should exactly if the message is no longer than the
  size of the buffer as an `int`.
* `repliesToLast_iff` — a server socket replies to whoever wrote last exactly if whoever did has an IPv4
  address, which was stored as a whole, and no IPv6 address was stored before where only a shorter one has
  room.

## Scope

What `recvfrom` stores behind `last_addr` is noted and not followed.
-/

namespace Inferno.Sockets

open Conversions CStr

/-- What the four routines throw, of `enum errorcode`. -/
inductive TransferError where
  | bufferOverflowException
  | receiveException
  | sendException
  deriving DecidableEq, Repr

/-- An address: a `sockaddr_in` or a `sockaddr_in6`. -/
inductive Address where
  | ipv4 (bytes : Vector UInt8 16)
  | ipv6 (bytes : Vector UInt8 28)
  deriving DecidableEq

/-- Its bytes. -/
def Address.bytes : Address → List UInt8
  | .ipv4 bytes => bytes.toList
  | .ipv6 bytes => bytes.toList

/-- A datagram as it arrives. -/
structure Datagram where
  sender : Address
  bytes : List UInt8

/-- `class Unreliable_UDP_Socket`, with the members that change once it is initialized. -/
structure UDPSocket where
  /-- `last_addr`, a `struct sockaddr`. -/
  lastAddr : List UInt8
  length_lastAddr : lastAddr.length = 16
  /-- `last_addrlen`. -/
  lastAddrlen : ℕ
  /-- Whether an address was stored that goes over the end of `last_addr`. -/
  overrun : Bool

/-- `initialize_server`, as far as it assigns neither of the two; they hold what was in memory. -/
def UDPSocket.initializeServer (lastAddr : Vector UInt8 16) (lastAddrlen : UInt32) : UDPSocket where
  lastAddr := lastAddr.toList
  length_lastAddr := lastAddr.length_toList
  lastAddrlen := lastAddrlen.toNat
  overrun := false

/-- What `recvfrom` does with the address. -/
def UDPSocket.store (s : UDPSocket) (sender : Address) : UDPSocket where
  lastAddr := copyAt s.lastAddr 0 ((sender.bytes.take s.lastAddrlen).take 16)
  length_lastAddr := length_copyAt_take _ _ s.length_lastAddr
  lastAddrlen := sender.bytes.length
  overrun := s.overrun || 16 < (sender.bytes.take s.lastAddrlen).length

/-- `recvfrom(sock_fd, …, n, 0, &last_addr, &last_addrlen)`, of a datagram or of none: what it returns, and the bytes
that it copies. -/
def UDPSocket.recvfrom (s : UDPSocket) (n : ℕ) : Option Datagram → ℤ × List UInt8 × UDPSocket
  | none => (-1, [], s)
  | some d => ((d.bytes.take n).length, d.bytes.take n, s.store d.sender)

/-- `Unreliable_UDP_Socket::recv_str`: what it throws or puts in `data_size`, and the buffer. -/
def UDPSocket.recvStr (s : UDPSocket) (buffer : List UInt8) (bufSize : UInt64) (r : Option Datagram) :
    Except TransferError ℕ × List UInt8 × UDPSocket :=
  let (returned, copied, s) := s.recvfrom bufSize.toNat r
  let bytes := narrow returned
  let buffer := copyAt buffer 0 copied
  if bytes = -1 then (.error .receiveException, buffer, s)
  else if bytes > narrow bufSize.toNat then (.error .bufferOverflowException, buffer, s)
  else (.ok (toSize bytes), buffer, s)

/-- `Unreliable_UDP_Socket::recv_short`; `data` are the two bytes of the variable, which `ntohs` puts in
the other order. -/
def UDPSocket.recvShort (s : UDPSocket) (data : List UInt8) (r : Option Datagram) :
    Except TransferError Unit × List UInt8 × UDPSocket :=
  let (returned, copied, s) := s.recvfrom 2 r
  let bytes := narrow returned
  let data := copyAt data 0 copied
  if bytes ≠ 2 then (.error .receiveException, data, s) else (.ok (), data.reverse, s)

/-- What `sendto` is given: the address, if all of it is in `last_addr`, and the bytes. -/
structure Sent where
  destination : Option (List UInt8)
  bytes : List UInt8

/-- `sendto(sock_fd, …, 0, &last_addr, last_addrlen)`. -/
def UDPSocket.sendto (s : UDPSocket) (bytes : List UInt8) : Sent :=
  ⟨if s.lastAddrlen ≤ 16 then some (s.lastAddr.take s.lastAddrlen) else none, bytes⟩

/-- `Unreliable_UDP_Socket::send_str`, given what `sendto` returns. -/
def UDPSocket.sendStr (s : UDPSocket) (buffer : List UInt8) (bufSize : UInt64) (returned : ℤ) :
    Except TransferError Unit × Sent :=
  let sent := s.sendto (buffer.take bufSize.toNat)
  let bytes := narrow returned
  if bytes ≠ narrow bufSize.toNat then (.error .sendException, sent) else (.ok (), sent)

/-- `Unreliable_UDP_Socket::send_short`. -/
def UDPSocket.sendShort (s : UDPSocket) (data : List UInt8) (returned : ℤ) : Except TransferError Unit × Sent :=
  let sent := s.sendto data.reverse
  let bytes := narrow returned
  if bytes ≠ 2 then (.error .sendException, sent) else (.ok (), sent)

/-! ### Messages -/

/-- What `recv_str` should do with a message: deliver all of it, or throw if it does not fit. -/
def UDPSocket.DeliversWhole (s : UDPSocket) (buffer : List UInt8) (bufSize : UInt64) (d : Datagram) : Prop :=
  if d.bytes.length ≤ bufSize.toNat then
    (s.recvStr buffer bufSize (some d)).1 = .ok d.bytes.length ∧
      (s.recvStr buffer bufSize (some d)).2.1.take d.bytes.length = d.bytes
  else (s.recvStr buffer bufSize (some d)).1 = .error .bufferOverflowException

/-- What `recv_str` does with a message that it gets all of. -/
theorem recvStr_of_le (s : UDPSocket) (buffer : List UInt8) {bufSize : UInt64} {d : Datagram}
    (hfits : d.bytes.length ≤ bufSize.toNat) :
    (s.recvStr buffer bufSize (some d)).1 = .ok d.bytes.length ↔
      narrow d.bytes.length ≠ -1 ∧ narrow d.bytes.length ≤ narrow bufSize.toNat ∧
        toSize (narrow d.bytes.length) = d.bytes.length := by
  simp only [UDPSocket.recvStr, UDPSocket.recvfrom, List.take_of_length_le hfits]
  split_ifs with hfailed hover
  · exact iff_of_false (by simp) fun h => h.1 hfailed
  · exact iff_of_false (by simp) fun h => not_le.mpr hover h.2.1
  · rw [Except.ok.injEq]
    exact ⟨fun h => ⟨hfailed, not_lt.mp hover, h⟩, fun h => h.2.2⟩

/-- What `recv_str` leaves, whatever it throws: the buffer with what was copied, and the socket. -/
theorem recvStr_snd (s : UDPSocket) (buffer : List UInt8) (bufSize : UInt64) (r : Option Datagram) :
    (s.recvStr buffer bufSize r).2 =
      (copyAt buffer 0 (s.recvfrom bufSize.toNat r).2.1, (s.recvfrom bufSize.toNat r).2.2) := by
  rw [UDPSocket.recvStr]
  rcases s.recvfrom bufSize.toNat r with ⟨returned, copied, s'⟩
  simp only
  split_ifs <;> rfl

/-- So does `recv_short`. -/
theorem recvShort_socket (s : UDPSocket) (data : List UInt8) (r : Option Datagram) :
    (s.recvShort data r).2.2 = (s.recvfrom 2 r).2.2 := by
  rw [UDPSocket.recvShort]
  rcases s.recvfrom 2 r with ⟨returned, copied, s'⟩
  simp only
  split_ifs <;> rfl

/-- What is sent does not depend on what `sendto` returns. -/
theorem sendStr_snd (s : UDPSocket) (buffer : List UInt8) (bufSize : UInt64) (returned : ℤ) :
    (s.sendStr buffer bufSize returned).2 = s.sendto (buffer.take bufSize.toNat) := by
  rw [UDPSocket.sendStr]
  split_ifs <;> rfl

theorem sendShort_snd (s : UDPSocket) (data : List UInt8) (returned : ℤ) :
    (s.sendShort data returned).2 = s.sendto data.reverse := by
  rw [UDPSocket.sendShort]
  split_ifs <;> rfl

/-- With one that is longer it does not throw what it should: it has what it asked for. -/
theorem recvStr_of_lt (s : UDPSocket) (buffer : List UInt8) {bufSize : UInt64} {d : Datagram}
    (hlong : bufSize.toNat < d.bytes.length) :
    (s.recvStr buffer bufSize (some d)).1 ≠ .error .bufferOverflowException := by
  have hlen : (d.bytes.take bufSize.toNat).length = bufSize.toNat := by
    rw [List.length_take, Nat.min_eq_left hlong.le]
  simp only [UDPSocket.recvStr, UDPSocket.recvfrom, hlen, gt_iff_lt, lt_self_iff_false, if_false]
  split_ifs <;> simp

/-- **When `recv_str` delivers a message**: when the size of the buffer as an `int` is no smaller. -/
theorem deliversWhole_iff (s : UDPSocket) (buffer : List UInt8) (bufSize : UInt64) (d : Datagram)
    (hlen : d.bytes.length < 2 ^ 63) :
    s.DeliversWhole buffer bufSize d ↔ (d.bytes.length : ℤ) ≤ narrow bufSize.toNat := by
  have hle : narrow bufSize.toNat ≤ bufSize.toNat := narrow_le (Int.natCast_nonneg _)
  rw [UDPSocket.DeliversWhole]
  split_ifs with hfits
  · rw [recvStr_of_le s buffer hfits]
    constructor
    · rintro ⟨⟨-, hsize, hsame⟩, -⟩
      rwa [narrow_eq_of_toSize hlen hsame] at hsize
    · intro hsize
      have hint : narrow d.bytes.length = d.bytes.length :=
        narrow_of_range (by omega) (hsize.trans_lt (narrow_lt _))
      refine ⟨⟨by omega, by omega, ?_⟩, ?_⟩
      · rw [hint, toSize_of_nonneg (Int.natCast_nonneg _) (hsize.trans_lt (narrow_lt _)), Int.toNat_natCast]
      · rw [recvStr_snd, UDPSocket.recvfrom, List.take_of_length_le hfits, copyAt, List.take_zero, List.nil_append,
          List.take_left]
  · refine iff_of_false (recvStr_of_lt s buffer (not_le.mp hfits)) ?_
    omega

/-- A socket, and a datagram of three bytes. -/
def newSocket : UDPSocket := .initializeServer (.replicate 16 0) 16

def threeBytes : Datagram := ⟨.ipv4 (.replicate 16 0), [1, 2, 3]⟩

/-- A buffer of four has room for it. -/
theorem deliversWhole_three :
    newSocket.DeliversWhole [0, 0, 0, 0] 4 threeBytes ↔
      (threeBytes.bytes.length : ℤ) ≤ narrow (4 : UInt64).toNat :=
  deliversWhole_iff newSocket [0, 0, 0, 0] 4 threeBytes (by decide)

/-- In a buffer of two it loses a byte. -/
theorem third_byte_lost :
    (newSocket.recvStr [0, 0] 2 (some threeBytes)).1 = .ok 2 ∧ ¬ newSocket.DeliversWhole [0, 0] 2 threeBytes := by
  have hlong : (2 : UInt64).toNat < threeBytes.bytes.length := by decide
  refine ⟨by decide +kernel, fun h => ?_⟩
  rw [UDPSocket.DeliversWhole, if_neg (not_le.mpr hlong)] at h
  exact recvStr_of_lt newSocket [0, 0] hlong h

/-! ### Replies -/

/-- A call of one of the four routines, with what it is given and what the system calls give it. -/
inductive Operation where
  | recvStr (buffer : List UInt8) (bufSize : UInt64) (r : Option Datagram)
  | recvShort (data : List UInt8) (r : Option Datagram)
  | sendStr (buffer : List UInt8) (bufSize : UInt64) (returned : ℤ)
  | sendShort (data : List UInt8) (returned : ℤ)

/-- The socket after a call, and what was sent. -/
def UDPSocket.perform (s : UDPSocket) : Operation → UDPSocket × Option Sent
  | .recvStr buffer bufSize r => ((s.recvStr buffer bufSize r).2.2, none)
  | .recvShort data r => ((s.recvShort data r).2.2, none)
  | .sendStr buffer bufSize returned => (s, some (s.sendStr buffer bufSize returned).2)
  | .sendShort data returned => (s, some (s.sendShort data returned).2)

/-- The socket after some calls. -/
def UDPSocket.after (s : UDPSocket) (ops : List Operation) : UDPSocket := ops.foldl (fun s op => (s.perform op).1) s

/-- The sender of the datagram that a call receives. -/
def Operation.sender : Operation → Option Address
  | .recvStr _ _ r => r.map Datagram.sender
  | .recvShort _ r => r.map Datagram.sender
  | _ => none

/-- Whether a call sends. -/
def Operation.Sends : Operation → Prop
  | .sendStr _ _ _ => True
  | .sendShort _ _ => True
  | _ => False

/-- The senders of the datagrams received, in order. -/
def senders (ops : List Operation) : List Address := ops.filterMap Operation.sender

/-- In a run of the calls `ops` whatever is sent goes to the full address of whoever wrote last, and no
address was stored before that goes over the end of `last_addr`. -/
def UDPSocket.RepliesToLast (s : UDPSocket) (ops : List Operation) : Prop :=
  ∀ pre op post sent, ops = pre ++ op :: post → ((s.after pre).perform op).2 = some sent →
    (s.after pre).overrun = false ∧ ∃ a, (senders pre).getLast? = some a ∧ sent.destination = some a.bytes

/-- No IPv6 address arrives where more than 16 bytes would be stored of it: as the first when `last_addrlen` says so,
or behind another. -/
def Fits : ℕ → List Address → Prop
  | _, [] => True
  | lastAddrlen, a :: as => min lastAddrlen a.bytes.length ≤ 16 ∧ Fits a.bytes.length as

/-- The socket can reply to the last of some senders: it has an IPv4 address, of which the rest was in `last_addr` if
it was the first and not all of it was stored, and all addresses have fitted. -/
structure Replyable (lastAddr : Vector UInt8 16) (lastAddrlen : UInt32) (senders : List Address) : Prop where
  fits : Fits lastAddrlen.toNat senders
  ipv4 : ∃ bytes, senders.getLast? = some (.ipv4 bytes)
  whole : ∀ a, senders = [a] → a.bytes.drop lastAddrlen.toNat = lastAddr.toList.drop lastAddrlen.toNat

/-- Every call that sends comes when the socket can reply. -/
def SendsWhenReplyable (lastAddr : Vector UInt8 16) (lastAddrlen : UInt32) (ops : List Operation) : Prop :=
  ∀ pre op post, ops = pre ++ op :: post → op.Sends → Replyable lastAddr lastAddrlen (senders pre)

/-- An address has 16 bytes or 28. -/
theorem Address.length_bytes (a : Address) : a.bytes.length = 16 ∨ a.bytes.length = 28 := by
  cases a with
  | ipv4 bytes => exact Or.inl bytes.length_toList
  | ipv6 bytes => exact Or.inr bytes.length_toList

/-- What a call leaves of the socket. -/
theorem UDPSocket.perform_fst (s : UDPSocket) (op : Operation) :
    (s.perform op).1 = op.sender.toList.foldl UDPSocket.store s := by
  cases op with
  | recvStr buffer bufSize r =>
    rw [UDPSocket.perform, recvStr_snd]
    cases r <;> rfl
  | recvShort data r =>
    rw [UDPSocket.perform, recvShort_socket]
    cases r <;> rfl
  | sendStr buffer bufSize returned => rfl
  | sendShort data returned => rfl

/-- **Only the senders matter** to what becomes of the socket. -/
theorem UDPSocket.after_eq (s : UDPSocket) (ops : List Operation) :
    s.after ops = (senders ops).foldl UDPSocket.store s := by
  induction ops generalizing s with
  | nil => rfl
  | cons op ops ih =>
    have hsenders : senders (op :: ops) = op.sender.toList ++ senders ops := by
      rw [senders, List.filterMap_cons]
      cases op.sender <;> rfl
    rw [hsenders, List.foldl_append, ← UDPSocket.perform_fst]
    exact ih _

/-- What a call sends. -/
theorem UDPSocket.perform_snd (s : UDPSocket) (op : Operation) :
    op.Sends ∧ (∃ bytes, (s.perform op).2 = some (s.sendto bytes)) ∨ ¬ op.Sends ∧ (s.perform op).2 = none := by
  cases op with
  | recvStr buffer bufSize r => exact Or.inr ⟨id, rfl⟩
  | recvShort data r => exact Or.inr ⟨id, rfl⟩
  | sendStr buffer bufSize returned => exact Or.inl ⟨trivial, _, congrArg some (sendStr_snd s buffer bufSize returned)⟩
  | sendShort data returned => exact Or.inl ⟨trivial, _, congrArg some (sendShort_snd s data returned)⟩

/-! ### What is stored -/

/-- Addresses that fit go over no end. -/
theorem overrun_foldl_store (s : UDPSocket) (as : List Address) :
    (as.foldl UDPSocket.store s).overrun = false ↔ s.overrun = false ∧ Fits s.lastAddrlen as := by
  induction as generalizing s with
  | nil => simp [Fits]
  | cons a as ih =>
    rw [List.foldl_cons, ih, Fits]
    simp only [UDPSocket.store, Bool.or_eq_false_iff, decide_eq_false_iff_not, not_lt, List.length_take, and_assoc]

/-- Behind another address all of an IPv4 address is stored. -/
theorem le_lastAddrlen_foldl_store (s : UDPSocket) {as : List Address} (hne : as ≠ []) :
    16 ≤ (as.foldl UDPSocket.store s).lastAddrlen := by
  obtain ⟨as, a, rfl⟩ := List.eq_nil_or_concat as |>.resolve_left hne
  rw [List.concat_eq_append, List.foldl_concat]
  show 16 ≤ a.bytes.length
  rcases a.length_bytes with h | h <;> omega

/-- **When a whole address is in `last_addr`**: when what was not stored of it was there already. -/
theorem lastAddr_store_iff (s : UDPSocket) (bytes : Vector UInt8 16) :
    (s.store (.ipv4 bytes)).lastAddr = bytes.toList ↔
      bytes.toList.drop s.lastAddrlen = s.lastAddr.drop s.lastAddrlen := by
  have hlen : bytes.toList.length = 16 := bytes.length_toList
  have hstored : (bytes.toList.take s.lastAddrlen).take 16 = bytes.toList.take s.lastAddrlen :=
    List.take_of_length_le (by rw [List.length_take]; omega)
  have hkept : s.lastAddr.drop (0 + (bytes.toList.take s.lastAddrlen).length) = s.lastAddr.drop s.lastAddrlen := by
    rw [Nat.zero_add, List.length_take, hlen]
    rcases le_total s.lastAddrlen 16 with hle | hge
    · rw [Nat.min_eq_left hle]
    · rw [Nat.min_eq_right hge, List.drop_of_length_le s.length_lastAddr.le,
        List.drop_of_length_le (s.length_lastAddr.trans_le hge)]
  have hsplit : bytes.toList = bytes.toList.take s.lastAddrlen ++ bytes.toList.drop s.lastAddrlen :=
    (List.take_append_drop _ _).symm
  show copyAt s.lastAddr 0 ((bytes.toList.take s.lastAddrlen).take 16) = bytes.toList ↔ _
  rw [hstored, copyAt, List.take_zero, List.nil_append, hkept]
  constructor
  · exact fun h => (List.append_cancel_left (h.trans hsplit)).symm
  · intro h
    rw [← h, List.take_append_drop]

/-- Of an IPv6 address `sendto` is given more than there is. -/
theorem destination_store_ipv6 (s : UDPSocket) (address : Vector UInt8 28) (bytes : List UInt8) :
    ((s.store (.ipv6 address)).sendto bytes).destination = none := by
  have hlen : (s.store (.ipv6 address)).lastAddrlen = 28 := address.length_toList
  rw [UDPSocket.sendto, hlen, if_neg (by decide)]

/-- Of an IPv4 address it is given what is in `last_addr`. -/
theorem destination_store_ipv4 (s : UDPSocket) (address : Vector UInt8 16) (bytes : List UInt8) :
    ((s.store (.ipv4 address)).sendto bytes).destination = some (s.store (.ipv4 address)).lastAddr := by
  have hlen : (s.store (.ipv4 address)).lastAddrlen = 16 := address.length_toList
  rw [UDPSocket.sendto, hlen, if_pos le_rfl, List.take_of_length_le (s.store (.ipv4 address)).length_lastAddr.le]

/-- All of an IPv4 address is stored, if it is not the first. -/
theorem lastAddr_store_foldl_iff (lastAddr : Vector UInt8 16) (lastAddrlen : UInt32) (before : List Address)
    (address : Vector UInt8 16) :
    ((before.foldl UDPSocket.store (.initializeServer lastAddr lastAddrlen)).store (.ipv4 address)).lastAddr =
        address.toList ↔
      (before = [] → address.toList.drop lastAddrlen.toNat = lastAddr.toList.drop lastAddrlen.toNat) := by
  rw [lastAddr_store_iff]
  by_cases hfirst : before = []
  · subst hfirst
    exact ⟨fun h _ => h, fun h => h rfl⟩
  · have hge := le_lastAddrlen_foldl_store (.initializeServer lastAddr lastAddrlen) hfirst
    refine iff_of_true ?_ fun h => absurd h hfirst
    rw [List.drop_of_length_le (address.length_toList.trans_le hge),
      List.drop_of_length_le ((UDPSocket.length_lastAddr _).trans_le hge)]

/-- **When the socket can reply**, after the datagrams of some senders. -/
theorem destination_eq_iff (lastAddr : Vector UInt8 16) (lastAddrlen : UInt32) (as : List Address) {s : UDPSocket}
    (hs : s = as.foldl UDPSocket.store (.initializeServer lastAddr lastAddrlen)) (bytes : List UInt8) :
    (s.overrun = false ∧ ∃ a, as.getLast? = some a ∧ (s.sendto bytes).destination = some a.bytes) ↔
      Replyable lastAddr lastAddrlen as := by
  have hoverrun : s.overrun = false ↔ Fits lastAddrlen.toNat as := by
    rw [hs, overrun_foldl_store]
    exact and_iff_right rfl
  rcases List.eq_nil_or_concat as with rfl | ⟨before, a, rfl⟩
  · refine iff_of_false ?_ ?_
    · rintro ⟨-, a, hnone, -⟩
      cases hnone
    · rintro ⟨-, ⟨bytes, hnone⟩, -⟩
      cases hnone
  rw [List.concat_eq_append] at hs hoverrun ⊢
  rw [List.foldl_concat] at hs
  have hlast : (before ++ [a]).getLast? = some a := List.getLast?_concat
  cases a with
  | ipv6 address =>
    have hnone := destination_store_ipv6 (before.foldl UDPSocket.store (.initializeServer lastAddr lastAddrlen)) address
      bytes
    rw [← hs] at hnone
    refine iff_of_false ?_ ?_
    · rintro ⟨-, a, -, hdestination⟩
      rw [hnone] at hdestination
      cases hdestination
    · rintro ⟨-, ⟨bytes, hipv4⟩, -⟩
      rw [hlast] at hipv4
      cases hipv4
  | ipv4 address =>
    have hdestination := destination_store_ipv4
      (before.foldl UDPSocket.store (.initializeServer lastAddr lastAddrlen)) address bytes
    have hstored := lastAddr_store_foldl_iff lastAddr lastAddrlen before address
    rw [← hs] at hdestination hstored
    constructor
    · rintro ⟨hfits, a, hsender, hwhole⟩
      rw [hlast] at hsender
      cases hsender
      rw [hdestination, Option.some.injEq] at hwhole
      refine ⟨hoverrun.mp hfits, ⟨address, hlast⟩, fun a hone => ?_⟩
      obtain ⟨hfirst, ha⟩ := List.append_inj' (show before ++ [.ipv4 address] = [] ++ [a] from hone) rfl
      cases ha
      exact hstored.mp hwhole hfirst
    · rintro ⟨hfits, -, hwhole⟩
      refine ⟨hoverrun.mpr hfits, .ipv4 address, hlast, ?_⟩
      rw [hdestination, Option.some.injEq]
      refine hstored.mpr fun hfirst => hwhole (.ipv4 address) ?_
      rw [hfirst, List.nil_append]

/-- **When a server socket replies to whoever wrote last.** -/
theorem repliesToLast_iff (lastAddr : Vector UInt8 16) (lastAddrlen : UInt32) (ops : List Operation) :
    (UDPSocket.initializeServer lastAddr lastAddrlen).RepliesToLast ops ↔
      SendsWhenReplyable lastAddr lastAddrlen ops := by
  have hafter := UDPSocket.after_eq (.initializeServer lastAddr lastAddrlen)
  constructor
  · intro hreplies pre op post hops hsends
    rcases UDPSocket.perform_snd ((UDPSocket.initializeServer lastAddr lastAddrlen).after pre) op with
      ⟨-, bytes, hsent⟩ | ⟨hnot, -⟩
    · exact (destination_eq_iff lastAddr lastAddrlen _ (hafter pre) bytes).mp (hreplies pre op post _ hops hsent)
    · exact absurd hsends hnot
  · intro hsends pre op post sent hops hsent
    rcases UDPSocket.perform_snd ((UDPSocket.initializeServer lastAddr lastAddrlen).after pre) op with
      ⟨hsend, bytes, hsent'⟩ | ⟨-, hnone⟩
    · obtain rfl := Option.some.inj (hsent'.symm.trans hsent)
      exact (destination_eq_iff lastAddr lastAddrlen _ (hafter pre) bytes).mpr (hsends pre op post hops hsend)
    · rw [hnone] at hsent
      cases hsent

/-- Somebody who writes from an IPv6 address is not replied to, and neither is somebody who writes from an IPv4
address first, if `last_addrlen` happens to be zero. -/
theorem stray_replies :
    ¬ newSocket.RepliesToLast
        [.recvStr [0, 0] 2 (some ⟨.ipv6 (.replicate 28 1), [104, 105]⟩), .sendStr [104, 105] 2 2] ∧
      ¬ (UDPSocket.initializeServer (.replicate 16 0) 0).RepliesToLast
        [.recvStr [0, 0] 2 (some ⟨.ipv4 (.replicate 16 1), [104, 105]⟩), .sendStr [104, 105] 2 2] := by
  constructor
  · intro h
    obtain ⟨-, a, -, hdestination⟩ := h [_] _ [] _ rfl rfl
    rw [sendStr_snd, UDPSocket.sendto, if_neg (by decide)] at hdestination
    cases hdestination
  · intro h
    obtain ⟨-, a, hlast, hdestination⟩ := h [_] _ [] _ rfl rfl
    cases hlast
    rw [sendStr_snd] at hdestination
    exact absurd hdestination (by decide)

end Inferno.Sockets
