import Inferno.Login.TestClient

/-!
# Ports in a row

The two critical sections that take a port, run over and over on one `LoginServer`. After it has
taken a port each adds one to its counter, and sets it to 13000 if it is then no larger than 14000.
The counter that begins at 13000 never gets past this test; the one that begins at 14000 never
meets it.

## What is proved

* `takePorts_recvPassword`, `takePorts_loginUser` — `recv_password` takes 13000 every time, and
  `login_user` the numbers from 14000 on.
* `cyclesThroughPorts_iff` — any thousand ports in a row are different, and every one is sent as it is,
  exactly as long as `recv_password` takes one port and `login_user` 51536.
-/

namespace Inferno.Login

open CStr

/-- The ports that `n` calls in a row take. -/
def Handler.takePorts (h : Handler) : Counters → ℕ → List ℤ
  | _, 0 => []
  | server, n + 1 => (h.takePort server).1 :: h.takePorts (h.takePort server).2 n

/-- `ntohs` of two bytes, as an unsigned number. -/
def unsignedOf (bytes : Bytes) : ℕ := (bytes.getD 0 0).toNat * 256 + (bytes.getD 1 0).toNat

/-- Of `n` ports that are taken in a row on a new server any 1000 consecutive ones are different; and
every one is a port, which is what the client makes of the two bytes that it is sent. -/
def Handler.CyclesThroughPorts (h : Handler) (n : ℕ) : Prop :=
  (∀ i j p q, i < j → j < i + 1000 → (h.takePorts .constructed n)[i]? = some p →
      (h.takePorts .constructed n)[j]? = some q → p ≠ q) ∧
    ∀ p ∈ h.takePorts .constructed n, p ≤ 65535 ∧ (unsignedOf (shortBytes (sslPort p)) : ℤ) = p

/-- A number that is a port arrives as it is. -/
theorem unsignedOf_shortBytes {p : ℤ} (hnonneg : 0 ≤ p) (hle : p ≤ 65535) :
    (unsignedOf (shortBytes (sslPort p)) : ℤ) = p := by
  have hword : (sslPort p).toUInt16.toNat = (p % 65536).toNat := by
    show (BitVec.ofInt 16 p).toNat = _
    rw [BitVec.toNat_ofInt]
    rfl
  have hhigh : (UInt8.ofNat ((p % 65536).toNat / 256)).toNat = (p % 65536).toNat / 256 := by
    rw [UInt8.toNat_ofNat']
    omega
  have hlow : (UInt8.ofNat ((p % 65536).toNat % 256)).toNat = (p % 65536).toNat % 256 := by
    rw [UInt8.toNat_ofNat']
    omega
  rw [unsignedOf, shortBytes, List.getD_cons_zero, List.getD_cons_succ, List.getD_cons_zero, hword, hhigh, hlow]
  omega

/-- **`recv_password` takes the same port every time.** -/
theorem takePorts_recvPassword (n : ℕ) :
    Handler.takePorts .recvPassword .constructed n = List.replicate n 13000 := by
  induction n with
  | zero => rfl
  | succ n ih =>
    have hsame : (Handler.takePort .constructed .recvPassword).2 = .constructed := rfl
    rw [Handler.takePorts, hsame, ih, List.replicate_succ]
    rfl

/-- **`login_user` takes the next one every time.** -/
theorem takePorts_loginUser (n : ℕ) :
    Handler.takePorts .loginUser .constructed n = (List.range n).map fun i : ℕ => 14000 + (i : ℤ) := by
  have hfrom : ∀ (r p : ℤ) (n : ℕ), 14000 ≤ p →
      Handler.takePorts .loginUser ⟨r, p⟩ n = (List.range n).map fun i : ℕ => p + (i : ℤ) := by
    intro r p n hp
    induction n generalizing p with
    | zero => rfl
    | succ n ih =>
      have hnext : advance p = p + 1 := if_neg (by omega)
      rw [Handler.takePorts, Handler.takePort, hnext, ih (p + 1) (by omega), List.range_succ_eq_map, List.map_cons,
        List.map_map]
      congr 1
      · simp
      · refine List.map_congr_left fun i _ => ?_
        simp only [Function.comp, Nat.succ_eq_add_one, Nat.cast_add, Nat.cast_one]
        omega
  exact hfrom 13000 14000 n le_rfl

/-- Two calls of `recv_password` are too many. -/
theorem cycles_recvPassword_iff (n : ℕ) : Handler.CyclesThroughPorts .recvPassword n ↔ n ≤ 1 := by
  rw [Handler.CyclesThroughPorts, takePorts_recvPassword]
  constructor
  · rintro ⟨hdistinct, -⟩
    by_contra hn
    refine hdistinct 0 1 13000 13000 (by omega) (by omega) ?_ ?_ rfl
    · rw [List.getElem?_replicate, if_pos (by omega)]
    · rw [List.getElem?_replicate, if_pos (by omega)]
  · intro hn
    refine ⟨fun i j p q hij _ _ hj => ?_, fun p hp => ?_⟩
    · rw [List.getElem?_replicate, if_neg (by omega)] at hj
      cases hj
    · obtain ⟨-, rfl⟩ := List.mem_replicate.mp hp
      exact ⟨by omega, unsignedOf_shortBytes (by omega) (by omega)⟩

/-- `login_user` gets to 65535 with the 51536th call. -/
theorem cycles_loginUser_iff (n : ℕ) : Handler.CyclesThroughPorts .loginUser n ↔ n ≤ 51536 := by
  rw [Handler.CyclesThroughPorts, takePorts_loginUser]
  constructor
  · rintro ⟨-, hports⟩
    by_contra hn
    have hlast := (hports (14000 + ((51536 : ℕ) : ℤ)) (List.mem_map_of_mem (List.mem_range.mpr (by omega)))).1
    omega
  · intro hn
    refine ⟨fun i j p q hij _ hi hj => ?_, fun p hp => ?_⟩
    · rw [List.getElem?_map, Option.map_eq_some_iff] at hi hj
      obtain ⟨a, ha, rfl⟩ := hi
      obtain ⟨b, hb, rfl⟩ := hj
      rw [List.getElem?_eq_some_iff] at ha hb
      obtain ⟨-, rfl⟩ := ha
      obtain ⟨-, rfl⟩ := hb
      simp only [List.getElem_range]
      omega
    · obtain ⟨i, hi, rfl⟩ := List.mem_map.mp hp
      have hlt := List.mem_range.mp hi
      exact ⟨by omega, unsignedOf_shortBytes (by omega) (by omega)⟩

/-- **How long the ports of a server are different ones**, and are ports. -/
theorem cyclesThroughPorts_iff (n : ℕ) :
    (Handler.CyclesThroughPorts .recvPassword n ↔ n ≤ 1) ∧ (Handler.CyclesThroughPorts .loginUser n ↔ n ≤ 51536) :=
  ⟨cycles_recvPassword_iff n, cycles_loginUser_iff n⟩

/-- Two sign-ups in a row take the same port. -/
theorem same_port_twice : ¬ Handler.CyclesThroughPorts .recvPassword 2 := by
  rintro ⟨hdistinct, -⟩
  exact hdistinct 0 1 13000 13000 (by omega) (by omega) rfl rfl rfl

end Inferno.Login
