import Inferno.Lib.Memory
import Mathlib.Data.List.GetD

/-!
# Layouts

How a value lies in memory: the copies that put it there and what a later read makes of
the bytes. A field in host order has a layout (`HostField.layout`), and so has a pair, the
second component right behind the first; so a record copied field by field, without gaps,
has the layout of the tuple of its fields, however many they are.

What the laws of `Layout` add up to is that `write` leaves the bytes of `encode` at its
address, whatever was in memory before (`load_write`), and that `encode` loses nothing
(`encode_injective`).
-/

namespace ByteMem

/-- The bytes of a range are those of its two halves. -/
theorem load_add (m : Mem) (p : ℤ) (n k : ℕ) : load m p (n + k) = load m p n ++ load m (p + n) k := by
  unfold load
  rw [List.range_add, List.map_append, List.map_map]
  refine congrArg _ (List.map_congr_left fun i _ => ?_)
  simp [add_assoc]

/-- Memory all zero. -/
theorem load_zeros (p : ℤ) (n : ℕ) : load (fun _ => 0) p n = List.replicate n 0 := by
  simp [load, List.map_const']

/-- A byte after a copy. -/
theorem exec_apply (p : ℤ) (bs : List UInt8) (m : Mem) (a : ℤ) :
    Memcpy.exec ⟨p, bs⟩ m a = if p ≤ a ∧ a < p + bs.length then bs.getD (a - p).toNat 0 else m a := rfl

/-- What is left of a copy whose end a later one covers. -/
theorem exec_exec_of_end_covered {p : ℤ} {bs cs : List UInt8} {w : Memcpy} (hdst : w.dst = p + bs.length)
    (hfin : p + bs.length + cs.length ≤ w.fin) (m : Mem) :
    w.exec (Memcpy.exec ⟨p, bs ++ cs⟩ m) = w.exec (Memcpy.exec ⟨p, bs⟩ m) := by
  obtain ⟨q, ds⟩ := w
  simp only [Memcpy.fin] at hdst hfin
  funext a
  simp only [exec_apply, List.length_append, Nat.cast_add]
  by_cases hw : q ≤ a ∧ a < q + ds.length
  · rw [if_pos hw, if_pos hw]
  · rw [if_neg hw, if_neg hw]
    by_cases hbs : p ≤ a ∧ a < p + bs.length
    · rw [if_pos hbs, if_pos (by omega), List.getD_append _ _ _ _ (by omega)]
    · rw [if_neg hbs, if_neg (by omega)]

/-! ### Fields from any bytes -/

theorem leBytes_leNat (bs : List UInt8) : leBytes bs.length (leNat bs) = bs := by
  induction bs with
  | nil => rfl
  | cons b bs ih =>
    have hb := b.toNat_lt
    simp only [List.length_cons, leBytes, leNat]
    rw [show (b.toNat + 256 * leNat bs) / 256 = leNat bs by omega, ih,
      show (b.toNat + 256 * leNat bs) % 256 = b.toNat by omega, UInt8.ofNat_toNat]

theorem leNat_lt (bs : List UInt8) : leNat bs < 256 ^ bs.length := by
  induction bs with
  | nil => simp [leNat]
  | cons b bs ih =>
    have hb := b.toNat_lt
    simp only [leNat, List.length_cons, pow_succ]
    omega

theorem leNat_append (as bs : List UInt8) : leNat (as ++ bs) = leNat as + 256 ^ as.length * leNat bs := by
  induction as with
  | nil => simp [leNat]
  | cons a as ih =>
    simp only [List.cons_append, leNat, ih, List.length_cons, pow_succ]
    ring

/-- A field of four bytes is made of two of two bytes, the low half first. -/
theorem toNat_get_uInt32 (m : Mem) (p : ℤ) :
    (ByteMem.get m p : UInt32).toNat =
      (ByteMem.get m p : UInt16).toNat + 65536 * (ByteMem.get m (p + 2) : UInt16).toNat := by
  have hlow := leNat_lt (load m p 2)
  have hhigh := leNat_lt (load m (p + 2) 2)
  have hsplit : leNat (load m p 4) = leNat (load m p 2) + 65536 * leNat (load m (p + 2) 2) := by
    rw [show load m p 4 = load m p 2 ++ load m (p + 2) 2 from load_add m p 2 2, leNat_append, length_load]
    norm_num
  rw [length_load] at hlow hhigh
  simp only [ByteMem.get, ofBytes, HostField.ofNat, HostField.width, UInt32.toNat_ofNat', UInt16.toNat_ofNat', hsplit]
  omega

/-! ### Layouts -/

/-- How values of a type lie in memory. -/
class Layout (α : Type) where
  /-- How many bytes a value takes. -/
  width : ℕ
  /-- The copies that put a value at an address. -/
  write : ℤ → α → List Memcpy
  /-- The value at an address. -/
  read : Mem → ℤ → α
  /-- The copies stay within the value's bytes. -/
  within : ∀ p x, ∀ w ∈ write p x, p ≤ w.dst ∧ w.fin ≤ p + width
  /-- A read looks at nothing but the value's bytes. -/
  read_congr : ∀ {m m' : Mem} {p p' : ℤ}, load m p width = load m' p' width → read m p = read m' p'
  /-- A value is read back. -/
  read_write : ∀ m p x, read (execAll (write p x) m) p = x
  /-- Bytes that are read are written back. -/
  load_write_read : ∀ m p m' p', load (execAll (write p' (read m p)) m') p' width = load m p width

/-- A field in host order, if every number that fits is one. -/
@[reducible]
def HostField.layout (α : Type) [HostField α]
    (toNat_ofNat : ∀ n < 256 ^ HostField.width α, HostField.toNat (HostField.ofNat n : α) = n) : Layout α where
  width := HostField.width α
  write p x := [put p x]
  read := get
  within p x w hw := by
    rw [List.mem_singleton] at hw
    subst hw
    simp
  read_congr h := by rw [get, get, h]
  read_write m p x := get_exec_put p x m
  load_write_read m p m' p' := by
    have hlt := leNat_lt (load m p (HostField.width α))
    have hbytes := leBytes_leNat (load m p (HostField.width α))
    rw [length_load] at hlt hbytes
    have hself := load_exec_self p' (bytesOf (get m p : α)) m'
    rw [length_bytesOf] at hself
    rw [execAll_cons, execAll_nil, put, hself, bytesOf, get, ofBytes, toNat_ofNat _ hlt, hbytes]

instance : Layout UInt8 := HostField.layout UInt8 fun n hn => by
  rw [show HostField.toNat (HostField.ofNat n : UInt8) = (UInt8.ofNat n).toNat from rfl, UInt8.toNat_ofNat']
  exact Nat.mod_eq_of_lt hn

instance : Layout UInt16 := HostField.layout UInt16 fun n hn => by
  rw [show HostField.toNat (HostField.ofNat n : UInt16) = (UInt16.ofNat n).toNat from rfl, UInt16.toNat_ofNat']
  exact Nat.mod_eq_of_lt hn

instance : Layout UInt32 := HostField.layout UInt32 fun n hn => by
  rw [show HostField.toNat (HostField.ofNat n : UInt32) = (UInt32.ofNat n).toNat from rfl, UInt32.toNat_ofNat']
  exact Nat.mod_eq_of_lt hn

namespace Layout

variable {α β : Type} [Layout α] [Layout β]

/-- Copies of one value leave what is behind it, or before it, alone. -/
theorem load_write_of_disjoint {p q : ℤ} {n : ℕ} (x : α) (h : q + n ≤ p ∨ p + width α ≤ q) (m : Mem) :
    load (execAll (write p x) m) q n = load m q n := by
  refine load_execAll_of_disjoint (fun w hw => ?_) m
  have := within p x w hw
  omega

/-- The bytes of a value. -/
def encode (x : α) : List UInt8 := load (execAll (write 0 x) fun _ => 0) 0 (width α)

/-- **What is in memory after a write**: the value's bytes, wherever it is written and
whatever was there. -/
theorem load_write (m : Mem) (p : ℤ) (x : α) : load (execAll (write p x) m) p (width α) = encode x := by
  have h := load_write_read (α := α) (execAll (write 0 x) fun _ => 0) 0 m p
  rw [read_write] at h
  exact h

/-- **No two values have the same bytes.** -/
theorem encode_injective : Function.Injective (encode (α := α)) := by
  intro x y h
  rw [← read_write (fun _ => 0) 0 x, ← read_write (fun _ => 0) 0 y]
  exact read_congr h

/-- A value is read back from any memory that has its bytes. -/
theorem read_of_load {m : Mem} {p : ℤ} {x : α} (h : load m p (width α) = encode x) : read m p = x := by
  rw [← read_write (fun _ => 0) 0 x]
  exact read_congr h

/-- A pair, the second component right behind the first. -/
instance : Layout (α × β) where
  width := width α + width β
  write p x := write p x.1 ++ write (p + width α) x.2
  read m p := (read m p, read m (p + width α))
  within p x w hw := by
    rcases List.mem_append.mp hw with hw | hw
    · have := within p x.1 w hw
      push_cast
      omega
    · have := within (p + width α) x.2 w hw
      push_cast
      omega
  read_congr h := by
    rw [load_add, load_add] at h
    obtain ⟨h₁, h₂⟩ := List.append_inj h (by simp)
    rw [read_congr h₁, read_congr h₂]
  read_write m p x := by
    refine Prod.ext ?_ ?_
    · rw [execAll_append]
      refine read_of_load ?_
      rw [load_write_of_disjoint _ (Or.inl le_rfl), load_write]
    · rw [execAll_append]
      exact read_write _ _ _
  load_write_read m p m' p' := by
    rw [load_add, load_add, execAll_append, load_write_read, load_write_of_disjoint _ (Or.inl le_rfl), load_write_read]

@[simp] theorem width_prod : width (α × β) = width α + width β := rfl

@[simp] theorem width_uInt8 : width UInt8 = 1 := rfl

@[simp] theorem width_uInt16 : width UInt16 = 2 := rfl

@[simp] theorem width_uInt32 : width UInt32 = 4 := rfl

@[simp] theorem write_uInt8 (p : ℤ) (x : UInt8) : write p x = [put p x] := rfl

@[simp] theorem write_uInt16 (p : ℤ) (x : UInt16) : write p x = [put p x] := rfl

@[simp] theorem write_uInt32 (p : ℤ) (x : UInt32) : write p x = [put p x] := rfl

@[simp] theorem write_prod (p : ℤ) (x : α) (y : β) : write p (x, y) = write p x ++ write (p + width α) y := rfl

@[simp] theorem read_uInt8 (m : Mem) (p : ℤ) : (read m p : UInt8) = get m p := rfl

@[simp] theorem read_uInt16 (m : Mem) (p : ℤ) : (read m p : UInt16) = get m p := rfl

@[simp] theorem read_uInt32 (m : Mem) (p : ℤ) : (read m p : UInt32) = get m p := rfl

@[simp] theorem read_prod (m : Mem) (p : ℤ) : (read m p : α × β) = (read m p, read m (p + width α)) := rfl

end Layout

end ByteMem
