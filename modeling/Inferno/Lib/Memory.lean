import Mathlib.Data.List.Basic
import Mathlib.Tactic.Ring

/-!
# Byte memory

Memory as a function from addresses to bytes, and the `memcpy`s a routine makes
into it. A routine that only copies fields is the list of its `memcpy`s in
program order; what the list does to memory, where it ends, and what a later
read finds are the lemmas of this module.

A field is moved in host order, least significant byte first (`HostField`).
-/

namespace ByteMem

/-- Memory: the byte at every address. -/
abbrev Mem := ℤ → UInt8

/-- The bytes at `p`, `p + 1`, …, `p + n - 1`. -/
def load (m : Mem) (p : ℤ) (n : ℕ) : List UInt8 := (List.range n).map fun k : ℕ => m (p + k)

@[simp] theorem length_load (m : Mem) (p : ℤ) (n : ℕ) : (load m p n).length = n := by simp [load]

theorem getElem?_load {m : Mem} {p : ℤ} {n k : ℕ} (h : k < n) : (load m p n)[k]? = some (m (p + k)) := by
  simp [load, h]

/-- One `memcpy`: the address it writes to and the bytes it copies there. -/
structure Memcpy where
  /-- The first address written. -/
  dst : ℤ
  /-- The bytes copied. -/
  src : List UInt8

/-- One past the last address written. -/
def Memcpy.fin (w : Memcpy) : ℤ := w.dst + w.src.length

/-- Memory after the copy. -/
def Memcpy.exec (w : Memcpy) (m : Mem) : Mem :=
  fun a => if w.dst ≤ a ∧ a < w.fin then w.src.getD (a - w.dst).toNat 0 else m a

/-- Memory after the copies of `ws`, in order. -/
def execAll (ws : List Memcpy) (m : Mem) : Mem := ws.foldl (fun m w => w.exec m) m

/-- One past the highest address that `ws` writes, for a routine started at `p`. -/
def endOf (p : ℤ) (ws : List Memcpy) : ℤ := ws.foldl (fun e w => max e w.fin) p

@[simp] theorem execAll_nil (m : Mem) : execAll [] m = m := rfl

@[simp] theorem execAll_cons (w : Memcpy) (ws : List Memcpy) (m : Mem) :
    execAll (w :: ws) m = execAll ws (w.exec m) := rfl

theorem execAll_append (ws₁ ws₂ : List Memcpy) (m : Mem) :
    execAll (ws₁ ++ ws₂) m = execAll ws₂ (execAll ws₁ m) := by simp [execAll]

theorem endOf_append (p : ℤ) (ws₁ ws₂ : List Memcpy) :
    endOf p (ws₁ ++ ws₂) = endOf (endOf p ws₁) ws₂ := by simp [endOf]

/-- Copies that all stay below `e` end below `e`. -/
theorem endOf_le {p e : ℤ} {ws : List Memcpy} (hp : p ≤ e) (h : ∀ w ∈ ws, w.fin ≤ e) : endOf p ws ≤ e := by
  induction ws generalizing p with
  | nil => exact hp
  | cons w ws ih =>
    exact ih (max_le hp (h w List.mem_cons_self)) fun w' hw' => h w' (List.mem_cons_of_mem _ hw')

/-- Reading back what one copy wrote. -/
theorem load_exec_self (p : ℤ) (bs : List UInt8) (m : Mem) :
    load (Memcpy.exec ⟨p, bs⟩ m) p bs.length = bs := by
  apply List.ext_getElem?
  intro k
  by_cases hk : k < bs.length
  · rw [getElem?_load hk, List.getElem?_eq_getElem hk]
    simp [Memcpy.exec, Memcpy.fin, hk]
  · rw [List.getElem?_eq_none (by simp; omega), List.getElem?_eq_none (by omega)]

/-- A copy leaves a range it does not touch as it was. -/
theorem load_exec_of_disjoint {w : Memcpy} {p : ℤ} {n : ℕ} (h : p + n ≤ w.dst ∨ w.fin ≤ p) (m : Mem) :
    load (w.exec m) p n = load m p n := by
  unfold load
  refine List.map_congr_left fun k hk => ?_
  rw [List.mem_range] at hk
  unfold Memcpy.exec
  rw [if_neg]
  omega

/-- So do copies none of which touches it. -/
theorem load_execAll_of_disjoint {ws : List Memcpy} {p : ℤ} {n : ℕ}
    (h : ∀ w ∈ ws, p + n ≤ w.dst ∨ w.fin ≤ p) (m : Mem) : load (execAll ws m) p n = load m p n := by
  induction ws generalizing m with
  | nil => rfl
  | cons w ws ih =>
    rw [execAll_cons, ih (fun w' hw' => h w' (List.mem_cons_of_mem _ hw')),
      load_exec_of_disjoint (h w List.mem_cons_self)]

/-- A byte that no copy touches is as it was. -/
theorem execAll_of_outside {ws : List Memcpy} {a : ℤ} (h : ∀ w ∈ ws, a < w.dst ∨ w.fin ≤ a) (m : Mem) :
    execAll ws m a = m a := by
  have hload := load_execAll_of_disjoint (p := a) (n := 1) (fun w hw => (h w hw).imp (by omega) id) m
  simpa [load] using hload

/-- A copy that is inside a later one leaves no trace. -/
theorem exec_exec_of_covered {w w' : Memcpy} (hd : w'.dst ≤ w.dst) (hf : w.fin ≤ w'.fin) (m : Mem) :
    w'.exec (w.exec m) = w'.exec m := by
  funext a
  unfold Memcpy.exec
  split_ifs with h₁ h₂
  · rfl
  · omega
  · rfl

/-! ### Fields in host order -/

/-- The `w` low bytes of `n`, least significant first. -/
def leBytes : ℕ → ℕ → List UInt8
  | 0, _ => []
  | w + 1, n => UInt8.ofNat (n % 256) :: leBytes w (n / 256)

/-- The number whose bytes, least significant first, are given. -/
def leNat : List UInt8 → ℕ
  | [] => 0
  | b :: bs => b.toNat + 256 * leNat bs

@[simp] theorem length_leBytes (w n : ℕ) : (leBytes w n).length = w := by
  induction w generalizing n with
  | zero => rfl
  | succ w ih => simp [leBytes, ih]

theorem leNat_leBytes (w n : ℕ) (h : n < 256 ^ w) : leNat (leBytes w n) = n := by
  induction w generalizing n with
  | zero => simp at h; simp [leBytes, leNat, h]
  | succ w ih =>
    have hq : n / 256 < 256 ^ w := by
      rw [pow_succ] at h
      exact Nat.div_lt_of_lt_mul (by rwa [Nat.mul_comm])
    have hb : (UInt8.ofNat (n % 256)).toNat = n % 256 := by
      rw [UInt8.toNat_ofNat']
      omega
    simp only [leBytes, leNat, ih _ hq, hb]
    omega

/-- A fixed-width unsigned field: a number below `256 ^ width`, in both directions. -/
class HostField (α : Type) where
  /-- How many bytes the field takes. -/
  width : ℕ
  /-- The field as a number. -/
  toNat : α → ℕ
  /-- The field with a number's value. -/
  ofNat : ℕ → α
  toNat_lt : ∀ x, toNat x < 256 ^ width
  ofNat_toNat : ∀ x, ofNat (toNat x) = x

instance : HostField UInt8 := ⟨1, UInt8.toNat, UInt8.ofNat, UInt8.toNat_lt, fun _ => UInt8.ofNat_toNat⟩

instance : HostField UInt16 := ⟨2, UInt16.toNat, UInt16.ofNat, UInt16.toNat_lt, fun _ => UInt16.ofNat_toNat⟩

instance : HostField UInt32 := ⟨4, UInt32.toNat, UInt32.ofNat, UInt32.toNat_lt, fun _ => UInt32.ofNat_toNat⟩

@[simp] theorem width_uInt8 : HostField.width UInt8 = 1 := rfl

@[simp] theorem width_uInt16 : HostField.width UInt16 = 2 := rfl

@[simp] theorem width_uInt32 : HostField.width UInt32 = 4 := rfl

variable {α : Type} [HostField α]

/-- The bytes of a field. -/
def bytesOf (x : α) : List UInt8 := leBytes (HostField.width α) (HostField.toNat x)

/-- The field whose bytes are given. -/
def ofBytes (bs : List UInt8) : α := HostField.ofNat (leNat bs)

@[simp] theorem length_bytesOf (x : α) : (bytesOf x).length = HostField.width α := length_leBytes _ _

@[simp] theorem ofBytes_bytesOf (x : α) : ofBytes (bytesOf x) = x := by
  unfold ofBytes bytesOf
  rw [leNat_leBytes _ _ (HostField.toNat_lt x), HostField.ofNat_toNat]

/-- `memcpy(p, &x, sizeof x)`. -/
def put (p : ℤ) (x : α) : Memcpy := ⟨p, bytesOf x⟩

/-- `memcpy(&x, p, sizeof x)`: the value `x` gets. -/
def get (m : Mem) (p : ℤ) : α := ofBytes (load m p (HostField.width α))

@[simp] theorem dst_put (p : ℤ) (x : α) : (put p x).dst = p := rfl

@[simp] theorem fin_put (p : ℤ) (x : α) : (put p x).fin = p + HostField.width α := by
  simp [put, Memcpy.fin]

theorem get_exec_put (p : ℤ) (x : α) (m : Mem) : get ((put p x).exec m) p = x := by
  unfold get put
  rw [← length_bytesOf x, load_exec_self, ofBytes_bytesOf]

/-- A field is read back from among copies if none of the later ones touches it. -/
theorem get_execAll_put {p : ℤ} {x : α} (pre : List Memcpy) {post : List Memcpy}
    (h : ∀ w ∈ post, p + (HostField.width α : ℕ) ≤ w.dst ∨ w.fin ≤ p) (m : Mem) :
    get (execAll (pre ++ put p x :: post) m) p = x := by
  rw [execAll_append, execAll_cons, get, load_execAll_of_disjoint h]
  exact get_exec_put p x _

end ByteMem
