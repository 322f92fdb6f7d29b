import Mathlib.Data.List.Basic
import Mathlib.Data.List.TakeWhile

/-!
# C strings in arrays

A `char` array is the list of its bytes; the C string in it is what comes before
the first NUL. A read that finds no NUL goes on into the memory after the array,
so a routine that reads a string is given `after`, the bytes that follow
(`cstrOver`).
-/

namespace CStr

/-- The C string at the start of an array. -/
def cstr (buf : List UInt8) : List UInt8 := buf.takeWhile (· ≠ 0)

/-- The C string at the start of an array that the bytes `after` follow in memory. -/
def cstrOver (buf after : List UInt8) : List UInt8 := cstr (buf ++ after)

/-- `strlen`. -/
def strlen (buf : List UInt8) : ℕ := (cstr buf).length

/-- `memset(buf, 0, n)`. -/
def zero (buf : List UInt8) (n : ℕ) : List UInt8 := List.replicate (min n buf.length) 0 ++ buf.drop n

/-- `memset(buf, 0, strlen(buf))`. -/
def clear (buf : List UInt8) : List UInt8 := zero buf (strlen buf)

/-- `memcpy(buf + i, bs, …)` of all of `bs`. -/
def copyAt (buf : List UInt8) (i : ℕ) (bs : List UInt8) : List UInt8 :=
  buf.take i ++ bs ++ buf.drop (i + bs.length)

/-- `strcpy`. -/
def strcpy (dst src : List UInt8) : List UInt8 := copyAt dst 0 (src ++ [0])

/-- `strcat`. -/
def strcat (dst src : List UInt8) : List UInt8 := copyAt dst (strlen dst) (src ++ [0])

/-- A string in front of an array is read before what is in the array. -/
theorem cstr_append {s : List UInt8} (h : 0 ∉ s) (rest : List UInt8) : cstr (s ++ rest) = s ++ cstr rest := by
  unfold cstr
  rw [List.takeWhile_append_of_pos]
  intro b hb
  have hne : b ≠ 0 := fun e => h (e ▸ hb)
  simp [hne]

theorem cstr_append_nul {s : List UInt8} (h : 0 ∉ s) (rest : List UInt8) : cstr (s ++ 0 :: rest) = s := by
  rw [cstr_append h, cstr, List.takeWhile_cons_of_neg (by simp), List.append_nil]

/-- A string with no NUL at all is read to its end. -/
theorem cstr_of_nul_free {s : List UInt8} (h : 0 ∉ s) : cstr s = s := by
  have hnil : cstr [] = [] := rfl
  have hend := cstr_append h []
  rwa [List.append_nil, hnil, List.append_nil] at hend

theorem nul_notMem_cstr (buf : List UInt8) : 0 ∉ cstr buf := by
  intro h
  have := List.mem_takeWhile_imp h
  simp at this

/-- After a NUL inside the array the memory behind it does not matter. -/
theorem cstrOver_append_nul {s : List UInt8} (h : 0 ∉ s) (rest after : List UInt8) :
    cstrOver (s ++ 0 :: rest) after = s := by
  unfold cstrOver
  rw [List.append_assoc, List.cons_append, cstr_append_nul h]

/-- So if the array has a NUL anywhere. -/
theorem cstrOver_of_mem {buf : List UInt8} (h : 0 ∈ buf) (after : List UInt8) : cstrOver buf after = cstr buf := by
  obtain ⟨s, rest, rfl, hs⟩ := List.eq_append_cons_of_mem h
  rw [cstrOver_append_nul hs, cstr_append_nul hs]

/-- The string and its NUL are then in the array. -/
theorem length_cstr_lt {buf : List UInt8} (h : 0 ∈ buf) : (cstr buf).length < buf.length := by
  obtain ⟨s, rest, rfl, hs⟩ := List.eq_append_cons_of_mem h
  rw [cstr_append_nul hs, List.length_append, List.length_cons]
  omega

/-- A NUL in the array bounds the string. -/
theorem length_cstrOver_le {buf : List UInt8} {i : ℕ} (h : buf[i]? = some 0) (after : List UInt8) :
    (cstrOver buf after).length ≤ i := by
  induction buf generalizing i with
  | nil => simp at h
  | cons b buf ih =>
    by_cases hb : b = 0
    · simp [cstrOver, cstr, hb]
    · cases i with
      | zero => simp [hb] at h
      | succ i =>
        have := ih (i := i) (by simpa using h)
        simpa [cstrOver, cstr, hb] using this

/-- A copy to the start of an array, byte by byte. -/
theorem getElem?_copyAt_zero (buf bs : List UInt8) (k : ℕ) :
    (copyAt buf 0 bs)[k]? = if k < bs.length then bs[k]? else buf[k]? := by
  rw [copyAt, List.take_zero, List.nil_append, List.getElem?_append]
  split_ifs with hk
  · rfl
  · rw [List.getElem?_drop]
    congr 1
    omega

/-- A copy behind the first part of an array. -/
theorem copyAt_append (a b bs : List UInt8) : copyAt (a ++ b) a.length bs = a ++ (bs ++ b.drop bs.length) := by
  simp [copyAt]

/-- A copy that covers the whole array. -/
theorem copyAt_zero_of_length_le {buf bs : List UInt8} (h : buf.length ≤ bs.length) : copyAt buf 0 bs = bs := by
  simp [copyAt, h]

/-- A copy inside an array. -/
theorem length_copyAt {buf bs : List UInt8} {i : ℕ} (h : i + bs.length ≤ buf.length) :
    (copyAt buf i bs).length = buf.length := by
  simp only [copyAt, List.length_append, List.length_take, List.length_drop]
  omega

/-- A copy of no more bytes than the array has. -/
theorem length_copyAt_take (buf src : List UInt8) {n : ℕ} (h : buf.length = n) :
    (copyAt buf 0 (src.take n)).length = n := by
  rw [length_copyAt, h]
  rw [h, List.length_take]
  omega

/-- A copy leaves the bytes before it alone. -/
theorem getElem?_copyAt_of_lt {buf : List UInt8} {i k : ℕ} (hk : k < i) (hbuf : k < buf.length) (bs : List UInt8) :
    (copyAt buf i bs)[k]? = buf[k]? := by
  rw [copyAt, List.append_assoc, List.getElem?_append_left (by rw [List.length_take]; omega),
    List.getElem?_take_of_lt hk]

/-- A cleared array begins with a NUL: one that did not is cleared at least that far. -/
theorem clear_cons (b : UInt8) (buf : List UInt8) : ∃ rest, clear (b :: buf) = 0 :: rest := by
  by_cases hb : b = 0
  · subst hb
    exact ⟨buf, by simp [clear, zero, strlen, cstr]⟩
  · have hpos : min (strlen (b :: buf)) (b :: buf).length = min (strlen buf) buf.length + 1 := by
      simp [strlen, cstr, hb, Nat.add_min_add_right]
    exact ⟨_, by rw [clear, zero, hpos, List.replicate_succ, List.cons_append]⟩

/-- Clearing a string up to its own length leaves the empty string. -/
theorem cstr_clear (buf : List UInt8) : cstr (clear buf) = [] := by
  cases buf with
  | nil => rfl
  | cons b buf =>
    obtain ⟨rest, h⟩ := clear_cons b buf
    rw [h]
    simp [cstr]

theorem strlen_clear (buf : List UInt8) : strlen (clear buf) = 0 := by
  rw [strlen, cstr_clear, List.length_nil]

/-- What `strcpy` leaves is the source. -/
theorem cstr_strcpy (dst : List UInt8) {src : List UInt8} (h : 0 ∉ src) : cstr (strcpy dst src) = src := by
  unfold strcpy copyAt
  rw [List.take_zero, List.nil_append, List.append_assoc, List.singleton_append, cstr_append_nul h]

/-- What `strcat` leaves is the two strings in a row. -/
theorem cstr_strcat (dst : List UInt8) {src : List UInt8} (h : 0 ∉ src) :
    cstr (strcat dst src) = cstr dst ++ src := by
  have htake : dst.take (strlen dst) = cstr dst :=
    List.prefix_iff_eq_take.mp (List.takeWhile_prefix _) |>.symm
  unfold strcat copyAt
  rw [htake, List.append_assoc, List.append_assoc, List.singleton_append, ← List.append_assoc,
    cstr_append_nul]
  rw [List.mem_append, not_or]
  exact ⟨nul_notMem_cstr dst, h⟩

end CStr
