import Inferno.Lib.CString

/-!
# Files line by line

A file is its bytes. `lines` cuts it behind each newline; the last line may have none. `getline` puts
the next line and a NUL into a buffer and returns the line's length. At the end of the file it
returns `-1` and leaves the buffer as it was, so it never returns `0` (`getline_ne_zero`).
-/

namespace CStr

/-- The lines of a file, each with its newline. -/
def lines : List UInt8 → List (List UInt8)
  | [] => []
  | b :: bs =>
    if b = 10 then [b] :: lines bs
    else
      match lines bs with
      | [] => [[b]]
      | line :: rest => (b :: line) :: rest

/-- `getline`, of the lines that are left and a buffer with room: what it returns, the lines that are left
after it, and the buffer. -/
def getline (rest : List (List UInt8)) (buffer : List UInt8) : ℤ × List (List UInt8) × List UInt8 :=
  match rest with
  | [] => (-1, [], buffer)
  | line :: rest => (line.length, rest, copyAt buffer 0 (line ++ [0]))

/-- A line and what comes behind it. -/
theorem lines_append {s : List UInt8} (hs : 10 ∉ s) (rest : List UInt8) :
    lines (s ++ 10 :: rest) = (s ++ [10]) :: lines rest := by
  induction s with
  | nil => rfl
  | cons b s ih =>
    rw [List.mem_cons, not_or] at hs
    rw [List.cons_append, lines, if_neg (Ne.symm hs.1), ih hs.2]
    rfl

/-- No line is empty. -/
theorem ne_nil_of_mem_lines {file line : List UInt8} (h : line ∈ lines file) : line ≠ [] := by
  induction file generalizing line with
  | nil => cases h
  | cons b bs ih =>
    rw [lines] at h
    split_ifs at h
    · rcases List.mem_cons.mp h with rfl | h
      · exact List.cons_ne_nil _ _
      · exact ih h
    · split at h
      · rw [List.mem_singleton.mp h]
        exact List.cons_ne_nil _ _
      · next hlines =>
        rcases List.mem_cons.mp h with rfl | h
        · exact List.cons_ne_nil _ _
        · exact ih (hlines ▸ List.mem_cons_of_mem _ h)

/-- **What `getline` returns** is not zero, at the end of the file or before. -/
theorem getline_ne_zero {rest : List (List UInt8)} (hrest : ∀ line ∈ rest, line ≠ []) (buffer : List UInt8) :
    (getline rest buffer).1 ≠ 0 := by
  cases rest with
  | nil => simp [getline]
  | cons line rest =>
    have hline := List.length_pos_iff.mpr (hrest line List.mem_cons_self)
    simp only [getline]
    omega

/-- The lines that it leaves were there before. -/
theorem mem_of_mem_getline {rest : List (List UInt8)} {buffer line : List UInt8}
    (h : line ∈ (getline rest buffer).2.1) : line ∈ rest := by
  cases rest with
  | nil => cases h
  | cons l rest => exact List.mem_cons_of_mem _ h

end CStr
