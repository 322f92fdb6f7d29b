import Mathlib.Data.List.Basic

/-!
# Quoted literals of SQL

A single-quoted string literal, as MySQL reads it by default: it ends at the first
quote that is neither doubled nor escaped by a backslash. `lexLiteral` is given the
text after the opening quote.

## What is proved

* `lexLiteral_eq_self_iff` — text put between two quotes comes back as it is exactly if
  it is `Verbatim`: it has no quote, and no backslash but before `%` or `_`.
-/

namespace SqlLiteral

/-- `'`. -/
abbrev quote : UInt8 := 39

/-- `\`. -/
abbrev backslash : UInt8 := 92

/-- What a backslash and the byte after it stand for. -/
def escape (c : UInt8) : List UInt8 :=
  match c with
  | 48 => [0] -- \0
  | 98 => [8] -- \b
  | 110 => [10] -- \n
  | 114 => [13] -- \r
  | 116 => [9] -- \t
  | 90 => [26] -- \Z
  | 37 => [backslash, 37] -- \%
  | 95 => [backslash, 95] -- \_
  | c => [c]

/-- Bytes in front of the value of a literal. -/
def prepend (bs : List UInt8) (lexed : Option (List UInt8 × List UInt8)) : Option (List UInt8 × List UInt8) :=
  lexed.map fun (v, rest) => (bs ++ v, rest)

/-- The value of the literal whose text, after its opening quote, is at the start of the
input, and the rest of the input; `none` if it has no end. -/
def lexLiteral : List UInt8 → Option (List UInt8 × List UInt8)
  | [] => none
  | [c] => if c = quote then some ([], []) else none
  | c :: d :: s =>
    if c = quote then
      if d = quote then prepend [quote] (lexLiteral s) else some ([], d :: s)
    else if c = backslash then prepend (escape d) (lexLiteral s)
    else prepend [c] (lexLiteral (d :: s))

/-- Text that stands for itself: no quotes, and a backslash only before `%` or `_`. -/
inductive Verbatim : List UInt8 → Prop where
  | nil : Verbatim []
  | char {c : UInt8} {s : List UInt8} : c ≠ quote → c ≠ backslash → Verbatim s → Verbatim (c :: s)
  | wildcard {c : UInt8} {s : List UInt8} : c = 37 ∨ c = 95 → Verbatim s → Verbatim (backslash :: c :: s)

/-- Text without quotes and backslashes stands for itself. -/
theorem Verbatim.of_notMem {s : List UInt8} (hq : quote ∉ s) (hb : backslash ∉ s) : Verbatim s := by
  induction s with
  | nil => exact .nil
  | cons c s ih =>
    rw [List.mem_cons, not_or] at hq hb
    exact .char (Ne.symm hq.1) (Ne.symm hb.1) (ih hq.2 hb.2)

theorem prepend_eq_some {bs v rest : List UInt8} {lexed : Option (List UInt8 × List UInt8)} :
    prepend bs lexed = some (v, rest) ↔ ∃ v', lexed = some (v', rest) ∧ v = bs ++ v' := by
  simp only [prepend, Option.map_eq_some_iff, Prod.exists, Prod.mk.injEq]
  constructor
  · rintro ⟨v', r, h, rfl, rfl⟩
    exact ⟨v', h, rfl⟩
  · rintro ⟨v', h, rfl⟩
    exact ⟨v', rest, h, rfl, rfl⟩

theorem lexLiteral_backslash (c : UInt8) (s : List UInt8) :
    lexLiteral (backslash :: c :: s) = prepend (escape c) (lexLiteral s) := by
  rw [lexLiteral, if_neg (by decide), if_pos rfl]

/-- A byte that is neither a quote nor a backslash stands for itself. -/
theorem lexLiteral_cons {c : UInt8} (hq : c ≠ quote) (hb : c ≠ backslash) (s : List UInt8) :
    lexLiteral (c :: s) = prepend [c] (lexLiteral s) := by
  cases s with
  | nil => simp [lexLiteral, hq, prepend]
  | cons d s => rw [lexLiteral, if_neg hq, if_neg hb]

/-- An escape stands for one byte, but for the two that are kept as they are. -/
theorem length_escape (c : UInt8) : (escape c).length = 1 ∨ (c = 37 ∨ c = 95) ∧ escape c = [backslash, c] := by
  simp only [escape]
  split <;> simp

/-- The value and the rest are shorter than the text. -/
theorem length_lexLiteral : ∀ {s v rest : List UInt8}, lexLiteral s = some (v, rest) →
    v.length + rest.length + 1 ≤ s.length
  | [], _, _, h => by cases h
  | [c], v, rest, h => by
    rw [lexLiteral] at h
    split_ifs at h
    cases h
    simp
  | c :: d :: s, v, rest, h => by
    rw [lexLiteral] at h
    split_ifs at h with hc hd hb
    · obtain ⟨v', hv', rfl⟩ := prepend_eq_some.mp h
      have := length_lexLiteral hv'
      simp only [List.length_append, List.length_cons, List.length_nil]
      omega
    · cases h
      simp
    · obtain ⟨v', hv', rfl⟩ := prepend_eq_some.mp h
      have := length_lexLiteral hv'
      have hescape : (escape d).length ≤ 2 := by
        rcases length_escape d with h | ⟨-, h⟩ <;> simp [h]
      simp only [List.length_append, List.length_cons]
      omega
    · obtain ⟨v', hv', rfl⟩ := prepend_eq_some.mp h
      have := length_lexLiteral hv'
      simp only [List.length_append, List.length_cons, List.length_nil] at this ⊢
      omega

/-- Text that stands for itself, and its closing quote. -/
theorem Verbatim.lexLiteral {s : List UInt8} (h : Verbatim s) : lexLiteral (s ++ [quote]) = some (s, []) := by
  induction h with
  | nil => rfl
  | char hq hb _ ih =>
    rw [List.cons_append, lexLiteral_cons hq hb, ih]
    rfl
  | wildcard hc _ ih =>
    rw [List.cons_append, List.cons_append, lexLiteral_backslash, ih]
    rcases hc with rfl | rfl <;> rfl

/-- Text that comes back as it is stands for itself: everything else makes the value shorter,
or ends the literal early. -/
theorem verbatim_of_lexLiteral : ∀ {s : List UInt8}, lexLiteral (s ++ [quote]) = some (s, []) → Verbatim s
  | [], _ => .nil
  | [c], h => by
    rw [List.singleton_append, lexLiteral] at h
    split_ifs at h with hc hd hb
    · cases h
    · cases h
    · cases h
    · exact .char hc hb .nil
  | c :: d :: s, h => by
    rw [List.cons_append, List.cons_append, lexLiteral] at h
    split_ifs at h with hc hd hb
    · obtain ⟨v, hv, heq⟩ := prepend_eq_some.mp h
      obtain ⟨-, rfl⟩ := List.cons.inj heq
      have := length_lexLiteral hv
      simp only [List.length_cons, List.length_append, List.length_nil] at this
      omega
    · simp at h
    · obtain ⟨v, hv, heq⟩ := prepend_eq_some.mp h
      have hlen := length_lexLiteral hv
      rcases length_escape d with h1 | ⟨hd, hescape⟩
      · have := congrArg List.length heq
        simp only [List.length_cons, List.length_append, List.length_nil, h1] at hlen this
        omega
      · rw [hescape] at heq
        obtain ⟨-, heq⟩ := List.cons.inj heq
        obtain ⟨-, rfl⟩ := List.cons.inj heq
        subst hb
        exact .wildcard hd (verbatim_of_lexLiteral hv)
    · obtain ⟨v, hv, heq⟩ := prepend_eq_some.mp h
      obtain ⟨-, rfl⟩ := List.cons.inj heq
      exact .char hc hb (verbatim_of_lexLiteral hv)

/-- **What comes back as it is**: exactly the text that stands for itself. -/
theorem lexLiteral_eq_self_iff {s : List UInt8} : lexLiteral (s ++ [quote]) = some (s, []) ↔ Verbatim s :=
  ⟨verbatim_of_lexLiteral, Verbatim.lexLiteral⟩

end SqlLiteral
