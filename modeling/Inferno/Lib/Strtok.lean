import Mathlib.Data.List.TakeWhile
import Mathlib.Data.Nat.Digits.Defs
import Mathlib.Data.Nat.Digits.Lemmas

/-!
# Tokens of a line

`strtok`, with what it remembers from one call to the next, and `atoi`. A `strtok` that
finds a delimiter behind a token puts a NUL in its place (`Strtok.call_split`), so a second call from
the start of the same line finds the same token again (`Strtok.call_start`). Where it left off at a
NUL it finds nothing more (`Strtok.call_of_nul`).

`decimal` is what a number is printed as, and what `atoi` reads back (`atoi_decimal`); `decimalInt` is
the same for numbers with a sign.
-/

namespace CStr

/-- A line, terminated by a NUL, and where `strtok` left off in it. -/
structure Strtok where
  line : List UInt8
  saved : ℕ

/-- `strtok`, from a place in the line or from where it left off: the place of the token, if
there is one. -/
def Strtok.call (t : Strtok) (delim : List UInt8) (s : Option ℕ) : Option ℕ × Strtok :=
  let start := s.getD t.saved
  let token := start + ((t.line.drop start).takeWhile (· ∈ delim)).length
  let fin := token + ((t.line.drop token).takeWhile fun b => b ≠ 0 ∧ b ∉ delim).length
  if fin = token then (none, { t with saved := fin })
  else if t.line.getD fin 0 = 0 then (some token, { t with saved := fin })
  else (some token, ⟨t.line.set fin 0, fin + 1⟩)

/-- `isspace`. -/
def isspace (b : UInt8) : Bool := b = 32 ∨ 9 ≤ b ∧ b ≤ 13

/-- `isdigit`. -/
def isdigit (b : UInt8) : Bool := 48 ≤ b ∧ b ≤ 57

/-- The value of the digits that a string begins with. -/
def digitsValue (s : List UInt8) : ℕ := (s.takeWhile isdigit).foldl (fun n b => 10 * n + (b.toNat - 48)) 0

/-- `atoi`, of a number in the range of `int`. -/
def atoi (s : List UInt8) : ℤ :=
  match s.dropWhile isspace with
  | 45 :: s => -(digitsValue s : ℤ)
  | 43 :: s => digitsValue s
  | s => digitsValue s

/-- A digit, as a character. -/
def digit (d : ℕ) : UInt8 := UInt8.ofNat (48 + d)

/-- A number in decimal. -/
def decimal (n : ℕ) : List UInt8 := if n = 0 then [digit 0] else (Nat.digits 10 n).reverse.map digit

/-- An `int` as `%d` prints it. -/
def decimalInt (z : ℤ) : List UInt8 := if z < 0 then 45 :: decimal z.natAbs else decimal z.natAbs

/-! ### Printed numbers -/

theorem toNat_digit {d : ℕ} (h : d < 10) : (digit d).toNat = 48 + d := by
  rw [digit, UInt8.toNat_ofNat', Nat.mod_eq_of_lt (by omega)]

theorem isdigit_digit {d : ℕ} (h : d < 10) : isdigit (digit d) := by
  have hd := toNat_digit h
  simp only [isdigit, UInt8.le_iff_toNat_le, decide_eq_true_eq, hd, UInt8.toNat_ofNat]
  omega

theorem isdigit_of_mem_decimal {n : ℕ} {b : UInt8} (h : b ∈ decimal n) : isdigit b := by
  rw [decimal] at h
  split_ifs at h
  · obtain rfl := List.mem_singleton.mp h
    exact isdigit_digit (by omega)
  · obtain ⟨d, hd, rfl⟩ := List.mem_map.mp h
    exact isdigit_digit (Nat.digits_lt_base (by omega) (List.mem_reverse.mp hd))

theorem decimal_ne_nil (n : ℕ) : decimal n ≠ [] := by
  rw [decimal]
  split_ifs with h
  · simp
  · simpa [Nat.digits_eq_nil_iff_eq_zero] using h

/-- The digits are worth the number. -/
theorem foldl_decimal (n : ℕ) : (decimal n).foldl (fun n b => 10 * n + (b.toNat - 48)) 0 = n := by
  rw [decimal]
  split_ifs with h
  · subst h
    rfl
  · have hvalue : ∀ ds : List ℕ, (∀ d ∈ ds, d < 10) →
        (ds.reverse.map digit).foldl (fun n b => 10 * n + (b.toNat - 48)) 0 = Nat.ofDigits 10 ds := by
      intro ds hds
      induction ds with
      | nil => rfl
      | cons d ds ih =>
        rw [List.reverse_cons, List.map_append, List.foldl_append, ih fun d' hd' => hds d' (List.mem_cons_of_mem _ hd'),
          Nat.ofDigits_cons]
        simp only [List.map_cons, List.map_nil, List.foldl_cons, List.foldl_nil, toNat_digit (hds d List.mem_cons_self)]
        omega
    rw [hvalue _ fun d hd => Nat.digits_lt_base (by omega) hd, Nat.ofDigits_digits]

/-- What is not a digit ends a number. -/
theorem takeWhile_decimal (n : ℕ) {d : UInt8} (hd : ¬ isdigit d) (rest : List UInt8) :
    (decimal n ++ d :: rest).takeWhile isdigit = decimal n := by
  rw [List.takeWhile_append_of_pos fun b hb => isdigit_of_mem_decimal hb, List.takeWhile_cons_of_neg hd,
    List.append_nil]

theorem digitsValue_decimal (n : ℕ) (rest : List UInt8) : digitsValue (decimal n ++ 0 :: rest) = n := by
  rw [digitsValue, takeWhile_decimal n (by decide), foldl_decimal]

/-- **A printed number is read back.** -/
theorem atoi_decimal (n : ℕ) (rest : List UInt8) : atoi (decimal n ++ 0 :: rest) = n := by
  obtain ⟨b, bs, hb⟩ := List.exists_cons_of_ne_nil (decimal_ne_nil n)
  have hdigit : isdigit b := isdigit_of_mem_decimal (by rw [hb]; exact List.mem_cons_self)
  have hvalue := digitsValue_decimal n rest
  have hrange : 48 ≤ b.toNat ∧ b.toNat ≤ 57 := by
    simpa [isdigit, UInt8.le_iff_toNat_le] using hdigit
  have hspace : ¬ isspace b := by
    rw [isspace, decide_eq_true_eq, UInt8.le_iff_toNat_le, UInt8.le_iff_toNat_le, ← UInt8.toNat_inj]
    simp only [UInt8.toNat_ofNat]
    omega
  rw [atoi, hb, List.cons_append, List.dropWhile_cons_of_neg hspace]
  rw [hb, List.cons_append] at hvalue
  -- a digit is no sign
  split
  · next heq =>
    obtain ⟨rfl, -⟩ := List.cons.inj heq
    exact absurd hrange.1 (by decide)
  · next heq =>
    obtain ⟨rfl, -⟩ := List.cons.inj heq
    exact absurd hrange.1 (by decide)
  · exact congrArg Nat.cast hvalue

/-- With its sign. -/
theorem atoi_decimalInt (z : ℤ) (rest : List UInt8) : atoi (decimalInt z ++ 0 :: rest) = z := by
  rw [decimalInt]
  split_ifs with hz
  · rw [atoi, List.cons_append, List.dropWhile_cons_of_neg (by decide)]
    simp only [digitsValue_decimal]
    omega
  · rw [atoi_decimal]
    omega

/-- A number below a power of ten has no more digits than that. -/
theorem length_decimal_le {n k : ℕ} (hk : 0 < k) (h : n < 10 ^ k) : (decimal n).length ≤ k := by
  rw [decimal]
  split_ifs with hn
  · exact hk
  · rw [List.length_map, List.length_reverse, Nat.digits_length_le_iff (by decide)]
    exact h

/-- With its sign it has one more character. -/
theorem length_decimalInt_le {z : ℤ} {k : ℕ} (hk : 0 < k) (h : z.natAbs < 10 ^ k) : (decimalInt z).length ≤ k + 1 := by
  have hlen := length_decimal_le hk h
  rw [decimalInt]
  split_ifs
  · exact Nat.succ_le_succ hlen
  · exact hlen.trans (Nat.le_succ k)

theorem decimalInt_ne_nil (z : ℤ) : decimalInt z ≠ [] := by
  rw [decimalInt]
  split_ifs
  · exact List.cons_ne_nil _ _
  · exact decimal_ne_nil _

/-- What a number is printed with. -/
theorem mem_decimalInt {z : ℤ} {b : UInt8} (h : b ∈ decimalInt z) : b = 45 ∨ isdigit b := by
  rw [decimalInt] at h
  split_ifs at h
  · rcases List.mem_cons.mp h with rfl | h
    · exact Or.inl rfl
    · exact Or.inr (isdigit_of_mem_decimal h)
  · exact Or.inr (isdigit_of_mem_decimal h)

/-! ### Tokens -/

/-- **A token** and what is left of the line: `done` is before the place where the search begins,
and `skipped` are the delimiters before the token. -/
theorem Strtok.call_split (done : List UInt8) {skipped token tail delim : List UInt8}
    (hskipped : ∀ b ∈ skipped, b ∈ delim) (hne : token ≠ []) (htoken : ∀ b ∈ token, b ≠ 0 ∧ b ∉ delim)
    (htail : tail.headD 0 = 0 ∨ tail.headD 0 ∈ delim) {saved : ℕ} {s : Option ℕ} (hs : s.getD saved = done.length) :
    Strtok.call ⟨done ++ (skipped ++ (token ++ tail)), saved⟩ delim s =
      (some (done ++ skipped).length, ⟨done ++ (skipped ++ (token ++ tail.set 0 0)),
        (done ++ skipped ++ token).length + if tail.headD 0 = 0 then 0 else 1⟩) := by
  have hskip : ((skipped ++ (token ++ tail)).takeWhile (· ∈ delim)) = skipped := by
    obtain ⟨b, bs, rfl⟩ := List.exists_cons_of_ne_nil hne
    have hb : b ∉ delim := (htoken b List.mem_cons_self).2
    rw [List.takeWhile_append_of_pos fun b hb => by simpa using hskipped b hb, List.cons_append,
      List.takeWhile_cons_of_neg (by simpa using hb), List.append_nil]
  have hlen : (token ++ tail).takeWhile (fun b => b ≠ 0 ∧ b ∉ delim) = token := by
    rw [List.takeWhile_append_of_pos fun b hb => by simpa using htoken b hb]
    cases tail with
    | nil => simp
    | cons d tail =>
      rw [List.takeWhile_cons_of_neg, List.append_nil]
      rcases htail with hd | hd
      · simp [show d = 0 from hd]
      · simp [show d ∈ delim from hd]
  have hdrop : (done ++ (skipped ++ (token ++ tail))).drop (done.length + skipped.length) = token ++ tail := by
    rw [← List.append_assoc, ← List.length_append, List.drop_left]
  have hpos : token.length ≠ 0 := by simpa using hne
  have hget : (done ++ (skipped ++ (token ++ tail))).getD (done.length + skipped.length + token.length) 0 =
      tail.headD 0 := by
    rw [← List.append_assoc, ← List.append_assoc, ← List.length_append, ← List.length_append]
    cases tail <;> simp
  have hset : (done ++ (skipped ++ (token ++ tail))).set (done.length + skipped.length + token.length) 0 =
      done ++ (skipped ++ (token ++ tail.set 0 0)) := by
    rw [← List.append_assoc, ← List.append_assoc, ← List.length_append, ← List.length_append, List.set_append_right _ _
      le_rfl, Nat.sub_self, List.append_assoc, List.append_assoc]
  have hself : tail.headD 0 = 0 → tail.set 0 0 = tail := by
    intro hzero
    cases tail with
    | nil => rfl
    | cons d tail => rw [show d = 0 from hzero, List.set_cons_zero]
  simp only [Strtok.call, hs, List.drop_left, hskip, hdrop, hlen, hget, hset, Nat.add_eq_left, if_neg hpos,
    List.length_append]
  split_ifs with hzero
  · rw [hself hzero, Nat.add_zero]
  · rfl

/-- Every token is found so. -/
theorem Strtok.exists_split {t t' : Strtok} {delim : List UInt8} {s : Option ℕ} {p : ℕ}
    (h : t.call delim s = (some p, t')) :
    ∃ done skipped token tail, t.line = done ++ (skipped ++ (token ++ tail)) ∧ done.length = s.getD t.saved ∧
      (∀ b ∈ skipped, b ∈ delim) ∧ token ≠ [] ∧ (∀ b ∈ token, b ≠ 0 ∧ b ∉ delim) ∧
      (tail.headD 0 = 0 ∨ tail.headD 0 ∈ delim) := by
  obtain ⟨line, saved⟩ := t
  simp only at h ⊢
  generalize hstart : s.getD saved = start at h ⊢
  let skipped := (line.drop start).takeWhile (· ∈ delim)
  let rest := (line.drop start).dropWhile (· ∈ delim)
  let token := rest.takeWhile fun b => b ≠ 0 ∧ b ∉ delim
  let tail := rest.dropWhile fun b => b ≠ 0 ∧ b ∉ delim
  have hrest : line.drop (start + skipped.length) = rest := by
    rw [← List.drop_drop]
    have hsplit : skipped ++ rest = line.drop start := List.takeWhile_append_dropWhile
    rw [← hsplit, List.drop_left]
  have hne : token ≠ [] := by
    intro hnil
    have hempty : (line.drop (start + skipped.length)).takeWhile (fun b => b ≠ 0 ∧ b ∉ delim) = [] := by
      rw [hrest]
      exact hnil
    simp only [skipped] at hempty
    simp only [Strtok.call, hstart, hempty, List.length_nil, Nat.add_zero, if_true, Prod.mk.injEq, reduceCtorEq,
      false_and] at h
  have hlt : start < line.length := by
    by_contra hle
    have hdrop : line.drop start = [] := List.drop_eq_nil_of_le (not_lt.mp hle)
    exact hne (by simp [token, rest, hdrop])
  refine ⟨line.take start, skipped, token, tail, ?_, ?_, ?_, hne, ?_, ?_⟩
  · simp only [skipped, token, tail, List.takeWhile_append_dropWhile, rest, List.take_append_drop]
  · rw [List.length_take, Nat.min_eq_left hlt.le]
  · intro b hb
    simpa using List.mem_takeWhile_imp hb
  · intro b hb
    simpa using List.mem_takeWhile_imp hb
  · cases htail : tail with
    | nil => exact Or.inl rfl
    | cons d tail' =>
      have hd := List.head?_dropWhile_not (fun b => decide (b ≠ 0 ∧ b ∉ delim)) rest
      rw [show rest.dropWhile (fun b => decide (b ≠ 0 ∧ b ∉ delim)) = d :: tail' from htail] at hd
      simpa [or_iff_not_imp_left] using hd

/-- A search changes nothing before the place where it begins, and leaves off behind it. -/
theorem Strtok.take_call {t t' : Strtok} {delim : List UInt8} {s : Option ℕ} {p : ℕ}
    (h : t.call delim s = (some p, t')) :
    t'.line.take (s.getD t.saved) = t.line.take (s.getD t.saved) ∧ s.getD t.saved ≤ t'.saved := by
  obtain ⟨done, skipped, token, tail, hline, hdone, hskipped, hne, htoken, htail⟩ := Strtok.exists_split h
  obtain ⟨line, saved⟩ := t
  simp only at hline hdone h ⊢
  subst hline
  rw [Strtok.call_split done hskipped hne htoken htail hdone.symm] at h
  obtain rfl := (Prod.mk.inj h).2
  rw [← hdone]
  refine ⟨by simp, ?_⟩
  simp only [List.length_append]
  omega

/-- **At a NUL** there is no more token. -/
theorem Strtok.call_of_nul {t : Strtok} {delim : List UInt8} {s : Option ℕ} (hdelim : 0 ∉ delim)
    (h : (t.line.drop (s.getD t.saved)).headD 0 = 0) :
    t.call delim s = (none, { t with saved := s.getD t.saved }) := by
  have hskip : (t.line.drop (s.getD t.saved)).takeWhile (· ∈ delim) = [] := by
    cases hdrop : t.line.drop (s.getD t.saved) with
    | nil => rfl
    | cons b bs =>
      rw [hdrop] at h
      rw [List.takeWhile_cons_of_neg (by simpa [show b = 0 from h] using hdelim)]
  have htoken : (t.line.drop (s.getD t.saved)).takeWhile (fun b => b ≠ 0 ∧ b ∉ delim) = [] := by
    cases hdrop : t.line.drop (s.getD t.saved) with
    | nil => rfl
    | cons b bs =>
      rw [hdrop] at h
      rw [List.takeWhile_cons_of_neg (by simp [show b = 0 from h])]
  simp only [Strtok.call, hskip, List.length_nil, Nat.add_zero, htoken, if_true]

/-- The first token of a line, after the delimiters before it. -/
theorem Strtok.call_first {skipped token tail delim : List UInt8} (hskipped : ∀ b ∈ skipped, b ∈ delim)
    (hne : token ≠ []) (htoken : ∀ b ∈ token, b ≠ 0 ∧ b ∉ delim) (htail : tail.headD 0 = 0 ∨ tail.headD 0 ∈ delim)
    (saved : ℕ) :
    Strtok.call ⟨skipped ++ (token ++ tail), saved⟩ delim (some 0) =
      (some skipped.length, ⟨skipped ++ (token ++ tail.set 0 0),
        (skipped ++ token).length + if tail.headD 0 = 0 then 0 else 1⟩) :=
  Strtok.call_split [] hskipped hne htoken htail rfl

/-- Every line with a first token is such a line. -/
theorem Strtok.exists_first {t t' : Strtok} {delim : List UInt8} {p : ℕ} (h : t.call delim (some 0) = (some p, t')) :
    ∃ skipped token tail, t.line = skipped ++ (token ++ tail) ∧ (∀ b ∈ skipped, b ∈ delim) ∧ token ≠ [] ∧
      (∀ b ∈ token, b ≠ 0 ∧ b ∉ delim) ∧ (tail.headD 0 = 0 ∨ tail.headD 0 ∈ delim) ∧ p = skipped.length ∧
      t' = ⟨skipped ++ (token ++ tail.set 0 0), (skipped ++ token).length + if tail.headD 0 = 0 then 0 else 1⟩ := by
  obtain ⟨done, skipped, token, tail, hline, hdone, hskipped, hne, htoken, htail⟩ := Strtok.exists_split h
  obtain rfl : done = [] := List.length_eq_zero_iff.mp hdone
  obtain ⟨line, saved⟩ := t
  obtain rfl : line = skipped ++ (token ++ tail) := hline
  rw [Strtok.call_first hskipped hne htoken htail] at h
  obtain ⟨hp, ht'⟩ := Prod.mk.inj h
  exact ⟨skipped, token, tail, rfl, hskipped, hne, htoken, htail, (Option.some.inj hp).symm, ht'.symm⟩

/-- A line with a NUL, or nothing, behind its first token has no second one. -/
theorem Strtok.call_last {skipped token tail delim : List UInt8} (hdelim : 0 ∉ delim)
    (hskipped : ∀ b ∈ skipped, b ∈ delim) (hne : token ≠ []) (htoken : ∀ b ∈ token, b ≠ 0 ∧ b ∉ delim)
    (htail : tail.headD 0 = 0) (saved : ℕ) :
    ∃ t, Strtok.call ⟨skipped ++ (token ++ tail), saved⟩ delim (some 0) = (some skipped.length, t) ∧
      (t.call delim none).1 = none := by
  refine ⟨_, Strtok.call_first hskipped hne htoken (Or.inl htail) saved, ?_⟩
  rw [Strtok.call_of_nul hdelim]
  rw [if_pos htail, Nat.add_zero, ← List.append_assoc, Option.getD_none, List.drop_left]
  cases tail <;> simp

/-- **From the start of a line in which a second token was found** only the first is found, and
nothing behind it. -/
theorem Strtok.call_again {t t₁ t₂ t' : Strtok} {delim : List UInt8} {p q : ℕ} (hdelim : 0 ∉ delim)
    (hfirst : t.call delim (some 0) = (some p, t₁)) (hnext : t₁.call delim none = (some q, t₂))
    (hkept : t'.line.take t₁.saved = t₁.line.take t₁.saved) :
    ∃ t'', t'.call delim (some 0) = (some p, t'') ∧ (t''.call delim none).1 = none := by
  obtain ⟨skipped, token, tail, -, hskipped, hne, htoken, -, rfl, rfl⟩ := Strtok.exists_first hfirst
  by_cases hend : tail.headD 0 = 0
  · -- then there was no second token
    have hnul : ((skipped ++ (token ++ tail.set 0 0)).drop (skipped ++ token).length).headD 0 = 0 := by
      rw [← List.append_assoc, List.drop_left]
      cases tail <;> simp
    have hnone := Strtok.call_of_nul (t := ⟨skipped ++ (token ++ tail.set 0 0), (skipped ++ token).length⟩) (s := none)
      hdelim hnul
    rw [if_pos hend, Nat.add_zero, hnone] at hnext
    cases hnext
  · obtain ⟨d, rest, rfl⟩ : ∃ d rest, tail = d :: rest := by
      cases tail with
      | nil => exact absurd rfl hend
      | cons d rest => exact ⟨d, rest, rfl⟩
    simp only [if_neg hend, List.set_cons_zero] at hkept
    obtain ⟨line', saved'⟩ := t'
    have hline' : line' = skipped ++ (token ++ 0 :: line'.drop ((skipped ++ token).length + 1)) := by
      have hprefix : line'.take ((skipped ++ token).length + 1) = skipped ++ token ++ [0] := by
        rw [show line'.take _ = _ from hkept, ← List.append_assoc, List.take_length_add_append]
        rfl
      conv_lhs => rw [← List.take_append_drop ((skipped ++ token).length + 1) line', hprefix]
      simp
    rw [hline']
    exact Strtok.call_last hdelim hskipped hne htoken rfl saved'

/-- **A line from which a first token was taken** gives it again and again. -/
theorem Strtok.call_repeat {t t₁ : Strtok} {delim : List UInt8} {p : ℕ} (h : t.call delim (some 0) = (some p, t₁)) :
    ∃ t₂, t₁.call delim (some 0) = (some p, t₂) ∧ t₂.line = t₁.line ∧ t₂.call delim (some 0) = (some p, t₂) := by
  obtain ⟨skipped, token, tail, -, hskipped, hne, htoken, -, rfl, rfl⟩ := Strtok.exists_first h
  -- behind the token there is a NUL now, or the end of the line
  have hnul : (tail.set 0 0).headD 0 = 0 := by cases tail <;> rfl
  have hself : (tail.set 0 0).set 0 0 = tail.set 0 0 := by cases tail <;> rfl
  have hagain : ∀ saved, Strtok.call ⟨skipped ++ (token ++ tail.set 0 0), saved⟩ delim (some 0) =
      (some skipped.length, ⟨skipped ++ (token ++ tail.set 0 0), (skipped ++ token).length⟩) := by
    intro saved
    rw [Strtok.call_first hskipped hne htoken (Or.inl hnul), if_pos hnul, hself, Nat.add_zero]
  exact ⟨_, hagain _, rfl, hagain _⟩

/-- **The first token of a line** that begins with one. -/
theorem Strtok.call_start {token : List UInt8} {delim : List UInt8} (hne : token ≠ [])
    (htoken : ∀ b ∈ token, b ≠ 0 ∧ b ∉ delim) {d : UInt8} (hd : d = 0 ∨ d ∈ delim) (rest : List UInt8) (saved : ℕ) :
    ∃ saved', Strtok.call ⟨token ++ d :: rest, saved⟩ delim (some 0) =
      (some 0, ⟨token ++ 0 :: rest, saved'⟩) := by
  have hskipped : ∀ b ∈ ([] : List UInt8), b ∈ delim := by simp
  exact ⟨_, Strtok.call_first hskipped hne htoken (show (d :: rest).headD 0 = 0 ∨ _ from hd) saved⟩

end CStr
