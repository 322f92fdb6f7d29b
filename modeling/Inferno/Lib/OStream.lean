import Inferno.Lib.Strtok

/-!
# Formatted output

A string stream, with the flags that the next number is written by: its base, a width and what fills it. A
number written with `std::hex` is unsigned. The base and the fill stay as they are, the width is used up by
the number that it was set for.

`Hex.numeral` is the numeral that `std::hex` makes, and `Hex.decode` reads bytes back from two digits each.
-/

namespace Hex

/-- A digit. -/
def digit (n : ℕ) : UInt8 := if n < 10 then UInt8.ofNat (48 + n) else UInt8.ofNat (87 + n)

/-- A number in hex. -/
def numeral (n : ℕ) : List UInt8 := if n = 0 then [digit 0] else (Nat.digits 16 n).reverse.map digit

/-- The value of a digit. -/
def value (c : UInt8) : Option ℕ :=
  if 48 ≤ c ∧ c ≤ 57 then some (c.toNat - 48) else if 97 ≤ c ∧ c ≤ 102 then some (c.toNat - 87) else none

/-- The bytes that pairs of digits stand for. -/
def decode : List UInt8 → Option (List UInt8)
  | [] => some []
  | [_] => none
  | high :: low :: rest => do
    let high ← value high
    let low ← value low
    let bytes ← decode rest
    return UInt8.ofNat (16 * high + low) :: bytes

/-- Both digits of a byte. -/
def pair (b : UInt8) : List UInt8 := [digit (b.toNat / 16), digit (b.toNat % 16)]

theorem value_digit {n : ℕ} (h : n < 16) : value (digit n) = some n := by
  have hall : ∀ n < 16, value (digit n) = some n := by decide
  exact hall n h

theorem digit_ne_zero {n : ℕ} (h : n < 16) : digit n ≠ 0 := by
  have hall : ∀ n < 16, digit n ≠ 0 := by decide
  exact hall n h

/-- A byte is read back from its pair. -/
theorem decode_pair (b : UInt8) (rest : List UInt8) : decode (pair b ++ rest) = (decode rest).map (b :: ·) := by
  have hlt := b.toNat_lt
  have hvalue : UInt8.ofNat (16 * (b.toNat / 16) + b.toNat % 16) = b := by
    rw [Nat.div_add_mod, UInt8.ofNat_toNat]
  simp only [pair, List.cons_append, List.nil_append, decode, value_digit (show b.toNat / 16 < 16 by omega),
    value_digit (show b.toNat % 16 < 16 by omega), Option.bind_eq_bind, Option.bind_some, hvalue]
  cases decode rest <;> rfl

/-- **Bytes are read back from their pairs.** -/
theorem decode_flatMap_pair (bs : List UInt8) : decode (bs.flatMap pair) = some bs := by
  induction bs with
  | nil => rfl
  | cons b bs ih => rw [List.flatMap_cons, decode_pair, ih, Option.map_some]

/-- Filled up to two places with zeros, the numeral of a byte is its pair. -/
theorem leftpad_numeral (b : UInt8) : List.leftpad 2 48 (numeral b.toNat) = pair b := by
  have hlt := b.toNat_lt
  rw [numeral, pair]
  split_ifs with hzero
  · rw [hzero]
    rfl
  · by_cases hsmall : b.toNat < 16
    · rw [Nat.digits_of_lt 16 _ hzero hsmall, Nat.div_eq_of_lt hsmall, Nat.mod_eq_of_lt hsmall]
      rfl
    · have hhigh : b.toNat / 16 ≠ 0 := by omega
      rw [Nat.digits_eq_cons_digits_div (by decide) hzero, Nat.digits_of_lt 16 _ hhigh (by omega)]
      rfl

end Hex

/-- `std::stringstream`, as far as integers are written to it. -/
structure OStream where
  text : List UInt8
  /-- Whether `std::hex` is set. -/
  hex : Bool
  width : ℕ
  fill : UInt8

namespace OStream

/-- As it is constructed. -/
def empty : OStream := ⟨[], false, 0, 32⟩

/-- `<< std::hex`. -/
def setHex (ss : OStream) : OStream := { ss with hex := true }

/-- `<< std::setw(n)`. -/
def setw (ss : OStream) (n : ℕ) : OStream := { ss with width := n }

/-- `<< std::setfill(c)`. -/
def setfill (ss : OStream) (c : UInt8) : OStream := { ss with fill := c }

/-- `<< x`, of an `int`. -/
def put (ss : OStream) (x : ℤ) : OStream :=
  let numeral := if ss.hex then Hex.numeral (x % 4294967296).toNat else CStr.decimalInt x
  { ss with text := ss.text ++ List.leftpad ss.width ss.fill numeral, width := 0 }

/-- **A byte that is written with two places and zeros** is its pair. -/
theorem put_byte (ss : OStream) (b : UInt8) :
    (((ss.setHex.setw 2).setfill 48).put b.toNat) = ⟨ss.text ++ Hex.pair b, true, 0, 48⟩ := by
  have hlt := b.toNat_lt
  have hunsigned : ((b.toNat : ℤ) % 4294967296).toNat = b.toNat := by omega
  simp only [put, setHex, setw, setfill, if_true, hunsigned, Hex.leftpad_numeral]

end OStream
