/-!
# Decimal numerals

Integers as they are written in a source text: blanks around the numeral do not count, a sign may
stand directly in front of it, and it has at least one of the digits `0` to `9`. Leading zeros and
any number of digits are allowed. Blanks are the characters with the Unicode property White_Space.

## Main definitions

* `isBlank`, `trim` — whether a character is a blank, and a text without the blanks at its ends.
* `digitsValue?` — the value of a sequence of digits.
* `natural?` — the value of an unsigned numeral, which may have a plus sign.
* `integer?` — the value of a signed numeral.
* `uint64?`, `int64?` — the values that fit into 64 bits, without and with a sign.
-/

namespace AsnModel.Text

/-! ## Blanks -/

/-- Whether a character has the property White_Space. -/
def isBlank (c : Char) : Bool :=
  let n := c.toNat
  (0x09 ≤ n && n ≤ 0x0D) || n = 0x20 || n = 0x85 || n = 0xA0 || n = 0x1680 ||
    (0x2000 ≤ n && n ≤ 0x200A) || n = 0x2028 || n = 0x2029 || n = 0x202F || n = 0x205F ||
    n = 0x3000

/-- Drop the blanks at both ends of a text. -/
def trim (text : List Char) : List Char :=
  ((text.dropWhile isBlank).reverse.dropWhile isBlank).reverse

/-! ## Numerals -/

/-- The value of a sequence of decimal digits, of which there has to be at least one. -/
def digitsValue? (digits : List Char) : Option Nat :=
  if digits ≠ [] ∧ digits.all Char.isDigit then some (Nat.ofDigitChars 10 digits 0) else none

/-- The value of an unsigned numeral. A plus sign is allowed, a minus sign is not. -/
def natural? (text : String) : Option Nat :=
  match trim text.toList with
  | '+' :: digits => digitsValue? digits
  | digits => digitsValue? digits

/-- The value of a signed numeral. -/
def integer? (text : String) : Option Int :=
  match trim text.toList with
  | '-' :: digits => (digitsValue? digits).map fun n => -(n : Int)
  | '+' :: digits => (digitsValue? digits).map fun n => (n : Int)
  | digits => (digitsValue? digits).map fun n => (n : Int)

/-! ## Numerals that fit into 64 bits -/

/-- The largest number of 64 bits without a sign. -/
def maxUInt64 : Nat := 18446744073709551615

/-- The smallest number of 64 bits with a sign. -/
def minInt64 : Int := -9223372036854775808

/-- The largest number of 64 bits with a sign. -/
def maxInt64 : Int := 9223372036854775807

/-- The value of an unsigned numeral that fits into 64 bits. -/
def uint64? (text : String) : Option Nat := (natural? text).filter fun n => n ≤ maxUInt64

/-- The value of a signed numeral that fits into 64 bits. -/
def int64? (text : String) : Option Int :=
  (integer? text).filter fun n => minInt64 ≤ n && n ≤ maxInt64

end AsnModel.Text
