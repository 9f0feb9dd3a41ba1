import BootImage.Text.Blank

/-!
# Whole numbers

A whole number as it is typed: blanks around it, a sign, and decimal digits of any script, with
single underscores between them. The information separators are no blanks here.

## Main definitions

* `digitValue?`, `isDigit`: decimal digits and their values.
* `isPadding`: what may stand around a number.
* `parseInt?`: the number that a text spells.
-/

namespace BootImage.Text

/-- The zeros of the decimal digits of Unicode; the other nine digits of a script follow its
zero. -/
def digitZeros : List Nat := [
    0x30, 0x660, 0x6F0, 0x7C0, 0x966, 0x9E6, 0xA66, 0xAE6, 0xB66, 0xBE6, 0xC66, 0xCE6, 0xD66,
    0xDE6, 0xE50, 0xED0, 0xF20, 0x1040, 0x1090, 0x17E0, 0x1810, 0x1946, 0x19D0, 0x1A80, 0x1A90,
    0x1B50, 0x1BB0, 0x1C40, 0x1C50, 0xA620, 0xA8D0, 0xA900, 0xA9D0, 0xA9F0, 0xAA50, 0xABF0,
    0xFF10, 0x104A0, 0x10D30, 0x11066, 0x110F0, 0x11136, 0x111D0, 0x112F0, 0x11450, 0x114D0,
    0x11650, 0x116C0, 0x11730, 0x118E0, 0x11950, 0x11C50, 0x11D50, 0x11DA0, 0x16A60, 0x16AC0,
    0x16B50, 0x1D7CE, 0x1D7D8, 0x1D7E2, 0x1D7EC, 0x1D7F6, 0x1E140, 0x1E2F0, 0x1E950, 0x1FBF0]

/-- The value of a decimal digit. -/
def digitValue? (c : Char) : Option Nat :=
  (digitZeros.find? fun first => first ≤ c.toNat && c.toNat ≤ first + 9).map fun first =>
    c.toNat - first

/-- Whether a character is a decimal digit of some script. -/
def isDigit (c : Char) : Bool :=
  (digitValue? c).isSome

/-- The number that digits spell behind the number `n`. An underscore may stand between two
digits. -/
def digitsFrom (n : Nat) : List Char → Option Nat
  | [] => some n
  | '_' :: c :: rest => (digitValue? c).bind fun d => digitsFrom (10 * n + d) rest
  | c :: rest => (digitValue? c).bind fun d => digitsFrom (10 * n + d) rest

/-- The number that a text of digits spells. -/
def digits? : List Char → Option Nat
  | [] => none
  | c :: rest => (digitValue? c).bind fun d => digitsFrom d rest

/-- Whether a character may stand around a number: a blank that is none of the four information
separators. -/
def isPadding (c : Char) : Bool :=
  isBlank c && !(0x1C ≤ c.toNat && c.toNat ≤ 0x1F)

/-- A text without what may stand around a number. -/
def unpadded (s : List Char) : List Char :=
  ((s.dropWhile isPadding).reverse.dropWhile isPadding).reverse

/-- The most digits of a number. -/
def maxDigits : Nat := 4300

/-- The whole number that a text spells. -/
def parseInt? (s : String) : Option Int :=
  let body := unpadded s.toList
  if maxDigits < (body.filter isDigit).length then none
  else
    match body with
    | '-' :: rest => (digits? rest).map fun n => -(n : Int)
    | '+' :: rest => (digits? rest).map Int.ofNat
    | rest => (digits? rest).map Int.ofNat

end BootImage.Text
