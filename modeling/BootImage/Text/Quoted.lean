import BootImage.Text.VisibleTable

/-!
# Quoted texts

Messages show a text between quotes, so that its ends and its odd characters can be seen. The quotes
are single, unless the text holds a single quote and no double quote. Inside, the quote and the
backslash stand behind a backslash; a character without a visible form is written by its number.

## Main definitions

* `isVisible`: whether a character is shown as it is.
* `quoted`: the text between quotes.

## Main results

* `quoteFor_eq_double_iff`: when the quotes are double.
-/

namespace BootImage.Text

/-- Whether a character is shown as it is. -/
def isVisible (c : Char) : Bool :=
  let n := c.toNat
  if n < 0x7F then 0x20 ≤ n else !invisibleRanges.any fun (first, last) => first ≤ n && n ≤ last

/-- The lower-case hexadecimal digits of a number, filled with zeros to the given width. -/
def hexDigits (width n : Nat) : List Char :=
  let digits := Nat.toDigits 16 n
  List.replicate (width - digits.length) '0' ++ digits

/-- The written form of one character of a text between the quotes `mark`. -/
def escapeChar (mark c : Char) : List Char :=
  if c = mark || c = '\\' then ['\\', c]
  else if c = '\n' then ['\\', 'n']
  else if c = '\r' then ['\\', 'r']
  else if c = '\t' then ['\\', 't']
  else if isVisible c then [c]
  else if c.toNat < 0x100 then '\\' :: 'x' :: hexDigits 2 c.toNat
  else if c.toNat < 0x10000 then '\\' :: 'u' :: hexDigits 4 c.toNat
  else '\\' :: 'U' :: hexDigits 8 c.toNat

/-- The quote that a text is put between. -/
def quoteFor (s : List Char) : Char :=
  if '\'' ∈ s ∧ '"' ∉ s then '"' else '\''

/-- The text between quotes. -/
def quoted (s : String) : String :=
  let mark := quoteFor s.toList
  String.ofList (mark :: s.toList.flatMap (escapeChar mark) ++ [mark])

theorem quoteFor_eq_double_iff (s : List Char) : quoteFor s = '"' ↔ '\'' ∈ s ∧ '"' ∉ s := by
  unfold quoteFor
  split <;> simp_all

end BootImage.Text
