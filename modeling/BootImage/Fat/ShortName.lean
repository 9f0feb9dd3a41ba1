import BootImage.Fat.BootSector
import BootImage.Text.Blank

/-!
# Short names

Every directory entry has a short name: eight bytes and three bytes, filled with spaces, upper case.
A name that is such a name already, each of its two parts in one case, is stored as it is, with two
bits for the parts in lower case. For every other name a short alias is made up, with a number that
sets it apart from the names that are taken.

## Main definitions

* `shortForm`: the short name and case bits of a name that needs no other.
* `shortAlias`: the alias of a name.
* `shortDisplay`: the name that a short name and its case bits stand for.
-/

namespace BootImage.Fat

/-- The case bit of a base in lower case. -/
def lowerBase : Nat := 0x08

/-- The case bit of an extension in lower case. -/
def lowerExtension : Nat := 0x10

/-- The case bit that one part of a name needs, `bit` or none; no result when the part is of mixed
case or has a character that cannot stand in a short name. -/
def partCase (part : List Char) (bit : Nat) : Option Nat :=
  let name := Text.upper part
  if name.length ≠ part.length ∨ !name.all isShortChar then none
  else if part = name then some 0
  else if part = Text.lowerLatin part then some bit
  else none

/-- The eleven characters of a base and an extension, each filled with spaces. -/
def elevenChars (base extension : List Char) : List Char :=
  Text.padRight 8 base ++ Text.padRight 3 extension

/-- The short name of a name that can be stored without a long one, with its case bits. -/
def shortForm (name : String) : Option (Bytes × Nat) := do
  let base := name.toList.takeWhile (· ≠ '.')
  let dotted := name.toList.dropWhile (· ≠ '.')
  let extension := dotted.drop 1
  guard (base ≠ [] ∧ '.' ∉ extension ∧ base.length ≤ 8 ∧ extension.length ≤ 3 ∧
    (dotted = [] ∨ extension ≠ []))
  let baseCase ← partCase base lowerBase
  let extensionCase ← partCase extension lowerExtension
  return (asciiBytes (elevenChars (Text.upper base) (Text.upper extension)),
    baseCase + extensionCase)

/-- A part of a name as an alias has it: upper case, without spaces and dots, and with an underscore
for each character that cannot stand in a short name. -/
def aliasPart (part : List Char) : List Char :=
  ((Text.upper part).filter fun c => c ≠ ' ' && c ≠ '.').map fun c =>
    if isShortChar c then c else '_'

/-- A name without the dots at either end. -/
def withoutOuterDots (name : List Char) : List Char :=
  ((name.dropWhile (· = '.')).reverse.dropWhile (· = '.')).reverse

/-- A name divided at its last dot. A dot at either end alone divides nothing. -/
def stemAndExtension (name : List Char) : List Char × List Char :=
  if '.' ∈ withoutOuterDots name then
    let extension := (name.reverse.takeWhile (· ≠ '.')).reverse
    (name.take (name.length - extension.length - 1), extension)
  else (name, [])

/-- The alias with the given number. -/
def numberedAlias (base extension : List Char) (number : Nat) : Bytes :=
  let tail := '~' :: (toString number).toList
  asciiBytes (elevenChars (base.take (8 - tail.length) ++ tail) extension)

/-- The first alias that is not taken, with `tries` numbers from `number` on. -/
def findAlias (base extension : List Char) (taken : Bytes → Bool) :
    (tries number : Nat) → Option Bytes
  | 0, _ => none
  | tries + 1, number =>
    let candidate := numberedAlias base extension number
    if taken candidate then findAlias base extension taken tries (number + 1) else some candidate

/-- The highest number of an alias. -/
def maxAliasNumber : Nat := 999999

/-- The alias of a name: the one with the least number that is not taken. -/
def shortAlias (name : String) (taken : Bytes → Bool) : Except Error Bytes :=
  let (stem, extension) := stemAndExtension name.toList
  let base := if aliasPart stem = [] then ['_'] else aliasPart stem
  match findAlias base ((aliasPart extension).take 3) taken maxAliasNumber 1 with
  | some short => .ok short
  | none => .error (.noAlias name)

/-- The characters of bytes taken as Latin-1. -/
def latinText (bs : Bytes) : List Char :=
  bs.map fun b => Char.ofNat b.toNat

/-- The first byte of a name that begins with the byte 0xE5, which marks a deleted entry. -/
def firstByteSubstitute : UInt8 := 0x05

/-- The name that a short name stands for. -/
def shortDisplay (short : Bytes) (caseBits : Nat) : String :=
  let raw := match short with
    | b :: rest => (if b = firstByteSubstitute then 0xE5 else b) :: rest
    | [] => []
  let inCase (bit : Nat) (part : List Char) :=
    if caseBits &&& bit ≠ 0 then Text.lowerLatin part else part
  let base := inCase lowerBase (Text.trimEnd (latinText (raw.take 8)))
  let extension := inCase lowerExtension (Text.trimEnd (latinText (raw.drop 8)))
  String.ofList (if extension = [] then base else base ++ '.' :: extension)

end BootImage.Fat
