import BootImage.Text.CaseTable

/-!
# Upper case, lower case and case folding

Upper case and case folding follow the full mappings of Unicode, in which one character can become
two or three: the sharp s becomes two letters. Lower case is needed only where a text has at most
the characters of Latin-1, and is defined for those.

## Main definitions

* `upper`: the upper case of a text.
* `fold`: the form of a text that is the same for all its spellings in upper and lower case.
* `lowerLatin`: the lower case of a text over Latin-1; other characters stay.

## Main results

* `upper_append`, `fold_append`: the mappings work character by character.
* `foldChar_ascii`, `upperChar_ascii`: on ASCII the mappings only move letters.
-/

namespace BootImage.Text

/-- The image of a character from U+0080 on: an expansion, else the shift of the first run that has
the character, else the character. -/
def mapCase (expansions : List (Nat × List Nat)) (runs : List CaseRun) (c : Char) : List Char :=
  match expansions.lookup c.toNat with
  | some codes => codes.map Char.ofNat
  | none =>
    match runs.find? (·.covers c.toNat) with
    | some run => [Char.ofNat (c.toNat + run.shift).toNat]
    | none => [c]

/-- The upper case of one character. -/
def upperChar (c : Char) : List Char :=
  if c.toNat < 0x80 then [c.toUpper] else mapCase upperExpansions upperRuns c

/-- The upper case of a text. -/
def upper (s : List Char) : List Char :=
  s.flatMap upperChar

/-- The case folding of one character. -/
def foldChar (c : Char) : List Char :=
  if c.toNat < 0x80 then [c.toLower] else mapCase foldExpansions foldRuns c

/-- The case folding of a text: two texts that differ only in case have the same. -/
def fold (s : List Char) : List Char :=
  s.flatMap foldChar

/-- The lower case of one character of Latin-1, U+00D7 (the multiplication sign) not being a
letter. -/
def lowerLatinChar (c : Char) : Char :=
  let n := c.toNat
  if (0x41 ≤ n && n ≤ 0x5A) || (0xC0 ≤ n && n ≤ 0xDE && n != 0xD7) then Char.ofNat (n + 0x20) else c

/-- The lower case of a text whose letters are all of Latin-1. -/
def lowerLatin (s : List Char) : List Char :=
  s.map lowerLatinChar

@[simp] theorem upper_nil : upper [] = [] := rfl

@[simp] theorem fold_nil : fold [] = [] := rfl

theorem upper_cons (c : Char) (s : List Char) : upper (c :: s) = upperChar c ++ upper s := by
  simp [upper]

theorem fold_cons (c : Char) (s : List Char) : fold (c :: s) = foldChar c ++ fold s := by
  simp [fold]

theorem upper_append (s t : List Char) : upper (s ++ t) = upper s ++ upper t := by
  simp [upper]

theorem fold_append (s t : List Char) : fold (s ++ t) = fold s ++ fold t := by
  simp [fold]

theorem upperChar_ascii {c : Char} (h : c.toNat < 0x80) : upperChar c = [c.toUpper] := by
  simp [upperChar, h]

theorem foldChar_ascii {c : Char} (h : c.toNat < 0x80) : foldChar c = [c.toLower] := by
  simp [foldChar, h]

end BootImage.Text
