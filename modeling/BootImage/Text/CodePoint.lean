import BootImage.Text.Units

/-!
# Code points

A name that the host gives is made of bytes, and bytes that are not UTF-8 are no text. They are told
as halves of surrogate pairs, which stand among the characters of the name and are none themselves.
So what the host gives is a list of code points, and it is text if all of them are characters.

## Main definitions

* `CodePoint`: a character, or half of a surrogate pair.
* `points`: the code points of a text.
* `ofPoints?`: the text that code points are.
* `shownPoints`: code points as messages show them.

## Main results

* `ofPoints?_eq_some_iff`: code points are the text whose code points they are.
* `ofPoints?_eq_none_iff`: code points are no text if there is a half of a pair among them.
-/

namespace BootImage.Text

/-- A character, or half of a surrogate pair: the one with the given distance from the first half
that there is. -/
inductive CodePoint
  | char (c : Char)
  | half (distance : Fin 0x800)
  deriving DecidableEq, Repr

/-- The character that a code point is. -/
def CodePoint.char? : CodePoint → Option Char
  | char c => some c
  | half _ => none

/-- The characters that code points are, if there is no half of a pair among them. -/
def chars? : List CodePoint → Option (List Char)
  | [] => some []
  | .char c :: rest => (chars? rest).map (c :: ·)
  | .half _ :: _ => none

/-- The code points of a text. -/
def points (s : String) : List CodePoint :=
  s.toList.map .char

/-- The text that code points are, if they are one. -/
def ofPoints? (ps : List CodePoint) : Option String :=
  (chars? ps).map String.ofList

/-- Code points as messages show them, with the replacement character for each half of a pair. -/
def shownPoints (ps : List CodePoint) : String :=
  String.ofList (ps.map fun p => p.char?.getD replacement)

theorem chars?_eq_some_iff {ps : List CodePoint} {cs : List Char} :
    chars? ps = some cs ↔ ps = cs.map .char := by
  induction ps generalizing cs with
  | nil => cases cs <;> simp [chars?]
  | cons p ps ih =>
    cases p with
    | half distance => cases cs <;> simp [chars?]
    | char c =>
      cases cs with
      | nil => simp [chars?]
      | cons c' cs =>
        simp only [chars?, List.map_cons, List.cons.injEq, CodePoint.char.injEq, ← ih]
        cases chars? ps <;> simp

theorem chars?_eq_none_iff {ps : List CodePoint} :
    chars? ps = none ↔ ∃ distance, .half distance ∈ ps := by
  induction ps with
  | nil => simp [chars?]
  | cons p ps ih =>
    cases p with
    | half distance => simp [chars?]
    | char c => simp [chars?, ih]

/-- Code points are the text whose code points they are. -/
theorem ofPoints?_eq_some_iff {ps : List CodePoint} {s : String} :
    ofPoints? ps = some s ↔ ps = points s := by
  rw [ofPoints?, Option.map_eq_some_iff, points]
  constructor
  · rintro ⟨cs, hcs, rfl⟩
    rw [String.toList_ofList, chars?_eq_some_iff.1 hcs]
  · intro h
    exact ⟨s.toList, chars?_eq_some_iff.2 h, s.ofList_toList⟩

/-- Code points are no text if there is half of a pair among them. -/
theorem ofPoints?_eq_none_iff {ps : List CodePoint} :
    ofPoints? ps = none ↔ ∃ distance, .half distance ∈ ps := by
  rw [ofPoints?, Option.map_eq_none_iff, chars?_eq_none_iff]

@[simp] theorem ofPoints?_points (s : String) : ofPoints? (points s) = some s :=
  ofPoints?_eq_some_iff.2 rfl

@[simp] theorem shownPoints_points (s : String) : shownPoints (points s) = s := by
  simp [shownPoints, points, CodePoint.char?, Function.comp_def]

theorem points_inj {s t : String} : points s = points t ↔ s = t :=
  ⟨fun h => Option.some.inj (by rw [← ofPoints?_points s, h, ofPoints?_points]), congrArg points⟩

theorem points_ofList (cs : List Char) : points (String.ofList cs) = cs.map .char := by
  rw [points, String.toList_ofList]

end BootImage.Text
