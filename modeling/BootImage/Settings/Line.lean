import BootImage.Text.Blank

/-!
# Lines of a settings file

A setting is a line `NAME=VALUE`. A value with blanks, quotes or the signs for comments and
variables stands between double quotes, with a backslash before each backslash and each double
quote. Every other line is none of the tool's business and is left alone.

## Main definitions

* `quote`, `unquote`: a value and its written form.
* `assignment?`: name and written value of a line.
* `line`: the line of a setting.
* `isName`: the names that may be set.

## Main results

* `unquote_quote`: reading a written value gives the value.
-/

namespace BootImage.Settings

/-- Whether a value with this character needs quotes. -/
def needsQuotes (c : Char) : Bool :=
  Text.isBlank c || c == '"' || c == '\'' || c == '#' || c == '$'

/-- A value between the quotes, written out. -/
def escape (value : List Char) : List Char :=
  value.flatMap fun c => if c = '\\' || c = '"' then ['\\', c] else [c]

/-- A written value read: a backslash stands for the character after it, unless that is a newline
or there is none. -/
def unescape : List Char → List Char
  | [] => []
  | '\\' :: c :: rest => if c = '\n' then '\\' :: c :: unescape rest else c :: unescape rest
  | c :: rest => c :: unescape rest

/-- The written form of a value. -/
def quote (value : List Char) : List Char :=
  if value = [] ∨ value.any needsQuotes then '"' :: escape value ++ ['"'] else value

/-- Whether a text stands between two of the given marks. -/
def isBetween (mark : Char) (raw : List Char) : Bool :=
  2 ≤ raw.length && raw.head? == some mark && raw.getLast? == some mark

/-- The value that a written form stands for. -/
def unquote (raw : List Char) : List Char :=
  if isBetween '"' raw then unescape (raw.drop 1).dropLast
  else if isBetween '\'' raw then (raw.drop 1).dropLast
  else raw

/-- Whether a character can start a name on a line. -/
def isNameStart (c : Char) : Bool :=
  c.isAlpha || c == '_'

/-- Whether a character can continue a name on a line. -/
def isNamePart (c : Char) : Bool :=
  c.isAlphanum || c == '_'

/-- The name and the value that a line assigns. -/
def assignment? (line : List Char) : Option (String × List Char) :=
  let start := Text.trimStart line
  let name := start.takeWhile isNamePart
  match name, Text.trimStart (start.dropWhile isNamePart) with
  | first :: _, '=' :: raw =>
    if isNameStart first then some (String.ofList name, unquote (Text.trim raw)) else none
  | _, _ => none

/-- The line of a setting. -/
def line (name : String) (value : List Char) : List Char :=
  name.toList ++ '=' :: quote value

/-- Whether a name may be set: upper-case letters, digits and underscores, no digit first. A newline
after them is let pass. -/
def isName (name : String) : Bool :=
  let body := if name.toList.getLast? = some '\n' then name.toList.dropLast else name.toList
  match body with
  | [] => false
  | first :: rest =>
    (first.isUpper || first == '_') && rest.all fun c => c.isUpper || c.isDigit || c == '_'

theorem unescape_escape {value : List Char} : unescape (escape value) = value := by
  induction value with
  | nil => rfl
  | cons c value ih =>
    have hcons : escape (c :: value) =
        (if c = '\\' || c = '"' then ['\\', c] else [c]) ++ escape value := by
      simp [escape]
    rw [hcons]
    by_cases h1 : c = '\\'
    · subst h1
      simp [unescape, ih]
    · by_cases h2 : c = '"'
      · subst h2
        simp [unescape, ih]
      · simp [h1, h2, unescape, ih]

/-- Reading a written value gives the value. -/
theorem unquote_quote (value : List Char) : unquote (quote value) = value := by
  unfold quote
  split
  · have hb : isBetween '"' ('"' :: escape value ++ ['"']) = true := by
      have hlast : ('"' :: (escape value ++ ['"'])).getLast? = some '"' := by
        rw [← List.cons_append]; exact List.getLast?_concat
      simp [isBetween, hlast]
    rw [unquote, if_pos hb]
    simp [unescape_escape]
  · rename_i h
    have hany : value.any needsQuotes = false := by
      simpa using fun e => h (Or.inr e)
    have hmark : ∀ mark, needsQuotes mark = true → isBetween mark value = false := by
      intro mark hm
      cases value with
      | nil => rfl
      | cons c rest =>
        have hc : c ≠ mark := by
          rintro rfl
          simp [hm] at hany
        simp [isBetween, hc]
    rw [unquote, if_neg (by simp [hmark '"' (by decide)]),
      if_neg (by simp [hmark '\'' (by decide)])]

end BootImage.Settings
