/-!
# Lines of a text

A text is divided into lines at every line break of Unicode, not only at the newline. A carriage
return with a newline after it is one break. A break at the very end starts no further line.

## Main definitions

* `isLineBreak`: the characters that end a line.
* `splitLines`: the lines of a text, without their breaks.
* `joinLines`: lines put together, each ended by a newline.

## Main results

* `splitLines_joinLines`: lines that hold no break come back from the text that joins them.
-/

namespace BootImage.Text

/-- Whether a character ends a line. -/
def isLineBreak (c : Char) : Bool :=
  let n := c.toNat
  (0x0A ≤ n && n ≤ 0x0D) || (0x1C ≤ n && n ≤ 0x1E) || n == 0x85 || n == 0x2028 || n == 0x2029

/-- The lines of a text whose first line begins with the characters of `line`, last one first. -/
def splitLinesFrom (line : List Char) : List Char → List (List Char)
  | [] => if line.isEmpty then [] else [line.reverse]
  | '\r' :: '\n' :: rest => line.reverse :: splitLinesFrom [] rest
  | c :: rest =>
    if isLineBreak c then line.reverse :: splitLinesFrom [] rest
    else splitLinesFrom (c :: line) rest

/-- The lines of a text, without the characters that end them. -/
def splitLines (s : List Char) : List (List Char) :=
  splitLinesFrom [] s

/-- The text in which each line is followed by a newline. -/
def joinLines (lines : List (List Char)) : List Char :=
  lines.flatMap (· ++ ['\n'])

@[simp] theorem splitLines_nil : splitLines [] = [] := rfl

theorem splitLinesFrom_append_newline {line : List Char} (acc rest : List Char)
    (h : ∀ c ∈ line, isLineBreak c = false) :
    splitLinesFrom acc (line ++ '\n' :: rest) =
      (acc.reverse ++ line) :: splitLinesFrom [] rest := by
  induction line generalizing acc with
  | nil => simp [splitLinesFrom, show isLineBreak '\n' = true from rfl]
  | cons c line ih =>
    have hc : isLineBreak c = false := h c (by simp)
    have hr : c ≠ '\r' := by rintro rfl; exact absurd hc (by decide)
    rw [List.cons_append, splitLinesFrom, if_neg (by simp [hc]),
      ih (c :: acc) fun d hd => h d (by simp [hd])]
    · simp
    · rintro _ rfl
      exact fun _ => hr rfl

theorem splitLines_joinLines {lines : List (List Char)}
    (h : ∀ line ∈ lines, ∀ c ∈ line, isLineBreak c = false) :
    splitLines (joinLines lines) = lines := by
  induction lines with
  | nil => rfl
  | cons line rest ih =>
    have hline := h line (by simp)
    rw [joinLines, List.flatMap_cons, List.append_assoc, List.singleton_append, splitLines,
      splitLinesFrom_append_newline [] _ hline]
    have := ih fun l hl => h l (by simp [hl])
    rw [splitLines, joinLines] at this
    simp [this]

end BootImage.Text
