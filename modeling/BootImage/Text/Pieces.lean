/-!
# Pieces and columns

A text cut at separators, and a text filled with spaces to the width of a column. A text may be cut
whatever its characters are told as.

## Main definitions

* `pieces`: the pieces of a text between its separators.
* `padRight`, `padLeft`: a text with spaces after or before it.

## Main results

* `flatten_pieces`: the pieces hold every character that is no separator.
* `pieces_append`, `pieces_of_not_mem`: where the pieces of a text end.
* `pieces_map`: the pieces of a text whose characters are told otherwise.
* `length_padRight`, `length_padLeft`: a padded text is as wide as asked, or as it was.
-/

namespace BootImage.Text

variable {α β : Type}

/-- The pieces of a text whose first piece begins with the characters of `piece`, last one first. -/
def piecesFrom (isSeparator : α → Bool) (piece : List α) : List α → List (List α)
  | [] => [piece.reverse]
  | c :: rest =>
    if isSeparator c then piece.reverse :: piecesFrom isSeparator [] rest
    else piecesFrom isSeparator (c :: piece) rest

/-- The pieces of a text between its separators, one more than there are separators. -/
def pieces (isSeparator : α → Bool) (s : List α) : List (List α) :=
  piecesFrom isSeparator [] s

/-- The text with spaces after it, up to a width. -/
def padRight (width : Nat) (s : List Char) : List Char :=
  s ++ List.replicate (width - s.length) ' '

/-- The text with spaces before it, up to a width. -/
def padLeft (width : Nat) (s : List Char) : List Char :=
  List.replicate (width - s.length) ' ' ++ s

theorem flatten_piecesFrom (isSeparator : α → Bool) (piece s : List α) :
    (piecesFrom isSeparator piece s).flatten = piece.reverse ++ s.filter (!isSeparator ·) := by
  induction s generalizing piece with
  | nil => simp [piecesFrom]
  | cons c s ih => by_cases h : isSeparator c <;> simp [piecesFrom, h, ih]

theorem flatten_pieces (isSeparator : α → Bool) (s : List α) :
    (pieces isSeparator s).flatten = s.filter (!isSeparator ·) := by
  simp [pieces, flatten_piecesFrom]

theorem piecesFrom_append {isSeparator : α → Bool} {c : α} (hc : isSeparator c = true)
    (piece s t : List α) : piecesFrom isSeparator piece (s ++ c :: t) =
      piecesFrom isSeparator piece s ++ pieces isSeparator t := by
  induction s generalizing piece with
  | nil => simp [piecesFrom, pieces, hc]
  | cons d s ih => by_cases h : isSeparator d <;> simp [piecesFrom, h, ih]

/-- The pieces before and after a separator. -/
theorem pieces_append {isSeparator : α → Bool} {c : α} (hc : isSeparator c = true)
    (s t : List α) :
    pieces isSeparator (s ++ c :: t) = pieces isSeparator s ++ pieces isSeparator t :=
  piecesFrom_append hc [] s t

theorem piecesFrom_of_not_mem {isSeparator : α → Bool} {s : List α}
    (h : ∀ c ∈ s, isSeparator c = false) (piece : List α) :
    piecesFrom isSeparator piece s = [piece.reverse ++ s] := by
  induction s generalizing piece with
  | nil => simp [piecesFrom]
  | cons c s ih =>
    rw [List.forall_mem_cons] at h
    simp [piecesFrom, h.1, ih h.2]

/-- A text without separators is one piece. -/
theorem pieces_of_not_mem {isSeparator : α → Bool} {s : List α}
    (h : ∀ c ∈ s, isSeparator c = false) : pieces isSeparator s = [s] :=
  piecesFrom_of_not_mem h []

/-- There are no separators in a piece. -/
theorem not_mem_of_mem_pieces {isSeparator : α → Bool} {s t : List α} {c : α}
    (ht : t ∈ pieces isSeparator s) (hc : c ∈ t) : isSeparator c = false := by
  have hmem : c ∈ (pieces isSeparator s).flatten := List.mem_flatten.2 ⟨t, ht, hc⟩
  rw [flatten_pieces] at hmem
  simpa using (List.mem_filter.1 hmem).2

theorem piecesFrom_map (f : α → β) (isSeparator : β → Bool) (piece s : List α) :
    piecesFrom isSeparator (piece.map f) (s.map f) =
      (piecesFrom (fun c => isSeparator (f c)) piece s).map (List.map f) := by
  induction s generalizing piece with
  | nil => simp [piecesFrom]
  | cons c s ih =>
    have hcut := ih []
    have hkept := ih (c :: piece)
    rw [List.map_nil] at hcut
    rw [List.map_cons] at hkept
    by_cases h : isSeparator (f c) <;> simp [piecesFrom, h, hcut, hkept]

/-- The pieces of a text whose characters are told otherwise. -/
theorem pieces_map (f : α → β) (isSeparator : β → Bool) (s : List α) :
    pieces isSeparator (s.map f) =
      (pieces (fun c => isSeparator (f c)) s).map (List.map f) :=
  piecesFrom_map f isSeparator [] s

theorem length_padRight (width : Nat) (s : List Char) :
    (padRight width s).length = max width s.length := by
  simp [padRight]; omega

theorem length_padLeft (width : Nat) (s : List Char) :
    (padLeft width s).length = max width s.length := by
  simp [padLeft]; omega

end BootImage.Text
