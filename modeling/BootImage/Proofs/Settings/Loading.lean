import BootImage.Proofs.Settings.Storing

/-!
# Lines that are loaded

When a line is read, the blanks around its value are taken off, and then the quotes are undone. A
value may well have blanks at its ends, or stand between quotes of its own. But each value of this
sort is quoted when its line is written, so what is written has no blank at its ends, and the quotes
that it stands between, if there are any, are those of the tool.

A file with nothing but lines of settings, no two of them for one name, is loaded as these settings,
in the order of the lines. The last line needs no line break.

## Main results

* `values_of_lines`: what lines of settings are read as.
* `splitLines_line`: the line of a setting is one line, whether or not it is ended by a newline.
* `load_line`: a value comes back from its written form, and a setting from its line.
-/

namespace BootImage

open Host (Path FileTree)

namespace Text

/-- A text without line breaks is one line. -/
theorem splitLinesFrom_unbroken {acc s : List Char} (hs : ∀ c ∈ s, isLineBreak c = false)
    (hne : acc.reverse ++ s ≠ []) : splitLinesFrom acc s = [acc.reverse ++ s] := by
  induction s generalizing acc with
  | nil =>
    rw [List.append_nil] at hne ⊢
    have hacc : acc.isEmpty = false := by simpa using hne
    simp [splitLinesFrom, hacc]
  | cons c s ih =>
    rw [List.forall_mem_cons] at hs
    have hc : isLineBreak c = false := hs.1
    have hr : c ≠ '\r' := by
      rintro rfl
      exact absurd hc (by decide)
    rw [splitLinesFrom, if_neg (by simp [hc]), ih hs.2 (by simp)]
    · simp
    · rintro _ rfl
      exact fun _ => hr rfl

end Text

namespace Settings

open Text (splitLines isLineBreak)

variable {s : Session} {vs : Values} {name : String} {value text : List Char}

/-! ### Settings that are read -/

theorem insert_of_notMem (h : name ∉ vs.map Prod.fst) (value : List Char) :
    insert vs name value = vs ++ [(name, value)] := by
  refine if_neg fun hany => h ?_
  obtain ⟨v, hv, hname⟩ := List.any_eq_true.1 hany
  exact of_decide_eq_true hname ▸ List.mem_map_of_mem hv

/-- Pairs that repeat no name are kept as they are. -/
theorem ofPairs_eq_self (hnames : (vs.map Prod.fst).Nodup) : ofPairs vs = vs := by
  have hfold : ∀ rest before : Values, ((before ++ rest).map Prod.fst).Nodup →
      rest.foldl (fun vs v => insert vs v.1 v.2) before = before ++ rest := by
    intro rest
    induction rest with
    | nil => exact fun before _ => (List.append_nil before).symm
    | cons v rest ih =>
      intro before hnodup
      have hnew : v.1 ∉ before.map Prod.fst := by
        rw [List.map_append, List.map_cons, List.nodup_append'] at hnodup
        exact fun hmem => hnodup.2.2 hmem List.mem_cons_self
      rw [List.foldl_cons, insert_of_notMem hnew, ih _ (by simpa using hnodup)]
      simp
  exact hfold vs [] hnames

/-- Lines of settings are read as these settings, if no two are for one name. -/
theorem values_of_lines (hclean : ∀ v ∈ vs, Clean v.1) (hnames : (vs.map Prod.fst).Nodup)
    (htext : splitLines text = vs.map fun v => line v.1 v.2) : values text = vs := by
  have hread : (vs.map fun v => line v.1 v.2).filterMap assignment? = vs := by
    rw [List.filterMap_map]
    refine (List.filterMap_congr fun v hv => ?_).trans List.filterMap_some
    exact assignment?_line (hclean v hv) v.2
  rw [values, htext, hread, ofPairs_eq_self hnames]

/-- The line of a setting is one line, whether or not it is ended by a newline. -/
theorem splitLines_line (hname : Clean name) (hvalue : ∀ c ∈ value, isLineBreak c = false)
    (htext : text = line name value ∨ text = line name value ++ ['\n']) :
    splitLines text = [line name value] := by
  have hplain : ∀ c ∈ line name value, isLineBreak c = false :=
    fun c => not_isLineBreak_of_mem_line hname hvalue
  rcases htext with rfl | rfl
  · have hne : line name value ≠ [] := by simp [line]
    exact Text.splitLinesFrom_unbroken hplain hne
  · have hjoin : Text.joinLines [line name value] = line name value ++ ['\n'] := by
      simp [Text.joinLines]
    rw [← hjoin]
    exact Text.splitLines_joinLines (by simpa using hplain)

/-! ### Files that are loaded -/

/-- A file that holds a text is loaded as the settings in the text. -/
theorem yields_load_of_read {p : Path} {content : Content}
    (hread : s.tree.read p = .ok content)
    (hbytes : content.toBytes = Build.textBytes (String.ofList text)) :
    Yields (load p) s (values text) s := by
  have hline := Build.fromUTF8?_textBytes (String.ofList text)
  rw [← hbytes] at hline
  have hstored := yields_stored_of_read hread hline
  rw [String.toList_ofList] at hstored
  exact yields_load.2 ⟨text, hstored, rfl⟩

/-- Every value comes back from its written form. A file with the line of a setting and nothing else
is loaded as that setting alone, whatever the value is, if it breaks no line. -/
theorem load_line : (∀ value, unquote (quote value) = value) ∧
    ∀ (s : Session) (p : Path) (content : Content) (name : String) (value text : List Char),
      Clean name → (∀ c ∈ value, isLineBreak c = false) →
      text = line name value ∨ text = line name value ++ ['\n'] →
      s.tree.read p = .ok content → content.toBytes = Build.textBytes (String.ofList text) →
      Yields (load p) s [(name, value)] s := by
  refine ⟨unquote_quote, fun s p content name value text hname hvalue htext hread hbytes => ?_⟩
  have hvalues : values text = [(name, value)] := values_of_lines (by simpa using hname)
    (by simp) (splitLines_line hname hvalue htext)
  rw [← hvalues]
  exact yields_load_of_read hread hbytes

/-- A value with blanks at its ends, with all that has a meaning of its own in a line, and with
backslashes before quotes and at the end. -/
theorem exists_load_line : ∃ (s : Session) (p : Path) (name : String) (value : List Char),
    value = " a\t'#$=\\\\\" \\ ".toList ∧ Clean name ∧ (∀ c ∈ value, isLineBreak c = false) ∧
      Yields (load p) s [(name, value)] s := by
  let value := " a\t'#$=\\\\\" \\ ".toList
  let content := Content.ofBytes (Build.textBytes (String.ofList (line "A_1" value)))
  let s : Session :=
    { tree := (FileTree.empty []).put ["settings"] content, clock := "", searchPath := "" }
  have hname : Clean "A_1" := ⟨by decide, by decide⟩
  have hvalue : ∀ c ∈ value, isLineBreak c = false := by
    have hplain : (value.all fun c => !isLineBreak c) = true := by decide
    simp only [List.all_eq_true, Bool.not_eq_true'] at hplain
    exact hplain
  have hread : s.tree.read ⟨"", ["settings"]⟩ = .ok content := rfl
  exact ⟨s, ⟨"", ["settings"]⟩, "A_1", value, rfl, hname, hvalue,
    load_line.2 s _ content "A_1" value _ hname hvalue (.inl rfl) hread (Content.toBytes_ofBytes _)⟩

end Settings

end BootImage
