import BootImage.Proofs.Settings.Updating
import Mathlib.Data.List.ReduceOption

/-!
# Lines that an update touches

An update goes through the lines of a file with the values that are still to be stored, and forgets
each of them at the first line of its name. What comes of a line can be told without that: it hangs
on the line itself, on the values that are given, and on whether some line above it assigns a value
to the same name. So a line is given a new value just if it is the first one for a name that is
given, and has another value, and all other lines are left as they are, comments and lines for other
names among them.

## Main definitions

* `renewal?`: the value that is put in place of that of a line.
* `missing`: the values for which a line is added.
* `Edited`: lines after an update, and the names that it tells.

## Main results

* `edited_textAfter`: the lines of a file after an update.
* `changed_textAfter`: an update done twice tells no names the second time.
-/

namespace BootImage.Settings

open Text (splitLines)

variable {new : Values} {before lines : List (List Char)} {l value : List Char} {name : String}
  {text : List Char}

/-- The name and the new value of a line that has to change: it is the first line for a name that is
given a value, and has another one. `before` are the lines above it. -/
def renewal? (new : Values) (before : List (List Char)) (l : List Char) :
    Option (String × List Char) :=
  match assignment? l with
  | none => none
  | some (name, old) =>
    match new.lookup name with
    | none => none
    | some value => if assigned before name = [] ∧ old ≠ value then some (name, value) else none

/-- A line after an update. -/
def renewed (new : Values) (before : List (List Char)) (l : List Char) : List Char :=
  match renewal? new before l with
  | none => l
  | some (name, value) => line name value

/-- The given values whose names have no line. -/
def missing (new : Values) (lines : List (List Char)) : Values :=
  new.filter fun v => assigned lines v.1 = []

/-- Lines have become others: each of them is left as it is, but for those that are given new
values, and a line is added for each given name without one. The names that are told are those of
the lines that have changed, and then those of the lines that were added. -/
structure Edited (new : Values) (old after : List (List Char)) (names : List String) : Prop where
  lines : after = (old.mapIdx fun i l => renewed new (old.take i) l) ++
    (missing new old).map fun v => line v.1 v.2
  names : names = (old.mapIdx fun i l => (renewal? new (old.take i) l).map Prod.fst).reduceOption ++
    (missing new old).map Prod.fst

/-! ### The scan -/

theorem assigned_concat (before : List (List Char)) (l : List Char) (name : String) :
    assigned (before ++ [l]) name =
      assigned before name ++ ((assignment? l).bind (valueFor name)).toList := by
  rw [assigned_append, assigned_cons, assigned_nil, List.append_nil]

theorem missing_concat_of_none (new : Values) (before : List (List Char))
    (hl : assignment? l = none) : missing new (before ++ [l]) = missing new before := by
  refine List.filter_congr fun v _ => ?_
  rw [assigned_concat, hl, Option.bind_none, Option.toList_none, List.append_nil]

/-- A line for a name leaves the others missing. -/
theorem missing_concat_of_some (new : Values) (before : List (List Char))
    (hl : assignment? l = some (name, value)) :
    missing new (before ++ [l]) = (missing new before).filter (·.1 ≠ name) := by
  rw [missing, missing, List.filter_filter]
  refine List.filter_congr fun v _ => ?_
  rw [assigned_concat, hl, Option.bind_some, valueFor]
  by_cases hname : name = v.1
  · simp [hname]
  · simp [hname, Ne.symm hname]

theorem lookup_missing (new : Values) (before : List (List Char)) (name : String) :
    (missing new before).lookup name =
      if assigned before name = [] then new.lookup name else none := by
  rw [missing]
  simpa using lookup_filter new (fun n => decide (assigned before n = [])) name

theorem renewal?_of_none (new : Values) (before : List (List Char))
    (hl : assignment? l = none) : renewal? new before l = none := by
  rw [renewal?, hl]

/-- What becomes of a line hangs on the value that is still missing. -/
theorem renewal?_of_some (new : Values) (before : List (List Char))
    (hl : assignment? l = some (name, value)) : renewal? new before l =
      ((missing new before).lookup name).bind fun given =>
        if value = given then none else some (name, given) := by
  rw [renewal?, hl, lookup_missing]
  simp only
  cases new.lookup name with
  | none => simp
  | some given =>
    by_cases hfirst : assigned before name = []
    · by_cases heq : value = given <;> simp [hfirst, heq]
    · simp [hfirst]

/-- What becomes of lines that others come before. -/
theorem updateLines_missing (new : Values) (before lines : List (List Char)) :
    (updateLines (missing new before) lines).1 =
        lines.mapIdx (fun i l => renewed new (before ++ lines.take i) l) ∧
      (updateLines (missing new before) lines).2.1.filterMap Change.name? =
        (lines.mapIdx fun i l =>
          (renewal? new (before ++ lines.take i) l).map Prod.fst).reduceOption ∧
      (updateLines (missing new before) lines).2.2 = missing new (before ++ lines) := by
  induction lines generalizing before with
  | nil => simp [updateLines]
  | cons l lines ih =>
    obtain ⟨hlines, hnames, hleft⟩ := ih (before ++ [l])
    simp only [List.append_assoc, List.singleton_append] at hlines hnames hleft
    simp only [List.mapIdx_cons, List.take_zero, List.append_nil, List.take_succ_cons]
    rw [updateLines]
    cases hl : assignment? l with
    | none =>
      have hrenewal := renewal?_of_none new before hl
      have hline : renewed new before l = l := by rw [renewed, hrenewal]
      rw [missing_concat_of_none new before hl] at hlines hnames hleft
      simp only [hline, hrenewal, Option.map_none, List.reduceOption_cons_of_none]
      exact ⟨by rw [hlines], hnames, hleft⟩
    | some a =>
      obtain ⟨name, value⟩ := a
      have hrenewal := renewal?_of_some new before hl
      rw [missing_concat_of_some new before hl] at hlines hnames hleft
      cases hgiven : (missing new before).lookup name with
      | none =>
        have hsame : (missing new before).filter (·.1 ≠ name) = missing new before :=
          List.filter_eq_self.2 fun v hv => decide_eq_true (lookup_eq_none.1 hgiven v hv)
        rw [hgiven, Option.bind_none] at hrenewal
        have hline : renewed new before l = l := by rw [renewed, hrenewal]
        rw [hsame] at hlines hnames hleft
        simp only [hgiven, hline, hrenewal, Option.map_none, List.reduceOption_cons_of_none]
        exact ⟨by rw [hlines], hnames, hleft⟩
      | some given =>
        rw [hgiven, Option.bind_some] at hrenewal
        by_cases heq : value = given
        · rw [if_pos heq] at hrenewal
          have hline : renewed new before l = l := by rw [renewed, hrenewal]
          simp only [hgiven, if_pos heq, hline, hrenewal, Option.map_none,
            List.reduceOption_cons_of_none]
          exact ⟨by rw [hlines], hnames, hleft⟩
        · rw [if_neg heq] at hrenewal
          have hline : renewed new before l = line name given := by rw [renewed, hrenewal]
          simp only [hgiven, if_neg heq, hline, hrenewal, Option.map_some,
            List.reduceOption_cons_of_some]
          exact ⟨by rw [hlines], by rw [← hnames]; rfl, hleft⟩

/-- What an update makes of the lines of a file, and the names that it tells. -/
theorem edited_update (new : Values) (text : List Char) :
    Edited new (splitLines text) (update new text).1 (changed new text) := by
  have hall : missing new [] = new := List.filter_eq_self.2 fun v _ => rfl
  obtain ⟨hlines, hnames, hleft⟩ := updateLines_missing new [] (splitLines text)
  simp only [List.nil_append] at hlines hnames hleft
  rw [hall] at hlines hnames hleft
  refine ⟨?_, ?_⟩
  · rw [← hlines, ← hleft]
    rfl
  · rw [changed_eq, hnames, hleft]

/-- If no name is told, all lines are as they were. -/
theorem Edited.eq_of_nil {old after : List (List Char)} (h : Edited new old after []) :
    after = old := by
  obtain ⟨hrenewals, hadded⟩ := List.append_eq_nil_iff.1 h.names.symm
  rw [h.lines, List.map_eq_nil_iff.1 hadded, List.map_nil, List.append_nil]
  refine List.ext_getElem List.length_mapIdx fun i hi hi' => ?_
  have hnone : renewal? new (old.take i) old[i] = none := by
    by_contra hsome
    obtain ⟨⟨name, given⟩, hrenewal⟩ := Option.ne_none_iff_exists'.1 hsome
    have hmem : some name ∈ old.mapIdx fun i l => (renewal? new (old.take i) l).map Prod.fst :=
      List.mem_mapIdx.2 ⟨i, hi', by rw [hrenewal, Option.map_some]⟩
    have hname := List.reduceOption_mem_iff.2 hmem
    rw [hrenewals] at hname
    cases hname
  rw [List.getElem_mapIdx, renewed, hnone]

/-- What an update makes of the lines of a file. -/
theorem edited_textAfter (hclean : ∀ v ∈ new, Clean v.1)
    (hvalues : ∀ v ∈ new, ∀ c ∈ v.2, Text.isLineBreak c = false) (text : List Char) :
    Edited new (splitLines text) (splitLines (textAfter new text)) (changed new text) := by
  have hedited := edited_update new text
  rw [textAfter]
  split
  · rename_i hsame
    have hlines : (update new text).1 = splitLines text := (hsame ▸ hedited).eq_of_nil
    rwa [hlines] at hedited
  · rwa [Text.splitLines_joinLines]
    intro l hl c hc
    rcases of_mem_update hclean text hl with hl | ⟨v, hv, rfl⟩
    · exact Text.not_isLineBreak_of_mem_splitLines hl hc
    · exact not_isLineBreak_of_mem_line (hclean v hv) (hvalues v hv) hc

/-- The first value for a given name is the given one, so doing an update again changes nothing. -/
theorem changed_textAfter (hclean : ∀ v ∈ new, Clean v.1) (hnames : (new.map Prod.fst).Nodup)
    (hvalues : ∀ v ∈ new, ∀ c ∈ v.2, Text.isLineBreak c = false) (text : List Char) :
    changed new (textAfter new text) = [] := by
  refine List.eq_nil_iff_forall_not_mem.2 fun name hmem => ?_
  obtain ⟨value, hvalue, hne⟩ := (mem_changed hclean _ name).1 hmem
  rw [Option.mem_def] at hvalue
  rw [assigned_textAfter hclean hnames hvalues, hvalue] at hne
  exact hne rfl

end BootImage.Settings
