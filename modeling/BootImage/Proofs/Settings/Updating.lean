import BootImage.Proofs.Settings.Assigned
import Mathlib.Data.List.Nodup

/-!
# Settings after an update

The writer and the reader of a settings file go by different lines: an update looks at the first
line of a name, and reading takes the last one. The two agree on names with one line. So what an
update does is told line by line first, for the values that the lines assign: of those assigned to a
given name the first one is replaced, or a value is added where there is none, and those of other
names stay. What reading makes of it is then a matter of first and last values.

## Main definitions

* `changed`, `textAfter`: the names whose value an update changes, and the text that it leaves.
* `Applied`: settings are the old ones with the given values, and the names that differed are told.
* `Storable`: a value can be stored in a file so that it is read back.

## Main results

* `assigned_textAfter`: the values that the lines assign after an update.
* `applied_iff`: an update does what it should just if each of its values can be stored.
-/

namespace BootImage.Settings

open Text (splitLines)

theorem lookup_filter (vs : Values) (p : String → Bool) (name : String) :
    (vs.filter (p ·.1)).lookup name = if p name then vs.lookup name else none := by
  induction vs with
  | nil => simp
  | cons v vs ih =>
    by_cases hv : v.1 = name
    · by_cases hp : p name
      · rw [List.filter_cons_of_pos (by rw [hv, hp]), lookup_cons, lookup_cons, if_pos hv,
          if_pos hv, if_pos hp]
      · rw [List.filter_cons_of_neg (by rw [hv]; exact hp), ih, if_neg hp, if_neg hp]
    · by_cases hp : p v.1
      · rw [List.filter_cons_of_pos (by rw [hp]), lookup_cons, lookup_cons, if_neg hv, if_neg hv,
          ih]
      · rw [List.filter_cons_of_neg (by simpa using hp), lookup_cons, if_neg hv, ih]

theorem lookup_filter_ne (vs : Values) (name other : String) :
    (vs.filter (·.1 ≠ name)).lookup other = if other ≠ name then vs.lookup other else none := by
  simpa using lookup_filter vs (fun n => decide (n ≠ name)) other

theorem mem_of_lookup {vs : Values} {name : String} {value : List Char}
    (h : vs.lookup name = some value) : (name, value) ∈ vs := by
  obtain ⟨before, after, rfl, -⟩ := List.lookup_eq_some_iff.1 h
  simp

theorem lookup_of_mem {vs : Values} (hnames : (vs.map Prod.fst).Nodup) {v : String × List Char}
    (hv : v ∈ vs) : vs.lookup v.1 = some v.2 := by
  induction vs with
  | nil => cases hv
  | cons w vs ih =>
    rw [List.map_cons, List.nodup_cons] at hnames
    rw [lookup_cons]
    rcases List.mem_cons.1 hv with rfl | hv
    · rw [if_pos rfl]
    · have hne : w.1 ≠ v.1 := fun heq => hnames.1 (heq ▸ List.mem_map_of_mem hv)
      rw [if_neg hne, ih hnames.2 hv]

/-! ### One line after the other -/

variable {pending new : Values} {lines : List (List Char)} {text : List Char} {name : String}

/-- The values assigned to a name, the first one replaced if there is a value for it. -/
def replaceFirst (new : Option (List Char)) (old : List (List Char)) : List (List Char) :=
  match new, old with
  | some value, _ :: rest => value :: rest
  | _, old => old

@[simp] theorem replaceFirst_none (old : List (List Char)) : replaceFirst none old = old := by
  cases old <;> rfl

/-- What a scan over lines does with the values that are to be stored: each goes to the first line
of its name, and those without a line are left. -/
structure Updates (pending : Values) (lines : List (List Char))
    (result : List (List Char) × List Change × Values) : Prop where
  values : ∀ name, assigned result.1 name =
    replaceFirst (pending.lookup name) (assigned lines name)
  changes : ∀ name, name ∈ result.2.1.filterMap Change.name? ↔
    ∃ old ∈ (assigned lines name).head?, ∃ value ∈ pending.lookup name, old ≠ value
  nodup : (result.2.1.filterMap Change.name?).Nodup
  left : result.2.2 = pending.filter fun v => assigned lines v.1 = []
  source : ∀ l ∈ result.1, l ∈ lines ∨ ∃ v ∈ pending, l = line v.1 v.2

theorem updates_nil (pending : Values) : Updates pending [] ([], [], pending) where
  values name := by cases pending.lookup name <;> rfl
  changes name := by simp
  nodup := List.nodup_nil
  left := by simp
  source := by simp

variable {result : List (List Char) × List Change × Values} {l value : List Char}

/-- A line of no name that is to be stored is kept. -/
theorem Updates.skip (h : Updates pending lines result)
    (hl : ∀ a ∈ assignment? l, pending.lookup a.1 = none) :
    Updates pending (l :: lines) (l :: result.1, result.2) := by
  have hsame : ∀ name, pending.lookup name ≠ none → ∀ lines,
      assigned (l :: lines) name = assigned lines name :=
    fun name hname lines =>
      assigned_cons_of_ne (fun a ha heq => hname (by rw [← heq, hl a ha])) lines
  refine ⟨fun name => ?_, fun name => ?_, h.nodup, ?_, ?_⟩
  · cases hname : pending.lookup name with
    | none => rw [replaceFirst_none, assigned_cons, assigned_cons, h.values, hname,
        replaceFirst_none]
    | some value =>
      have hne : pending.lookup name ≠ none := by simp [hname]
      rw [hsame name hne, hsame name hne, h.values, hname]
  · rw [h.changes]
    by_cases hname : pending.lookup name = none
    · simp [hname]
    · rw [hsame name hname]
  · rw [h.left]
    refine List.filter_congr fun v hv => ?_
    rw [hsame v.1 fun hnone => lookup_eq_none.1 hnone v hv rfl]
  · refine List.forall_mem_cons.2 ⟨.inl (by simp), fun m hm => ?_⟩
    exact (h.source m hm).imp_left (List.mem_cons_of_mem l)

theorem filterMap_name?_cons {change : Change} (new : List Char)
    (hchange : change.name? = if value = new then none else some name) (changes : List Change) :
    (change :: changes).filterMap Change.name? =
      if value = new then changes.filterMap Change.name?
      else name :: changes.filterMap Change.name? := by
  by_cases heq : value = new
  · rw [if_pos heq, List.filterMap_cons_none (by rw [hchange, if_pos heq])]
  · rw [if_neg heq, List.filterMap_cons_some (by rw [hchange, if_neg heq])]

/-- The first line of a name gets the value that is to be stored. -/
theorem Updates.give {l' new : List Char} {change : Change}
    (h : Updates (pending.filter (·.1 ≠ name)) lines result)
    (hl : assignment? l = some (name, value)) (hl' : assignment? l' = some (name, new))
    (hnew : pending.lookup name = some new)
    (hchange : change.name? = if value = new then none else some name)
    (hsource : l' = l ∨ l' = line name new) :
    Updates pending (l :: lines) (l' :: result.1, change :: result.2.1, result.2.2) := by
  -- The name itself is no more among those that the other lines are looked through for.
  have hdone : name ∉ result.2.1.filterMap Change.name? := by
    rw [h.changes, lookup_filter_ne, if_neg (not_not.2 rfl)]
    simp
  have hchanges := filterMap_name?_cons new hchange result.2.1
  refine ⟨fun other => ?_, fun other => ?_, ?_, ?_, ?_⟩
  · by_cases hname : other = name
    · subst hname
      rw [assigned_cons_self hl, assigned_cons_self hl', h.values, lookup_filter_ne,
        if_neg (not_not.2 rfl), replaceFirst_none, hnew]
      rfl
    · rw [assigned_cons_other hl' hname, assigned_cons_other hl hname, h.values,
        lookup_filter_ne, if_pos hname]
  · simp only [hchanges]
    by_cases hname : other = name
    · subst hname
      rw [assigned_cons_self hl, hnew]
      split
      · rename_i heq
        simp [hdone, heq]
      · rename_i hne
        simp [hne]
    · have hmem : (other ∈ if value = new then result.2.1.filterMap Change.name?
          else name :: result.2.1.filterMap Change.name?) ↔
          other ∈ result.2.1.filterMap Change.name? := by
        split <;> simp [hname]
      rw [hmem, h.changes, lookup_filter_ne, if_pos hname, assigned_cons_other hl hname]
  · rw [hchanges]
    split
    · exact h.nodup
    · exact List.nodup_cons.2 ⟨hdone, h.nodup⟩
  · rw [h.left, List.filter_filter]
    refine List.filter_congr fun v hv => ?_
    by_cases hname : v.1 = name
    · simp [hname, assigned_cons_self hl]
    · simp [hname, assigned_cons_other hl hname]
  · refine List.forall_mem_cons.2 ⟨?_, fun m hm => ?_⟩
    · rcases hsource with rfl | rfl
      · exact .inl List.mem_cons_self
      · exact .inr ⟨(name, new), mem_of_lookup hnew, rfl⟩
    · rcases h.source m hm with hm | ⟨v, hv, rfl⟩
      · exact .inl (List.mem_cons_of_mem l hm)
      · exact .inr ⟨v, List.mem_of_mem_filter hv, rfl⟩

/-- The scan of an update. -/
theorem updates_updateLines (hclean : ∀ v ∈ pending, Clean v.1) (lines : List (List Char)) :
    Updates pending lines (updateLines pending lines) := by
  induction lines generalizing pending with
  | nil => exact updates_nil pending
  | cons l lines ih =>
    rw [updateLines]
    cases hl : assignment? l with
    | none => exact (ih hclean).skip (by simp [hl])
    | some a =>
      obtain ⟨name, value⟩ := a
      cases hnew : pending.lookup name with
      | none =>
        simp only [hnew]
        refine (ih hclean).skip fun a ha => ?_
        rw [hl, Option.mem_some_iff] at ha
        rw [← ha, hnew]
      | some new =>
        have hrest := @ih (pending.filter (·.1 ≠ name)) fun v hv =>
          hclean v (List.mem_of_mem_filter hv)
        simp only [hnew]
        split
        · rename_i heq
          exact hrest.give hl (heq ▸ hl) hnew (by simp [Change.name?, heq]) (.inl rfl)
        · rename_i hne
          exact hrest.give hl (assignment?_line (hclean _ (mem_of_lookup hnew)) new) hnew
            (by simp [Change.name?, hne]) (.inr rfl)

/-! ### A whole update -/

/-- The names whose value an update changes. -/
def changed (new : Values) (text : List Char) : List String :=
  (update new text).2.filterMap Change.name?

/-- The text of a file after an update, which leaves it alone when no value changes. -/
def textAfter (new : Values) (text : List Char) : List Char :=
  if changed new text = [] then text else Text.joinLines (update new text).1

/-- Lines that are added assign the values that they are for. -/
theorem assigned_map_line {vs : Values} (hclean : ∀ v ∈ vs, Clean v.1)
    (hnames : (vs.map Prod.fst).Nodup) (name : String) :
    assigned (vs.map fun v => line v.1 v.2) name = (vs.lookup name).toList := by
  induction vs with
  | nil => rfl
  | cons v vs ih =>
    rw [List.forall_mem_cons] at hclean
    rw [List.map_cons, List.nodup_cons] at hnames
    have hv := assignment?_line hclean.1 v.2
    rw [List.map_cons, lookup_cons]
    by_cases hname : v.1 = name
    · have hnone : vs.lookup name = none :=
        lookup_eq_none.2 fun w hw heq => hnames.1 (hname ▸ heq ▸ List.mem_map_of_mem hw)
      rw [← hname, assigned_cons_self hv, hname, ih hclean.2 hnames.2, hnone, if_pos rfl]
      rfl
    · rw [if_neg hname, assigned_cons_other hv (Ne.symm hname), ih hclean.2 hnames.2]

theorem mem_names {vs : Values} : name ∈ vs.map Prod.fst ↔ vs.lookup name ≠ none := by
  rw [Ne, lookup_eq_none]
  simp

/-- The values that are left after the scan are those of names without a line. -/
theorem Updates.lookup_left (h : Updates new lines result) (name : String) :
    result.2.2.lookup name = if assigned lines name = [] then new.lookup name else none := by
  rw [h.left]
  simpa using lookup_filter new (fun n => decide (assigned lines n = [])) name

/-- The lines of an update assign each given value in the place of the first one of its name. -/
theorem assigned_update (hclean : ∀ v ∈ new, Clean v.1) (hnames : (new.map Prod.fst).Nodup)
    (text : List Char) (name : String) : assigned (update new text).1 name =
      match new.lookup name with
      | none => assigned (splitLines text) name
      | some value => value :: (assigned (splitLines text) name).tail := by
  have h := updates_updateLines hclean (splitLines text)
  have hleft : ∀ v ∈ (updateLines new (splitLines text)).2.2, v ∈ new := by
    rw [h.left]
    exact fun v => List.mem_of_mem_filter
  have hleftNames : ((updateLines new (splitLines text)).2.2.map Prod.fst).Nodup := by
    rw [h.left]
    exact hnames.sublist (List.filter_sublist.map _)
  have hadded := assigned_map_line (fun v hv => hclean v (hleft v hv)) hleftNames name
  have hupdate : (update new text).1 = (updateLines new (splitLines text)).1 ++
      (updateLines new (splitLines text)).2.2.map fun v => line v.1 v.2 := rfl
  rw [hupdate, assigned_append, hadded, h.values, h.lookup_left]
  cases new.lookup name <;> cases assigned (splitLines text) name <;> simp [replaceFirst]

/-- The lines of an update are old ones and those of the given values. -/
theorem of_mem_update (hclean : ∀ v ∈ new, Clean v.1) (text : List Char)
    (hl : l ∈ (update new text).1) : l ∈ splitLines text ∨ ∃ v ∈ new, l = line v.1 v.2 := by
  have h := updates_updateLines hclean (splitLines text)
  have hupdate : (update new text).1 = (updateLines new (splitLines text)).1 ++
      (updateLines new (splitLines text)).2.2.map fun v => line v.1 v.2 := rfl
  rw [hupdate, List.mem_append, List.mem_map, h.left] at hl
  rcases hl with hl | ⟨v, hv, rfl⟩
  · exact h.source l hl
  · exact .inr ⟨v, List.mem_of_mem_filter hv, rfl⟩

theorem changed_eq (new : Values) (text : List Char) : changed new text =
    (updateLines new (splitLines text)).2.1.filterMap Change.name? ++
      (updateLines new (splitLines text)).2.2.map Prod.fst := by
  have hadded : ∀ vs : Values,
      (vs.map fun v => Change.added v.1).filterMap Change.name? = vs.map Prod.fst := by
    intro vs
    rw [List.filterMap_map, ← List.filterMap_eq_map]
    rfl
  have hupdate : changed new text = ((updateLines new (splitLines text)).2.1 ++
      (updateLines new (splitLines text)).2.2.map fun v => Change.added v.1).filterMap
        Change.name? := rfl
  rw [hupdate, List.filterMap_append, hadded]

/-- The names that an update tells are those whose first value is another one. -/
theorem mem_changed (hclean : ∀ v ∈ new, Clean v.1) (text : List Char) (name : String) :
    name ∈ changed new text ↔
      ∃ value ∈ new.lookup name, (assigned (splitLines text) name).head? ≠ some value := by
  have h := updates_updateLines hclean (splitLines text)
  rw [changed_eq, List.mem_append, h.changes, mem_names, h.lookup_left]
  cases new.lookup name <;> cases assigned (splitLines text) name <;> simp

theorem nodup_changed (hclean : ∀ v ∈ new, Clean v.1) (hnames : (new.map Prod.fst).Nodup)
    (text : List Char) : (changed new text).Nodup := by
  have h := updates_updateLines hclean (splitLines text)
  rw [changed_eq, List.nodup_append']
  refine ⟨h.nodup, ?_, fun name hupdated hadded => ?_⟩
  · rw [h.left]
    exact hnames.sublist (List.filter_sublist.map _)
  · obtain ⟨old, hold, -⟩ := (h.changes name).1 hupdated
    rw [mem_names, h.lookup_left] at hadded
    cases hassigned : assigned (splitLines text) name with
    | nil => simp [hassigned] at hold
    | cons => simp [hassigned] at hadded

/-- The values that the lines of a file assign after an update. -/
theorem assigned_textAfter (hclean : ∀ v ∈ new, Clean v.1) (hnames : (new.map Prod.fst).Nodup)
    (hvalues : ∀ v ∈ new, ∀ c ∈ v.2, Text.isLineBreak c = false) (text : List Char)
    (name : String) : assigned (splitLines (textAfter new text)) name =
      match new.lookup name with
      | none => assigned (splitLines text) name
      | some value => value :: (assigned (splitLines text) name).tail := by
  unfold textAfter
  split
  · rename_i hsame
    cases hnew : new.lookup name with
    | none => rfl
    | some value =>
      have hhead : (assigned (splitLines text) name).head? = some value := by
        by_contra hne
        have := (mem_changed hclean text name).2 ⟨value, hnew, hne⟩
        simp [hsame] at this
      exact List.eq_cons_of_mem_head? hhead
  · rw [Text.splitLines_joinLines, assigned_update hclean hnames]
    intro l hl c hc
    rcases of_mem_update hclean text hl with hl | ⟨v, hv, rfl⟩
    · exact Text.not_isLineBreak_of_mem_splitLines hl hc
    · exact not_isLineBreak_of_mem_line (hclean v hv) (hvalues v hv) hc

/-! ### What can be stored -/

/-- The settings `loaded` are the settings `old` with the values `new`, and `names` are the names
of those that differed. -/
structure Applied (new old loaded : Values) (names : List String) : Prop where
  given : ∀ v ∈ new, loaded.lookup v.1 = some v.2
  others : ∀ name, (∀ v ∈ new, v.1 ≠ name) → loaded.lookup name = old.lookup name
  nodup : names.Nodup
  mem : ∀ name, name ∈ names ↔ ∃ v ∈ new, v.1 = name ∧ old.lookup name ≠ some v.2

/-- Whether a value can be stored for a name so that it is read back: neither breaks a line, and
where several lines are there for the name, the first and the last one have that value already. -/
structure Storable (text : List Char) (name : String) (value : List Char) : Prop where
  unbrokenName : '\n' ∉ name.toList
  unbrokenValue : ∀ c ∈ value, Text.isLineBreak c = false
  agreement : (assigned (splitLines text) name).length ≤ 1 ∨
    (assigned (splitLines text) name).head? = some value ∧
      (assigned (splitLines text) name).getLast? = some value

theorem clean_of_check (hcheck : check new = none) {v : String × List Char} (hv : v ∈ new)
    (hnewline : '\n' ∉ v.1.toList) : Clean v.1 := by
  refine ⟨?_, hnewline⟩
  have hv := List.findSome?_eq_none_iff.1 hcheck v hv
  by_contra hname
  rw [Bool.not_eq_true] at hname
  simp [hname] at hv

/-- Replacing the first value of a list by another one, seen from the last one. -/
theorem first_iff_last {old : List (List Char)} {value : List Char} :
    ((value :: old.tail).getLast? = some value ∧
      (old.head? ≠ some value ↔ old.getLast? ≠ some value)) ↔
      (old.length ≤ 1 ∨ old.head? = some value ∧ old.getLast? = some value) := by
  rcases old with _ | ⟨first, _ | ⟨second, rest⟩⟩
  · simp
  · simp
  · have hlong : ¬ (first :: second :: rest).length ≤ 1 := by simp
    rw [List.tail_cons, List.getLast?_cons_cons, List.getLast?_cons_cons, List.head?_cons]
    constructor
    · rintro ⟨hlast, hiff⟩
      refine .inr ⟨?_, hlast⟩
      by_contra hne
      exact hiff.1 hne hlast
    · rintro (h | ⟨hfirst, hlast⟩)
      · exact absurd h hlong
      · exact ⟨hlast, by simp [hfirst, hlast]⟩

theorem exists_given_iff (hnames : (new.map Prod.fst).Nodup) {v : String × List Char}
    (hv : v ∈ new) (P : List Char → Prop) : (∃ w ∈ new, w.1 = v.1 ∧ P w.2) ↔ P v.2 := by
  constructor
  · rintro ⟨w, hw, hname, hP⟩
    have hvalue : w.2 = v.2 := by
      have := lookup_of_mem hnames hw
      rw [hname, lookup_of_mem hnames hv] at this
      exact (Option.some.inj this).symm
    exact hvalue ▸ hP
  · exact fun hP => ⟨v, hv, rfl, hP⟩

/-- For names and values that break no line all hangs on the lines that are there. -/
theorem applied_iff_of_clean (hclean : ∀ v ∈ new, Clean v.1) (hnames : (new.map Prod.fst).Nodup)
    (hvalues : ∀ v ∈ new, ∀ c ∈ v.2, Text.isLineBreak c = false) (text : List Char) :
    Applied new (values text) (values (textAfter new text)) (changed new text) ↔
      ∀ v ∈ new, (assigned (splitLines text) v.1).length ≤ 1 ∨
        (assigned (splitLines text) v.1).head? = some v.2 ∧
          (assigned (splitLines text) v.1).getLast? = some v.2 := by
  have hgiven : ∀ v ∈ new, (values (textAfter new text)).lookup v.1 =
      (v.2 :: (assigned (splitLines text) v.1).tail).getLast? := by
    intro v hv
    rw [lookup_values, assigned_textAfter hclean hnames hvalues, lookup_of_mem hnames hv]
  have htold : ∀ v ∈ new,
      (v.1 ∈ changed new text ↔ (assigned (splitLines text) v.1).head? ≠ some v.2) := by
    intro v hv
    rw [mem_changed hclean, lookup_of_mem hnames hv]
    simp
  have hdiffers : ∀ v ∈ new,
      ((∃ w ∈ new, w.1 = v.1 ∧ (values text).lookup v.1 ≠ some w.2) ↔
        (assigned (splitLines text) v.1).getLast? ≠ some v.2) := by
    intro v hv
    rw [← lookup_values]
    exact exists_given_iff hnames hv fun value => (values text).lookup v.1 ≠ some value
  constructor
  · intro h v hv
    exact first_iff_last.1 ⟨hgiven v hv ▸ h.given v hv, by rw [← htold v hv, h.mem, hdiffers v hv]⟩
  · intro h
    have h := fun v hv => first_iff_last.2 (h v hv)
    refine ⟨fun v hv => (hgiven v hv).trans (h v hv).1, fun name hother => ?_,
      nodup_changed hclean hnames text, fun name => ?_⟩
    · rw [lookup_values, lookup_values, assigned_textAfter hclean hnames hvalues,
        lookup_eq_none.2 hother]
    · by_cases hname : name ∈ new.map Prod.fst
      · obtain ⟨v, hv, rfl⟩ := List.mem_map.1 hname
        rw [htold v hv, (h v hv).2, hdiffers v hv]
      · constructor
        · intro hmem
          obtain ⟨value, hvalue, -⟩ := (mem_changed hclean text name).1 hmem
          exact absurd (mem_names.2 (by rw [hvalue]; simp)) hname
        · rintro ⟨v, hv, rfl, -⟩
          exact absurd (List.mem_map_of_mem hv) hname

/-- An update does what it should just if each of its values can be stored. -/
theorem applied_iff (hcheck : check new = none) (hnames : (new.map Prod.fst).Nodup)
    (text : List Char) :
    Applied new (values text) (values (textAfter new text)) (changed new text) ↔
      ∀ v ∈ new, Storable text v.1 v.2 := by
  constructor
  · intro h v hv
    have hplain := fun v hv => plain_of_lookup (h.given v hv)
    have hclean := fun v hv => clean_of_check hcheck hv (hplain v hv).1
    exact ⟨(hplain v hv).1, (hplain v hv).2,
      (applied_iff_of_clean hclean hnames (fun v hv => (hplain v hv).2) text).1 h v hv⟩
  · intro h
    have hclean := fun v hv => clean_of_check hcheck hv (h v hv).unbrokenName
    exact (applied_iff_of_clean hclean hnames (fun v hv => (h v hv).unbrokenValue) text).2
      fun v hv => (h v hv).agreement

end BootImage.Settings
