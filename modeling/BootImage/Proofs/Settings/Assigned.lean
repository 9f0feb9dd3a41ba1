import BootImage.Settings.Store
import Mathlib.Data.List.Basic
import Mathlib.Data.List.TakeWhile

/-!
# What lines assign

The lines of a file assign values to names, and a name may have several lines. The settings that are
read from a file are the last values, whatever stands between.

The characters of what is read stem from the line, so no value that is read holds a line break, and
no name that is read holds anything but letters, digits and underscores. This decides which settings
a file can hold at all.

## Main definitions

* `assigned`: the values that lines assign to a name, in order.

## Main results

* `lookup_values`: the settings of a file are the values assigned last.
* `assignment?_line`: the line of a setting assigns it.
* `Assigned.of_text`: names and values that are read are plain.
-/

namespace BootImage

namespace Text

/-- There are no line breaks inside lines. -/
theorem not_isLineBreak_of_mem_splitLinesFrom {acc s line : List Char} {c : Char}
    (hacc : ∀ c ∈ acc, isLineBreak c = false) (hline : line ∈ splitLinesFrom acc s)
    (hc : c ∈ line) : isLineBreak c = false := by
  fun_induction splitLinesFrom acc s with
  | case1 acc hempty => simp at hline
  | case2 acc hempty =>
    rw [List.mem_singleton] at hline
    subst hline
    exact hacc c (List.mem_reverse.1 hc)
  | case3 acc rest ih =>
    rcases List.mem_cons.1 hline with rfl | hline
    · exact hacc c (List.mem_reverse.1 hc)
    · exact ih (by simp) hline
  | case4 acc d rest hcr hbreak ih =>
    rcases List.mem_cons.1 hline with rfl | hline
    · exact hacc c (List.mem_reverse.1 hc)
    · exact ih (by simp) hline
  | case5 acc d rest hcr hbreak ih =>
    exact ih (List.forall_mem_cons.2 ⟨by simpa using hbreak, hacc⟩) hline

theorem not_isLineBreak_of_mem_splitLines {s line : List Char} {c : Char}
    (hline : line ∈ splitLines s) (hc : c ∈ line) : isLineBreak c = false :=
  not_isLineBreak_of_mem_splitLinesFrom (by simp) hline hc

theorem trim_sublist (s : List Char) : (trim s).Sublist s := by
  refine List.Sublist.trans ?_ (List.dropWhile_sublist isBlank)
  have := List.dropWhile_sublist isBlank (l := (trimStart s).reverse)
  simpa [trim, trimEnd, trimStart] using this.reverse

theorem trim_eq_self {s : List Char} (hhead : ∀ c ∈ s.head?, isBlank c = false)
    (hlast : ∀ c ∈ s.getLast?, isBlank c = false) : trim s = s := by
  rcases s.eq_nil_or_concat' with rfl | ⟨init, last, rfl⟩
  · rfl
  · have hstart : trimStart (init ++ [last]) = init ++ [last] := by
      cases init with
      | nil => exact trimStart_eq_self (hhead last rfl)
      | cons first rest => exact trimStart_eq_self (hhead first rfl)
    rw [trim, hstart, trimEnd_eq_self (hlast last (by simp))]

end Text

namespace Settings

/-! ### The written form of values -/

/-- Quoting adds quotes and backslashes only. -/
theorem of_mem_quote {value : List Char} {c : Char} (h : c ∈ quote value) :
    c = '"' ∨ c = '\\' ∨ c ∈ value := by
  unfold quote at h
  split at h
  · simp only [List.cons_append, List.mem_cons, List.mem_append, escape, List.mem_flatMap,
      List.not_mem_nil, or_false] at h
    rcases h with rfl | ⟨d, hd, hc⟩ | rfl
    · exact .inl rfl
    · split at hc
      · rcases List.mem_cons.1 hc with rfl | hc
        · exact .inr (.inl rfl)
        · rw [List.mem_singleton.1 hc]
          exact .inr (.inr hd)
      · rw [List.mem_singleton.1 hc]
        exact .inr (.inr hd)
    · exact .inl rfl
  · exact .inr (.inr h)

/-- A written value has no blank at its ends. -/
theorem trim_quote (value : List Char) : Text.trim (quote value) = quote value := by
  have hquote : Text.isBlank '"' = false := by decide
  unfold quote
  split
  · have hlast : ('"' :: escape value ++ ['"']).getLast? = some '"' := List.getLast?_concat
    refine Text.trim_eq_self (by simp [hquote]) fun c hc => ?_
    rw [hlast] at hc
    exact Option.some.inj hc ▸ hquote
  · rename_i h
    have hplain : ∀ c ∈ value, Text.isBlank c = false := by
      intro c hc
      by_contra hblank
      exact h (.inr (List.any_eq_true.2 ⟨c, hc, by simp_all [needsQuotes]⟩))
    exact Text.trim_eq_self (fun c hc => hplain c (List.mem_of_mem_head? hc))
      (fun c hc => hplain c (List.mem_of_mem_getLast? hc))

theorem unescape_subset (raw : List Char) : unescape raw ⊆ raw := by
  fun_induction unescape raw with
  | case1 => exact List.Subset.refl _
  | case2 rest ih => exact List.cons_subset_cons _ (List.cons_subset_cons _ ih)
  | case3 c rest hc ih =>
    exact List.Subset.trans (List.cons_subset_cons _ ih) (List.subset_cons_self _ _)
  | case4 c rest _ ih => exact List.cons_subset_cons _ ih

/-- What is read of a written value stems from it. -/
theorem unquote_subset (raw : List Char) : unquote raw ⊆ raw := by
  have hinner : (raw.drop 1).dropLast ⊆ raw :=
    ((List.dropLast_sublist _).trans (List.drop_sublist _ _)).subset
  unfold unquote
  split
  · exact List.Subset.trans (unescape_subset _) hinner
  · split
    · exact hinner
    · exact List.Subset.refl _

/-! ### Lines -/

/-- What a line assigns stems from it. -/
theorem of_assignment? {l value : List Char} {name : String}
    (h : assignment? l = some (name, value)) :
    (∀ c ∈ name.toList, isNamePart c = true) ∧ value ⊆ l := by
  unfold assignment? at h
  simp only at h
  split at h
  · rename_i first rest raw hname hraw
    split at h
    · obtain ⟨rfl, rfl⟩ : String.ofList ((Text.trimStart l).takeWhile isNamePart) = name ∧
          unquote (Text.trim raw) = value := by simpa using h
      refine ⟨fun c hc => ?_, ?_⟩
      · rw [String.toList_ofList] at hc
        exact List.mem_takeWhile_imp hc
      · have hsub : ('=' :: raw).Sublist l := hraw ▸ ((List.dropWhile_sublist _).trans
          ((List.dropWhile_sublist _).trans (List.dropWhile_sublist _)))
        exact List.Subset.trans (unquote_subset _) (List.Subset.trans (Text.trim_sublist raw).subset
          ((List.sublist_cons_self _ _).trans hsub).subset)
    · cases h
  · cases h

/-- The names that a file can hold: those that may be set, but for a newline at the end. -/
structure Clean (name : String) : Prop where
  isName : isName name = true
  noNewline : '\n' ∉ name.toList

theorem Clean.exists_first {name : String} (h : Clean name) : ∃ first rest,
    name.toList = first :: rest ∧ isNameStart first = true ∧
      ∀ c ∈ name.toList, isNamePart c = true := by
  have hvalid := h.isName
  have hlast : name.toList.getLast? ≠ some '\n' := fun heq =>
    h.noNewline (List.mem_of_mem_getLast? heq)
  rw [Settings.isName, if_neg hlast] at hvalid
  cases hname : name.toList with
  | nil => simp [hname] at hvalid
  | cons first rest =>
    simp only [hname, Bool.and_eq_true, Bool.or_eq_true, List.all_eq_true] at hvalid
    have hupper : ∀ c : Char, c.isUpper = true → isNameStart c = true ∧ isNamePart c = true := by
      intro c hc
      have hletter : c.isAlpha = true := Bool.or_eq_true_iff.2 (.inl hc)
      simp [isNameStart, isNamePart, Char.isAlphanum, hletter]
    refine ⟨first, rest, rfl, ?_, List.forall_mem_cons.2 ⟨?_, fun c hc => ?_⟩⟩
    · rcases hvalid.1 with hc | hc
      · exact (hupper first hc).1
      · simp [isNameStart, hc]
    · rcases hvalid.1 with hc | hc
      · exact (hupper first hc).2
      · simp [isNamePart, hc]
    · rcases hvalid.2 c hc with (hc | hc) | hc
      · exact (hupper c hc).2
      · simp [isNamePart, Char.isAlphanum, hc]
      · simp [isNamePart, hc]

theorem isNamePart_range {c : Char} (h : isNamePart c = true) :
    0x30 ≤ c.toNat ∧ c.toNat ≤ 0x7A := by
  have h : (c.isUpper || c.isLower || c.isDigit || c == '_') = true := h
  simp only [Bool.or_eq_true, beq_iff_eq] at h
  rcases h with ((h | h) | h) | rfl
  · have hletter : c.val ≥ 'A'.val ∧ c.val ≤ 'Z'.val := of_decide_eq_true h
    have : 0x41 ≤ c.toNat ∧ c.toNat ≤ 0x5A := hletter
    omega
  · have hbounds : (decide (c.val ≥ 'a'.val) && decide (c.val ≤ 'z'.val)) = true := h
    have hletter : c.val ≥ 'a'.val ∧ c.val ≤ 'z'.val := by
      simpa only [Bool.and_eq_true, decide_eq_true_eq] using hbounds
    have : 0x61 ≤ c.toNat ∧ c.toNat ≤ 0x7A := hletter
    omega
  · have := Char.isDigit_iff_toNat.1 h
    simp only [Char.reduceToNat] at this
    omega
  · decide

theorem isBlank_of_isNamePart {c : Char} (h : isNamePart c = true) : Text.isBlank c = false := by
  have := isNamePart_range h
  simp only [Text.isBlank, Bool.or_eq_false_iff, Bool.and_eq_false_iff, decide_eq_false_iff_not,
    beq_eq_false_iff_ne]
  omega

/-- The line of a setting assigns it. -/
theorem assignment?_line {name : String} (h : Clean name) (value : List Char) :
    assignment? (line name value) = some (name, value) := by
  obtain ⟨first, rest, hname, hfirst, hparts⟩ := h.exists_first
  have hstart : Text.trimStart (line name value) = name.toList ++ '=' :: quote value := by
    rw [line, hname, List.cons_append]
    exact Text.trimStart_eq_self (isBlank_of_isNamePart (hparts first (by simp [hname])))
  have htake : (name.toList ++ '=' :: quote value).takeWhile isNamePart = name.toList := by
    rw [List.takeWhile_append_of_pos hparts, List.takeWhile_cons_of_neg (by decide),
      List.append_nil]
  have hdrop : (name.toList ++ '=' :: quote value).dropWhile isNamePart = '=' :: quote value := by
    rw [List.dropWhile_append_of_pos hparts, List.dropWhile_cons_of_neg (by decide)]
  have hsign : Text.trimStart ('=' :: quote value) = '=' :: quote value :=
    Text.trimStart_eq_self (by decide)
  unfold assignment?
  simp only [hstart, htake, hdrop, hsign]
  rw [hname]
  simp only [hfirst, if_true, trim_quote, unquote_quote]
  rw [← hname, String.ofList_toList]

theorem not_isLineBreak_of_isNamePart {c : Char} (h : isNamePart c = true) :
    Text.isLineBreak c = false := by
  have := isNamePart_range h
  simp only [Text.isLineBreak, Bool.or_eq_false_iff, Bool.and_eq_false_iff,
    decide_eq_false_iff_not, beq_eq_false_iff_ne]
  omega

/-- The line of a setting is one line. -/
theorem not_isLineBreak_of_mem_line {name : String} {value : List Char} (h : Clean name)
    (hvalue : ∀ c ∈ value, Text.isLineBreak c = false) {c : Char} (hc : c ∈ line name value) :
    Text.isLineBreak c = false := by
  obtain ⟨-, -, -, -, hparts⟩ := h.exists_first
  rw [line, List.mem_append, List.mem_cons] at hc
  rcases hc with hc | rfl | hc
  · exact not_isLineBreak_of_isNamePart (hparts c hc)
  · decide
  · rcases of_mem_quote hc with rfl | rfl | hc
    · decide
    · decide
    · exact hvalue c hc

/-! ### Several lines -/

/-- The value of an assignment, if it is one to the given name. -/
def valueFor (name : String) (a : String × List Char) : Option (List Char) :=
  if a.1 = name then some a.2 else none

/-- The values that lines assign to a name, in the order of the lines. -/
def assigned (lines : List (List Char)) (name : String) : List (List Char) :=
  (lines.filterMap assignment?).filterMap (valueFor name)

@[simp] theorem assigned_nil (name : String) : assigned [] name = [] := rfl

theorem assigned_append (lines more : List (List Char)) (name : String) :
    assigned (lines ++ more) name = assigned lines name ++ assigned more name := by
  simp [assigned]

theorem assigned_cons (l : List Char) (lines : List (List Char)) (name : String) :
    assigned (l :: lines) name =
      ((assignment? l).bind (valueFor name)).toList ++ assigned lines name := by
  cases h : assignment? l with
  | none => simp [assigned, h]
  | some a => cases ha : valueFor name a <;> simp [assigned, h, ha]

theorem assigned_cons_self {l value : List Char} {name : String}
    (h : assignment? l = some (name, value)) (lines : List (List Char)) :
    assigned (l :: lines) name = value :: assigned lines name := by
  simp [assigned_cons, h, valueFor]

theorem assigned_cons_of_ne {l : List Char} {name : String}
    (h : ∀ a ∈ assignment? l, a.1 ≠ name) (lines : List (List Char)) :
    assigned (l :: lines) name = assigned lines name := by
  cases ha : assignment? l with
  | none => simp [assigned_cons, ha]
  | some a => simp [assigned_cons, ha, valueFor, h a ha]

theorem assigned_cons_other {l value : List Char} {name other : String}
    (h : assignment? l = some (name, value)) (hne : other ≠ name) (lines : List (List Char)) :
    assigned (l :: lines) other = assigned lines other := by
  refine assigned_cons_of_ne (fun a ha heq => hne ?_) lines
  rw [h, Option.mem_some_iff] at ha
  rw [← heq, ← ha]

theorem exists_of_mem_assigned {lines : List (List Char)} {name : String} {value : List Char}
    (h : value ∈ assigned lines name) : ∃ l ∈ lines, assignment? l = some (name, value) := by
  simp only [assigned, List.mem_filterMap, valueFor] at h
  obtain ⟨a, ⟨l, hl, ha⟩, hvalue⟩ := h
  split at hvalue
  · rename_i hname
    obtain rfl := Option.some.inj hvalue
    subst hname
    exact ⟨l, hl, ha⟩
  · cases hvalue

/-! ### The settings of a file -/

theorem lookup_cons (v : String × List Char) (vs : Values) (name : String) :
    List.lookup name (v :: vs) = if v.1 = name then some v.2 else vs.lookup name := by
  rw [List.lookup_cons]
  by_cases h : v.1 = name
  · simp [h]
  · simp [h, beq_eq_false_iff_ne.2 (Ne.symm h)]

theorem lookup_eq_none {vs : Values} {name : String} :
    vs.lookup name = none ↔ ∀ v ∈ vs, v.1 ≠ name := by
  simp only [List.lookup_eq_none_iff, bne_iff_ne, ne_comm]

/-- A value that is stored is found, and the others stay. -/
theorem lookup_insert (vs : Values) (name other : String) (value : List Char) :
    (insert vs name value).lookup other =
      if name = other then some value else vs.lookup other := by
  have hmap : (vs.map fun v => if v.1 = name then (name, value) else v).lookup other =
      if name = other then (vs.lookup name).map fun _ => value else vs.lookup other := by
    induction vs with
    | nil => simp
    | cons v vs ih =>
      rw [List.map_cons, lookup_cons, ih, lookup_cons, lookup_cons]
      by_cases hv : v.1 = name
      · by_cases ho : name = other <;> simp [hv, ho]
      · by_cases ho : name = other
        · simp [ho ▸ hv, ho]
        · simp [hv, ho]
  unfold insert
  split
  · rename_i hany
    have hsome : vs.lookup name ≠ none := by
      rw [Ne, lookup_eq_none]
      simpa using hany
    obtain ⟨old, hold⟩ := Option.ne_none_iff_exists'.1 hsome
    rw [hmap, hold, Option.map_some]
  · rename_i hany
    have hnone : vs.lookup name = none := lookup_eq_none.2 fun v hv heq =>
      hany (List.any_eq_true.2 ⟨v, hv, by simpa using heq⟩)
    rw [List.lookup_append, lookup_cons, List.lookup_nil]
    by_cases ho : name = other
    · rw [if_pos ho, if_pos ho, ← ho, hnone, Option.none_or]
    · rw [if_neg ho, if_neg ho, Option.or_none]

/-- The settings of a file are the values that are assigned last. -/
theorem lookup_values (text : List Char) (name : String) :
    (values text).lookup name = (assigned (Text.splitLines text) name).getLast? := by
  have hfold : ∀ (pairs : List (String × List Char)) (vs : Values),
      (pairs.foldl (fun vs a => insert vs a.1 a.2) vs).lookup name =
        (pairs.filterMap (valueFor name)).getLast?.or (vs.lookup name) := by
    intro pairs
    induction pairs with
    | nil => exact fun _ => rfl
    | cons a pairs ih =>
      intro vs
      rw [List.foldl_cons, ih, lookup_insert]
      by_cases ha : a.1 = name
      · have hvalue : valueFor name a = some a.2 := if_pos ha
        rw [if_pos ha, List.filterMap_cons_some hvalue, List.getLast?_cons]
        cases (pairs.filterMap (valueFor name)).getLast? <;> rfl
      · have hvalue : valueFor name a = none := if_neg ha
        rw [if_neg ha, List.filterMap_cons_none hvalue]
  exact (hfold _ []).trans (by rw [List.lookup_nil, Option.or_none, assigned])

/-- What a file holds is plain: no name has a newline, and no value a line break. -/
theorem plain_of_lookup {text value : List Char} {name : String}
    (h : (values text).lookup name = some value) :
    '\n' ∉ name.toList ∧ ∀ c ∈ value, Text.isLineBreak c = false := by
  rw [lookup_values] at h
  obtain ⟨l, hl, hassign⟩ := exists_of_mem_assigned (List.mem_of_getLast? h)
  obtain ⟨hname, hvalue⟩ := of_assignment? hassign
  exact ⟨fun hmem => absurd (hname _ hmem) (by decide), fun c hc =>
    Text.not_isLineBreak_of_mem_splitLines hl (hvalue hc)⟩

end Settings

end BootImage
