import BootImage.Fat.Tree
import BootImage.Proofs.Fat.Record
import BootImage.Proofs.Text.Folding
import Mathlib.Data.List.TakeWhile

/-!
# Names as they are read back

What is stored of a name is not the name: parts of a long name are decoded one by one, and a plain
name is made again from upper case and two bits. A name whose surrogate pairs lie each in one slot,
and which has no dotless i, is read back up to case, and one of ASCII exactly as it was.

An entry answers to the name that is read and to its short name. For an entry without a long name
these are the same up to case; the short name of any other is an alias, which has a tilde before a
digit. Names without such a mark are therefore told apart by what is read alone.

## Main definitions

* `hasMark`: whether a tilde stands before a digit.
* `HasAlias`: whether a name can be given an alias that is read like a key.
* `Legible`: whether a name is read back up to case.

## Main results

* `fold_shown`, `shown_eq`: what is read of a name that was stored.
* `answersTo_entry`: which names an entry answers to.
-/

namespace BootImage.Fat

/-! ### The mark of an alias -/

/-- Whether a tilde stands before a digit, as it does in every alias. -/
def hasMark : List Char → Bool
  | c :: d :: rest => c = '~' && d.isDigit || hasMark (d :: rest)
  | _ => false

theorem hasMark_cons (c : Char) (s : List Char) : hasMark (c :: s) = true ↔
    (c = '~' ∧ ∃ d rest, s = d :: rest ∧ d.isDigit = true) ∨ hasMark s = true := by
  cases s with
  | nil => simp [hasMark]
  | cons d rest => simp [hasMark]

theorem hasMark_eq_false_of_notMem {s : List Char} (h : '~' ∉ s) : hasMark s = false := by
  induction s with
  | nil => rfl
  | cons c s ih =>
    rw [List.mem_cons, not_or] at h
    rw [← Bool.not_eq_true, hasMark_cons, ih h.2]
    rintro (⟨rfl, -⟩ | hfalse)
    · exact h.1 rfl
    · cases hfalse

theorem hasMark_append {s t : List Char} (h : hasMark (s ++ t) = true) :
    hasMark s = true ∨ hasMark t = true ∨
      '~' ∈ s ∧ ∃ d rest, t = d :: rest ∧ d.isDigit = true := by
  induction s with
  | nil => exact .inr (.inl h)
  | cons c s ih =>
    rw [List.cons_append, hasMark_cons] at h
    rcases h with ⟨rfl, d, rest, heq, hd⟩ | h
    · cases s with
      | nil => exact .inr (.inr ⟨List.mem_cons_self, d, rest, heq, hd⟩)
      | cons c s =>
        obtain ⟨rfl, -⟩ := List.cons.inj heq
        exact .inl ((hasMark_cons ..).2 (.inl ⟨rfl, c, s, rfl, hd⟩))
    · rcases ih h with h | h | ⟨hmem, h⟩
      · exact .inl ((hasMark_cons ..).2 (.inr h))
      · exact .inr (.inl h)
      · exact .inr (.inr ⟨List.mem_cons_of_mem _ hmem, h⟩)

theorem hasMark_append_mark (s t : List Char) {d : Char} (hd : d.isDigit = true) :
    hasMark (s ++ '~' :: d :: t) = true := by
  induction s with
  | nil => exact (hasMark_cons ..).2 (.inl ⟨rfl, d, t, rfl, hd⟩)
  | cons c s ih => exact (hasMark_cons ..).2 (.inr ih)

/-- Folding marks no name that has no mark. -/
theorem hasMark_of_fold {s : List Char} (h : hasMark (Text.fold s) = true) : hasMark s = true := by
  induction s with
  | nil => exact h
  | cons c s ih =>
    rw [Text.fold_cons] at h
    have htilde : '~' ∈ Text.foldChar c → c = '~' ∧ Text.foldChar c = ['~'] := by
      intro hmem
      obtain rfl := Text.eq_tilde_of_mem_foldChar hmem
      exact ⟨rfl, by decide⟩
    rcases hasMark_append h with h | h | ⟨hmem, d, rest, heq, hd⟩
    · exfalso
      by_cases hmem : '~' ∈ Text.foldChar c
      · rw [(htilde hmem).2] at h
        cases h
      · rw [hasMark_eq_false_of_notMem hmem] at h
        cases h
    · exact (hasMark_cons ..).2 (.inr (ih h))
    · refine (hasMark_cons ..).2 (.inl ⟨(htilde hmem).1, ?_⟩)
      cases s with
      | nil => cases heq
      | cons e s =>
        rw [Text.fold_cons] at heq
        cases hfold : Text.foldChar e with
        | nil => exact absurd hfold (Text.foldChar_ne_nil e)
        | cons u us =>
          rw [hfold, List.cons_append, List.cons.injEq] at heq
          obtain ⟨rfl, -⟩ := heq
          obtain rfl := Text.eq_of_foldChar_eq_cons hfold hd
          exact ⟨e, s, rfl, hd⟩

theorem foldChar_of_isDigit {d : Char} (h : d.isDigit = true) : Text.foldChar d = [d] := by
  have hrange := Char.isDigit_iff_toNat.1 h
  simp only [Char.reduceToNat] at hrange
  have hall : ∀ n < 0x3A, 0x30 ≤ n → Text.foldChar (Char.ofNat n) = [Char.ofNat n] := by decide
  have := hall d.toNat (by omega) (by omega)
  rwa [Char.ofNat_toNat] at this

/-- A name with a mark still has it when it is folded. -/
theorem hasMark_fold_append_mark (s t : List Char) {d : Char} (hd : d.isDigit = true) :
    hasMark (Text.fold (s ++ '~' :: d :: t)) = true := by
  have htilde : Text.foldChar '~' = ['~'] := by decide
  rw [Text.fold_append, Text.fold_cons, Text.fold_cons, htilde, foldChar_of_isDigit hd]
  exact hasMark_append_mark _ _ hd

/-! ### What a short name is shown as -/

/-- A base and an extension put together. -/
def joinParts (base extension : List Char) : List Char :=
  base ++ if extension = [] then [] else '.' :: extension

/-- A part of a short name, in lower case if its bit is set. -/
def inCase (caseBits bit : Nat) (part : List Char) : List Char :=
  if caseBits &&& bit ≠ 0 then Text.lowerLatin part else part

theorem inCase_zero (bit : Nat) (part : List Char) : inCase 0 bit part = part := by
  rw [inCase, Nat.zero_and, if_neg (by simp)]

theorem inCase_nil (caseBits bit : Nat) : inCase caseBits bit [] = [] := by
  rw [inCase]
  split <;> rfl

theorem inCase_ne_nil {part : List Char} (h : part ≠ []) (caseBits bit : Nat) :
    inCase caseBits bit part ≠ [] := by
  rw [inCase, Text.lowerLatin]
  split
  · simpa using h
  · exact h

theorem latinText_asciiBytes {s : List Char} (h : ∀ c ∈ s, c.toNat < 0x100) :
    latinText (asciiBytes s) = s := by
  rw [latinText, asciiBytes, List.map_map]
  refine (List.map_congr_left fun c hc => ?_).trans (List.map_id s)
  rw [Function.comp, UInt8.toNat_ofNat', Nat.mod_eq_of_lt (h c hc), Char.ofNat_toNat, id]

/-- The filling behind a text that does not end in a blank is trimmed off. -/
theorem trimEnd_padRight (width : Nat) {s : List Char} (h : ∀ c ∈ s, Text.isBlank c = false) :
    Text.trimEnd (Text.padRight width s) = s := by
  have hspace : Text.isBlank ' ' = true := by decide
  rw [Text.padRight]
  generalize width - s.length = n
  induction n with
  | zero =>
    rw [List.replicate_zero, List.append_nil]
    rcases List.eq_nil_or_concat' s with rfl | ⟨t, c, rfl⟩
    · rfl
    · exact Text.trimEnd_eq_self (h c (by simp))
  | succ n ih =>
    rw [List.replicate_succ', ← List.append_assoc, Text.trimEnd, List.reverse_append,
      List.reverse_singleton, List.singleton_append, List.dropWhile_cons_of_pos hspace]
    exact ih

theorem shortChar_facts {s : List Char} (h : s.all isShortChar = true) :
    ∀ c ∈ s, 0x21 ≤ c.toNat ∧ c.toNat < 0x80 ∧ Text.isBlank c = false := by
  intro c hc
  obtain ⟨hlow, hhigh, -⟩ := isShortChar_range (List.all_eq_true.1 h c hc)
  have hall : ∀ n < 0x7F, 0x21 ≤ n → Text.isBlank (Char.ofNat n) = false := by decide
  have := hall c.toNat (by omega) hlow
  rw [Char.ofNat_toNat] at this
  exact ⟨hlow, by omega, this⟩

/-- A part of a short name is read without its filling. -/
theorem trimEnd_padRight_asciiBytes (width : Nat) {s : List Char} (h : s.all isShortChar = true) :
    Text.trimEnd (latinText (asciiBytes (Text.padRight width s))) = s := by
  have hs := shortChar_facts h
  have hspace : (' ' : Char).toNat < 0x100 := by decide
  rw [latinText_asciiBytes, trimEnd_padRight width fun c hc => (hs c hc).2.2]
  intro c hc
  rcases List.mem_append.1 hc with hc | hc
  · have := (hs c hc).2.1
    omega
  · rw [(List.mem_replicate.1 hc).2]
    exact hspace

theorem length_asciiBytes_padRight {width : Nat} {s : List Char} (h : s.length ≤ width) :
    (asciiBytes (Text.padRight width s)).length = width := by
  rw [asciiBytes, List.length_map, Text.length_padRight]
  omega

theorem asciiBytes_elevenChars (base extension : List Char) :
    asciiBytes (elevenChars base extension) =
      asciiBytes (Text.padRight 8 base) ++ asciiBytes (Text.padRight 3 extension) := by
  rw [elevenChars, asciiBytes, List.map_append]
  rfl

theorem shortDisplay_cons {b : UInt8} {rest : Bytes} (h : b ≠ firstByteSubstitute)
    (caseBits : Nat) : shortDisplay (b :: rest) caseBits = String.ofList
      (if inCase caseBits lowerExtension (Text.trimEnd (latinText ((b :: rest).drop 8))) = [] then
        inCase caseBits lowerBase (Text.trimEnd (latinText ((b :: rest).take 8)))
      else inCase caseBits lowerBase (Text.trimEnd (latinText ((b :: rest).take 8))) ++
        '.' :: inCase caseBits lowerExtension (Text.trimEnd (latinText ((b :: rest).drop 8)))) := by
  rw [shortDisplay]
  simp only [if_neg h]
  rfl

/-- What a short name of legal characters is shown as. -/
theorem toList_shortDisplay {base extension : List Char} (caseBits : Nat) (hne : base ≠ [])
    (hb : base.length ≤ 8) (hall : base.all isShortChar = true)
    (hall' : extension.all isShortChar = true) :
    (shortDisplay (asciiBytes (elevenChars base extension)) caseBits).toList =
      joinParts (inCase caseBits lowerBase base) (inCase caseBits lowerExtension extension) := by
  have hbase := shortChar_facts hall
  have hlen : (asciiBytes (Text.padRight 8 base)).length = 8 := length_asciiBytes_padRight hb
  have hfirst : ∃ b rest, asciiBytes (elevenChars base extension) = b :: rest ∧
      b ≠ firstByteSubstitute := by
    obtain ⟨c, base, rfl⟩ := List.exists_cons_of_ne_nil hne
    have hc := hbase c List.mem_cons_self
    refine ⟨_, _, rfl, fun heq => ?_⟩
    have := congrArg UInt8.toNat heq
    rw [UInt8.toNat_ofNat', Nat.mod_eq_of_lt (by omega)] at this
    simp only [firstByteSubstitute, UInt8.reduceToNat] at this
    omega
  obtain ⟨b, rest, heq, hb5⟩ := hfirst
  rw [heq, shortDisplay_cons hb5, String.toList_ofList, ← heq, asciiBytes_elevenChars,
    List.take_left' hlen, List.drop_left' hlen, trimEnd_padRight_asciiBytes 8 hall,
    trimEnd_padRight_asciiBytes 3 hall']
  by_cases hnil : extension = []
  · subst hnil
    rw [joinParts, inCase_nil, if_pos rfl, if_pos rfl, List.append_nil]
  · have hcase := inCase_ne_nil hnil caseBits lowerExtension
    rw [joinParts, if_neg hcase, if_neg hcase]

theorem fold_joinParts {base extension base' extension' : List Char}
    (hb : Text.fold base = Text.fold base') (he : Text.fold extension = Text.fold extension')
    (hnil : extension = [] ↔ extension' = []) :
    Text.fold (joinParts base extension) = Text.fold (joinParts base' extension') := by
  rw [joinParts, joinParts, Text.fold_append, Text.fold_append, hb]
  by_cases hne : extension = []
  · rw [if_pos hne, if_pos (hnil.1 hne)]
  · rw [if_neg hne, if_neg (hne ∘ hnil.2), Text.fold_cons, Text.fold_cons, he]

/-! ### Plain names -/

/-- What a part of a plain name is shown as. -/
theorem inCase_upper {part : List Char} {bit bits caseBits : Nat} (hbit : bit ≠ 0)
    (h : partCase part bit = some bits) (hcase : caseBits &&& bit = bits) :
    Text.fold (inCase caseBits bit (Text.upper part)) = Text.fold (Text.upper part) ∧
      ('ı' ∉ part → Text.fold (inCase caseBits bit (Text.upper part)) = Text.fold part) ∧
      ((∀ c ∈ part, c.toNat < 0x80) → inCase caseBits bit (Text.upper part) = part) := by
  obtain ⟨hlen, hall, hcases⟩ := partCase_eq_some h
  have hshort := shortChar_facts hall
  rw [inCase, hcase]
  rcases hcases with ⟨hupper, rfl⟩ | ⟨hlower, rfl⟩
  · rw [if_neg (by simp), ← hupper]
    exact ⟨rfl, fun _ => rfl, fun _ => rfl⟩
  · rw [if_pos hbit]
    refine ⟨Text.fold_lowerLatin fun c hc => (hshort c hc).2.1, ?_⟩
    refine Text.lowerLatin_upper hlen (fun u hu => ?_) hlower.symm
    have hrange := hshort u hu
    omega

/-- What a plain name is shown as, and its short name alone. -/
theorem PlainParts.shown {name : String} {short : Bytes} {caseBits : Nat}
    {base extension : List Char} (h : PlainParts name short caseBits base extension) :
    Text.fold (shortDisplay short 0).toList = Text.fold (shortDisplay short caseBits).toList ∧
      ('ı' ∉ name.toList →
        Text.fold (shortDisplay short caseBits).toList = Text.fold name.toList) ∧
      ((∀ c ∈ name.toList, c.toNat < 0x80) → shortDisplay short caseBits = name) := by
  obtain ⟨baseCase, hbase⟩ := h.base_case
  obtain ⟨extensionCase, hextension⟩ := h.extension_case
  obtain ⟨hlen, hall, hbits⟩ := partCase_eq_some hbase
  obtain ⟨hlen', hall', hbits'⟩ := partCase_eq_some hextension
  have hcase : caseBits &&& lowerBase = baseCase ∧ caseBits &&& lowerExtension = extensionCase := by
    rw [h.case_eq _ _ hbase hextension]
    rcases hbits with ⟨-, rfl⟩ | ⟨-, rfl⟩ <;> rcases hbits' with ⟨-, rfl⟩ | ⟨-, rfl⟩ <;> decide
  obtain ⟨hfold, hfold₁, heq⟩ := inCase_upper (by decide) hbase hcase.1
  obtain ⟨hfold', hfold₁', heq'⟩ := inCase_upper (by decide) hextension hcase.2
  have hne : Text.upper base ≠ [] := by
    rw [← List.length_pos_iff, hlen, List.length_pos_iff]
    exact h.base_ne
  have hnil : Text.upper extension = [] ↔ extension = [] := by
    rw [← List.length_eq_zero_iff, hlen', List.length_eq_zero_iff]
  have hnil' : inCase caseBits lowerExtension (Text.upper extension) = [] ↔
      Text.upper extension = [] :=
    ⟨fun hin => by_contra fun hne => inCase_ne_nil hne _ _ hin, fun hup => by rw [hup, inCase_nil]⟩
  have hshow := fun bits => toList_shortDisplay bits hne (hlen ▸ h.base_length) hall hall'
  have hname : name.toList = joinParts base extension := h.name_eq
  have hsub : (∀ c ∈ base, c ∈ name.toList) ∧ ∀ c ∈ extension, c ∈ name.toList := by
    rw [hname, joinParts]
    refine ⟨fun c hc => List.mem_append_left _ hc, fun c hc => List.mem_append_right _ ?_⟩
    rw [if_neg (List.ne_nil_of_mem hc)]
    exact List.mem_cons_of_mem _ hc
  rw [h.short_eq, hshow 0, hshow caseBits, inCase_zero, inCase_zero]
  refine ⟨fold_joinParts hfold.symm hfold'.symm hnil'.symm, fun hdotless => ?_, fun hascii => ?_⟩
  · rw [hname]
    exact fold_joinParts (hfold₁ fun hc => hdotless (hsub.1 _ hc))
      (hfold₁' fun hc => hdotless (hsub.2 _ hc)) (hnil'.trans hnil)
  · refine String.toList_injective ?_
    rw [hshow caseBits, hname, heq fun c hc => hascii c (hsub.1 c hc),
      heq' fun c hc => hascii c (hsub.2 c hc)]

/-- A plain name is of ASCII unless it has one of the two other characters whose upper case is. -/
theorem PlainParts.ascii_iff {name : String} {short : Bytes} {caseBits : Nat}
    {base extension : List Char} (h : PlainParts name short caseBits base extension) :
    (∀ c ∈ name.toList, c.toNat < 0x80) ↔ 'ı' ∉ name.toList ∧ 'ſ' ∉ name.toList := by
  obtain ⟨baseCase, hbase⟩ := h.base_case
  obtain ⟨extensionCase, hextension⟩ := h.extension_case
  obtain ⟨hlen, hall, -⟩ := partCase_eq_some hbase
  obtain ⟨hlen', hall', -⟩ := partCase_eq_some hextension
  have hname := h.name_eq
  constructor
  · intro hascii
    exact ⟨fun hc => absurd (hascii _ hc) (by decide), fun hc => absurd (hascii _ hc) (by decide)⟩
  · rintro ⟨hdotless, hlong⟩
    have hpart : ∀ part, (Text.upper part).length = part.length →
        (Text.upper part).all isShortChar = true → (∀ c ∈ part, c ∈ name.toList) →
        ∀ c ∈ part, c.toNat < 0x80 := by
      intro part hlen hall hsub
      refine Text.ascii_of_upper hlen (fun u hu => ?_) (hdotless ∘ hsub _) (hlong ∘ hsub _)
      have hrange := shortChar_facts hall u hu
      omega
    have hb := hpart base hlen hall fun c hc => by rw [hname]; exact List.mem_append_left _ hc
    have he := hpart extension hlen' hall' fun c hc => by
      rw [hname, if_neg (List.ne_nil_of_mem hc)]
      exact List.mem_append_right _ (List.mem_cons_of_mem _ hc)
    intro c hc
    rw [hname] at hc
    rcases List.mem_append.1 hc with hc | hc
    · exact hb c hc
    · split at hc
      · exact absurd hc List.not_mem_nil
      · rcases List.mem_cons.1 hc with rfl | hc
        · decide
        · exact he c hc

/-- A plain name is shown as it is just if it is of ASCII. -/
theorem PlainParts.shown_eq_iff {name : String} {short : Bytes} {caseBits : Nat}
    {base extension : List Char} (h : PlainParts name short caseBits base extension) :
    shortDisplay short caseBits = name ↔ ∀ c ∈ name.toList, c.toNat < 0x80 := by
  refine ⟨fun heq => ?_, h.shown.2.2⟩
  obtain ⟨baseCase, hbase⟩ := h.base_case
  obtain ⟨extensionCase, hextension⟩ := h.extension_case
  obtain ⟨hlen, hall, -⟩ := partCase_eq_some hbase
  obtain ⟨-, hall', -⟩ := partCase_eq_some hextension
  have hne : Text.upper base ≠ [] := by
    rw [← List.length_pos_iff, hlen, List.length_pos_iff]
    exact h.base_ne
  have hcased : ∀ part bit, part.all isShortChar = true → ∀ c ∈ inCase caseBits bit part,
      c.toNat < 0x80 := by
    intro part bit hpart
    have hascii := fun c hc => (shortChar_facts hpart c hc).2.1
    rw [inCase]
    split
    · exact Text.lowerLatin_ascii hascii
    · exact hascii
  rw [← heq, h.short_eq, toList_shortDisplay _ hne (hlen ▸ h.base_length) hall hall', joinParts]
  intro c hc
  rcases List.mem_append.1 hc with hc | hc
  · exact hcased _ _ hall c hc
  · split at hc
    · exact absurd hc List.not_mem_nil
    · rcases List.mem_cons.1 hc with rfl | hc
      · decide
      · exact hcased _ _ hall' c hc

/-! ### Long names -/

/-- No pair of surrogates is divided between two slots. -/
def Unbroken (name : List Char) : Prop :=
  ∀ before c after, name = before ++ c :: after → 0x10000 ≤ c.toNat →
    (Text.units before).length % slotUnits ≠ slotUnits - 1

theorem unbroken_of_ascii {name : List Char} (h : ∀ c ∈ name, c.toNat < 0x80) : Unbroken name := by
  rintro before c after rfl hc
  have := h c (by simp)
  omega

/-- A text is cut at a given number of units, or just before a pair that crosses there. -/
theorem exists_cut (s : List Char) {k : Nat} (h : k ≤ (Text.units s).length) :
    ∃ before after, s = before ++ after ∧ ((Text.units before).length = k ∨
      (Text.units before).length + 1 = k ∧ ∃ c rest, after = c :: rest ∧ 0x10000 ≤ c.toNat) := by
  induction s generalizing k with
  | nil => exact ⟨[], [], rfl, .inl (Nat.le_zero.1 h).symm⟩
  | cons c s ih =>
    obtain rfl | hk := Nat.eq_zero_or_pos k
    · exact ⟨[], c :: s, rfl, .inl rfl⟩
    rw [Text.units_cons, List.length_append] at h
    have hlen : (Text.charUnits c).length = 1 ∨
        (Text.charUnits c).length = 2 ∧ 0x10000 ≤ c.toNat := by
      rw [Text.charUnits]
      split
      · exact .inl rfl
      · exact .inr ⟨rfl, by omega⟩
    by_cases hshort : k < (Text.charUnits c).length
    · exact ⟨[], c :: s, rfl, .inr ⟨show 0 + 1 = k by omega, c, s, rfl, by omega⟩⟩
    · obtain ⟨before, after, rfl, hcut⟩ := @ih (k - (Text.charUnits c).length) (by omega)
      refine ⟨c :: before, after, rfl, ?_⟩
      rw [Text.units_cons, List.length_append]
      rcases hcut with hcut | ⟨hcut, hnext⟩
      · exact .inl (by omega)
      · exact .inr ⟨by omega, hnext⟩

/-- Behind a whole slot pairs are divided where they are divided on their own. -/
theorem unbroken_append_iff {before after : List Char}
    (hwhole : (Text.units before).length = slotUnits) :
    Unbroken (before ++ after) ↔ Unbroken after := by
  constructor
  · rintro h front c rest rfl hc
    have := h (before ++ front) c rest (by rw [List.append_assoc]) hc
    rwa [Text.length_units_append, hwhole, Nat.add_mod_left] at this
  · intro h front c rest heq hc
    rcases List.append_eq_append_iff.1 heq with ⟨mid, rfl, hmid⟩ | ⟨mid, rfl, hmid⟩
    · rw [Text.length_units_append, hwhole, Nat.add_mod_left]
      exact h mid c rest hmid hc
    · cases mid with
      | nil =>
        rw [List.append_nil] at hwhole
        rw [hwhole]
        decide
      | cons x mid =>
        obtain ⟨rfl, -⟩ := List.cons.inj hmid
        rw [Text.length_units_append, Text.units_cons, List.length_append, Text.charUnits,
          if_neg (by omega), List.length_cons, List.length_singleton] at hwhole
        rw [Nat.mod_eq_of_lt (by omega)]
        omega

/-- A text that does not fill a slot has no pair that is divided. -/
theorem unbroken_of_short {s : List Char} (h : (Text.units s).length < slotUnits) : Unbroken s := by
  rintro before c after rfl hc
  rw [Text.length_units_append, Text.units_cons, List.length_append, Text.charUnits,
    if_neg (by omega), List.length_cons, List.length_singleton] at h
  rw [Nat.mod_eq_of_lt (by omega)]
  omega

theorem ofUnits_units_append (s : List Char) (rest : List UInt16) :
    Text.ofUnits (Text.units s ++ rest) = s ++ Text.ofUnits rest := by
  induction s with
  | nil => rfl
  | cons c s ih =>
    rw [Text.units_cons, List.append_assoc, Text.ofUnits_charUnits_append, ih, List.cons_append]

theorem unitParts_append {part : List UInt16} (h : part.length = slotUnits) (us : List UInt16) :
    unitParts (part ++ us) = part :: unitParts us := by
  have hne : part ++ us ≠ [] := by
    rintro heq
    rw [(List.append_eq_nil_iff.1 heq).1] at h
    cases h
  rw [unitParts, dif_neg hne, List.take_left' h, List.drop_left' h]

theorem fillUnits_append {part : List UInt16} (h : part.length = slotUnits) (us : List UInt16) :
    fillUnits (part ++ us) = part ++ fillUnits us := by
  rw [fillUnits, fillUnits, List.length_append, h, Nat.add_mod_left]
  split
  · rfl
  · rw [List.append_assoc]

theorem ne_zero_of_mem {s : List Char} (hzero : '\x00' ∉ s) :
    ∀ c ∈ s, decide (c ≠ '\x00') = true := by
  intro c hc
  rw [decide_eq_true_iff]
  rintro rfl
  exact hzero hc

/-- The first slot of a text whose thirteenth unit is the first half of a pair ends in the
replacement character. -/
theorem exists_flatten_of_broken {before : List Char} (rest : List Char) {c : Char}
    (hlen : (Text.units before).length + 1 = slotUnits) (hc : 0x10000 ≤ c.toNat)
    (hzero : '\x00' ∉ before) : ∃ more,
      ((unitParts (fillUnits (Text.units (before ++ c :: rest)))).map partText).flatten =
        before ++ Text.replacement :: more := by
  obtain ⟨lead, hlead⟩ : ∃ u, u = UInt16.ofNat (0xD800 + (c.toNat - 0x10000) / 0x400) := ⟨_, rfl⟩
  obtain ⟨trail, htrail⟩ : ∃ u, u = UInt16.ofNat (0xDC00 + (c.toNat - 0x10000) % 0x400) := ⟨_, rfl⟩
  have hvalid := c.valid
  simp only [UInt32.isValidChar, Nat.isValidChar] at hvalid
  have hn : c.toNat = c.val.toNat := rfl
  have hval : lead.toNat = 0xD800 + (c.toNat - 0x10000) / 0x400 := by
    rw [hlead, UInt16.toNat_ofNat']
    omega
  have hunits : Text.units (before ++ c :: rest) =
      (Text.units before ++ [lead]) ++ (trail :: Text.units rest) := by
    rw [Text.units, List.flatMap_append, List.flatMap_cons, Text.charUnits, if_neg (by omega),
      ← hlead, ← htrail]
    simp [Text.units]
  have hpart : (Text.units before ++ [lead]).length = slotUnits := by
    rw [List.length_append, List.length_singleton, hlen]
  have hlone : Text.ofUnits [lead] = [Text.replacement] := by
    rw [Text.ofUnits, if_pos]
    simp only [Text.isLeading, Bool.or_eq_true, Bool.and_eq_true, decide_eq_true_eq]
    omega
  have hfirst : partText (Text.units before ++ [lead]) = before ++ [Text.replacement] := by
    rw [partText, ofUnits_units_append, hlone, List.takeWhile_append_of_pos (ne_zero_of_mem hzero),
      List.takeWhile_cons_of_pos (by decide), List.takeWhile_nil]
  refine ⟨((unitParts (fillUnits (trail :: Text.units rest))).map partText).flatten, ?_⟩
  rw [hunits, fillUnits_append hpart, unitParts_append hpart, List.map_cons, List.flatten_cons,
    hfirst, List.append_assoc, List.singleton_append]

/-- The parts of a name that is shorter than a slot, put together, are the name. -/
theorem flatten_partText_of_short {s : List Char} (hzero : '\x00' ∉ s)
    (hlen : (Text.units s).length < slotUnits) :
    ((unitParts (fillUnits (Text.units s))).map partText).flatten = s := by
  have hnil : unitParts [] = [] := by
    rw [unitParts]
    rfl
  cases s with
  | nil =>
    have hnone : unitParts (fillUnits (Text.units [])) = [] := hnil
    rw [hnone]
    rfl
  | cons c s =>
    have hpos : (Text.units (c :: s)).length ≠ 0 := by
      rw [Text.units_cons, List.length_append, Text.charUnits]
      split <;> simp
    have hfill := fillUnits.eq_1 (Text.units (c :: s))
    rw [Nat.mod_eq_of_lt hlen, if_neg hpos] at hfill
    have hone : (fillUnits (Text.units (c :: s))).length = slotUnits := by
      rw [hfill, List.length_append, List.length_cons, List.length_replicate]
      omega
    have hparts := unitParts_append hone []
    rw [List.append_nil, hnil] at hparts
    rw [hparts, List.map_singleton, List.flatten_singleton, partText, hfill,
      ofUnits_units_append, Text.ofUnits_cons_of_plain _ (by decide) (by decide),
      List.takeWhile_append_of_pos (ne_zero_of_mem hzero), List.takeWhile_cons_of_neg (by decide),
      List.append_nil]

/-- The parts of a long name, put together, are the name, unless a pair is divided. -/
theorem flatten_partText_iff {s : List Char} (hzero : '\x00' ∉ s) :
    ((unitParts (fillUnits (Text.units s))).map partText).flatten = s ↔ Unbroken s := by
  induction hn : s.length using Nat.strongRecOn generalizing s with
  | ind n ih =>
    by_cases hlen : slotUnits ≤ (Text.units s).length
    · obtain ⟨before, after, rfl, hwhole | ⟨hcross, c, rest, rfl, hc⟩⟩ := exists_cut s hlen
      · rw [List.mem_append, not_or] at hzero
        have hpos : before.length ≠ 0 := by
          intro hzero
          rw [List.eq_nil_of_length_eq_zero hzero] at hwhole
          cases hwhole
        have hunits : Text.units (before ++ after) = Text.units before ++ Text.units after := by
          simp [Text.units]
        rw [List.length_append] at hn
        have hafter := ih after.length (by omega) hzero.2 rfl
        rw [hunits, fillUnits_append hwhole, unitParts_append hwhole, List.map_cons,
          List.flatten_cons, partText, Text.ofUnits_units,
          List.takeWhile_eq_self_iff.2 (ne_zero_of_mem hzero.1), List.append_right_inj,
          unbroken_append_iff hwhole]
        exact hafter
      · rw [List.mem_append, not_or] at hzero
        obtain ⟨more, hmore⟩ := exists_flatten_of_broken rest hcross hc hzero.1
        rw [hmore]
        constructor
        · intro heq
          have hne : Text.replacement = c := (List.cons.inj (List.append_cancel_left heq)).1
          rw [← hne] at hc
          exact absurd hc (by decide)
        · intro h
          refine absurd ?_ (h before c rest rfl hc)
          rw [Nat.mod_eq_of_lt (by omega)]
          exact Nat.eq_sub_of_add_eq hcross
    · exact iff_of_true (flatten_partText_of_short hzero (by omega)) (unbroken_of_short (by omega))

/-! ### Aliases -/

/-- A name is given an alias that is read like a key when certain short names are taken. -/
def HasAlias (name : String) (k : List Char) : Prop :=
  ∃ taken short, shortAlias name taken = .ok short ∧ Text.fold (shortDisplay short 0).toList = k

/-- Every alias has a mark. -/
theorem HasAlias.hasMark {name : String} {k : List Char} (h : HasAlias name k) :
    hasMark k = true := by
  obtain ⟨taken, short, halias, rfl⟩ := h
  obtain ⟨stem, digits, extension, rfl, hlen, -, hall, hall', -, hne, hdigits⟩ :=
    exists_parts_of_shortAlias halias
  obtain ⟨d, digits, rfl⟩ := List.exists_cons_of_ne_nil hne
  rw [toList_shortDisplay 0 (by simp) hlen hall hall', inCase_zero, inCase_zero, joinParts,
    List.append_assoc, List.cons_append, List.cons_append]
  exact hasMark_fold_append_mark _ _ (hdigits d List.mem_cons_self)

/-! ### Every spelling -/

/-- A name is read back up to case: it has no dotless i, and no pair of surrogates is divided. -/
structure Legible (name : List Char) : Prop where
  dotless : 'ı' ∉ name
  unbroken : Unbroken name

theorem legible_of_ascii {name : List Char} (h : ∀ c ∈ name, c.toNat < 0x80) : Legible name := by
  refine ⟨fun hmem => ?_, unbroken_of_ascii h⟩
  exact absurd (h _ hmem) (by decide)

section

variable {name : String} {taken : Bytes → Bool} {s : Spelling}

/-- A name that has a long name is read as it is, just if no pair is divided. -/
theorem shown_of_long_iff (hvalid : isValidName name = true) (hlong : s.long = some name) :
    s.shown = name ↔ Unbroken name.toList := by
  have hzero : '\x00' ∉ name.toList := by
    intro hmem
    simp only [isValidName, Bool.and_eq_true] at hvalid
    have := List.all_eq_true.1 hvalid.2 _ hmem
    revert this
    decide
  rw [Spelling.shown, hlong, ← flatten_partText_iff hzero, ← String.toList_inj,
    String.toList_ofList]
  rfl

/-- A name that was stored is read back up to case. -/
theorem fold_shown (h : spellingOf name taken = .ok s) (hname : Legible name.toList) :
    Text.fold s.shown.toList = Text.fold name.toList := by
  obtain ⟨hvalid, ⟨short, caseBits, hform, -, rfl⟩ | ⟨short, -, rfl⟩⟩ := spellingOf_cases h
  · obtain ⟨base, extension, hparts⟩ := exists_plainParts hform
    exact hparts.shown.2.1 hname.dotless
  · rw [(shown_of_long_iff hvalid rfl).2 hname.unbroken]

/-- A name of ASCII that was stored is read back as it was. -/
theorem shown_eq (h : spellingOf name taken = .ok s) (hname : ∀ c ∈ name.toList, c.toNat < 0x80) :
    s.shown = name := by
  obtain ⟨hvalid, ⟨short, caseBits, hform, -, rfl⟩ | ⟨short, -, rfl⟩⟩ := spellingOf_cases h
  · obtain ⟨base, extension, hparts⟩ := exists_plainParts hform
    exact hparts.shown.2.2 hname
  · exact (shown_of_long_iff hvalid rfl).2 (unbroken_of_ascii hname)

/-- The short name alone is shown like the name, or it is an alias of it. -/
theorem fold_shortDisplay_cases (h : spellingOf name taken = .ok s) :
    Text.fold (shortDisplay s.short 0).toList = Text.fold s.shown.toList ∨
      HasAlias name (Text.fold (shortDisplay s.short 0).toList) := by
  obtain ⟨-, ⟨short, caseBits, hform, -, rfl⟩ | ⟨short, halias, rfl⟩⟩ := spellingOf_cases h
  · obtain ⟨base, extension, hparts⟩ := exists_plainParts hform
    exact .inl hparts.shown.1
  · exact .inr ⟨taken, short, halias, rfl⟩

/-- An entry answers to a name that is no alias of its own just if that is what is read. -/
theorem answersTo_entry {r : Record} (h : spellingOf name taken = .ok r.spelling)
    {folded : List Char} (halias : ¬ HasAlias name folded) (n : Nat) :
    Disk.answersTo folded (r.entry n) = (Text.fold r.spelling.shown.toList == folded) := by
  have hentry : Disk.answersTo folded (r.entry n) =
      (Text.fold r.spelling.shown.toList == folded ||
        Text.fold (shortDisplay r.spelling.short 0).toList == folded) := rfl
  rw [hentry]
  rcases fold_shortDisplay_cases h with heq | hshort
  · rw [heq, Bool.or_self]
  · have hne : (Text.fold (shortDisplay r.spelling.short 0).toList == folded) = false := by
      rw [beq_eq_false_iff_ne]
      rintro rfl
      exact halias hshort
    rw [hne, Bool.or_false]

end

end BootImage.Fat
