import BootImage.Fat.DirEntry
import Mathlib.Data.List.Basic
import Mathlib.Data.Option.Basic

/-!
# How names are spelled in a directory

A name gets a short name, and a long one beside it unless the short one says everything. Which it
gets does not depend on what the entry is for; `spellingOf` is that choice on its own, and
`encodeEntry` writes it down. A spelling that was chosen has properties that parsing relies on: the
short name is made of legal characters filled with spaces, so that it neither ends a directory, nor
marks a deleted slot, nor stands for the directory itself.

## Main definitions

* `Spelling`: the stored form of a name.
* `spellingOf`: the spelling that a name gets.
* `Spelling.WellFormed`: what every chosen spelling satisfies.
* `aliasAt`: the alias of a name with a given number.

## Main results

* `shortAlias_cases`: which alias a name gets.
* `encodeEntry_eq`: the slots of an entry, by its spelling.
* `wellFormed_of_spellingOf`, `not_taken_of_spellingOf`.
-/

namespace BootImage.Fat

/-- How a name is stored: its long name, if it needs one, its short name and the case bits. -/
structure Spelling where
  long : Option String
  short : Bytes
  caseBits : Nat
  deriving DecidableEq

/-- The spelling with a made-up short name. -/
def aliasSpelling (name : String) (taken : Bytes → Bool) : Except Error Spelling :=
  (shortAlias name taken).map fun short => ⟨some name, short, 0⟩

/-- The spelling that a name gets in a directory in which some short names are taken. -/
def spellingOf (name : String) (taken : Bytes → Bool) : Except Error Spelling :=
  if isValidName name = false then .error (.badName name)
  else
    match shortForm name with
    | some (short, caseBits) =>
      if taken short then aliasSpelling name taken else .ok ⟨none, short, caseBits⟩
    | none => aliasSpelling name taken

namespace Spelling

/-- The slots of the long name. -/
def longPart (s : Spelling) : List Bytes :=
  match s.long with
  | none => []
  | some name => longSlots name s.short

/-- All slots of an entry that is spelled like this. -/
def slots (s : Spelling) (attributes : UInt8) (cluster size : Nat) : List Bytes :=
  s.longPart ++ [shortSlot s.short attributes cluster size (UInt8.ofNat s.caseBits)]

/-- What is known of a spelling that was chosen for a name. -/
structure WellFormed (s : Spelling) : Prop where
  /-- The short name has a base and an extension of legal characters. -/
  short : ∃ base extension, s.short = asciiBytes (elevenChars base extension) ∧ base ≠ [] ∧
    base.length ≤ 8 ∧ extension.length ≤ 3 ∧ base.all isShortChar ∧ extension.all isShortChar
  caseBits : s.caseBits < 0x100
  long : ∀ name, s.long = some name → isValidName name = true

end Spelling

/-! ### Characters of short names -/

theorem isShortChar_range {c : Char} (h : isShortChar c = true) :
    0x21 ≤ c.toNat ∧ c.toNat ≤ 0x7E ∧ c.toNat ≠ 0x2E := by
  have hsigns : ("!#$%&'()-@^_`\x7b\x7d~".toList.all fun d =>
      0x21 ≤ d.toNat ∧ d.toNat ≤ 0x7E ∧ d.toNat ≠ 0x2E) = true := by decide
  rw [isShortChar, Bool.or_eq_true, Bool.or_eq_true] at h
  rcases h with (h | h) | h
  · have hletter : c.val ≥ 'A'.val ∧ c.val ≤ 'Z'.val := of_decide_eq_true h
    have : 0x41 ≤ c.toNat ∧ c.toNat ≤ 0x5A := hletter
    omega
  · have := Char.isDigit_iff_toNat.1 h
    simp only [Char.reduceToNat] at this
    omega
  · exact of_decide_eq_true (List.all_eq_true.1 hsigns c (List.contains_iff_mem.1 h))

theorem isShortChar_of_isDigit {c : Char} (h : c.isDigit = true) : isShortChar c = true := by
  rw [isShortChar, h]
  simp

/-- A short name has eleven bytes. -/
theorem length_asciiBytes_elevenChars {base extension : List Char} (hb : base.length ≤ 8)
    (he : extension.length ≤ 3) : (asciiBytes (elevenChars base extension)).length = 11 := by
  simp only [asciiBytes, elevenChars, List.length_map, List.length_append, Text.length_padRight]
  omega

namespace Spelling

variable {s : Spelling}

theorem WellFormed.length_short (h : s.WellFormed) : s.short.length = 11 := by
  obtain ⟨base, extension, hs, -, hb, he, -⟩ := h.short
  rw [hs, length_asciiBytes_elevenChars hb he]

/-- A short name starts with a legal character. -/
theorem WellFormed.exists_first (h : s.WellFormed) :
    ∃ (c : Char) (rest : Bytes), s.short = UInt8.ofNat c.toNat :: rest ∧ isShortChar c = true := by
  obtain ⟨base, extension, hs, hne, -, -, hb, -⟩ := h.short
  obtain ⟨c, base, rfl⟩ := List.exists_cons_of_ne_nil hne
  rw [List.all_cons, Bool.and_eq_true] at hb
  exact ⟨c, _, by rw [hs]; rfl, hb.1⟩

theorem WellFormed.first_range (h : s.WellFormed) :
    0x21 ≤ (s.short.getD 0 0).toNat ∧ (s.short.getD 0 0).toNat ≤ 0x7E ∧
      (s.short.getD 0 0).toNat ≠ 0x2E := by
  obtain ⟨c, rest, hs, hc⟩ := h.exists_first
  have hrange := isShortChar_range hc
  rw [hs, List.getD_cons_zero, UInt8.toNat_ofNat', Nat.mod_eq_of_lt (by omega)]
  exact hrange

end Spelling

/-! ### Plain names -/

theorem partCase_eq_some {part : List Char} {bit bits : Nat} (h : partCase part bit = some bits) :
    (Text.upper part).length = part.length ∧ (Text.upper part).all isShortChar = true ∧
      (part = Text.upper part ∧ bits = 0 ∨ part = Text.lowerLatin part ∧ bits = bit) := by
  rw [partCase] at h
  split at h
  · simp at h
  rename_i hgood
  rw [not_or, not_not, Bool.not_eq_true', Bool.not_eq_false] at hgood
  refine ⟨hgood.1, hgood.2, ?_⟩
  split at h
  · rename_i heq
    exact .inl ⟨heq, by simpa using h.symm⟩
  · split at h
    · rename_i heq
      exact .inr ⟨heq, by simpa using h.symm⟩
    · simp at h

/-- What is known of a name that has a short form: its parts, and what is stored of them. -/
structure PlainParts (name : String) (short : Bytes) (caseBits : Nat)
    (base extension : List Char) : Prop where
  name_eq : name.toList = base ++ if extension = [] then [] else '.' :: extension
  base_ne : base ≠ []
  base_length : base.length ≤ 8
  extension_length : extension.length ≤ 3
  base_case : ∃ bits, partCase base lowerBase = some bits
  extension_case : ∃ bits, partCase extension lowerExtension = some bits
  short_eq : short = asciiBytes (elevenChars (Text.upper base) (Text.upper extension))
  case_eq : ∀ baseCase extensionCase, partCase base lowerBase = some baseCase →
    partCase extension lowerExtension = some extensionCase → caseBits = baseCase + extensionCase

theorem exists_plainParts {name : String} {short : Bytes} {caseBits : Nat}
    (h : shortForm name = some (short, caseBits)) :
    ∃ base extension, PlainParts name short caseBits base extension := by
  have hsplit := List.takeWhile_append_dropWhile (p := (· ≠ '.')) (l := name.toList)
  simp only [shortForm, Option.bind_eq_bind, Option.bind_eq_some_iff] at h
  obtain ⟨_, hguard, baseCase, hbase, extensionCase, hextension, h⟩ := h
  set base := name.toList.takeWhile (· ≠ '.') with hb
  set dotted := name.toList.dropWhile (· ≠ '.') with hd
  have hcond : base ≠ [] ∧ '.' ∉ dotted.drop 1 ∧ base.length ≤ 8 ∧ (dotted.drop 1).length ≤ 3 ∧
      (dotted = [] ∨ dotted.drop 1 ≠ []) := by
    by_contra hnot
    rw [guard, if_neg hnot] at hguard
    simp [failure] at hguard
  obtain ⟨hne, -, hlen, hlen', hdot⟩ := hcond
  simp only [Option.pure_def, Option.some.injEq, Prod.mk.injEq] at h
  refine ⟨base, dotted.drop 1, ?_, hne, hlen, hlen', ⟨_, hbase⟩, ⟨_, hextension⟩, h.1.symm, ?_⟩
  · rw [← hsplit]
    refine congrArg (base ++ ·) ?_
    rcases hdot with hnil | hext
    · rw [hnil]
      rfl
    · rw [if_neg hext]
      cases hcase : dotted with
      | nil => simp [hcase] at hext
      | cons c rest =>
        have hc : ¬ (c ≠ '.') := by
          have := List.head?_dropWhile_not (fun x : Char => decide (x ≠ '.')) name.toList
          rw [← hd, hcase] at this
          simpa using this
        rw [not_not.1 hc]
        rfl
  · intro b e hb' he'
    rw [hbase] at hb'
    rw [hextension] at he'
    cases hb'
    cases he'
    exact h.2.symm

/-! ### Made-up names -/

theorem isShortChar_of_mem_aliasPart {part : List Char} :
    (aliasPart part).all isShortChar = true := by
  rw [List.all_eq_true]
  intro c hc
  obtain ⟨d, -, rfl⟩ := List.mem_map.1 hc
  split
  · assumption
  · decide

/-- The base that the aliases of a name are made from. -/
def aliasBase (name : String) : List Char :=
  let stem := aliasPart (stemAndExtension name.toList).1
  if stem = [] then ['_'] else stem

/-- The extension that the aliases of a name have. -/
def aliasExtension (name : String) : List Char :=
  (aliasPart (stemAndExtension name.toList).2).take 3

/-- The alias of a name with the given number. -/
def aliasAt (name : String) (number : Nat) : Bytes :=
  numberedAlias (aliasBase name) (aliasExtension name) number

/-- The decimal digits of a number. -/
def numberDigits (number : Nat) : List Char :=
  (toString number).toList

theorem shortAlias_eq (name : String) (taken : Bytes → Bool) :
    shortAlias name taken =
      match findAlias (aliasBase name) (aliasExtension name) taken maxAliasNumber 1 with
      | some short => .ok short
      | none => .error (.noAlias name) :=
  rfl

theorem all_aliasBase (name : String) : (aliasBase name).all isShortChar = true := by
  rw [aliasBase]
  split
  · decide
  · exact isShortChar_of_mem_aliasPart

theorem aliasBase_ne_nil (name : String) : aliasBase name ≠ [] := by
  rw [aliasBase]
  split
  · exact List.cons_ne_nil _ _
  · assumption

theorem all_aliasExtension (name : String) : (aliasExtension name).all isShortChar = true := by
  rw [List.all_eq_true]
  exact fun c hc => List.all_eq_true.1 isShortChar_of_mem_aliasPart c (List.mem_of_mem_take hc)

theorem length_aliasExtension (name : String) : (aliasExtension name).length ≤ 3 :=
  List.length_take_le ..

theorem numberDigits_eq (number : Nat) : numberDigits number = Nat.toDigits 10 number :=
  Nat.toList_repr

theorem isDigit_of_mem_numberDigits {number : Nat} {d : Char} (h : d ∈ numberDigits number) :
    d.isDigit = true := by
  rw [numberDigits_eq] at h
  exact Nat.isDigit_of_mem_toDigits (by decide) (by decide) h

theorem numberDigits_ne_nil (number : Nat) : numberDigits number ≠ [] := by
  rw [numberDigits_eq]
  exact Nat.toDigits_ne_nil

theorem length_numberDigits_le {number : Nat} (h : number ≤ maxAliasNumber) :
    (numberDigits number).length ≤ 6 := by
  rw [numberDigits_eq, Nat.length_toDigits_le_iff (by decide) (by decide)]
  simp only [maxAliasNumber] at h
  omega

theorem aliasAt_eq (name : String) (number : Nat) : aliasAt name number =
    asciiBytes (elevenChars ((aliasBase name).take (8 - ('~' :: numberDigits number).length) ++
      '~' :: numberDigits number) (aliasExtension name)) := by
  rw [aliasAt, numberedAlias, numberDigits]

/-- An alias is what is left of the base, with the number behind it, and the extension. -/
theorem exists_aliasAt_eq (name : String) {number : Nat} (h : number ≤ maxAliasNumber) :
    ∃ stem, aliasAt name number =
        asciiBytes (elevenChars (stem ++ '~' :: numberDigits number) (aliasExtension name)) ∧
      stem ≠ [] ∧ (stem ++ '~' :: numberDigits number).length ≤ 8 ∧
      (stem ++ '~' :: numberDigits number).all isShortChar = true := by
  have hfew := length_numberDigits_le h
  refine ⟨_, aliasAt_eq name number, ?_, ?_, ?_⟩
  · have hpos := List.length_pos_iff.2 (aliasBase_ne_nil name)
    rw [← List.length_pos_iff, List.length_take, List.length_cons]
    omega
  · rw [List.length_append, List.length_take, List.length_cons]
    omega
  · rw [List.all_append, List.all_cons, Bool.and_eq_true, Bool.and_eq_true]
    refine ⟨?_, by decide, ?_⟩
    · exact List.all_eq_true.2 fun c hc =>
        List.all_eq_true.1 (all_aliasBase name) c (List.mem_of_mem_take hc)
    · exact List.all_eq_true.2 fun c hc => isShortChar_of_isDigit (isDigit_of_mem_numberDigits hc)

/-- Either every number is taken, or the first that is not is chosen. -/
theorem findAlias_cases (base extension : List Char) (taken : Bytes → Bool) (tries number : Nat) :
    (findAlias base extension taken tries number = none ∧
      ∀ n, number ≤ n → n < number + tries → taken (numberedAlias base extension n) = true) ∨
    ∃ n, number ≤ n ∧ n < number + tries ∧
      findAlias base extension taken tries number = some (numberedAlias base extension n) ∧
      taken (numberedAlias base extension n) = false ∧
      ∀ m, number ≤ m → m < n → taken (numberedAlias base extension m) = true := by
  induction tries generalizing number with
  | zero => exact .inl ⟨rfl, fun n _ _ => by omega⟩
  | succ tries ih =>
    cases htaken : taken (numberedAlias base extension number) with
    | false =>
      refine .inr ⟨number, Nat.le_refl _, by omega, ?_, htaken, fun m _ _ => by omega⟩
      rw [findAlias, htaken]
      rfl
    | true =>
      have hstep : findAlias base extension taken (tries + 1) number =
          findAlias base extension taken tries (number + 1) := by
        rw [findAlias, htaken]
        rfl
      have hbelow {k : Nat} (hk : ∀ m, number + 1 ≤ m → m < k →
          taken (numberedAlias base extension m) = true) :
          ∀ m, number ≤ m → m < k → taken (numberedAlias base extension m) = true := by
        intro m hm hmk
        rcases Nat.eq_or_lt_of_le hm with rfl | hm
        · exact htaken
        · exact hk m hm hmk
      rw [hstep]
      rcases ih (number + 1) with ⟨hnone, hall⟩ | ⟨n, hlow, hhigh, hsome, hfree, hleast⟩
      · exact .inl ⟨hnone, fun n hn hn' => hbelow hall n hn (by omega)⟩
      · exact .inr ⟨n, by omega, by omega, hsome, hfree, hbelow hleast⟩

/-- The alias that is made up is the first that is not taken. -/
theorem shortAlias_cases (name : String) (taken : Bytes → Bool) :
    (shortAlias name taken = .error (.noAlias name) ∧
      ∀ n, 1 ≤ n → n ≤ maxAliasNumber → taken (aliasAt name n) = true) ∨
    ∃ n, 1 ≤ n ∧ n ≤ maxAliasNumber ∧ shortAlias name taken = .ok (aliasAt name n) ∧
      taken (aliasAt name n) = false ∧
      ∀ m, 1 ≤ m → m < n → taken (aliasAt name m) = true := by
  rw [shortAlias_eq]
  rcases findAlias_cases (aliasBase name) (aliasExtension name) taken maxAliasNumber 1 with
    ⟨hnone, hall⟩ | ⟨n, hlow, hhigh, hsome, hfree, hleast⟩
  · rw [hnone]
    exact .inl ⟨rfl, fun n hlow hhigh => hall n hlow (by omega)⟩
  · rw [hsome]
    exact .inr ⟨n, hlow, by omega, rfl, hfree, hleast⟩

/-- The characters of an alias: a base that ends in a tilde and a number, and an extension. -/
theorem exists_parts_of_shortAlias {name : String} {taken : Bytes → Bool} {short : Bytes}
    (h : shortAlias name taken = .ok short) :
    ∃ (stem digits extension : List Char),
      short = asciiBytes (elevenChars (stem ++ '~' :: digits) extension) ∧
        (stem ++ '~' :: digits).length ≤ 8 ∧ extension.length ≤ 3 ∧
        (stem ++ '~' :: digits).all isShortChar = true ∧ extension.all isShortChar = true ∧
        taken short = false ∧ digits ≠ [] ∧ ∀ d ∈ digits, d.isDigit = true := by
  rcases shortAlias_cases name taken with ⟨herror, -⟩ | ⟨n, -, hn, hok, hfree, -⟩
  · rw [herror] at h
    cases h
  obtain rfl : aliasAt name n = short := Except.ok.inj (hok.symm.trans h)
  obtain ⟨stem, heq, -, hlen, hall⟩ := exists_aliasAt_eq name hn
  exact ⟨stem, _, _, heq, hlen, length_aliasExtension name, hall, all_aliasExtension name, hfree,
    numberDigits_ne_nil n, fun d hd => isDigit_of_mem_numberDigits hd⟩

/-! ### Every spelling -/

/-- The two ways in which a name is spelled. -/
theorem spellingOf_cases {name : String} {taken : Bytes → Bool} {s : Spelling}
    (h : spellingOf name taken = .ok s) : isValidName name = true ∧
      ((∃ short caseBits, shortForm name = some (short, caseBits) ∧ taken short = false ∧
          s = ⟨none, short, caseBits⟩) ∨
        ∃ short, shortAlias name taken = .ok short ∧ s = ⟨some name, short, 0⟩) := by
  rw [spellingOf] at h
  split at h
  · simp at h
  rename_i hvalid
  refine ⟨by simpa using hvalid, ?_⟩
  have halias : aliasSpelling name taken = .ok s →
      ∃ short, shortAlias name taken = .ok short ∧ s = ⟨some name, short, 0⟩ := by
    intro ha
    rw [aliasSpelling] at ha
    cases hs : shortAlias name taken with
    | error e => simp [hs, Except.map] at ha
    | ok short => exact ⟨short, rfl, by simpa [hs, Except.map] using ha.symm⟩
  split at h
  · rename_i short caseBits hform
    split at h
    · exact .inr (halias h)
    · rename_i htaken
      exact .inl ⟨short, caseBits, hform, by simpa using htaken, by simpa using h.symm⟩
  · exact .inr (halias h)

theorem not_taken_of_spellingOf {name : String} {taken : Bytes → Bool} {s : Spelling}
    (h : spellingOf name taken = .ok s) : taken s.short = false := by
  obtain ⟨-, ⟨short, caseBits, -, htaken, rfl⟩ | ⟨short, halias, rfl⟩⟩ := spellingOf_cases h
  · exact htaken
  · obtain ⟨_, _, _, -, -, -, -, -, htaken, -⟩ := exists_parts_of_shortAlias halias
    exact htaken

theorem wellFormed_of_spellingOf {name : String} {taken : Bytes → Bool} {s : Spelling}
    (h : spellingOf name taken = .ok s) : s.WellFormed := by
  obtain ⟨hvalid, ⟨short, caseBits, hform, -, rfl⟩ | ⟨short, halias, rfl⟩⟩ := spellingOf_cases h
  · obtain ⟨base, extension, hparts⟩ := exists_plainParts hform
    obtain ⟨baseCase, hbase⟩ := hparts.base_case
    obtain ⟨extensionCase, hextension⟩ := hparts.extension_case
    obtain ⟨hlen, hall, hcase⟩ := partCase_eq_some hbase
    obtain ⟨hlen', hall', hcase'⟩ := partCase_eq_some hextension
    refine ⟨⟨_, _, hparts.short_eq, ?_, ?_, ?_, hall, hall'⟩, ?_, by simp⟩
    · intro hnil
      rw [hnil] at hlen
      exact hparts.base_ne (List.eq_nil_of_length_eq_zero hlen.symm)
    · have := hparts.base_length
      omega
    · have := hparts.extension_length
      omega
    · have := hparts.case_eq _ _ hbase hextension
      simp only [lowerBase, lowerExtension] at hcase hcase'
      simp only
      omega
  · obtain ⟨stem, digits, extension, hs, hlen, hlen', hall, hall', -⟩ :=
      exists_parts_of_shortAlias halias
    refine ⟨⟨_, _, hs, by simp, hlen, hlen', hall, hall'⟩, Nat.zero_lt_succ _, ?_⟩
    intro n hn
    cases hn
    exact hvalid

theorem shortSlot?_eq {short : Bytes} {attributes cluster caseBits : Nat} (size : Int)
    (hs : short.length = 11) (ha : attributes < 0x100) (hc : cluster < 0x100000000)
    (hbits : caseBits < 0x100) :
    shortSlot? short attributes cluster size caseBits =
      if 0 ≤ size ∧ size < 0x100000000 then
        .ok (shortSlot short (UInt8.ofNat attributes) cluster size.toNat (UInt8.ofNat caseBits))
      else .error .fieldRange := by
  have hmod : ((cluster : Int) % 0x100000000).toNat = cluster := by omega
  simp only [shortSlot?]
  rw [if_pos (by omega), hmod]
  by_cases hsize : 0 ≤ size ∧ size < 0x100000000
  · rw [if_pos hsize, if_pos (by omega)]
    rfl
  · rw [if_neg hsize, if_neg (by omega)]
    rfl

/-- The slots of an entry are those of its spelling, provided that its size can be stored. -/
theorem encodeEntry_eq (name : String) (taken : Bytes → Bool) {attributes cluster : Nat}
    (size : Int) (ha : attributes < 0x100) (hc : cluster < 0x100000000) :
    encodeEntry name taken attributes cluster size =
      (spellingOf name taken).bind fun s =>
        if 0 ≤ size ∧ size < 0x100000000 then
          .ok (s.slots (UInt8.ofNat attributes) cluster size.toNat)
        else .error .fieldRange := by
  have halias : (do
        let short ← shortAlias name taken
        return longSlots name short ++ [← shortSlot? short attributes cluster size 0]) =
      (aliasSpelling name taken).bind fun s =>
        if 0 ≤ size ∧ size < 0x100000000 then
          .ok (s.slots (UInt8.ofNat attributes) cluster size.toNat)
        else .error .fieldRange := by
    rw [aliasSpelling]
    cases hs : shortAlias name taken with
    | error e => rfl
    | ok short =>
      obtain ⟨stem, digits, extension, hparts, hlen, hlen', -⟩ := exists_parts_of_shortAlias hs
      have hshort : short.length = 11 := by
        rw [hparts, length_asciiBytes_elevenChars hlen hlen']
      have hslot : shortSlot? short attributes cluster size 0 = _ :=
        shortSlot?_eq size hshort ha hc (Nat.zero_lt_succ _)
      simp only [bind, Except.bind, Except.map, hslot]
      by_cases hsize : 0 ≤ size ∧ size < 0x100000000
      · rw [if_pos hsize, if_pos hsize]
        rfl
      · rw [if_neg hsize, if_neg hsize]
  rw [encodeEntry, spellingOf]
  by_cases hvalid : isValidName name = true
  · rw [if_pos hvalid, if_neg (by simp [hvalid])]
    cases hform : shortForm name with
    | none => exact halias
    | some form =>
      obtain ⟨short, caseBits⟩ := form
      by_cases htaken : taken short = true
      · simp only [htaken, if_true]
        exact halias
      · have hspelling : spellingOf name taken = .ok ⟨none, short, caseBits⟩ := by
          simp [spellingOf, hvalid, hform, htaken]
        have hwf := wellFormed_of_spellingOf hspelling
        have hslot := shortSlot?_eq size hwf.length_short ha hc hwf.caseBits
        simp only [if_neg htaken, Except.bind, bind, hslot]
        by_cases hsize : 0 ≤ size ∧ size < 0x100000000
        · rw [if_pos hsize, if_pos hsize]
          rfl
        · rw [if_neg hsize, if_neg hsize]
  · rw [if_neg hvalid, if_pos (by simpa using hvalid)]
    rfl

end BootImage.Fat
