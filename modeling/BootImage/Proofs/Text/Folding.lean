import BootImage.Text.Case
import Mathlib.Data.List.Basic

/-!
# Upper case and folding of names

Names are compared by their case folding, and short names are made by upper case. Two questions
about the tables decide whether the one fits the other: which characters have an upper case that is
ASCII, and which have a folding with a tilde or a digit in it. Both are answered by a look at every
run and every expansion. The answer to the first is an ASCII character, or one of two others: the
dotless i, which does not fold as the letter that it becomes, and the long s, which does.

## Main results

* `upperChar_eq_singleton`: the characters whose upper case is one ASCII character.
* `foldChar_high`: what other characters than those of ASCII fold to.
* `lowerLatin_upper`: the way back from upper case.
-/

namespace BootImage.Text

/-- The ways in which a character is mapped. -/
theorem mapCase_cases (expansions : List (Nat × List Nat)) (runs : List CaseRun) (c : Char) :
    (∃ codes, (c.toNat, codes) ∈ expansions ∧ mapCase expansions runs c = codes.map Char.ofNat) ∨
      (∃ run ∈ runs, run.first ≤ c.toNat ∧ c.toNat ≤ run.last ∧
        mapCase expansions runs c = [Char.ofNat (c.toNat + run.shift).toNat]) ∨
      mapCase expansions runs c = [c] := by
  rw [mapCase]
  cases hcodes : expansions.lookup c.toNat with
  | some codes =>
    refine .inl ⟨codes, ?_, rfl⟩
    obtain ⟨before, after, rfl, -⟩ := List.lookup_eq_some_iff.1 hcodes
    simp
  | none =>
    cases hrun : runs.find? (·.covers c.toNat) with
    | some run =>
      have hcovers := List.find?_some hrun
      simp only [CaseRun.covers, Bool.and_eq_true, decide_eq_true_eq] at hcovers
      exact .inr (.inl ⟨run, List.mem_of_find?_eq_some hrun, hcovers.1.1, hcovers.1.2, rfl⟩)
    | none => exact .inr (.inr rfl)

/-- The number of a character that is made from a number. -/
theorem toNat_ofNat_cases (n : Nat) : (Char.ofNat n).toNat = n ∨ (Char.ofNat n).toNat = 0 := by
  by_cases hvalid : n.isValidChar
  · exact .inl (congrArg Char.toNat (dif_pos hvalid))
  · exact .inr (congrArg Char.toNat (dif_neg hvalid))

/-! ### Upper case -/

/-- No character disappears in upper case. -/
theorem length_upperChar_pos (c : Char) : 0 < (upperChar c).length := by
  have htable : ∀ x ∈ upperExpansions, 0 < x.2.length := by decide +kernel
  rw [upperChar]
  split
  · exact Nat.one_pos
  · obtain ⟨codes, hcodes, heq⟩ | ⟨run, -, -, -, heq⟩ | heq :=
      mapCase_cases upperExpansions upperRuns c
    · rw [heq, List.length_map]
      exact htable _ hcodes
    · rw [heq]
      exact Nat.one_pos
    · rw [heq]
      exact Nat.one_pos

theorem length_le_length_upper (s : List Char) : s.length ≤ (upper s).length := by
  induction s with
  | nil => exact Nat.le_refl 0
  | cons c s ih =>
    have hpos := length_upperChar_pos c
    rw [upper_cons, List.length_append, List.length_cons]
    omega

/-- Where upper case does not make a text longer, it maps each character to one. -/
theorem exists_upperChar_eq {c : Char} {s : List Char}
    (h : (upper (c :: s)).length = (c :: s).length) :
    ∃ u, upperChar c = [u] ∧ (upper s).length = s.length := by
  have hpos := length_upperChar_pos c
  have hrest := length_le_length_upper s
  rw [upper_cons, List.length_append, List.length_cons] at h
  obtain ⟨u, hu⟩ := List.length_eq_one_iff.1 (show (upperChar c).length = 1 by omega)
  exact ⟨u, hu, by omega⟩

/-- Besides those of ASCII two characters have one of ASCII as their upper case. -/
theorem upperChar_eq_singleton {c u : Char} (h : upperChar c = [u]) (hpos : 0 < u.toNat)
    (hascii : u.toNat < 0x80) : c.toNat < 0x80 ∨ c = 'ı' ∨ c = 'ſ' ∧ u = 'S' := by
  have hexpansions : ∀ x ∈ upperExpansions, x.2.length ≠ 1 := by decide +kernel
  have hruns : ∀ run ∈ upperRuns, 0x80 ≤ run.first + run.shift ∨ run.first = run.last ∧
      (run.first = 0x131 ∨ run.first = 0x17F ∧ run.shift = -300) := by decide +kernel
  rw [upperChar] at h
  split at h
  · exact .inl ‹_›
  right
  obtain ⟨codes, hcodes, heq⟩ | ⟨run, hrun, hlow, hhigh, heq⟩ | heq :=
    mapCase_cases upperExpansions upperRuns c
  · have hlen := congrArg List.length (heq.symm.trans h)
    rw [List.length_map] at hlen
    exact absurd hlen (hexpansions _ hcodes)
  · obtain rfl : Char.ofNat (c.toNat + run.shift).toNat = u := by
      simpa using heq.symm.trans h
    have hof := toNat_ofNat_cases (c.toNat + run.shift).toNat
    rcases hruns run hrun with hfar | ⟨hone, hdotless | ⟨hlong, hshift⟩⟩
    · omega
    · left
      rw [← Char.ofNat_toNat c, show c.toNat = 0x131 by omega]
    · right
      have hc : c.toNat = 0x17F := by omega
      constructor
      · rw [← Char.ofNat_toNat c, hc]
      · rw [hc, hshift]
        rfl
  · obtain rfl : c = u := by simpa using heq.symm.trans h
    omega

/-- A text whose upper case is as long, and of ASCII, is of ASCII itself if it has neither of the
two other characters. -/
theorem ascii_of_upper {s : List Char} (hlen : (upper s).length = s.length)
    (hascii : ∀ u ∈ upper s, 0 < u.toNat ∧ u.toNat < 0x80) (hdotless : 'ı' ∉ s) (hlong : 'ſ' ∉ s) :
    ∀ c ∈ s, c.toNat < 0x80 := by
  induction s with
  | nil => exact fun c hc => absurd hc List.not_mem_nil
  | cons c s ih =>
    obtain ⟨u, hu, hrest⟩ := exists_upperChar_eq hlen
    rw [upper_cons, hu, List.singleton_append, List.forall_mem_cons] at hascii
    rw [List.mem_cons, not_or] at hdotless hlong
    rw [List.forall_mem_cons]
    refine ⟨?_, ih hrest hascii.2 hdotless.2 hlong.2⟩
    rcases upperChar_eq_singleton hu hascii.1.1 hascii.1.2 with hc | rfl | ⟨rfl, -⟩
    · exact hc
    · exact absurd rfl hdotless.1
    · exact absurd rfl hlong.1

/-- The characters of a text are looked at one after the other. -/
theorem ascii_of_all {s : List Char} (h : (s.all fun c => c.toNat < 0x80) = true) :
    ∀ c ∈ s, c.toNat < 0x80 :=
  fun c hc => of_decide_eq_true (List.all_eq_true.1 h c hc)

/-- On ASCII lower case is of ASCII. -/
theorem lowerLatin_ascii {s : List Char} (h : ∀ c ∈ s, c.toNat < 0x80) :
    ∀ c ∈ lowerLatin s, c.toNat < 0x80 := by
  have hall : ∀ n < 0x80, (lowerLatinChar (Char.ofNat n)).toNat < 0x80 := by decide +kernel
  intro c hc
  obtain ⟨x, hx, rfl⟩ := List.mem_map.1 hc
  have := hall x.toNat (h x hx)
  rwa [Char.ofNat_toNat] at this

/-- The lower case of the upper case of an ASCII character in lower case. -/
theorem eq_lowerLatinChar {c u : Char} (h : upperChar c = [u]) (hascii : c.toNat < 0x80)
    (hlower : lowerLatinChar c = c) : lowerLatinChar u = c := by
  have hall : ∀ n < 0x80, lowerLatinChar (Char.ofNat n) = Char.ofNat n →
      lowerLatinChar (Char.ofNat n).toUpper = Char.ofNat n := by decide +kernel
  obtain rfl : c.toUpper = u := by
    rw [upperChar_ascii hascii] at h
    simpa using h
  have := hall c.toNat hascii
  rw [Char.ofNat_toNat] at this
  exact this hlower

/-! ### Folding -/

/-- On ASCII lower case folds like what it came from. -/
theorem foldChar_lowerLatinChar {c : Char} (h : c.toNat < 0x80) :
    foldChar (lowerLatinChar c) = foldChar c := by
  have hall : ∀ n < 0x80, foldChar (lowerLatinChar (Char.ofNat n)) = foldChar (Char.ofNat n) := by
    decide +kernel
  have := hall c.toNat h
  rwa [Char.ofNat_toNat] at this

theorem fold_lowerLatin {s : List Char} (h : ∀ c ∈ s, c.toNat < 0x80) :
    fold (lowerLatin s) = fold s := by
  induction s with
  | nil => rfl
  | cons c s ih =>
    rw [List.forall_mem_cons] at h
    have hlower : lowerLatin (c :: s) = lowerLatinChar c :: lowerLatin s := rfl
    rw [hlower, fold_cons, fold_cons, foldChar_lowerLatinChar h.1, ih h.2]

/-- A character that is not of ASCII folds to at least one character, and to no tilde or digit. -/
theorem foldChar_high {c : Char} (h : 0x80 ≤ c.toNat) :
    foldChar c ≠ [] ∧ ∀ u ∈ foldChar c, u ≠ '~' ∧ u.isDigit = false := by
  have hexpansions : ∀ x ∈ foldExpansions, x.2 ≠ [] ∧
      ∀ code ∈ x.2, Char.ofNat code ≠ '~' ∧ (Char.ofNat code).isDigit = false := by decide +kernel
  have hruns : ∀ run ∈ foldRuns, 0x80 ≤ run.first + run.shift ∨ run.first = run.last ∧
      Char.ofNat (run.first + run.shift).toNat ≠ '~' ∧
        (Char.ofNat (run.first + run.shift).toNat).isDigit = false := by decide +kernel
  have hfar : ∀ u : Char, 0x80 ≤ u.toNat ∨ u.toNat = 0 → u ≠ '~' ∧ u.isDigit = false := by
    intro u hu
    constructor
    · rintro rfl
      revert hu
      decide
    · rw [← Bool.not_eq_true, Char.isDigit_iff_toNat]
      simp only [Char.reduceToNat]
      omega
  rw [foldChar, if_neg (by omega)]
  obtain ⟨codes, hcodes, heq⟩ | ⟨run, hrun, hlow, hhigh, heq⟩ | heq :=
    mapCase_cases foldExpansions foldRuns c
  · obtain ⟨hne, hall⟩ := hexpansions _ hcodes
    rw [heq]
    refine ⟨by simpa using hne, fun u hu => ?_⟩
    obtain ⟨code, hcode, rfl⟩ := List.mem_map.1 hu
    exact hall code hcode
  · rw [heq]
    refine ⟨List.cons_ne_nil _ _, fun u hu => ?_⟩
    rw [List.mem_singleton.1 hu]
    have hof := toNat_ofNat_cases (c.toNat + run.shift).toNat
    rcases hruns run hrun with hfar' | ⟨hone, hgood⟩
    · exact hfar _ (by omega)
    · rw [show c.toNat = run.first by omega]
      exact hgood
  · rw [heq]
    refine ⟨List.cons_ne_nil _ _, fun u hu => ?_⟩
    rw [List.mem_singleton.1 hu]
    exact hfar c (.inl h)

/-- On ASCII folding makes no tilde and no digit. -/
theorem toLower_facts {c : Char} (h : c.toNat < 0x80) :
    (c.toLower = '~' → c = '~') ∧ (c.toLower.isDigit = true → c.toLower = c) := by
  have hall : ∀ n < 0x80, ((Char.ofNat n).toLower = '~' → Char.ofNat n = '~') ∧
      ((Char.ofNat n).toLower.isDigit = true → (Char.ofNat n).toLower = Char.ofNat n) := by
    decide +kernel
  have := hall c.toNat h
  rwa [Char.ofNat_toNat] at this

theorem foldChar_ne_nil (c : Char) : foldChar c ≠ [] := by
  by_cases h : c.toNat < 0x80
  · rw [foldChar_ascii h]
    exact List.cons_ne_nil _ _
  · have hhigh : 0x80 ≤ c.toNat := by omega
    exact (foldChar_high hhigh).1

/-- Only a tilde folds to a text with a tilde. -/
theorem eq_tilde_of_mem_foldChar {c : Char} (h : '~' ∈ foldChar c) : c = '~' := by
  by_cases hc : c.toNat < 0x80
  · rw [foldChar_ascii hc, List.mem_singleton] at h
    exact (toLower_facts hc).1 h.symm
  · have hhigh : 0x80 ≤ c.toNat := by omega
    exact absurd rfl ((foldChar_high hhigh).2 _ h).1

/-- Only a digit folds to a text that begins with it. -/
theorem eq_of_foldChar_eq_cons {c d : Char} {s : List Char} (h : foldChar c = d :: s)
    (hd : d.isDigit = true) : c = d := by
  by_cases hc : c.toNat < 0x80
  · rw [foldChar_ascii hc, List.cons.injEq] at h
    obtain ⟨rfl, -⟩ := h
    exact ((toLower_facts hc).2 hd).symm
  · have hhigh : 0x80 ≤ c.toNat := by omega
    have hmem : d ∈ foldChar c := by
      rw [h]
      exact List.mem_cons_self
    rw [((foldChar_high hhigh).2 d hmem).2] at hd
    cases hd

/-! ### The way back from upper case -/

/-- A text in lower case whose upper case is as long, and of ASCII, is the lower case of that again:
up to folding unless there is a dotless i in it, and exactly if it is of ASCII itself. -/
theorem lowerLatin_upper {s : List Char} (hlen : (upper s).length = s.length)
    (hascii : ∀ u ∈ upper s, 0 < u.toNat ∧ u.toNat < 0x80) (hlower : lowerLatin s = s) :
    ('ı' ∉ s → fold (lowerLatin (upper s)) = fold s) ∧
      ((∀ c ∈ s, c.toNat < 0x80) → lowerLatin (upper s) = s) := by
  induction s with
  | nil => exact ⟨fun _ => rfl, fun _ => rfl⟩
  | cons c s ih =>
    obtain ⟨u, hu, hlen'⟩ := exists_upperChar_eq hlen
    have hupper : upper (c :: s) = u :: upper s := by rw [upper_cons, hu, List.singleton_append]
    rw [hupper, List.forall_mem_cons] at hascii
    obtain ⟨hc, hs⟩ : lowerLatinChar c = c ∧ lowerLatin s = s := by
      simpa [lowerLatin] using hlower
    obtain ⟨hfold, heq⟩ := ih hlen' hascii.2 hs
    have hcons : lowerLatin (u :: upper s) = lowerLatinChar u :: lowerLatin (upper s) := rfl
    rw [hupper, hcons]
    constructor
    · intro hdotless
      rw [List.mem_cons, not_or] at hdotless
      rw [fold_cons, fold_cons, hfold hdotless.2]
      congr 1
      rcases upperChar_eq_singleton hu hascii.1.1 hascii.1.2 with hcascii | rfl | ⟨rfl, rfl⟩
      · rw [eq_lowerLatinChar hu hcascii hc]
      · exact absurd rfl hdotless.1
      · decide +kernel
    · intro hall
      rw [List.forall_mem_cons] at hall
      rw [eq_lowerLatinChar hu hall.1 hc, heq hall.2]

end BootImage.Text
