import BootImage.Proofs.Fat.Naming
import Mathlib.Order.Interval.Finset.Nat

/-!
# Fresh aliases

A name without a short form gets an alias: a part of its base with a number behind it. The room for
the base shrinks as the number grows, and the base can have tildes and digits of its own, so it is
not the width of the parts but the last tilde that tells one number from another. Aliases of
different numbers are then different, and fewer taken names than numbers leave one to be found.

## Main definitions

* `IsAlias`: a short name that is made of legal characters and ends its base in a number.

## Main results

* `injOn_aliasAt`: different numbers give different aliases.
* `isAlias_aliasAt`: the alias of a number is made of legal characters.
* `shortAlias_isLeast`: the alias that is chosen has the least number that is not taken.
-/

namespace BootImage.Fat

/-- A short name whose base ends in a tilde and the number. -/
structure IsAlias (number : Nat) (short : Bytes) : Prop where
  /-- The base and the extension are legal characters with spaces behind them. -/
  parts : ∃ stem extension : List Char,
    short = asciiBytes (Text.padRight 8 (stem ++ '~' :: numberDigits number) ++
      Text.padRight 3 extension) ∧
    stem ≠ [] ∧ (stem ++ '~' :: numberDigits number).length ≤ 8 ∧ extension.length ≤ 3 ∧
    (stem ++ '~' :: numberDigits number).all isShortChar = true ∧
    extension.all isShortChar = true
  length : short.length = 11
  /-- The first byte neither ends a directory nor marks a slot, and is not a space or a dot. -/
  first : ∀ b ∈ [0x00, firstByteSubstitute, deletedMark, 0x20, 0x2E], short.getD 0 0 ≠ b

/-! ### The number behind the last tilde -/

theorem numberDigits_injective : Function.Injective numberDigits := by
  intro m n h
  have hvalue (k : Nat) : Nat.ofDigitChars 10 (numberDigits k) 0 = k := by
    rw [numberDigits_eq]
    exact Nat.ofDigitChars_toDigits (by decide) (by decide)
  rw [← hvalue m, h, hvalue]

theorem eq_of_append_numberDigits {stem stem' : List Char} {m n : Nat}
    (h : stem ++ '~' :: numberDigits m = stem' ++ '~' :: numberDigits n) : m = n := by
  have hbehind (s : List Char) (k : Nat) :
      (s ++ '~' :: numberDigits k).reverse.takeWhile (· ≠ '~') = (numberDigits k).reverse := by
    rw [List.reverse_append, List.reverse_cons, List.append_assoc, List.takeWhile_append_of_pos]
    · simp
    · intro c hc
      rw [decide_eq_true_iff]
      rintro rfl
      exact absurd (isDigit_of_mem_numberDigits (List.mem_reverse.1 hc)) (by decide)
  refine numberDigits_injective (List.reverse_injective ?_)
  rw [← hbehind stem, h, hbehind]

/-- Different numbers give different aliases. -/
theorem injOn_aliasAt (name : String) : Set.InjOn (aliasAt name) (Set.Icc 1 maxAliasNumber) := by
  intro m hm n hn h
  obtain ⟨stem, heq, -, hlen, hall⟩ := exists_aliasAt_eq name hm.2
  obtain ⟨stem', heq', -, hlen', hall'⟩ := exists_aliasAt_eq name hn.2
  rw [heq, heq', asciiBytes_elevenChars, asciiBytes_elevenChars] at h
  have hbase := (List.append_inj h (by
    rw [length_asciiBytes_padRight hlen, length_asciiBytes_padRight hlen'])).1
  have hsame := congrArg (fun bs => Text.trimEnd (latinText bs)) hbase
  simp only [trimEnd_padRight_asciiBytes 8 hall, trimEnd_padRight_asciiBytes 8 hall'] at hsame
  exact eq_of_append_numberDigits hsame

/-! ### Which alias is chosen -/

theorem isAlias_aliasAt (name : String) {number : Nat} (h : number ≤ maxAliasNumber) :
    IsAlias number (aliasAt name number) := by
  obtain ⟨stem, heq, hne, hlen, hall⟩ := exists_aliasAt_eq name h
  have hlen' := length_aliasExtension name
  have hall' := all_aliasExtension name
  generalize aliasAt name number = short at heq ⊢
  have hwf : Spelling.WellFormed ⟨none, short, 0⟩ :=
    ⟨⟨_, _, heq, by simp, hlen, hlen', hall, hall'⟩, Nat.zero_lt_succ _, by simp⟩
  have hillegal : ∀ b ∈ [0x00, firstByteSubstitute, deletedMark, 0x20, 0x2E],
      ¬ (0x21 ≤ b.toNat ∧ b.toNat ≤ 0x7E ∧ b.toNat ≠ 0x2E) := by
    simp [firstByteSubstitute, deletedMark]
  exact ⟨⟨stem, _, heq, hne, hlen, hlen', hall, hall'⟩, hwf.length_short,
    fun b hb hfirst => hillegal b hb (hfirst ▸ hwf.first_range)⟩

/-- The least number whose alias is not taken is chosen. -/
theorem shortAlias_isLeast (name : String) {taken : Bytes → Bool} {names : Finset Bytes}
    (hnames : ∀ short, taken short = true ↔ short ∈ names) (hfew : names.card < maxAliasNumber) :
    Set.InjOn (aliasAt name) (Set.Icc 1 maxAliasNumber) ∧
      (∀ number ≤ maxAliasNumber, IsAlias number (aliasAt name number)) ∧
      ∃ number, shortAlias name taken = .ok (aliasAt name number) ∧
        IsLeast {n | n ∈ Set.Icc 1 maxAliasNumber ∧ aliasAt name n ∉ names} number := by
  refine ⟨injOn_aliasAt name, fun number => isAlias_aliasAt name, ?_⟩
  rcases shortAlias_cases name taken with ⟨-, hall⟩ | ⟨number, hlow, hhigh, hok, hfree, hleast⟩
  · -- There would be as many names as numbers.
    have hmaps : Set.MapsTo (aliasAt name) (Finset.Icc 1 maxAliasNumber) names := by
      intro n hn
      obtain ⟨hlow, hhigh⟩ := Finset.mem_Icc.1 hn
      exact (hnames _).1 (hall n hlow hhigh)
    have hcard := Finset.card_le_card_of_injOn _ hmaps (by
      rw [Finset.coe_Icc]
      exact injOn_aliasAt name)
    rw [Nat.card_Icc] at hcard
    omega
  · refine ⟨number, hok, ⟨⟨hlow, hhigh⟩, ?_⟩, ?_⟩
    · rw [← hnames, Bool.not_eq_true]
      exact hfree
    · rintro n ⟨⟨hn, -⟩, hnew⟩
      by_contra hlt
      exact hnew ((hnames _).1 (hleast n hn (by omega)))

/-- A name with a space in it, where the first alias is taken, gets the second. -/
theorem shortAlias_isLeast_second :
    (∀ short, (short == aliasAt "l o" 1) = true ↔ short ∈ ({aliasAt "l o" 1} : Finset Bytes)) ∧
      ({aliasAt "l o" 1} : Finset Bytes).card < maxAliasNumber ∧
      shortAlias "l o" (· == aliasAt "l o" 1) = .ok (asciiBytes "LO~2       ".toList) := by
  have hnames : ∀ short, (short == aliasAt "l o" 1) = true ↔
      short ∈ ({aliasAt "l o" 1} : Finset Bytes) := fun short => by
    rw [beq_iff_eq, Finset.mem_singleton]
  have hfew : ({aliasAt "l o" 1} : Finset Bytes).card < maxAliasNumber := by
    rw [Finset.card_singleton]
    decide
  have hdiffer : aliasAt "l o" 2 ≠ aliasAt "l o" 1 := by decide
  obtain ⟨-, -, number, hok, ⟨⟨hlow, -⟩, hnew⟩, hleast⟩ := shortAlias_isLeast "l o" hnames hfew
  have hnumber : number ≤ 2 :=
    hleast ⟨⟨by decide, by decide⟩, fun hmem => hdiffer (Finset.mem_singleton.1 hmem)⟩
  have hother : number ≠ 1 := fun heq => hnew (heq ▸ Finset.mem_singleton_self _)
  obtain rfl : number = 2 := by omega
  have hsecond : aliasAt "l o" 2 = asciiBytes "LO~2       ".toList := by decide
  exact ⟨hnames, hfew, hsecond ▸ hok⟩

end BootImage.Fat
