import BootImage.Text.Quoted

/-!
# Hexadecimal numbers read back

The digits of a number are read from the left, each one worth what stands before it sixteen times
and itself. Zeros in front of the digits are worth nothing, so the width that a number is filled to
does not matter to the one who reads it. Nothing but digits is read, so neither a blank nor a sign
is in a text that spells a number.

## Main definitions

* `hexNumber?`: the number that hexadecimal digits spell.

## Main results

* `hexNumber?_hexDigits`: the digits of a number spell it.
* `notMem_of_hexNumber?`: what is no digit is in no text that spells a number.
* `length_hexDigits`: how wide a number is that fits the width.
-/

namespace BootImage.Text

/-- The value of a hexadecimal digit. -/
def hexValue? (c : Char) : Option Nat :=
  ['0', '1', '2', '3', '4', '5', '6', '7', '8', '9', 'a', 'b', 'c', 'd', 'e', 'f'].idxOf? c

/-- The number that hexadecimal digits spell behind the number `n`. -/
def hexFrom (n : Nat) : List Char → Option Nat
  | [] => some n
  | c :: rest => (hexValue? c).bind fun d => hexFrom (16 * n + d) rest

/-- The number that a text of hexadecimal digits spells. -/
def hexNumber? (s : List Char) : Option Nat :=
  if s = [] then none else hexFrom 0 s

theorem hexValue?_digitChar {d : Nat} (h : d < 16) : hexValue? d.digitChar = some d := by
  have hall : ∀ d < 16, hexValue? d.digitChar = some d := by decide
  exact hall d h

theorem hexFrom_append (n : Nat) (s t : List Char) :
    hexFrom n (s ++ t) = (hexFrom n s).bind fun m => hexFrom m t := by
  induction s generalizing n with
  | nil => rfl
  | cons c s ih =>
    rw [List.cons_append, hexFrom, hexFrom, Option.bind_assoc]
    exact congrArg _ (funext fun d => ih _)

theorem hexFrom_zeros (count : Nat) (s : List Char) :
    hexFrom 0 (List.replicate count '0' ++ s) = hexFrom 0 s := by
  induction count with
  | zero => rfl
  | succ count ih => exact ih

theorem hexFrom_toDigits (n : Nat) : hexFrom 0 (Nat.toDigits 16 n) = some n := by
  induction n using Nat.strongRecOn with
  | ind n ih =>
    by_cases h : n < 16
    · rw [Nat.toDigits_of_lt_base h, hexFrom, hexValue?_digitChar h, Option.bind_some, hexFrom,
        Nat.mul_zero, Nat.zero_add]
    · have hlast : n % 16 < 16 := Nat.mod_lt _ (by decide)
      rw [Nat.toDigits_of_base_le (by decide) (by omega), hexFrom_append, ih (n / 16) (by omega),
        Option.bind_some, hexFrom, hexValue?_digitChar hlast, Option.bind_some, hexFrom,
        Nat.div_add_mod]

theorem hexDigits_ne_nil (width n : Nat) : hexDigits width n ≠ [] :=
  List.append_ne_nil_of_right_ne_nil _ Nat.toDigits_ne_nil

/-- The digits of a number spell it, whatever width it is filled to. -/
theorem hexNumber?_hexDigits (width n : Nat) : hexNumber? (hexDigits width n) = some n := by
  rw [hexNumber?, if_neg (hexDigits_ne_nil width n), hexDigits, hexFrom_zeros, hexFrom_toDigits]

theorem notMem_of_hexFrom {c : Char} (hc : hexValue? c = none) {n m : Nat} {s : List Char}
    (h : hexFrom n s = some m) : c ∉ s := by
  induction s generalizing n with
  | nil => exact List.not_mem_nil
  | cons d s ih =>
    obtain ⟨v, hv, hrest⟩ := Option.bind_eq_some_iff.1 h
    rw [List.mem_cons, not_or]
    refine ⟨?_, ih hrest⟩
    rintro rfl
    rw [hc] at hv
    cases hv

/-- What is no digit is in no text that spells a number. -/
theorem notMem_of_hexNumber? {c : Char} (hc : hexValue? c = none) {n : Nat} {s : List Char}
    (h : hexNumber? s = some n) : c ∉ s := by
  rw [hexNumber?] at h
  split at h
  · cases h
  · exact notMem_of_hexFrom hc h

/-- A number that fits the width has as many digits. -/
theorem length_hexDigits {width n : Nat} (hwidth : 0 < width) (h : n < Nat.pow 16 width) :
    (hexDigits width n).length = width := by
  have hle := (Nat.length_toDigits_le_iff (by decide) hwidth).2 h
  rw [hexDigits, List.length_append, List.length_replicate, Nat.sub_add_cancel hle]

end BootImage.Text
