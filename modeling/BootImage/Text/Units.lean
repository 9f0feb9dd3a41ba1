/-!
# UTF-16 code units

Long file names are stored in 16-bit units: one for a character up to U+FFFF, a pair of surrogates
for each other one. What is stored need not be well formed; reading puts the replacement character
in the place of each surrogate that has no partner.

## Main definitions

* `units`: the code units of a text.
* `ofUnits`: the text that code units stand for.

## Main results

* `ofUnits_units`: reading the units of a text gives the text.
* `length_units_append`: the count of units adds up.
-/

namespace BootImage.Text

/-- The character that stands for units which spell none. -/
def replacement : Char := '\uFFFD'

/-- The code units of one character. -/
def charUnits (c : Char) : List UInt16 :=
  if c.toNat < 0x10000 then [UInt16.ofNat c.toNat]
  else
    [UInt16.ofNat (0xD800 + (c.toNat - 0x10000) / 0x400),
      UInt16.ofNat (0xDC00 + (c.toNat - 0x10000) % 0x400)]

/-- The code units of a text. -/
def units (s : List Char) : List UInt16 :=
  s.flatMap charUnits

/-- Whether a unit is the first half of a pair. -/
def isLeading (u : UInt16) : Bool :=
  0xD800 ≤ u.toNat && u.toNat < 0xDC00

/-- Whether a unit is the second half of a pair. -/
def isTrailing (u : UInt16) : Bool :=
  0xDC00 ≤ u.toNat && u.toNat < 0xE000

/-- The character that a pair of surrogates stands for. -/
def pairChar (lead trail : UInt16) : Char :=
  Char.ofNat (0x10000 + (lead.toNat - 0xD800) * 0x400 + (trail.toNat - 0xDC00))

/-- The text that code units stand for, with the replacement character for each surrogate outside a
pair. -/
def ofUnits : List UInt16 → List Char
  | [] => []
  | [u] => if isLeading u || isTrailing u then [replacement] else [Char.ofNat u.toNat]
  | u :: v :: rest =>
    if isLeading u then
      if isTrailing v then pairChar u v :: ofUnits rest else replacement :: ofUnits (v :: rest)
    else if isTrailing u then replacement :: ofUnits (v :: rest)
    else Char.ofNat u.toNat :: ofUnits (v :: rest)

@[simp] theorem units_nil : units [] = [] := rfl

theorem units_cons (c : Char) (s : List Char) : units (c :: s) = charUnits c ++ units s := by
  simp [units]

theorem length_units_append (s t : List Char) :
    (units (s ++ t)).length = (units s).length + (units t).length := by
  simp [units]

theorem ofUnits_cons_of_plain {u : UInt16} (rest : List UInt16) (hl : isLeading u = false)
    (ht : isTrailing u = false) : ofUnits (u :: rest) = Char.ofNat u.toNat :: ofUnits rest := by
  cases rest <;> simp [ofUnits, hl, ht]

theorem ofUnits_cons_of_pair {u v : UInt16} (rest : List UInt16) (hl : isLeading u = true)
    (ht : isTrailing v = true) : ofUnits (u :: v :: rest) = pairChar u v :: ofUnits rest := by
  simp [ofUnits, hl, ht]

theorem ofUnits_charUnits_append (c : Char) (rest : List UInt16) :
    ofUnits (charUnits c ++ rest) = c :: ofUnits rest := by
  have hvalid := c.valid
  simp only [UInt32.isValidChar, Nat.isValidChar] at hvalid
  have hn : c.toNat = c.val.toNat := rfl
  unfold charUnits
  split
  · generalize hu : UInt16.ofNat c.toNat = u
    have hval : u.toNat = c.toNat := by subst hu; simp; omega
    rw [List.singleton_append, ofUnits_cons_of_plain rest (by simp [isLeading, hval]; omega)
      (by simp [isTrailing, hval]; omega), hval, Char.ofNat_toNat]
  · generalize hu : UInt16.ofNat (0xD800 + (c.toNat - 0x10000) / 0x400) = u
    generalize hv : UInt16.ofNat (0xDC00 + (c.toNat - 0x10000) % 0x400) = v
    have h1 : u.toNat = 0xD800 + (c.toNat - 0x10000) / 0x400 := by
      rw [← hu, UInt16.toNat_ofNat']; omega
    have h2 : v.toNat = 0xDC00 + (c.toNat - 0x10000) % 0x400 := by
      rw [← hv, UInt16.toNat_ofNat']; omega
    rw [List.cons_append, List.singleton_append,
      ofUnits_cons_of_pair rest (by simp [isLeading, h1]; omega)
        (by simp [isTrailing, h2]; omega), pairChar, h1, h2,
      show 0x10000 + (0xD800 + (c.toNat - 0x10000) / 0x400 - 0xD800) * 0x400 +
        (0xDC00 + (c.toNat - 0x10000) % 0x400 - 0xDC00) = c.toNat by omega, Char.ofNat_toNat]

theorem ofUnits_units (s : List Char) : ofUnits (units s) = s := by
  induction s with
  | nil => rfl
  | cons c s ih => rw [units_cons, ofUnits_charUnits_append, ih]

end BootImage.Text
