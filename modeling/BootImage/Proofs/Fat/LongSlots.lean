import BootImage.Proofs.Fat.Record
import Mathlib.Algebra.Order.Floor.Div

/-!
# The layout of a long name

A long name is in slots of thirteen units that stand in front of the entry, the last part first.
Other systems read these slots too, so what the layout fixes is told here without how the slots are
made: how many there are, how they are numbered and marked, and which units they hold. The units
are compared before they are read as text, since a pair of surrogates can be divided between two
slots, and neither slot then spells the character.

## Main definitions

* `LongLayout`: slots that are laid out as those of a long name.

## Main results

* `flatMap_unitsIn`: what the slots hold in the order of their numbers.
* `toNat_getD_longSlots`: how the slots are numbered.
* `longSlots_layout`: the slots of a valid name are laid out so.
-/

namespace BootImage.Fat

/-- The slots of a long name, beside a short name, as other systems read them. -/
structure LongLayout (name : String) (short : Bytes) (slots : List Bytes) : Prop where
  /-- There are thirteen units to a slot. -/
  count : slots.length = (Text.units name.toList).length ⌈/⌉ slotUnits
  few : slots.length ≤ 20
  whole : ∀ s ∈ slots, s.length = slotSize
  /-- The numbers count down to 1, and only the slot that comes first is marked as the last part. -/
  number : ∀ i (hi : i < slots.length),
    (slots[i].getD 0 0).toNat = slots.length - i + if i = 0 then lastPartMark.toNat else 0
  /-- No slot ends the directory or is taken for a deleted one. -/
  used : ∀ s ∈ slots, s.getD 0 0 ≠ 0 ∧ s.getD 0 0 ≠ deletedMark
  mark : ∀ s ∈ slots, s.getD 11 0 = longNameMark
  sum : ∀ s ∈ slots, s.getD 13 0 = checksum short
  /-- The other bytes are zero: the type of the slot and the first cluster, which it has not. -/
  zero : ∀ s ∈ slots, s.getD 12 0 = 0 ∧ s.slice 26 2 = [0, 0]
  /-- In the order of their numbers the slots hold the units of the name. -/
  units : slotUnits ∣ (Text.units name.toList).length →
    slots.reverse.flatMap unitsIn = Text.units name.toList
  /-- Behind a name that does not fill its last slot there is a zero unit, and then only ones. -/
  filling : ¬ slotUnits ∣ (Text.units name.toList).length →
    slots.reverse.flatMap unitsIn = Text.units name.toList ++
      0 :: List.replicate (slotUnits * slots.length - (Text.units name.toList).length - 1) 0xFFFF

/-! ### One slot -/

theorem zeros_longSlot {part : List UInt16} {number sum : UInt8} (h : part.length = slotUnits) :
    (longSlot number sum part).getD 12 0 = 0 ∧
      Bytes.slice (longSlot number sum part) 26 2 = [0, 0] := by
  obtain ⟨a, b, c, ha, hb, -, -, heq⟩ := exists_longSlot_eq number sum h
  rw [heq]
  constructor
  · rw [List.getD_append_right _ _ _ _ (by simp), List.length_singleton,
      List.getD_append_right _ _ _ _ (by omega), ha]
    rfl
  · rw [Bytes.slice, ← List.append_assoc, ← List.append_assoc, ← List.append_assoc,
      List.drop_left' (by simp [ha, hb]), List.take_left' (by rfl)]

/-! ### The slots of a name -/

/-- The slot of the part with a given number, of so many. -/
def numberedSlot (sum : UInt8) (count : Nat) (part : List UInt16 × Nat) : Bytes :=
  longSlot (UInt8.ofNat part.2 ||| if part.2 = count then lastPartMark else 0) sum part.1

/-- The slots are those of the numbered parts, from the last to the first. -/
theorem longSlotsFrom_eq (sum : UInt8) (count number : Nat) (parts : List (List UInt16)) :
    longSlotsFrom sum count number parts =
      ((parts.zipIdx number).map (numberedSlot sum count)).reverse := by
  induction parts generalizing number with
  | nil => rfl
  | cons part parts ih =>
    rw [longSlotsFrom, ih, List.zipIdx_cons, List.map_cons, List.reverse_cons]
    rfl

theorem toNat_number : ∀ n < 64, ∀ last : Bool,
    (UInt8.ofNat n ||| if last then lastPartMark else 0).toNat =
      n + if last then lastPartMark.toNat else 0 := by
  decide

theorem fillUnits_of_dvd {us : List UInt16} (h : slotUnits ∣ us.length) : fillUnits us = us :=
  if_pos (Nat.mod_eq_zero_of_dvd h)

theorem fillUnits_of_not_dvd {us : List UInt16} (h : ¬ slotUnits ∣ us.length) :
    fillUnits us =
      us ++ 0 :: List.replicate ((fillUnits us).length - us.length - 1) 0xFFFF := by
  have hmod : us.length % slotUnits ≠ 0 := fun hzero => h (Nat.dvd_of_mod_eq_zero hzero)
  rw [fillUnits, if_neg hmod, List.length_append, List.length_cons, List.length_replicate,
    Nat.add_sub_cancel_left, Nat.add_sub_cancel]

/-- In the order of their numbers the slots hold the units of the name, filled up. -/
theorem flatMap_unitsIn (name : String) (short : Bytes) :
    (longSlots name short).reverse.flatMap unitsIn = fillUnits (Text.units name.toList) := by
  obtain ⟨n, hfill, -⟩ := length_fillUnits (Text.units name.toList)
  obtain ⟨-, hparts, hflat⟩ := unitParts_eq hfill
  have hunits : ∀ x ∈ (nameParts name).zipIdx 1,
      unitsIn (numberedSlot (checksum short) (nameParts name).length x) = x.1 := fun x hx =>
    unitsIn_longSlot (hparts _ (List.fst_mem_of_mem_zipIdx hx))
  rw [longSlots, longSlotsFrom_eq, List.reverse_reverse, List.flatMap_map,
    List.flatMap_congr hunits, List.flatMap_def, List.zipIdx_map_fst]
  exact hflat

/-- The slots are numbered from the last part to the first, and the first slot is marked. -/
theorem toNat_getD_longSlots {name : String} {short : Bytes}
    (hfew : (longSlots name short).length ≤ 20) (i : Nat) (hi : i < (longSlots name short).length) :
    ((longSlots name short)[i].getD 0 0).toNat =
      (longSlots name short).length - i + if i = 0 then lastPartMark.toNat else 0 := by
  have hlength : (longSlots name short).length = (nameParts name).length :=
    length_longSlotsFrom ..
  have hnumber := toNat_number ((longSlots name short).length - i) (by omega) (decide (i = 0))
  have hslot : (longSlots name short)[i].getD 0 0 =
      UInt8.ofNat (1 + ((nameParts name).length - 1 - i)) |||
        if 1 + ((nameParts name).length - 1 - i) = (nameParts name).length then lastPartMark
        else 0 := by
    simp only [longSlots, longSlotsFrom_eq, List.getElem_reverse, List.getElem_map,
      List.getElem_zipIdx, List.length_map, List.length_zipIdx, numberedSlot, getD_longSlot_zero]
  rw [hlength] at hi hnumber ⊢
  rw [hslot, show 1 + ((nameParts name).length - 1 - i) = (nameParts name).length - i by omega]
  simp only [show (nameParts name).length - i = (nameParts name).length ↔ i = 0 by omega]
  simpa only [decide_eq_true_eq] using hnumber

/-- Each slot of a long name is made of thirteen units. -/
theorem exists_of_mem_longSlots {name : String} {short s : Bytes} (h : s ∈ longSlots name short) :
    ∃ number part, part.length = slotUnits ∧ s = longSlot number (checksum short) part := by
  obtain ⟨n, hfill, -⟩ := length_fillUnits (Text.units name.toList)
  obtain ⟨-, hparts, -⟩ := unitParts_eq hfill
  rw [longSlots, longSlotsFrom_eq, List.mem_reverse] at h
  obtain ⟨x, hx, rfl⟩ := List.mem_map.1 h
  exact ⟨_, x.1, hparts _ (List.fst_mem_of_mem_zipIdx hx), rfl⟩

/-- A valid name is written in the layout, beside any short name. -/
theorem longSlots_layout {name : String} (hvalid : isValidName name = true) (short : Bytes) :
    longSlots? name short = .ok (longSlots name short) ∧
      LongLayout name short (longSlots name short) := by
  obtain ⟨n, hfill, hlow, hhigh⟩ := length_fillUnits (Text.units name.toList)
  obtain ⟨hparts, hpart, -⟩ := unitParts_eq hfill
  obtain ⟨-, hfew, -⟩ := nameParts_facts hvalid
  have hlength : (longSlots name short).length = (nameParts name).length :=
    length_longSlotsFrom ..
  have hcount : (nameParts name).length = n := hparts
  have hbytes : ∀ s ∈ longSlots name short,
      s.length = slotSize ∧ s.getD 0 0 ≠ 0 ∧ s.getD 0 0 ≠ deletedMark := fun s hs =>
    of_mem_longSlotsFrom hpart Nat.one_pos (by omega) hs
  have hunits := flatMap_unitsIn name short
  refine ⟨if_pos (by omega), {
    count := ?count
    few := by omega
    whole := fun s hs => (hbytes s hs).1
    number := toNat_getD_longSlots (by omega)
    used := fun s hs => (hbytes s hs).2
    mark := fun s hs => ?mark
    sum := fun s hs => ?sum
    zero := fun s hs => ?zero
    units := fun hdvd => by rw [hunits, fillUnits_of_dvd hdvd]
    filling := fun hdvd => by rw [hunits, fillUnits_of_not_dvd hdvd, hfill, hlength, hcount] }⟩
  case count =>
    simp only [slotUnits] at hlow hhigh
    rw [hlength, hcount, slotUnits, Nat.ceilDiv_eq_add_pred_div]
    omega
  all_goals obtain ⟨number, part, hpart, rfl⟩ := exists_of_mem_longSlots hs
  case mark => exact getD_longSlot_mark hpart
  case sum => exact getD_longSlot_sum hpart
  case zero => exact zeros_longSlot hpart

/-- Here the two units of the last character are in different slots. -/
theorem longSlots_layout_divided :
    isValidName "aaaaaaaaaaaa😀" = true ∧
      (longSlots "aaaaaaaaaaaa😀" (asciiBytes "AAAAAA~1   ".toList)).length = 2 ∧
      LongLayout "aaaaaaaaaaaa😀" (asciiBytes "AAAAAA~1   ".toList)
        (longSlots "aaaaaaaaaaaa😀" (asciiBytes "AAAAAA~1   ".toList)) := by
  have hvalid : isValidName "aaaaaaaaaaaa😀" = true := by decide
  have hlayout := (longSlots_layout hvalid (asciiBytes "AAAAAA~1   ".toList)).2
  refine ⟨hvalid, ?_, hlayout⟩
  rw [hlayout.count]
  decide

end BootImage.Fat
