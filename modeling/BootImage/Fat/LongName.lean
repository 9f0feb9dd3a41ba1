import BootImage.Bytes.Basic
import BootImage.Fat.Error
import BootImage.Text.Units

/-!
# Long names

A long name is stored in slots of its own before the entry's short one: thirteen UTF-16 units to a
slot, the last part first. Each slot carries its number and a checksum of the short name, so that
slots that lost their entry are told apart.

## Main definitions

* `checksum`: the checksum of a short name.
* `longSlots`: the slots of a long name.
* `slotText`: the part of a name in one slot.
-/

namespace BootImage.Fat

/-- The attribute byte of a slot that holds part of a long name. -/
def longNameMark : UInt8 := 0x0F

/-- The bit in the number of a slot that marks the last part of a name, the first one stored. -/
def lastPartMark : UInt8 := 0x40

/-- The units in one slot. -/
def slotUnits : Nat := 13

/-- The checksum of a short name: rotated right by one bit and added to, byte by byte. -/
def checksum (short : Bytes) : UInt8 :=
  short.foldl (fun sum b => (sum <<< 7) + (sum >>> 1) + b) 0

/-- Units filled up to a whole number of slots: with one zero unit, then with ones. -/
def fillUnits (us : List UInt16) : List UInt16 :=
  if us.length % slotUnits = 0 then us
  else us ++ 0 :: List.replicate (slotUnits - us.length % slotUnits - 1) 0xFFFF

/-- The bytes of units. -/
def unitBytes (us : List UInt16) : Bytes :=
  us.flatMap fun u => Bytes.ofNat 2 u.toNat

/-- The slot with the given number byte that holds the given thirteen units. -/
def longSlot (number sum : UInt8) (part : List UInt16) : Bytes :=
  number :: unitBytes (part.take 5) ++
    longNameMark :: 0 :: sum :: unitBytes ((part.drop 5).take 6) ++
    0 :: 0 :: unitBytes (part.drop 11)

/-- The slots of the parts from the given number on, the last part first. -/
def longSlotsFrom (sum : UInt8) (count : Nat) : (number : Nat) → List (List UInt16) → List Bytes
  | _, [] => []
  | number, part :: parts =>
    let mark := if number = count then lastPartMark else 0
    longSlotsFrom sum count (number + 1) parts ++ [longSlot (UInt8.ofNat number ||| mark) sum part]

/-- Units cut into parts of thirteen. -/
def unitParts (us : List UInt16) : List (List UInt16) :=
  if _ : us = [] then [] else us.take slotUnits :: unitParts (us.drop slotUnits)
termination_by us.length
decreasing_by
  have : 0 < us.length := List.length_pos_iff.2 ‹_›
  simp [slotUnits]; omega

/-- A long name in parts of thirteen units. -/
def nameParts (name : String) : List (List UInt16) :=
  unitParts (fillUnits (Text.units name.toList))

/-- The slots of a long name, in the order in which they are stored. -/
def longSlots (name : String) (short : Bytes) : List Bytes :=
  longSlotsFrom (checksum short) (nameParts name).length 1 (nameParts name)

/-- The slots of a long name whose slot numbers fit a byte. -/
def longSlots? (name : String) (short : Bytes) : Except Error (List Bytes) :=
  if (nameParts name).length < 0x100 then .ok (longSlots name short) else .error .byteRange

/-- The units that bytes spell, lowest byte first. -/
def unitsOfBytes : Bytes → List UInt16
  | a :: b :: rest => UInt16.ofNat (Bytes.toNat [a, b]) :: unitsOfBytes rest
  | _ => []

/-- The part of a name in one slot, up to a zero unit. -/
def slotText (slot : Bytes) : List Char :=
  let us := unitsOfBytes (slot.slice 1 10 ++ slot.slice 14 12 ++ slot.slice 28 4)
  (Text.ofUnits us).takeWhile (· ≠ '\x00')

end BootImage.Fat
