import BootImage.Fat.LongName
import BootImage.Fat.ShortName
import BootImage.Text.CodePoint

/-!
# Directory entries

An entry fills one or more slots of 32 bytes: the slots of its long name, if it needs one, and a
slot with its short name, its attributes, its first cluster and its size.

## Main definitions

* `DirEntry`: an entry, as it is read.
* `isValidName`, `checkName`: the names that an entry can have.
* `shortSlot`: the slot with the short name.
* `encodeEntry`: all slots of an entry.
-/

namespace BootImage.Fat

/-- An entry of a directory and the numbers of the slots that it fills. -/
structure DirEntry where
  name : String
  short : Bytes
  attributes : UInt8
  cluster : Nat
  size : Nat
  slots : List Nat
  deriving DecidableEq, Repr, Inhabited

/-- The bytes of a slot. -/
def slotSize : Nat := 32

/-- The attribute bit of a volume label. -/
def labelAttribute : UInt8 := 0x08

/-- The attribute bit of a directory. -/
def directoryAttribute : UInt8 := 0x10

/-- The attribute bit of a file. -/
def archiveAttribute : UInt8 := 0x20

/-- The first byte of a deleted slot. -/
def deletedMark : UInt8 := 0xE5

/-- The short name of the entry that stands for the directory itself. -/
def dotName : Bytes := asciiBytes (Text.padRight 11 ['.'])

/-- The short name of the entry that stands for the parent directory. -/
def dotDotName : Bytes := asciiBytes (Text.padRight 11 ['.', '.'])

/-- Whether an entry is a directory. -/
def DirEntry.isDirectory (e : DirEntry) : Bool :=
  e.attributes &&& directoryAttribute != 0

/-- Whether an entry stands for the directory itself or its parent. -/
def DirEntry.isDot (e : DirEntry) : Bool :=
  e.short == dotName || e.short == dotDotName

/-- The date 1980-01-01, which every entry has. -/
def epochDate : Nat := 0x21

/-- Whether an entry can have a name: at most 255 units, no control character, no separator and no
wildcard, and not one of the two names of dots. -/
def isValidName (name : String) : Bool :=
  name ≠ "" && name ≠ "." && name ≠ ".." && (Text.units name.toList).length ≤ 255 &&
    name.toList.all fun c => 0x20 ≤ c.toNat && !"\"*/:<>?\\|".toList.contains c

/-- Whether an entry can have a name that is given as code points. A name other than those of dots
is encoded, to be measured, before anything else about it is looked at, and half of a surrogate pair
has no code. -/
def checkName (name : List Text.CodePoint) : Except Error Bool :=
  if name ∈ ["", ".", ".."].map Text.points then .ok false
  else
    match Text.ofPoints? name with
    | some name => .ok (isValidName name)
    | none => .error .notEncodable

theorem checkName_points (name : String) :
    checkName (Text.points name) = .ok (isValidName name) := by
  rw [checkName, Text.ofPoints?_points]
  split
  · rename_i hdots
    obtain ⟨dots, hmem, hsame⟩ := List.mem_map.1 hdots
    obtain rfl := Text.points_inj.1 hsame
    rw [(by decide : ∀ dots ∈ ["", ".", ".."], isValidName dots = false) dots hmem]
  · rfl

/-- The slot of a short name. -/
def shortSlot (short : Bytes) (attributes : UInt8) (cluster size : Nat) (caseBits : UInt8) :
    Bytes :=
  [(0, short), (11, [attributes]), (12, [caseBits]), (16, Bytes.ofNat 2 epochDate),
   (18, Bytes.ofNat 2 epochDate), (20, Bytes.ofNat 2 (cluster / 0x10000)),
   (24, Bytes.ofNat 2 epochDate), (26, Bytes.ofNat 2 cluster), (28, Bytes.ofNat 4 size)].foldl
    (fun slot (start, bs) => slot.overlay start bs) (Bytes.zeros (slotSize - 11 + short.length))

/-- The slot of a short name, if its fields can hold the given values. Of the cluster only the lower
32 bits are stored. -/
def shortSlot? (short : Bytes) (attributes cluster size caseBits : Int) : Except Error Bytes := do
  unless 0 ≤ attributes ∧ attributes < 0x100 ∧ 0 ≤ caseBits ∧ caseBits < 0x100 do throw .byteRange
  unless 11 ≤ short.length ∧ 0 ≤ size ∧ size < 0x100000000 do throw .fieldRange
  return shortSlot short (UInt8.ofNat attributes.toNat) (cluster % 0x100000000).toNat size.toNat
    (UInt8.ofNat caseBits.toNat)

/-- All slots of an entry with a name. The short names that are `taken` are not used again. -/
def encodeEntry (name : String) (taken : Bytes → Bool) (attributes cluster size : Int) :
    Except Error (List Bytes) := do
  unless isValidName name do throw (.badName name)
  let long : Except Error (List Bytes) := do
    let short ← shortAlias name taken
    return longSlots name short ++ [← shortSlot? short attributes cluster size 0]
  match shortForm name with
  | some (short, caseBits) =>
    if taken short then long else return [← shortSlot? short attributes cluster size caseBits]
  | none => long

end BootImage.Fat
