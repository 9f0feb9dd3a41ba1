import BootImage.Bytes.Basic
import BootImage.Fat.Geometry
import BootImage.Text.Case
import BootImage.Text.Pieces

/-!
# The boot sector

The first sector of a volume records its geometry; the sector after it, FSInfo, keeps the count of
free clusters and a place to look for them.

## Main definitions

* `labelText`: a volume label as the boot sector has it.
* `bootSector`: the boot sector for a geometry.
* `Geometry.ofBootSector`: the geometry that a boot sector records.
* `fsInfo`: the FSInfo sector.
-/

namespace BootImage.Fat

/-- Whether a character can stand in a short name or a label. -/
def isShortChar (c : Char) : Bool :=
  c.isUpper || c.isDigit || "!#$%&'()-@^_`\x7b\x7d~".toList.contains c

/-- The bytes of an ASCII text. -/
def asciiBytes (s : List Char) : Bytes :=
  s.map fun c => UInt8.ofNat c.toNat

/-- A volume label: upper case, of the characters of short names and spaces, filled to eleven. -/
def labelText (label : String) : Except Error (List Char) :=
  let name := Text.upper label.toList
  if name.length ≤ 11 ∧ name.all (fun c => c = ' ' || isShortChar c) then
    .ok (Text.padRight 11 name)
  else .error (.badLabel (String.ofList name))

/-- The pieces of a boot sector and where they stand. -/
def bootFields (g : Geometry) (label : Bytes) (volumeId : Int) : List (Nat × Bytes) :=
  [(0, [0xEB, 0x58, 0x90]),
   (3, asciiBytes "IMGFORGE".toList),
   (11, Bytes.ofNat 2 g.bytesPerSector),
   (13, Bytes.ofNat 1 g.sectorsPerCluster),
   (14, Bytes.ofNat 2 g.reservedSectors),
   (16, Bytes.ofNat 1 g.tableCount),
   (21, [0xF8]),
   (24, Bytes.ofNat 2 63),
   (26, Bytes.ofNat 2 255),
   (32, Bytes.ofNat 4 g.totalSectors),
   (36, Bytes.ofNat 4 g.tableSectors),
   (44, Bytes.ofNat 4 g.rootCluster),
   (48, Bytes.ofNat 2 1),
   (50, Bytes.ofNat 2 6),
   (64, [0x80]),
   (66, [0x29]),
   (67, Bytes.ofNat 4 (volumeId % 0x100000000).toNat),
   (71, label),
   (82, asciiBytes "FAT32   ".toList),
   (510, [0x55, 0xAA])]

/-- The boot sector of a volume with the given geometry, label and volume number. -/
def bootSector (g : Geometry) (label : Bytes) (volumeId : Int) : Bytes :=
  (bootFields g label volumeId).foldl (fun sector (start, bs) => sector.overlay start bs)
    (Bytes.zeros g.bytesPerSector)

/-- The number in the `width` bytes of a sector from `start` on. -/
def numberAt (sector : Bytes) (start width : Nat) : Nat :=
  (sector.slice start width).toNat

/-- Whether a number is a power of two. -/
def isPowerOfTwo (n : Nat) : Bool :=
  n ≠ 0 && n &&& (n - 1) == 0

/-- The geometry that a boot sector records. Only what the other operations rely on is checked. -/
def Geometry.ofBootSector (boot : Bytes) (image : String) : Except Error Geometry := do
  unless boot.length ≥ 512 ∧ boot.slice 510 2 = [0x55, 0xAA] do throw (.noSignature image)
  unless boot.slice 82 8 = asciiBytes "FAT32   ".toList do throw (.notFat32 image)
  let g : Geometry :=
    { totalSectors := numberAt boot 32 4, tableSectors := numberAt boot 36 4,
      sectorsPerCluster := numberAt boot 13 1, bytesPerSector := numberAt boot 11 2,
      reservedSectors := numberAt boot 14 2, tableCount := numberAt boot 16 1,
      rootCluster := numberAt boot 44 4 }
  unless g.bytesPerSector ∈ [512, 1024, 2048, 4096] ∧ isPowerOfTwo g.sectorsPerCluster ∧
      g.tableCount ≠ 0 do throw (.corruptParameters image)
  return g

/-- The FSInfo sector. -/
def fsInfo (free next size : Nat) : Bytes :=
  [(0, Bytes.ofNat 4 0x41615252), (484, Bytes.ofNat 4 0x61417272), (488, Bytes.ofNat 4 free),
   (492, Bytes.ofNat 4 next), (508, Bytes.ofNat 4 0xAA550000)].foldl
    (fun sector (start, bs) => sector.overlay start bs) (Bytes.zeros size)

end BootImage.Fat
