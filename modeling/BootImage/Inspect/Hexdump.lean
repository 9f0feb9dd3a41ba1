import BootImage.Bytes.Basic
import BootImage.Text.Pieces
import BootImage.Text.Quoted

/-!
# Hexadecimal dumps

Bytes shown sixteen to a line: the address of the first one, all of them in hexadecimal, and as
characters where they are printable ASCII.

## Main definitions

* `hexdump`: the lines of a dump.
-/

namespace BootImage.Inspect

/-- The bytes on one line. -/
def lineBytes : Nat := 16

/-- The eight digits of an address; a sign takes the place of one. -/
def addressText (address : Int) : List Char :=
  if address < 0 then '-' :: Text.hexDigits 7 (-address).toNat
  else Text.hexDigits 8 address.toNat

/-- The character that shows a byte. -/
def byteChar (b : UInt8) : Char :=
  if 32 ≤ b.toNat && b.toNat < 127 then Char.ofNat b.toNat else '.'

/-- Two digits for each byte, with spaces between them. -/
def hexColumns (bs : Bytes) : List Char :=
  [' '].intercalate (bs.map fun b => Text.hexDigits 2 b.toNat)

/-- The line for up to sixteen bytes. -/
def dumpLine (address : Int) (bs : Bytes) : String :=
  String.ofList (addressText address ++ "  ".toList ++ Text.padRight 48 (hexColumns bs) ++
    "  ".toList ++ bs.map byteChar)

/-- Bytes divided up into lines; the last one may be shorter. -/
def dumpRows (bs : Bytes) : List Bytes :=
  Bytes.pieces (lineBytes - 1) bs ++
    if bs.length % lineBytes = 0 then [] else [bs.drop (bs.length / lineBytes * lineBytes)]

/-- The lines that show the bytes of data up to the given length. The last line is not cut: it shows
all the sixteen bytes that start on it. -/
def hexdump (data : Bytes) (offset length : Int) : List String :=
  let shown := (min (data.length : Int) length).toNat
  let rows := (dumpRows data).take ((shown + (lineBytes - 1)) / lineBytes)
  rows.zipIdx.map fun (row, i) => dumpLine (offset + (lineBytes * i : Nat)) row

end BootImage.Inspect
