import BootImage.Bytes.Content

/-!
# Headers of an ELF executable

Where an ELF file keeps what loading it needs: the fields of its header and of its program headers,
for either word size and either byte order. A header is a row of numbers, of which the word size
decides the widths and, in a program header, the order. It is read as a whole or not at all.

## Main definitions

* `Layout`: word size and byte order of a file.
* `Layout.number`: a number of a file.
* `Layout.unpack?`: the numbers that stand one after the other from a position on.
* `Header`, `Layout.header?`: the part of the file header that locates the program headers.
* `ProgramHeader`, `Layout.programHeader?`: one program header.
-/

namespace BootImage.Elf

/-- The size of addresses. -/
inductive WordSize
  | bits32
  | bits64
  deriving DecidableEq, Repr

/-- The order of the bytes in a number. -/
inductive ByteOrder
  | lowestFirst
  | highestFirst
  deriving DecidableEq, Repr

/-- How the numbers of a file are stored. -/
structure Layout where
  word : WordSize
  order : ByteOrder
  deriving DecidableEq, Repr

/-- The fields of the file header that say what the file is and where its program headers are. -/
structure Header where
  type : Nat
  tableOffset : Nat
  entrySize : Nat
  entryCount : Nat
  deriving DecidableEq, Repr

/-- The fields of a program header that matter for loading. -/
structure ProgramHeader where
  type : Nat
  offset : Nat
  virtualAddress : Nat
  physicalAddress : Nat
  fileSize : Nat
  memorySize : Nat
  deriving DecidableEq, Repr

/-- The bytes at the start of a file that identify it. -/
def identificationSize : Nat := 16

namespace Layout

/-- The number that bytes spell. -/
def number (l : Layout) (bs : Bytes) : Nat :=
  match l.order with
  | .lowestFirst => bs.toNat
  | .highestFirst => Bytes.toNat bs.reverse

/-- The numbers of the given widths that bytes spell one after the other. -/
def unpack (l : Layout) : (widths : List Nat) → Bytes → List Nat
  | [], _ => []
  | width :: widths, bs => l.number (bs.take width) :: l.unpack widths (bs.drop width)

/-- The bytes that a row of numbers takes up. -/
def rowSize : (widths : List Nat) → Nat
  | [] => 0
  | width :: widths => width + rowSize widths

/-- The numbers of the given widths from a position of a file on, if they end inside it. -/
def unpack? (l : Layout) (widths : List Nat) (file : Content) (start : Nat) : Option (List Nat) :=
  if start + rowSize widths ≤ file.size then
    some (l.unpack widths (file.read start (rowSize widths)))
  else none

/-- The bytes in an address, an offset or a size. -/
def wordWidth (l : Layout) : Nat :=
  match l.word with
  | .bits32 => 4
  | .bits64 => 8

/-- The widths of the numbers in a file header: type, machine and version; entry point, offset of
the program headers and offset of the sections; flags; and six counts and sizes. -/
def headerWidths (l : Layout) : List Nat :=
  [2, 2, 4, l.wordWidth, l.wordWidth, l.wordWidth, 4, 2, 2, 2, 2, 2, 2]

/-- The widths of the numbers in a program header. -/
def programHeaderWidths (l : Layout) : List Nat :=
  match l.word with
  | .bits32 => [4, 4, 4, 4, 4, 4, 4, 4]
  | .bits64 => [4, 4, 8, 8, 8, 8, 8, 8]

/-- The size of a program header. -/
def programHeaderSize (l : Layout) : Nat :=
  match l.word with
  | .bits32 => 32
  | .bits64 => 56

/-- The file header, if the file has all of it. -/
def header? (l : Layout) (file : Content) : Option Header :=
  match l.unpack? l.headerWidths file identificationSize with
  | some [type, _, _, _, tableOffset, _, _, _, entrySize, entryCount, _, _, _] =>
    some { type, tableOffset, entrySize, entryCount }
  | _ => none

/-- The program header that starts at a position, if the file has all of it. The flags stand behind
the sizes in one word size and before the offset in the other. -/
def programHeader? (l : Layout) (file : Content) (start : Nat) : Option ProgramHeader :=
  match l.word, l.unpack? l.programHeaderWidths file start with
  | .bits32, some [type, offset, virtualAddress, physicalAddress, fileSize, memorySize, _, _] =>
    some { type, offset, virtualAddress, physicalAddress, fileSize, memorySize }
  | .bits64, some [type, _, offset, virtualAddress, physicalAddress, fileSize, memorySize, _] =>
    some { type, offset, virtualAddress, physicalAddress, fileSize, memorySize }
  | _, _ => none

end Layout

end BootImage.Elf
