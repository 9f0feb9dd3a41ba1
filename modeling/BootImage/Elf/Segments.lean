import BootImage.Elf.Header

/-!
# Loadable segments and the flat binary

The segments of an executable that have bytes in the file, in the order of their load addresses, and
the memory image that they make: byte 0 is the lowest load address, gaps are zero, and nothing
follows the last byte that the file has.

## Main definitions

* `Segment`: a loadable segment.
* `Error`: why a file has no segments to load, or no memory image.
* `Error.kind`: what sort of failure that is.
* `Layout.loadedFrom`: the segments of a part of the program headers.
* `segments`: the segments of a file.
* `flattenWithin`, `flatten`: the memory image.
-/

namespace BootImage.Elf

/-- A part of a file that is loaded. -/
structure Segment where
  physicalAddress : Nat
  virtualAddress : Nat
  offset : Nat
  fileSize : Nat
  memorySize : Nat
  deriving DecidableEq, Repr, Inhabited

/-- Why a file has no segments to load, or no memory image. -/
inductive Error
  /-- There is no file. -/
  | missing
  | notElf
  | badClass (value : Nat)
  | badByteOrder (value : Nat)
  | truncatedHeader
  | notExecutable (type : Nat)
  | noProgramHeaders
  | tableOutOfBounds
  | segmentOutOfBounds (number : Nat)
  | noSegments
  /-- A byte past the end of the file was asked for. -/
  | noByte
  /-- A program header that ends past the end of the file was asked for. -/
  | noEntry
  /-- The memory image has more bytes than a size can tell. -/
  | imageBeyondSize
  /-- The memory image has more bytes than a memory holds. -/
  | imageTooLarge
  deriving DecidableEq, Repr, Inhabited

/-- The sorts of failure. `file` is one of the build: the file is none that can be loaded. `index`
and `field` are reads past the end of a file, and the others are limits of the machine. -/
inductive Error.Kind
  | file
  | index
  | field
  | size
  | memory
  deriving DecidableEq, Repr

/-- What sort of failure a cause is. -/
def Error.kind : Error → Error.Kind
  | noByte => .index
  | noEntry => .field
  | imageBeyondSize => .size
  | imageTooLarge => .memory
  | _ => .file

/-- The message, if the failure has one of its own. -/
def Error.text : Error → Option String
  | missing => "linked executable not found"
  | notElf => "not an ELF file"
  | badClass value => s!"bad ELF class {value}"
  | badByteOrder value => s!"bad ELF byte order {value}"
  | truncatedHeader => "truncated ELF header"
  | notExecutable type => s!"not a linked executable (e_type={type})"
  | noProgramHeaders => "no program headers"
  | tableOutOfBounds => "program header table out of bounds"
  | segmentOutOfBounds number => s!"segment {number} extends past end of file"
  | noSegments => "no loadable segments"
  | noByte | noEntry | imageBeyondSize | imageTooLarge => none

/-- The type of an executable file. -/
def executableType : Nat := 2

/-- The type of a segment that is loaded. -/
def loadType : Nat := 1

/-- The byte at a position of a file. -/
def byteAt (file : Content) (i : Nat) : Except Error UInt8 :=
  if i < file.size then .ok (file.get i) else .error .noByte

/-- The word size that a number stands for. -/
def WordSize.ofCode (value : Nat) : Except Error WordSize :=
  match value with
  | 1 => .ok .bits32
  | 2 => .ok .bits64
  | _ => .error (.badClass value)

/-- The byte order that a number stands for. -/
def ByteOrder.ofCode (value : Nat) : Except Error ByteOrder :=
  match value with
  | 1 => .ok .lowestFirst
  | 2 => .ok .highestFirst
  | _ => .error (.badByteOrder value)

/-- The layout that the identification bytes of a file announce. -/
def identify (file : Content) : Except Error Layout := do
  unless identificationSize ≤ file.size ∧ file.read 0 4 = [0x7F, 0x45, 0x4C, 0x46] do throw .notElf
  let wordByte ← byteAt file 4
  let orderByte ← byteAt file 5
  let word ← WordSize.ofCode wordByte.toNat
  let order ← ByteOrder.ofCode orderByte.toNat
  return ⟨word, order⟩

/-- Whether a program header is for a segment with bytes in the file. -/
def ProgramHeader.isLoaded (p : ProgramHeader) : Bool :=
  p.type == loadType && p.fileSize != 0

/-- The segment of a program header. -/
def ProgramHeader.segment (p : ProgramHeader) : Segment where
  physicalAddress := p.physicalAddress
  virtualAddress := p.virtualAddress
  offset := p.offset
  fileSize := p.fileSize
  memorySize := p.memorySize

/-- The segments of `count` program headers, from the one with a number on. -/
def Layout.loadedFrom (l : Layout) (file : Content) (h : Header) :
    (number count : Nat) → Except Error (List Segment)
  | _, 0 => .ok []
  | number, count + 1 =>
    match l.programHeader? file (h.tableOffset + number * h.entrySize) with
    | none => .error .noEntry
    | some p =>
      if p.isLoaded then
        if p.offset + p.fileSize ≤ file.size then
          (p.segment :: ·) <$> l.loadedFrom file h (number + 1) count
        else .error (.segmentOutOfBounds number)
      else l.loadedFrom file h (number + 1) count

/-- The segments of an executable that have bytes in the file, by load address; those with one
address stay in the order of the program headers. -/
def segments (file : Content) : Except Error (List Segment) := do
  let l ← identify file
  let some h := l.header? file | throw .truncatedHeader
  unless h.type = executableType do throw (.notExecutable h.type)
  if h.entryCount = 0 then throw .noProgramHeaders
  unless l.programHeaderSize ≤ h.entrySize ∧
      h.tableOffset + h.entryCount * h.entrySize ≤ file.size do
    throw .tableOutOfBounds
  let found ← l.loadedFrom file h 0 h.entryCount
  if found = [] then throw .noSegments
  return found.mergeSort fun a b => a.physicalAddress ≤ b.physicalAddress

/-- The address after the last byte of the segments. -/
def endAddress (found : List Segment) : Nat :=
  (found.map fun s => s.physicalAddress + s.fileSize).foldl max 0

/-- The memory image of segments whose lowest address is `base`. -/
def layOut (file : Content) (base : Nat) (found : List Segment) : Content :=
  found.foldl
    (fun flat s =>
      flat.splice (s.physicalAddress - base) s.fileSize (file.read s.offset s.fileSize))
    (Content.zeros (endAddress found - base))

/-- The memory image of an executable, where a memory holds so many bytes. Of segments that overlap,
the one that starts later counts. -/
def flattenWithin (memory : Nat) (file : Content) : Except Error Content := do
  let found ← segments file
  let base := (found.headD default).physicalAddress
  if Bytes.maxSize < endAddress found - base then throw .imageBeyondSize
  if memory < endAddress found - base then throw .imageTooLarge
  return layOut file base found

/-- The most bytes of a memory image. -/
def maxImageSize : Nat := 0x100000000

/-- The memory image of an executable. -/
def flatten (file : Content) : Except Error Content :=
  flattenWithin maxImageSize file

end BootImage.Elf
