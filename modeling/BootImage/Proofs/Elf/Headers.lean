import BootImage.Elf.Segments
import BootImage.Proofs.Bytes.Splicing
import Mathlib.Data.List.Forall2

/-!
# Headers as a writer lays them out

A header is a row of numbers, each with its width. A writer puts them one after the other, in the
byte order of the file; read with the same widths they are found again, if none is too large. The
two word sizes and the two byte orders are one case: the widths and the order of the numbers are
told by the layout, and nothing else hangs on it.

## Main definitions

* `Layout.spell`, `Layout.pack`: a number, and a row of numbers, as bytes.
* `FileHeader`, `TableEntry`: a file header and a program header with all their numbers.
* `Layout.Holds`: a file has a file header and program headers where the layout puts them.

## Main results

* `Layout.unpack_pack`: a row of numbers is read back.
* `Layout.exists_programHeader?`: a program header inside the file is read.
* `Layout.Holds.header?`, `Layout.Holds.programHeader?`: what is read of the headers of a file.
* `Layout.holds_ofBytes`: a file has headers if its bytes have them.
-/

namespace BootImage.Elf

open Bytes (ofNat)

namespace Layout

variable {l : Layout} {file : Content} {widths numbers : List Nat}

/-! ### Rows of numbers -/

/-- The bytes that spell a number. -/
def spell (l : Layout) (width n : Nat) : Bytes :=
  match l.order with
  | .lowestFirst => ofNat width n
  | .highestFirst => (ofNat width n).reverse

@[simp] theorem length_spell (l : Layout) (width n : Nat) : (l.spell width n).length = width := by
  rw [spell]
  split <;> simp

theorem number_spell (l : Layout) {width n : Nat} (h : n < Nat.pow 256 width) :
    l.number (l.spell width n) = n := by
  have hread : Bytes.toNat (ofNat width n) = n := by
    rw [Bytes.toNat_ofNat]
    exact Nat.mod_eq_of_lt h
  rw [number, spell]
  cases l.order with
  | lowestFirst => exact hread
  | highestFirst => simpa using hread

/-- Numbers of the given widths, one after the other. -/
def pack (l : Layout) : (widths numbers : List Nat) → Bytes
  | width :: widths, n :: numbers => l.spell width n ++ l.pack widths numbers
  | _, _ => []

/-- Whether each number can be spelled with its width. -/
def Fits (widths numbers : List Nat) : Prop :=
  List.Forall₂ (fun width n => n < Nat.pow 256 width) widths numbers

instance (widths numbers : List Nat) : Decidable (Fits widths numbers) :=
  inferInstanceAs (Decidable (List.Forall₂ _ _ _))

theorem length_pack (h : Fits widths numbers) :
    (l.pack widths numbers).length = rowSize widths := by
  induction h with
  | nil => rfl
  | cons _ _ ih => simp [pack, rowSize, ih]

theorem unpack_pack (h : Fits widths numbers) :
    l.unpack widths (l.pack widths numbers) = numbers := by
  induction h with
  | nil => rfl
  | @cons width n _ _ hn _ ih =>
    rw [pack, unpack, List.take_left' (l.length_spell width n),
      List.drop_left' (l.length_spell width n), ih, number_spell l hn]

/-- A row of numbers that stands in a file is read back. -/
theorem unpack?_eq_of_read {start : Nat} (h : Fits widths numbers) (hpos : 0 < rowSize widths)
    (hread : file.read start (rowSize widths) = l.pack widths numbers) :
    l.unpack? widths file start = some numbers := by
  have hlen := congrArg List.length hread
  rw [Content.length_read, length_pack h] at hlen
  rw [unpack?, if_pos (by omega), hread, unpack_pack h]

/-! ### Program headers inside the file -/

/-- What is read as a program header is as long as the size that the table is checked for. -/
theorem rowSize_programHeaderWidths (l : Layout) :
    rowSize l.programHeaderWidths = l.programHeaderSize := by
  rw [programHeaderWidths, programHeaderSize]
  cases l.word <;> rfl

theorem exists_programHeader? {start : Nat} (h : start + l.programHeaderSize ≤ file.size) :
    ∃ p, l.programHeader? file start = some p := by
  rw [← rowSize_programHeaderWidths] at h
  have hunpack : l.unpack? l.programHeaderWidths file start =
      some (l.unpack l.programHeaderWidths (file.read start (rowSize l.programHeaderWidths))) :=
    if_pos h
  rw [programHeader?, hunpack]
  cases hword : l.word <;> simp [programHeaderWidths, hword, unpack]

end Layout

/-! ### Files as they are written -/

/-- A file header with all its numbers. -/
structure FileHeader extends Header where
  machine : Nat
  version : Nat
  entry : Nat
  sections : Nat
  flags : Nat
  size : Nat
  sectionSize : Nat
  sectionCount : Nat
  sectionNames : Nat
  deriving DecidableEq, Repr

/-- A program header with all its numbers. -/
structure TableEntry extends ProgramHeader where
  flags : Nat
  alignment : Nat
  deriving DecidableEq, Repr

/-- The numbers of a file header in their order. -/
def FileHeader.numbers (h : FileHeader) : List Nat :=
  [h.type, h.machine, h.version, h.entry, h.tableOffset, h.sections, h.flags, h.size, h.entrySize,
    h.entryCount, h.sectionSize, h.sectionCount, h.sectionNames]

/-- The numbers of a program header in their order. -/
def TableEntry.numbers (e : TableEntry) : WordSize → List Nat
  | .bits32 => [e.type, e.offset, e.virtualAddress, e.physicalAddress, e.fileSize, e.memorySize,
      e.flags, e.alignment]
  | .bits64 => [e.type, e.flags, e.offset, e.virtualAddress, e.physicalAddress, e.fileSize,
      e.memorySize, e.alignment]

namespace Layout

variable {l : Layout} {file : Content} {h : FileHeader} {entries : List TableEntry}

/-- The bytes that identify a file of a layout. What follows them up to the file header is free. -/
def identification (l : Layout) : Bytes :=
  [0x7F, 0x45, 0x4C, 0x46, match l.word with | .bits32 => 1 | .bits64 => 2,
    match l.order with | .lowestFirst => 1 | .highestFirst => 2]

/-- A file has a file header and a table of program headers, of a layout and where the file header
says. Between the program headers there may be other bytes. -/
structure Holds (l : Layout) (h : FileHeader) (entries : List TableEntry) (file : Content) :
    Prop where
  identification : file.read 0 l.identification.length = l.identification
  header : file.read identificationSize (rowSize l.headerWidths) = l.pack l.headerWidths h.numbers
  headerFits : Fits l.headerWidths h.numbers
  entry : ∀ i e, entries[i]? = some e →
    file.read (h.tableOffset + i * h.entrySize) (rowSize l.programHeaderWidths) =
      l.pack l.programHeaderWidths (e.numbers l.word)
  entryFits : ∀ e ∈ entries, Fits l.programHeaderWidths (e.numbers l.word)
  count : h.entryCount = entries.length
  inside : h.tableOffset + entries.length * h.entrySize ≤ file.size

namespace Holds

theorem size_le (hf : l.Holds h entries file) :
    identificationSize + rowSize l.headerWidths ≤ file.size := by
  have hlen := congrArg List.length hf.header
  rw [Content.length_read, length_pack hf.headerFits] at hlen
  simp only [headerWidths, rowSize] at hlen ⊢
  omega

theorem identify (hf : l.Holds h entries file) : identify file = .ok l := by
  have hsize := hf.size_le
  have hpos : 8 ≤ rowSize l.headerWidths := by
    simp only [headerWidths, rowSize]
    omega
  rw [identificationSize] at hsize
  have hread : file.read 0 6 = l.identification := hf.identification
  have hmagic : file.read 0 4 = [0x7F, 0x45, 0x4C, 0x46] := by
    have := congrArg (List.take 4) hread
    rw [Content.read_eq, ← List.map_take, List.take_range] at this
    rw [Content.read_eq]
    simpa [Layout.identification, show 6 ≤ file.size by omega, show 4 ≤ file.size by omega]
      using this
  have hget : ∀ i < 6, file.get i = l.identification.getD i 0 := by
    intro i hi
    rw [← hread, Content.getD_read _ _ _ _ hi, Nat.zero_add]
  rw [Elf.identify, if_pos ⟨show identificationSize ≤ file.size by rw [identificationSize]; omega,
    hmagic⟩, byteAt, if_pos (by omega), byteAt, if_pos (by omega), hget 4 (by decide),
    hget 5 (by decide)]
  obtain ⟨word, order⟩ := l
  cases word <;> cases order <;> rfl

theorem header? (hf : l.Holds h entries file) : l.header? file = some h.toHeader := by
  have hpos : 0 < rowSize l.headerWidths := by
    simp only [headerWidths, rowSize]
    omega
  rw [Layout.header?, unpack?_eq_of_read hf.headerFits hpos hf.header]
  rfl

theorem programHeader? (hf : l.Holds h entries file) {i : Nat} {e : TableEntry}
    (he : entries[i]? = some e) :
    l.programHeader? file (h.tableOffset + i * h.entrySize) = some e.toProgramHeader := by
  have hpos : 0 < rowSize l.programHeaderWidths := by
    rw [rowSize_programHeaderWidths, programHeaderSize]
    cases l.word <;> decide
  rw [Layout.programHeader?, unpack?_eq_of_read (hf.entryFits e (List.mem_of_getElem? he)) hpos
    (hf.entry i e he)]
  cases l.word <;> rfl

end Holds

/-- Whether bytes have headers where the layout puts them is a matter of their slices. -/
theorem holds_ofBytes {bs : Bytes} : l.Holds h entries (Content.ofBytes bs) ↔
    bs.slice 0 l.identification.length = l.identification ∧
      bs.slice identificationSize (rowSize l.headerWidths) = l.pack l.headerWidths h.numbers ∧
      Fits l.headerWidths h.numbers ∧
      (∀ x ∈ entries.zipIdx,
        bs.slice (h.tableOffset + x.2 * h.entrySize) (rowSize l.programHeaderWidths) =
          l.pack l.programHeaderWidths (x.1.numbers l.word)) ∧
      (∀ e ∈ entries, Fits l.programHeaderWidths (e.numbers l.word)) ∧
      h.entryCount = entries.length ∧
      h.tableOffset + entries.length * h.entrySize ≤ bs.length := by
  have hzip : (∀ x ∈ entries.zipIdx,
      bs.slice (h.tableOffset + x.2 * h.entrySize) (rowSize l.programHeaderWidths) =
        l.pack l.programHeaderWidths (x.1.numbers l.word)) ↔ ∀ i e, entries[i]? = some e →
      bs.slice (h.tableOffset + i * h.entrySize) (rowSize l.programHeaderWidths) =
        l.pack l.programHeaderWidths (e.numbers l.word) :=
    ⟨fun hx i e he => hx (e, i) (List.mk_mem_zipIdx_iff_getElem?.2 he),
      fun hi x hx => hi x.2 x.1 (List.mk_mem_zipIdx_iff_getElem?.1 hx)⟩
  rw [hzip]
  constructor
  · rintro ⟨h1, h2, h3, h4, h5, h6, h7⟩
    simp only [Content.read_ofBytes, Content.size_ofBytes] at h1 h2 h4 h7
    exact ⟨h1, h2, h3, h4, h5, h6, h7⟩
  · rintro ⟨h1, h2, h3, h4, h5, h6, h7⟩
    exact ⟨by rwa [Content.read_ofBytes], by rwa [Content.read_ofBytes], h3,
      fun i e he => by rw [Content.read_ofBytes]; exact h4 i e he, h5, h6,
      by rwa [Content.size_ofBytes]⟩

end Layout

end BootImage.Elf
