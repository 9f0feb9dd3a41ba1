import BootImage.Proofs.Elf.Loading
import Mathlib.Data.List.Induction
import Mathlib.Order.Bounds.Basic

/-!
# The flat image of an executable

A flat image is made by laying the segments over zeros, one after the other in the order of their
addresses. What it has for an address is then a matter of the last segment that covers it. The
invariant of the loop is this, for the segments laid so far; it is kept because each segment is put
in place of just as many bytes inside the image. Neither is checked by the loop. The first holds as
the reader has made sure that the file has all bytes of the segment, and the second as the image
reaches from the lowest address to the highest end.

An image can be too large for a size or for the memory. Addresses are taken from the file, and two
segments of one byte each can make an image of any size.

## Main definitions

* `byteOf`: the byte that segments have for an address.
* `IsImage`: a content is the image of segments between two addresses.
* `headersOnly`: a small executable.

## Main results

* `isImage_foldl`: what the loop makes.
* `isLeast_head`, `isGreatest_endAddress`: where the image starts and ends.
* `flattenWithin_isImage`: an image is made just if it is not too large.
* `flatten_farApart`: a small executable with an image that is too large.
-/

namespace BootImage.Elf

variable {file : Content} {found : List Segment} {base stop : Nat}

/-- Whether an address is that of a byte that a segment has in the file. -/
def Segment.covers (s : Segment) (a : Nat) : Bool :=
  s.physicalAddress ≤ a && a < s.physicalAddress + s.fileSize

/-- The byte that segments have for an address: the last one that covers it counts, and where there
is none it is zero. -/
def byteOf (file : Content) (found : List Segment) (a : Nat) : UInt8 :=
  match (found.filter (·.covers a)).getLast? with
  | some s => file.get (s.offset + (a - s.physicalAddress))
  | none => 0

/-- The content `flat` has the bytes of segments from the address `base` up to `stop`. -/
structure IsImage (file : Content) (found : List Segment) (base stop : Nat) (flat : Content) :
    Prop where
  size : flat.size = stop - base
  byte : ∀ a, base ≤ a → a < stop → flat.get (a - base) = byteOf file found a

theorem byteOf_concat (file : Content) (found : List Segment) (s : Segment) (a : Nat) :
    byteOf file (found ++ [s]) a =
      if s.covers a then file.get (s.offset + (a - s.physicalAddress))
      else byteOf file found a := by
  rw [byteOf, List.filter_append, List.filter_singleton]
  by_cases h : s.covers a
  · rw [h, cond_true, List.getLast?_concat, if_pos rfl]
  · rw [Bool.not_eq_true] at h
    rw [h, cond_false, List.append_nil, if_neg Bool.false_ne_true, byteOf]

/-! ### The loop -/

/-- Segments that have all their bytes in the file and lie between two addresses, laid over zeros,
make their image. The induction is on the segments laid so far. -/
theorem isImage_foldl (hbacked : ∀ s ∈ found, s.Backed file.size)
    (hinside : ∀ s ∈ found, base ≤ s.physicalAddress ∧ s.physicalAddress + s.fileSize ≤ stop) :
    IsImage file found base stop (found.foldl
      (fun flat s => flat.splice (s.physicalAddress - base) s.fileSize
        (file.read s.offset s.fileSize)) (Content.zeros (stop - base))) := by
  induction found using List.reverseRecOn with
  | nil => exact ⟨rfl, fun a _ _ => Content.get_zeros _ _⟩
  | append_singleton found s ih =>
    rw [List.forall_mem_append, List.forall_mem_singleton] at hbacked hinside
    have ih := ih hbacked.1 hinside.1
    obtain ⟨hpos, hle⟩ := hbacked.2
    obtain ⟨hbase, hstop⟩ := hinside.2
    have hlen : (file.read s.offset s.fileSize).length = s.fileSize := by
      rw [Content.length_read]
      omega
    rw [List.foldl_concat]
    generalize found.foldl _ _ = flat at ih ⊢
    have hfit : s.physicalAddress - base + s.fileSize ≤ flat.size := by
      rw [ih.size]
      omega
    rw [Content.splice_eq_write hfit hlen]
    refine ⟨(flat.size_write_of_le (by rwa [hlen])).trans ih.size, fun a ha ha' => ?_⟩
    rw [Content.get_write, hlen, byteOf_concat]
    by_cases h : s.covers a
    · rw [if_pos h]
      simp only [Segment.covers, Bool.and_eq_true, decide_eq_true_eq] at h
      rw [if_pos (by omega), Content.getD_read _ _ _ _ (by omega)]
      congr 2
      omega
    · rw [if_neg h]
      simp only [Segment.covers, Bool.and_eq_true, decide_eq_true_eq] at h
      rw [if_neg (by omega), ih.byte a ha ha']

/-! ### Where the image starts and ends -/

theorem isLeast_head (hne : found ≠ [])
    (hsorted : found.Pairwise fun a b => a.physicalAddress ≤ b.physicalAddress) :
    IsLeast {a | ∃ s ∈ found, s.physicalAddress = a} (found.headD default).physicalAddress := by
  cases found with
  | nil => exact absurd rfl hne
  | cons s found =>
    refine ⟨⟨s, List.mem_cons_self, rfl⟩, ?_⟩
    rintro _ ⟨t, ht, rfl⟩
    rcases List.mem_cons.1 ht with rfl | ht
    · exact le_rfl
    · exact (List.pairwise_cons.1 hsorted).1 t ht

theorem endAddress_concat (found : List Segment) (s : Segment) :
    endAddress (found ++ [s]) = max (endAddress found) (s.physicalAddress + s.fileSize) := by
  rw [endAddress, List.map_append, List.foldl_append]
  rfl

theorem le_endAddress {s : Segment} (hs : s ∈ found) :
    s.physicalAddress + s.fileSize ≤ endAddress found := by
  induction found using List.reverseRecOn with
  | nil => cases hs
  | append_singleton found t ih =>
    rw [endAddress_concat]
    rcases List.mem_append.1 hs with hs | hs
    · exact (ih hs).trans (Nat.le_max_left _ _)
    · rw [List.mem_singleton.1 hs]
      exact le_max_right _ _

theorem isGreatest_endAddress (hne : found ≠ []) :
    IsGreatest {a | ∃ s ∈ found, s.physicalAddress + s.fileSize = a} (endAddress found) := by
  refine ⟨?_, fun a ha => ?_⟩
  swap
  · obtain ⟨s, hs, rfl⟩ := ha
    exact le_endAddress hs
  induction found using List.reverseRecOn with
  | nil => exact absurd rfl hne
  | append_singleton found t ih =>
    rw [endAddress_concat]
    by_cases hlast : endAddress found ≤ t.physicalAddress + t.fileSize
    · exact ⟨t, by simp, (max_eq_right hlast).symm⟩
    · have hne : found ≠ [] := by
        rintro rfl
        exact hlast (Nat.zero_le _)
      obtain ⟨s, hs, hend⟩ := ih hne
      exact ⟨s, List.mem_append_left _ hs, hend.trans (max_eq_left (not_le.1 hlast).le).symm⟩

/-! ### Images of executables -/

/-- An executable that is accepted has an image, which reaches from the lowest load address of its
segments to their highest end and has for each address the byte of the last segment that covers it.
The segments are those of the program headers by load address, and the file has all their bytes. The
image is made if there is a size for it and room in memory, and otherwise there is no result. -/
theorem flattenWithin_isImage (memory : Nat) (h : segments file = .ok found) :
    (∀ s ∈ found, s.Backed file.size) ∧
    (∃ l header given, identify file = .ok l ∧ l.header? file = some header ∧
      l.loadedFrom file header 0 header.entryCount = .ok given ∧ StablySorted given found) ∧
    ∃ base stop, IsLeast {a | ∃ s ∈ found, s.physicalAddress = a} base ∧
      IsGreatest {a | ∃ s ∈ found, s.physicalAddress + s.fileSize = a} stop ∧
      (stop - base ≤ Bytes.maxSize → stop - base ≤ memory →
        ∃ flat, flattenWithin memory file = .ok flat ∧ IsImage file found base stop flat) ∧
      (Bytes.maxSize < stop - base → flattenWithin memory file = .error .imageBeyondSize) ∧
      (stop - base ≤ Bytes.maxSize → memory < stop - base →
        flattenWithin memory file = .error .imageTooLarge) := by
  have hends := ends_segments file
  rw [h] at hends
  obtain ⟨hne, hbacked, l, header, given, hl, hheader, hgiven, hsorted⟩ := hends
  have hbase := isLeast_head hne hsorted.sorted
  have hstop := isGreatest_endAddress hne
  have hinside : ∀ s ∈ found, (found.headD default).physicalAddress ≤ s.physicalAddress ∧
      s.physicalAddress + s.fileSize ≤ endAddress found :=
    fun s hs => ⟨hbase.2 ⟨s, hs, rfl⟩, le_endAddress hs⟩
  refine ⟨hbacked, ⟨l, header, given, hl, hheader, hgiven, hsorted⟩, _, _, hbase, hstop,
    fun hsize hroom => ?_, fun hsize => ?_, fun hsize hroom => ?_⟩
  · refine ⟨_, ?_, isImage_foldl hbacked hinside⟩
    rw [flattenWithin, h]
    simp only [Bind.bind, Except.bind]
    rw [if_neg hsize.not_gt, if_neg hroom.not_gt]
    rfl
  · rw [flattenWithin, h]
    simp only [Bind.bind, Except.bind]
    rw [if_pos hsize]
    rfl
  · rw [flattenWithin, h]
    simp only [Bind.bind, Except.bind]
    rw [if_neg hsize.not_gt, if_pos hroom]
    rfl

/-- A program header for the first bytes of a file, which are loaded at an address. -/
def leading (size address : Nat) : TableEntry :=
  { type := loadType, offset := 0, virtualAddress := address, physicalAddress := address,
    fileSize := size, memorySize := size, flags := 4, alignment := 1 }

/-- A file header with two program headers right behind it. -/
def shortHeader : FileHeader :=
  { type := executableType, machine := 243, version := 1, entry := 0, tableOffset := 64,
    sections := 0, flags := 0, size := 64, entrySize := 56, entryCount := 2, sectionSize := 0,
    sectionCount := 0, sectionNames := 0 }

/-- An executable of nothing but two program headers. -/
def headersOnly (first second : TableEntry) : Content :=
  let l : Layout := ⟨.bits64, .lowestFirst⟩
  Content.ofBytes (l.identification ++ Bytes.zeros 10 ++
    l.pack l.headerWidths shortHeader.numbers ++
    l.pack l.programHeaderWidths (first.numbers l.word) ++
    l.pack l.programHeaderWidths (second.numbers l.word))

/-- Two segments that overlap make an image. -/
theorem exists_flattenWithin_isImage : ∃ (file : Content) (found : List Segment)
    (base stop : Nat) (flat : Content), segments file = .ok found ∧ flatten file = .ok flat ∧
      IsImage file found base stop flat := by
  have hf : Layout.Holds ⟨.bits64, .lowestFirst⟩ shortHeader [leading 8 0x1000, leading 2 0x1003]
      (headersOnly (leading 8 0x1000) (leading 2 0x1003)) :=
    Layout.holds_ofBytes.2 (by decide +kernel)
  have hsegments := hf.segments_eq rfl (by decide)
    (by rw [headersOnly, Content.size_ofBytes]; decide +kernel) (by decide)
  rw [List.mergeSort_of_pairwise (by decide)] at hsegments
  obtain ⟨-, -, base, stop, -, hstop, himage, -⟩ := flattenWithin_isImage maxImageSize hsegments
  have hle : stop ≤ 0x1008 := by
    obtain ⟨s, hs, rfl⟩ := hstop.1
    exact (by decide : ∀ s ∈ _, s.physicalAddress + s.fileSize ≤ 0x1008) s hs
  have hsize : Bytes.maxSize = 0x7FFFFFFFFFFFFFFF := rfl
  have hmemory : maxImageSize = 0x100000000 := rfl
  obtain ⟨flat, hflat, hbytes⟩ := himage (by omega) (by omega)
  exact ⟨_, _, base, stop, flat, hsegments, hflat, hbytes⟩

/-- Two segments of one byte each are further apart than a size can tell, and make none. -/
theorem flatten_farApart :
    segments (headersOnly (leading 1 0) (leading 1 0x8000000000000000)) =
        .ok [(leading 1 0).segment, (leading 1 0x8000000000000000).segment] ∧
      flatten (headersOnly (leading 1 0) (leading 1 0x8000000000000000)) =
        .error .imageBeyondSize := by
  have hf : Layout.Holds ⟨.bits64, .lowestFirst⟩ shortHeader
      [leading 1 0, leading 1 0x8000000000000000]
      (headersOnly (leading 1 0) (leading 1 0x8000000000000000)) :=
    Layout.holds_ofBytes.2 (by decide +kernel)
  have hsegments := hf.segments_eq rfl (by decide)
    (by rw [headersOnly, Content.size_ofBytes]; decide +kernel) (by decide)
  rw [List.mergeSort_of_pairwise (by decide)] at hsegments
  refine ⟨hsegments, ?_⟩
  rw [flatten, flattenWithin, hsegments]
  rfl

end BootImage.Elf
