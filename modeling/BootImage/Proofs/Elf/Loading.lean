import BootImage.Failure
import BootImage.Proofs.Checks
import BootImage.Proofs.Elf.Headers

/-!
# Reading the segments of an executable

The reader checks once that the table of program headers lies inside the file, with the size that a
writer gives for an entry and the count that it gives of them. That is enough for every read that
follows: whatever the file says, a program header of the table ends inside the file. So no file
makes the reader fail in other ways than those that tell what is wrong with it. Conversely nothing
is lost: of a table that a writer laid out, each entry is read as it was written, and those that are
loaded come out as they went in, by load address.

## Main definitions

* `Segment.Backed`: a segment has bytes, and the file has all of them.
* `StablySorted`: segments by load address, those of one address in the order they had.

## Main results

* `Layout.ends_loadedFrom`, `Layout.loadedFrom_eq`: the loop over the table.
* `segments_eq_ok`: where the segments of a file are from.
* `segments_safe_and_complete`: no file makes the reader fail, and no segment is lost.
-/

namespace BootImage.Elf

variable {file : Content} {l : Layout} {given found : List Segment}

/-- Whether a segment has bytes in a file of a size. -/
structure Segment.Backed (s : Segment) (size : Nat) : Prop where
  pos : 0 < s.fileSize
  le : s.offset + s.fileSize ≤ size

/-- Whether segments are those that were given, by load address; those with one address are in the
order that they had. -/
structure StablySorted (given found : List Segment) : Prop where
  perm : found.Perm given
  sorted : found.Pairwise fun a b => a.physicalAddress ≤ b.physicalAddress
  stable : ∀ address, found.filter (·.physicalAddress = address) =
    given.filter (·.physicalAddress = address)

theorem stablySorted_mergeSort (given : List Segment) :
    StablySorted given (given.mergeSort fun a b => a.physicalAddress ≤ b.physicalAddress) := by
  have htrans : ∀ a b c : Segment, decide (a.physicalAddress ≤ b.physicalAddress) = true →
      decide (b.physicalAddress ≤ c.physicalAddress) = true →
      decide (a.physicalAddress ≤ c.physicalAddress) = true := by
    simp only [decide_eq_true_eq]
    exact fun a b c => Nat.le_trans
  have htotal : ∀ a b : Segment, (decide (a.physicalAddress ≤ b.physicalAddress) ||
      decide (b.physicalAddress ≤ a.physicalAddress)) = true := by
    simp only [Bool.or_eq_true, decide_eq_true_eq]
    exact fun a b => Nat.le_total _ _
  have hperm := List.mergeSort_perm given fun a b =>
    decide (a.physicalAddress ≤ b.physicalAddress)
  refine ⟨hperm, ?_, fun address => ?_⟩
  · exact (List.pairwise_mergeSort htrans htotal given).imp fun h => of_decide_eq_true h
  · -- Segments of one address are in order as they stand, so sorting leaves them where they are.
    have horder : (given.filter (·.physicalAddress = address)).Pairwise fun a b =>
        decide (a.physicalAddress ≤ b.physicalAddress) = true := by
      refine List.pairwise_of_forall_mem_list fun a ha b hb => ?_
      have ha := (List.mem_filter.1 ha).2
      have hb := (List.mem_filter.1 hb).2
      simp only [decide_eq_true_eq] at ha hb ⊢
      omega
    have hsub := List.sublist_mergeSort htrans htotal horder List.filter_sublist
    have hsub := hsub.filter (·.physicalAddress = address)
    simp only [List.filter_filter, Bool.and_self] at hsub
    exact (hsub.eq_of_length (hperm.filter _).length_eq.symm).symm

/-! ### No file makes the reader fail -/

theorem ends_byteAt {i : Nat} (h : i < file.size) :
    Ends (fun e : Error => e.kind = .file) (fun _ => True) (byteAt file i) := by
  rw [byteAt, if_pos h]
  trivial

theorem WordSize.ends_ofCode (value : Nat) :
    Ends (fun e : Error => e.kind = .file) (fun _ => True) (ofCode value) := by
  fun_cases ofCode value <;> trivial

theorem ByteOrder.ends_ofCode (value : Nat) :
    Ends (fun e : Error => e.kind = .file) (fun _ => True) (ofCode value) := by
  fun_cases ofCode value <;> trivial

theorem ends_identify (file : Content) :
    Ends (fun e : Error => e.kind = .file) (fun _ => True) (identify file) := by
  rw [identify]
  refine Ends.of_unless rfl fun hstart => ?_
  have hsize : 16 ≤ file.size := hstart.1
  refine (ends_byteAt (by omega)).bind fun wordByte _ => ?_
  refine (ends_byteAt (by omega)).bind fun orderByte _ => ?_
  refine (WordSize.ends_ofCode _).bind fun word _ => ?_
  exact (ByteOrder.ends_ofCode _).bind fun order _ => trivial

namespace Layout

/-- The program headers from one on whose table lies inside the file: each is read, and gives a
segment that has its bytes or a failure that tells otherwise. -/
theorem ends_loadedFrom {h : Header} (hentry : l.programHeaderSize ≤ h.entrySize)
    (number count : Nat) (hend : h.tableOffset + (number + count) * h.entrySize ≤ file.size) :
    Ends (fun e : Error => e.kind = .file) (fun found => ∀ s ∈ found, s.Backed file.size)
      (l.loadedFrom file h number count) := by
  induction count generalizing number with
  | zero =>
    intro s hs
    cases hs
  | succ count ih =>
    have hnext : h.tableOffset + (number + 1 + count) * h.entrySize ≤ file.size := by
      rwa [Nat.add_right_comm]
    have hinside : h.tableOffset + number * h.entrySize + l.programHeaderSize ≤ file.size := by
      have := Nat.mul_le_mul_right h.entrySize (Nat.le_add_right (number + 1) count)
      rw [Nat.succ_mul] at this
      omega
    obtain ⟨p, hp⟩ := exists_programHeader? hinside
    simp only [loadedFrom, hp]
    split
    · rename_i hloaded
      split
      · rename_i hle
        refine Ends.map ((ih _ hnext).imp fun found hfound => ?_)
        have hpos : p.fileSize ≠ 0 := by
          simp only [ProgramHeader.isLoaded, Bool.and_eq_true, bne_iff_ne] at hloaded
          exact hloaded.2
        exact List.forall_mem_cons.2 ⟨⟨Nat.pos_of_ne_zero hpos, hle⟩, hfound⟩
      · rfl
    · exact ih _ hnext

/-- Program headers that are read as given ones make the segments of those that are loaded. -/
theorem loadedFrom_eq {h : Header} (headers : List ProgramHeader) (number : Nat)
    (hread : ∀ i p, headers[i]? = some p →
      l.programHeader? file (h.tableOffset + (number + i) * h.entrySize) = some p)
    (hbacked : ∀ p ∈ headers, p.isLoaded → p.offset + p.fileSize ≤ file.size) :
    l.loadedFrom file h number headers.length =
      .ok ((headers.filter (·.isLoaded)).map (·.segment)) := by
  induction headers generalizing number with
  | nil => rfl
  | cons p headers ih =>
    rw [List.forall_mem_cons] at hbacked
    have hp : l.programHeader? file (h.tableOffset + number * h.entrySize) = some p :=
      hread 0 p rfl
    have ih := ih (number + 1)
      (fun i q hq => by rw [Nat.add_assoc, Nat.add_comm 1 i]; exact hread (i + 1) q hq) hbacked.2
    simp only [List.length_cons, loadedFrom, hp, ih]
    by_cases hloaded : p.isLoaded
    · rw [if_pos hloaded, if_pos (hbacked.1 hloaded), List.filter_cons_of_pos hloaded]
      rfl
    · rw [if_neg hloaded, List.filter_cons_of_neg hloaded]

end Layout

/-- A file is read as segments that have their bytes in it, or it is told what is wrong with it. The
segments are those of the table by load address. -/
theorem ends_segments (file : Content) :
    Ends (fun e : Error => e.kind = .file)
      (fun found => found ≠ [] ∧ (∀ s ∈ found, s.Backed file.size) ∧
        ∃ l h given, identify file = .ok l ∧ l.header? file = some h ∧
          l.loadedFrom file h 0 h.entryCount = .ok given ∧ StablySorted given found)
      (segments file) := by
  rw [segments]
  refine (ends_identify file).and_eq.bind fun l hl => ?_
  cases hh : l.header? file with
  | none => rfl
  | some h =>
    refine Ends.of_unless rfl fun _ => Ends.of_if rfl fun _ => ?_
    refine Ends.of_unless rfl fun htable => ?_
    refine (Layout.ends_loadedFrom htable.1 0 h.entryCount
      (by rw [Nat.zero_add]; exact htable.2)).and_eq.bind fun given hgiven =>
        Ends.of_if rfl fun hne => ?_
    have hsorted := stablySorted_mergeSort given
    refine ⟨fun hnil => hne ?_, fun s hs => hgiven.2 s (hsorted.perm.mem_iff.1 hs), l, h, given,
      hl.1, hh, hgiven.1, hsorted⟩
    exact List.length_eq_zero_iff.1 (by rw [← hsorted.perm.length_eq, hnil, List.length_nil])

/-- A table that a writer laid out is read as it was written. -/
theorem Layout.Holds.segments_eq {h : FileHeader} {entries : List TableEntry}
    (hf : l.Holds h entries file) (htype : h.type = executableType)
    (hentry : l.programHeaderSize ≤ h.entrySize)
    (hbacked : ∀ e ∈ entries, e.isLoaded → e.offset + e.fileSize ≤ file.size)
    (hloaded : ∃ e ∈ entries, e.isLoaded) :
    segments file = .ok (((entries.filter (·.isLoaded)).map (·.segment)).mergeSort
      fun a b => a.physicalAddress ≤ b.physicalAddress) := by
  have hgiven : l.loadedFrom file h.toHeader 0 h.entryCount =
      .ok ((entries.filter (·.isLoaded)).map (·.segment)) := by
    have hread := loadedFrom_eq (entries.map (·.toProgramHeader)) 0
      (fun i p hp => by
        rw [List.getElem?_map, Option.map_eq_some_iff] at hp
        obtain ⟨e, he, rfl⟩ := hp
        rw [Nat.zero_add]
        exact hf.programHeader? he)
      (fun p hp hpl => by
        obtain ⟨e, he, rfl⟩ := List.mem_map.1 hp
        exact hbacked e he hpl)
    rw [List.length_map, List.filter_map, List.map_map, ← hf.count] at hread
    exact hread
  have hne : (entries.filter (·.isLoaded)).map (·.segment) ≠ [] := by
    obtain ⟨e, he, hel⟩ := hloaded
    exact List.ne_nil_of_mem (List.mem_map_of_mem (List.mem_filter.2 ⟨he, hel⟩))
  have hcount : h.entryCount ≠ 0 := by
    rw [hf.count]
    obtain ⟨e, he, -⟩ := hloaded
    exact Nat.ne_of_gt (List.length_pos_of_mem he)
  rw [segments, hf.identify]
  simp only [Bind.bind, Except.bind, hf.header?, hgiven]
  rw [if_pos htype, if_neg hcount, if_pos ⟨hentry, by rw [hf.count]; exact hf.inside⟩, if_neg hne]
  rfl

/-- The reader is safe and complete. No file makes it fail otherwise than by telling what is wrong
with the file, and the segments that it finds have their bytes in it. Of a table that a writer laid
out, for any layout, place and size of the entries, no segment is lost. -/
theorem segments_safe_and_complete :
    (∀ file, Ends (fun e => ∀ path, (Cause.executable path e).kind = .extraction)
      (fun found => found ≠ [] ∧
        found.Pairwise (fun a b => a.physicalAddress ≤ b.physicalAddress) ∧
        ∀ s ∈ found, s.Backed file.size)
      (segments file)) ∧
    ∀ (l : Layout) (h : FileHeader) (entries : List TableEntry) (file : Content),
      l.Holds h entries file → h.type = executableType → l.programHeaderSize ≤ h.entrySize →
      (∀ e ∈ entries, e.isLoaded → e.offset + e.fileSize ≤ file.size) →
      (∃ e ∈ entries, e.isLoaded) →
      ∃ found, segments file = .ok found ∧
        StablySorted ((entries.filter (·.isLoaded)).map (·.segment)) found := by
  refine ⟨fun file => ?_, fun l h entries file hf htype hentry hbacked hloaded =>
    ⟨_, hf.segments_eq htype hentry hbacked hloaded, stablySorted_mergeSort _⟩⟩
  have h := ends_segments file
  cases hs : segments file with
  | error e =>
    rw [hs] at h
    intro path
    have h : e.kind = .file := h
    simp only [Cause.kind, h]
  | ok found =>
    rw [hs] at h
    obtain ⟨hne, hbacked, _, _, _, -, -, -, hsorted⟩ := h
    exact ⟨hne, hsorted.sorted, hbacked⟩

/-- A file with the highest byte first, whose entries are larger than they need to be and whose
segments overlap and are not in order. -/
theorem exists_segments_complete : ∃ (l : Layout) (h : FileHeader) (entries : List TableEntry)
    (file : Content), l.Holds h entries file ∧ h.type = executableType ∧
      l.programHeaderSize ≤ h.entrySize ∧
      (∀ e ∈ entries, e.isLoaded → e.offset + e.fileSize ≤ file.size) ∧
      (∃ e ∈ entries, e.isLoaded) ∧
      ∃ found, segments file = .ok found ∧
        StablySorted ((entries.filter (·.isLoaded)).map (·.segment)) found := by
  let l : Layout := ⟨.bits32, .highestFirst⟩
  let h : FileHeader :=
    { type := 2, machine := 8, version := 1, entry := 0x2000, tableOffset := 52, sections := 0,
      flags := 0, size := 52, entrySize := 40, entryCount := 3, sectionSize := 0, sectionCount := 0,
      sectionNames := 0 }
  let part : TableEntry :=
    { type := 1, offset := 172, virtualAddress := 0x2000, physicalAddress := 0x2000, fileSize := 4,
      memorySize := 8, flags := 5, alignment := 4 }
  let entries : List TableEntry :=
    [part, { part with type := 4 }, { part with physicalAddress := 0x1FFF, fileSize := 2 }]
  let bytes : Bytes := l.identification ++ Bytes.zeros 10 ++ l.pack l.headerWidths h.numbers ++
    entries.flatMap (fun e => l.pack l.programHeaderWidths (e.numbers l.word) ++ Bytes.zeros 8) ++
    [1, 2, 3, 4]
  have hf : l.Holds h entries (Content.ofBytes bytes) := Layout.holds_ofBytes.2 (by decide +kernel)
  have hbacked : ∀ e ∈ entries, e.isLoaded → e.offset + e.fileSize ≤
      (Content.ofBytes bytes).size := by
    rw [Content.size_ofBytes]
    decide +kernel
  exact ⟨l, h, entries, _, hf, rfl, by decide, hbacked, by decide,
    segments_safe_and_complete.2 l h entries _ hf rfl (by decide) hbacked (by decide)⟩

end BootImage.Elf
