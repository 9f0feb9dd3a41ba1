import BootImage.Proofs.Elf.Flattening

/-!
# Executables that load the same

Two executables can differ in much and load the same: in the order of their program headers, in
where the bytes of a segment are in the file, in word size and byte order, and in all that is not
loaded. They can also load the same at other addresses. If no two segments of an executable have a
byte for one address, the order of the load addresses is the order of the segments, so that what is
loaded, as a set, tells the row in which the segments are laid. The image is made of that row alone,
and of how far each segment is from the lowest address.

## Main definitions

* `Segment.Apart`: two segments have no address in common.
* `Segment.load`: what a segment loads, and where.
* `Segment.MovesTo`: a segment at the address to which another is moved.

## Main results

* `map_load_eq`: the same loads are in the same row.
* `layOut_eq_foldl`: an image is made of the loads.
* `ends_of_load`: what is loaded tells the length of the image.
* `flattenWithin_eq_of_loads`: executables with the same loads have the same image.
* `flatten_shifted_farApart`: two executables with the same loads, and no image.
-/

namespace BootImage.Elf

variable {file first second : Content} {found given : List Segment} {shift : Int} {size : Nat}

/-- No address is that of a byte of both segments. -/
def Segment.Apart (s t : Segment) : Prop :=
  ∀ a, s.covers a → ¬ t.covers a

/-- What a segment loads, as the address to which it is moved and the bytes that are there. -/
def Segment.load (file : Content) (shift : Int) (s : Segment) : Int × Bytes :=
  (s.physicalAddress + shift, file.read s.offset s.fileSize)

/-- A segment `t` has as many bytes as `s`, at the address to which `s` is moved. -/
structure Segment.MovesTo (shift : Int) (s t : Segment) : Prop where
  address : (s.physicalAddress : Int) + shift = t.physicalAddress
  fileSize : s.fileSize = t.fileSize

theorem Segment.Backed.length_read {s : Segment} (h : s.Backed file.size) :
    (file.read s.offset s.fileSize).length = s.fileSize := by
  have hle := h.le
  rw [Content.length_read]
  omega

theorem Segment.apart_iff {s t : Segment} : s.Apart t ↔
    s.fileSize = 0 ∨ t.fileSize = 0 ∨ s.physicalAddress + s.fileSize ≤ t.physicalAddress ∨
      t.physicalAddress + t.fileSize ≤ s.physicalAddress := by
  simp only [Apart, covers, Bool.and_eq_true, decide_eq_true_eq]
  constructor
  · intro h
    have := h (max s.physicalAddress t.physicalAddress)
    omega
  · intro h a
    omega

/-! ### The row of loads -/

/-- Segments with bytes that are apart and in the order of their addresses are so strictly. -/
theorem pairwise_load (hbacked : ∀ s ∈ found, s.Backed size)
    (hsorted : found.Pairwise fun s t => s.physicalAddress ≤ t.physicalAddress)
    (hapart : found.Pairwise Segment.Apart) :
    (found.map (·.load file shift)).Pairwise fun p q => p.1 < q.1 := by
  rw [List.pairwise_map]
  refine (hsorted.and hapart).imp_of_mem fun {s t} hs ht h => ?_
  obtain ⟨hle, hst⟩ := h
  have hspos := (hbacked s hs).pos
  have htpos := (hbacked t ht).pos
  rw [Segment.apart_iff] at hst
  simp only [Segment.load]
  omega

/-- Rows with strictly rising addresses and the same members are the same. -/
theorem eq_of_mem_iff {ps qs : List (Int × Bytes)} (hps : ps.Pairwise fun p q => p.1 < q.1)
    (hqs : qs.Pairwise fun p q => p.1 < q.1) (h : ∀ p, p ∈ ps ↔ p ∈ qs) : ps = qs := by
  have hnodup : ∀ {rs : List (Int × Bytes)}, (rs.Pairwise fun p q => p.1 < q.1) → rs.Nodup :=
    fun hrs => hrs.imp fun hlt heq => absurd (congrArg Prod.fst heq) hlt.ne
  have hperm : ps.Perm qs := (List.perm_ext_iff_of_nodup (hnodup hps) (hnodup hqs)).2 h
  exact hperm.eq_of_pairwise (fun _ _ _ _ hlt hgt => absurd hgt hlt.asymm) hps hqs

/-- The segments of two executables with the same loads stand in the same row. -/
theorem map_load_eq (hfirst : segments first = .ok found) (hsecond : segments second = .ok given)
    (hfound : found.Pairwise Segment.Apart) (hgiven : given.Pairwise Segment.Apart)
    (h : ∀ p, p ∈ found.map (·.load first shift) ↔ p ∈ given.map (·.load second 0)) :
    found.map (·.load first shift) = given.map (·.load second 0) := by
  have hends := ends_segments first
  have hends' := ends_segments second
  rw [hfirst] at hends
  rw [hsecond] at hends'
  obtain ⟨-, hbacked, _, _, _, -, -, -, hsorted⟩ := hends
  obtain ⟨-, hbacked', _, _, _, -, -, -, hsorted'⟩ := hends'
  exact eq_of_mem_iff (pairwise_load hbacked hsorted.sorted hfound)
    (pairwise_load hbacked' hsorted'.sorted hgiven) h

/-! ### The image of a row -/

/-- An image is made of what the segments load, wherever they are moved to. -/
theorem layOut_eq_foldl (hbacked : ∀ s ∈ found, s.Backed file.size) (base : Nat) (shift : Int) :
    layOut file base found = (found.map (·.load file shift)).foldl
      (fun flat p => flat.splice (p.1 - (base + shift)).toNat p.2.length p.2)
      (Content.zeros (endAddress found - base)) := by
  rw [layOut, List.foldl_map]
  refine List.foldl_ext _ _ _ fun flat s hs => ?_
  have hplace : ((s.physicalAddress : Int) + shift - (base + shift)).toNat =
      s.physicalAddress - base := by
    omega
  simp only [Segment.load]
  rw [hplace, (hbacked s hs).length_read]

theorem Segment.movesTo_of_load {s t : Segment} (hs : s.Backed first.size)
    (ht : t.Backed second.size) (h : s.load first shift = t.load second 0) : s.MovesTo shift t := by
  simp only [load, Prod.mk.injEq] at h
  have hlen := congrArg List.length h.2
  rw [hs.length_read, ht.length_read] at hlen
  exact ⟨by omega, hlen⟩

/-- Executables with the same loads reach from the lowest address to the end over the same
distance. -/
theorem ends_of_load (hne : found ≠ []) (hne' : given ≠ [])
    (hsorted : found.Pairwise fun s t => s.physicalAddress ≤ t.physicalAddress)
    (hsorted' : given.Pairwise fun s t => s.physicalAddress ≤ t.physicalAddress)
    (hmoved : ∀ s ∈ found, ∃ t ∈ given, s.MovesTo shift t)
    (hback : ∀ t ∈ given, ∃ s ∈ found, s.MovesTo shift t) :
    ((found.headD default).physicalAddress : Int) + shift =
        (given.headD default).physicalAddress ∧
      (endAddress found : Int) + shift = endAddress given := by
  constructor
  · obtain ⟨⟨s, hs, hlow⟩, hleast⟩ := isLeast_head hne hsorted
    obtain ⟨⟨t, ht, hlow'⟩, hleast'⟩ := isLeast_head hne' hsorted'
    obtain ⟨t', ht', hst'⟩ := hmoved s hs
    obtain ⟨s', hs', hst⟩ := hback t ht
    have hle := hleast ⟨s', hs', rfl⟩
    have hle' := hleast' ⟨t', ht', rfl⟩
    have haddress := hst.address
    have haddress' := hst'.address
    omega
  · obtain ⟨⟨s, hs, hhigh⟩, hgreatest⟩ := isGreatest_endAddress hne
    obtain ⟨⟨t, ht, hhigh'⟩, hgreatest'⟩ := isGreatest_endAddress hne'
    obtain ⟨t', ht', hst'⟩ := hmoved s hs
    obtain ⟨s', hs', hst⟩ := hback t ht
    have hle := hgreatest ⟨s', hs', rfl⟩
    have hle' := hgreatest' ⟨t', ht', rfl⟩
    obtain ⟨haddress, hsize⟩ := hst
    obtain ⟨haddress', hsize'⟩ := hst'
    omega

/-! ### Images of executables -/

/-- The image of an executable that is accepted, and why there is none. -/
theorem flattenWithin_eq_ite (memory : Nat) (h : segments file = .ok found) :
    flattenWithin memory file =
      if Bytes.maxSize < endAddress found - (found.headD default).physicalAddress then
        .error .imageBeyondSize
      else if memory < endAddress found - (found.headD default).physicalAddress then
        .error .imageTooLarge
      else .ok (layOut file (found.headD default).physicalAddress found) := by
  rw [flattenWithin, h]
  simp only [Bind.bind, Except.bind]
  split
  · rfl
  · split <;> rfl

/-- A flat image depends on nothing but what is loaded. For any two executables that are accepted,
each with segments that have no address in common, let what they load be the same but for one shift
of all addresses. Then one makes the image that the other makes, byte for byte, if there is a size
for it and room in memory, and otherwise neither makes one, for the same reason. -/
theorem flattenWithin_eq_of_loads (memory : Nat) (hfirst : segments first = .ok found)
    (hsecond : segments second = .ok given) (hfound : found.Pairwise Segment.Apart)
    (hgiven : given.Pairwise Segment.Apart)
    (hloads : ∀ p, p ∈ found.map (·.load first shift) ↔ p ∈ given.map (·.load second 0)) :
    ∃ base stop, IsLeast {a | ∃ s ∈ found, s.physicalAddress = a} base ∧
      IsGreatest {a | ∃ s ∈ found, s.physicalAddress + s.fileSize = a} stop ∧
      (stop - base ≤ Bytes.maxSize → stop - base ≤ memory → ∃ flat,
        flattenWithin memory first = .ok flat ∧ flattenWithin memory second = .ok flat) ∧
      (Bytes.maxSize < stop - base → flattenWithin memory first = .error .imageBeyondSize ∧
        flattenWithin memory second = .error .imageBeyondSize) ∧
      (stop - base ≤ Bytes.maxSize → memory < stop - base →
        flattenWithin memory first = .error .imageTooLarge ∧
        flattenWithin memory second = .error .imageTooLarge) := by
  have hrow := map_load_eq hfirst hsecond hfound hgiven hloads
  have hends := ends_segments first
  have hends' := ends_segments second
  rw [hfirst] at hends
  rw [hsecond] at hends'
  obtain ⟨hne, hbacked, _, _, _, -, -, -, hsorted⟩ := hends
  obtain ⟨hne', hbacked', _, _, _, -, -, -, hsorted'⟩ := hends'
  have hmoved : ∀ s ∈ found, ∃ t ∈ given, s.MovesTo shift t := by
    intro s hs
    obtain ⟨t, ht, heq⟩ := List.mem_map.1 ((hloads _).1 (List.mem_map_of_mem hs))
    exact ⟨t, ht, Segment.movesTo_of_load (hbacked s hs) (hbacked' t ht) heq.symm⟩
  have hback : ∀ t ∈ given, ∃ s ∈ found, s.MovesTo shift t := by
    intro t ht
    obtain ⟨s, hs, heq⟩ := List.mem_map.1 ((hloads _).2 (List.mem_map_of_mem ht))
    exact ⟨s, hs, Segment.movesTo_of_load (hbacked s hs) (hbacked' t ht) heq⟩
  obtain ⟨hbase, hstop⟩ := ends_of_load hne hne' hsorted.sorted hsorted'.sorted hmoved hback
  have hspan : endAddress given - (given.headD default).physicalAddress =
      endAddress found - (found.headD default).physicalAddress := by
    omega
  have himage : layOut first (found.headD default).physicalAddress found =
      layOut second (given.headD default).physicalAddress given := by
    rw [layOut_eq_foldl hbacked _ shift, layOut_eq_foldl hbacked' _ 0, hrow, hbase, hspan,
      Int.add_zero]
  have heq : flattenWithin memory second = flattenWithin memory first := by
    rw [flattenWithin_eq_ite memory hfirst, flattenWithin_eq_ite memory hsecond, hspan, himage]
  refine ⟨_, _, isLeast_head hne hsorted.sorted, isGreatest_endAddress hne, fun hsize hroom => ?_,
    fun hsize => ?_, fun hsize hroom => ?_⟩
  · rw [heq, flattenWithin_eq_ite memory hfirst, if_neg hsize.not_gt, if_neg hroom.not_gt]
    exact ⟨_, rfl, rfl⟩
  · rw [heq, flattenWithin_eq_ite memory hfirst, if_pos hsize]
    exact ⟨rfl, rfl⟩
  · rw [heq, flattenWithin_eq_ite memory hfirst, if_neg hsize.not_gt, if_pos hroom]
    exact ⟨rfl, rfl⟩

/-- Two ranges of the first bytes of a file are loaded from an executable of each word size and byte
order, with the ranges in different order and at different addresses. -/
theorem exists_flattenWithin_eq_of_loads : ∃ (first second : Content) (found given : List Segment)
    (shift : Int) (flat : Content), segments first = .ok found ∧ segments second = .ok given ∧
      found.Pairwise Segment.Apart ∧ given.Pairwise Segment.Apart ∧
      (∀ p, p ∈ found.map (·.load first shift) ↔ p ∈ given.map (·.load second 0)) ∧
      flatten first = .ok flat ∧ flatten second = .ok flat := by
  let letters (address : Nat) : TableEntry := { leading 3 address with offset := 1 }
  let note : TableEntry := { leading 900 5 with type := 4 }
  let l : Layout := ⟨.bits32, .highestFirst⟩
  let h : FileHeader :=
    { shortHeader with tableOffset := 52, size := 52, entrySize := 32, entryCount := 3 }
  let bytes : Bytes := l.identification ++ Bytes.zeros 10 ++ l.pack l.headerWidths h.numbers ++
    [note, letters 0x9000, leading 4 0x8000].flatMap fun e =>
      l.pack l.programHeaderWidths (e.numbers l.word)
  have hf : Layout.Holds ⟨.bits64, .lowestFirst⟩ shortHeader [leading 4 0x1000, letters 0x2000]
      (headersOnly (leading 4 0x1000) (letters 0x2000)) :=
    Layout.holds_ofBytes.2 (by decide +kernel)
  have hf' : l.Holds h [note, letters 0x9000, leading 4 0x8000] (Content.ofBytes bytes) :=
    Layout.holds_ofBytes.2 (by decide +kernel)
  have hfirst := hf.segments_eq rfl (by decide)
    (by rw [headersOnly, Content.size_ofBytes]; decide +kernel) (by decide)
  have hsecond := hf'.segments_eq rfl (by decide)
    (by rw [Content.size_ofBytes]; decide +kernel) (by decide)
  rw [List.mergeSort_of_pairwise (by decide)] at hfirst
  have hsort : ((([note, letters 0x9000, leading 4 0x8000].filter (·.isLoaded)).map
      (·.segment)).mergeSort fun a b => a.physicalAddress ≤ b.physicalAddress) =
      [(leading 4 0x8000).segment, (letters 0x9000).segment] := by
    have hsorted := stablySorted_mergeSort [(letters 0x9000).segment, (leading 4 0x8000).segment]
    refine List.Perm.eq_of_pairwise (fun a b ha hb hle hge => ?_) hsorted.sorted (by decide)
      (hsorted.perm.trans (.swap ..))
    have hinjective : ∀ a ∈ [(letters 0x9000).segment, (leading 4 0x8000).segment],
        ∀ b ∈ [(leading 4 0x8000).segment, (letters 0x9000).segment],
        a.physicalAddress = b.physicalAddress → a = b := by decide
    exact hinjective a (hsorted.perm.mem_iff.1 ha) b hb (Nat.le_antisymm hle hge)
  rw [hsort] at hsecond
  have hloads : [(leading 4 0x1000).segment, (letters 0x2000).segment].map
        (·.load (headersOnly (leading 4 0x1000) (letters 0x2000)) 0x7000) =
      [(leading 4 0x8000).segment, (letters 0x9000).segment].map
        (·.load (Content.ofBytes bytes) 0) := by
    simp only [Segment.load, headersOnly, Content.read_ofBytes]
    decide +kernel
  have hsame := fun p => iff_of_eq (congrArg (p ∈ ·) hloads)
  have hfound : [(leading 4 0x1000).segment, (letters 0x2000).segment].Pairwise
      Segment.Apart := by
    simp only [List.pairwise_pair, Segment.apart_iff]
    decide
  have hgiven : [(leading 4 0x8000).segment, (letters 0x9000).segment].Pairwise
      Segment.Apart := by
    simp only [List.pairwise_pair, Segment.apart_iff]
    decide
  obtain ⟨base, stop, -, hstop, himage, -⟩ := flattenWithin_eq_of_loads maxImageSize hfirst hsecond
    hfound hgiven hsame
  have hle : stop ≤ 0x2003 := by
    obtain ⟨s, hs, rfl⟩ := hstop.1
    exact (by decide : ∀ s ∈ _, s.physicalAddress + s.fileSize ≤ 0x2003) s hs
  have hsize : Bytes.maxSize = 0x7FFFFFFFFFFFFFFF := rfl
  have hmemory : maxImageSize = 0x100000000 := rfl
  obtain ⟨flat, hflat, hflat'⟩ := himage (by omega) (by omega)
  exact ⟨_, _, _, _, _, flat, hfirst, hsecond, hfound, hgiven, hsame, hflat,
    hflat'⟩

/-- Two executables that load one byte at each of two addresses, of which those of the second are
the next ones, load the same. There is no image of either, as the addresses are further apart than a
size can tell. -/
theorem flatten_shifted_farApart :
    let first := headersOnly (leading 1 0) (leading 1 0x8000000000000000)
    let second := headersOnly (leading 1 1) (leading 1 0x8000000000000001)
    let found := [(leading 1 0).segment, (leading 1 0x8000000000000000).segment]
    let given := [(leading 1 1).segment, (leading 1 0x8000000000000001).segment]
    segments first = .ok found ∧ segments second = .ok given ∧
      found.Pairwise Segment.Apart ∧ given.Pairwise Segment.Apart ∧
      (∀ p, p ∈ found.map (·.load first 1) ↔ p ∈ given.map (·.load second 0)) ∧
      flatten first = .error .imageBeyondSize ∧ flatten second = .error .imageBeyondSize := by
  intro first second found given
  have hf : Layout.Holds ⟨.bits64, .lowestFirst⟩ shortHeader
      [leading 1 0, leading 1 0x8000000000000000] first :=
    Layout.holds_ofBytes.2 (by decide +kernel)
  have hf' : Layout.Holds ⟨.bits64, .lowestFirst⟩ shortHeader
      [leading 1 1, leading 1 0x8000000000000001] second :=
    Layout.holds_ofBytes.2 (by decide +kernel)
  have hfirst := hf.segments_eq rfl (by decide)
    (by simp only [first, headersOnly, Content.size_ofBytes]; decide +kernel) (by decide)
  have hsecond := hf'.segments_eq rfl (by decide)
    (by simp only [second, headersOnly, Content.size_ofBytes]; decide +kernel) (by decide)
  rw [List.mergeSort_of_pairwise (by decide)] at hfirst hsecond
  have hloads : found.map (·.load first 1) = given.map (·.load second 0) := by
    simp only [found, given, first, second, Segment.load, headersOnly, Content.read_ofBytes]
    decide +kernel
  refine ⟨hfirst, hsecond, ?_, ?_, fun p => by rw [hloads], ?_, ?_⟩
  · simp only [found, List.pairwise_pair, Segment.apart_iff]
    decide
  · simp only [given, List.pairwise_pair, Segment.apart_iff]
    decide
  · rw [flatten, flattenWithin_eq_ite _ hfirst]
    rfl
  · rw [flatten, flattenWithin_eq_ite _ hsecond]
    rfl

end BootImage.Elf
