import BootImage.Proofs.Fat.Ownership

/-!
# The blocks of a directory

A directory is bytes, and whoever reads it knows nothing of the records that were written to it. So
what a directory may look like is stated here once more, of the bytes alone. In its slots stand
blocks: slots of deleted entries, and groups, each the slots of one entry. Behind the last block
there are only zeros.

A group with a long name has one slot for each part of it before the slot of its short name. These
count down to one, the first of them bears the mark of the last part, and all of them bear the
checksum of the short name. One slot of the wrong kind would break this: parts that lose their short
name are not read, and a slot that is not zero behind the end would come back when the end moves.
`parseFrom_flatMap_slots` says that nothing of the kind happens where the slots are in order: there
is one entry for each group.

## Main definitions

* `Block`, `Block.WellFormed`: what stands in the slots of a directory.
* `blockEntries`: the entries that are read of blocks.
* `LaidOut`: the bytes of a directory are blocks and then blank slots.
* `Disk.LaidOut`: so it is for every directory of a disk.

## Main results

* `parseFrom_flatMap_slots`: reading well-formed blocks gives one entry for each group.
* `Record.WellFormed.block`: the slots of a record are a group.
* `Disk.Fresh.laidOut_after`: the directories of a volume that was formatted are laid out, after any
  calls.
-/

namespace BootImage.Fat

/-! ### Blocks -/

/-- What stands in the slots of a directory. -/
inductive Block
  /-- The slot of an entry that was deleted. -/
  | deleted (slot : Bytes)
  /-- The slots of one entry: those of its long name, if it has one, then that of its short name. -/
  | group (long : List Bytes) (short : Bytes)

/-- A slot with a part of a long name. -/
structure IsPart (number sum : UInt8) (slot : Bytes) : Prop where
  length : slot.length = slotSize
  number : slot.getD 0 0 = number
  mark : slot.getD 11 0 = longNameMark
  sum : slot.getD 13 0 = sum

/-- The number byte of the slot at a place, of all that a long name has: they count down to one, and
the first bears the mark of the last part. -/
def partNumber (count place : Nat) : UInt8 :=
  UInt8.ofNat (count - place) ||| if place = 0 then lastPartMark else 0

/-- The slots are those of a long name for the short name with a checksum, twenty at most. -/
structure IsLongName (sum : UInt8) (long : List Bytes) : Prop where
  few : long.length ≤ 20
  part : ∀ place (h : place < long.length), IsPart (partNumber long.length place) sum long[place]

/-- The slot of a short name: not that of a deleted entry, of a long name or of a volume label, and
not one that ends the directory. -/
structure IsShort (slot : Bytes) : Prop where
  length : slot.length = slotSize
  notBlank : slot.getD 0 0 ≠ 0
  notDeleted : slot.getD 0 0 ≠ deletedMark
  notLong : slot.getD 11 0 ≠ longNameMark
  notLabel : slot.getD 11 0 &&& labelAttribute = 0

namespace Block

/-- The slots of a block. -/
def slots : Block → List Bytes
  | deleted slot => [slot]
  | group long short => long ++ [short]

/-- A deleted slot has the mark of one. The slots of a long name bear the checksum of the short name
that follows them. -/
def WellFormed : Block → Prop
  | deleted slot => slot.length = slotSize ∧ slot.getD 0 0 = deletedMark
  | group long short => IsLongName (checksum (short.take 11)) long ∧ IsShort short

end Block

/-- The entry of a group that starts at slot `number`. -/
def groupEntry (number : Nat) (long : List Bytes) (short : Bytes) : DirEntry where
  name :=
    if long = [] then shortDisplay (short.take 11) (short.getD 12 0).toNat
    else String.ofList (long.reverse.map slotText).flatten
  short := short.take 11
  attributes := short.getD 11 0
  cluster := numberAt short 20 2 * 0x10000 + numberAt short 26 2
  size := numberAt short 28 4
  slots := List.range' number (Block.group long short).slots.length

/-- The entries of blocks that start at slot `number`: one for each group. -/
def blockEntries : (number : Nat) → List Block → List DirEntry
  | _, [] => []
  | number, .deleted _ :: blocks => blockEntries (number + 1) blocks
  | number, .group long short :: blocks =>
    groupEntry number long short ::
      blockEntries (number + (Block.group long short).slots.length) blocks

/-! ### Reading blocks -/

/-- A part of a long name is never taken for a free slot, and only the first part has the mark. -/
theorem partNumber_facts {count place : Nat} (hfew : count ≤ 20) (hplace : place < count) :
    partNumber count place ≠ 0 ∧ partNumber count place ≠ deletedMark ∧
      (partNumber count place &&& lastPartMark = 0 ↔ place ≠ 0) := by
  obtain ⟨⟨h0, hE5, hbit⟩, h0', hE5', hbit'⟩ :=
    number_facts (count - place) (by omega) (by omega)
  rw [partNumber]
  by_cases hfirst : place = 0
  · rw [if_pos hfirst]
    exact ⟨h0, hE5, iff_of_false hbit (not_not_intro hfirst)⟩
  · rw [if_neg hfirst]
    exact ⟨h0', hE5', iff_of_true hbit' hfirst⟩

/-- Reading slots of a long name that follow its first one. -/
theorem parseFrom_parts {long : List Bytes} (h : ∀ s ∈ long, s.getD 0 0 ≠ 0 ∧
      s.getD 0 0 ≠ deletedMark ∧ s.getD 0 0 &&& lastPartMark = 0 ∧ s.getD 11 0 = longNameMark)
    (pending : Pending) (k : Nat) (rest : List Bytes) :
    parseFrom pending k (long ++ rest) =
      parseFrom ⟨(long.map slotText).reverse ++ pending.parts,
        (List.range' k long.length).reverse ++ pending.slots, pending.sum⟩
        (k + long.length) rest := by
  induction long generalizing pending k with
  | nil => rfl
  | cons s long ih =>
    rw [List.forall_mem_cons] at h
    obtain ⟨⟨h0, hE5, hbit, hmark⟩, hlong⟩ := h
    rw [List.cons_append, parseFrom]
    simp only [hmark, hbit]
    rw [if_neg h0, if_neg hE5, if_pos trivial, if_neg (not_not_intro rfl), ih hlong]
    simp only [List.map_cons, List.reverse_cons, List.append_assoc, List.singleton_append,
      List.length_cons, List.range'_succ]
    rw [Nat.add_assoc, Nat.add_comm 1]

/-- Reading the slots of a long name leaves it pending, whatever was pending before. -/
theorem parseFrom_longName {sum : UInt8} {long : List Bytes} (h : IsLongName sum long)
    (hne : long ≠ []) (pending : Pending) (k : Nat) (rest : List Bytes) :
    parseFrom pending k (long ++ rest) =
      parseFrom ⟨(long.map slotText).reverse, (List.range' k long.length).reverse, some sum⟩
        (k + long.length) rest := by
  obtain ⟨first, others, rfl⟩ := List.exists_cons_of_ne_nil hne
  have hfirst := h.part 0 (by simp)
  have hfew := h.few
  rw [List.getElem_cons_zero] at hfirst
  obtain ⟨h0, hE5, hbit⟩ := partNumber_facts hfew (show 0 < (first :: others).length by simp)
  have hothers : ∀ s ∈ others, s.getD 0 0 ≠ 0 ∧ s.getD 0 0 ≠ deletedMark ∧
      s.getD 0 0 &&& lastPartMark = 0 ∧ s.getD 11 0 = longNameMark := by
    intro s hs
    obtain ⟨i, hi, rfl⟩ := List.getElem_of_mem hs
    have hpart := h.part (i + 1) (by rw [List.length_cons]; omega)
    rw [List.getElem_cons_succ] at hpart
    obtain ⟨h0, hE5, hbit⟩ := partNumber_facts hfew
      (show i + 1 < (first :: others).length by rw [List.length_cons]; omega)
    rw [hpart.number]
    exact ⟨h0, hE5, hbit.2 (Nat.succ_ne_zero i), hpart.mark⟩
  rw [List.cons_append, parseFrom]
  simp only [hfirst.number, hfirst.mark, hfirst.sum]
  rw [if_neg h0, if_neg hE5, if_pos trivial, if_pos fun hzero => hbit.1 hzero rfl,
    parseFrom_parts hothers]
  simp only [List.map_cons, List.reverse_cons, List.length_cons, List.range'_succ]
  rw [Nat.add_assoc, Nat.add_comm 1]

/-- Reading the slots of a group gives its entry, whatever follows. -/
theorem parseFrom_group {long : List Bytes} {short : Bytes}
    (h : (Block.group long short).WellFormed) (k : Nat) (rest : List Bytes) :
    parseFrom .none k ((Block.group long short).slots ++ rest) =
      groupEntry k long short ::
        parseFrom .none (k + (Block.group long short).slots.length) rest := by
  obtain ⟨hlong, hshort⟩ := h
  have hread : ∀ (pending : Pending) (n : Nat), parseFrom pending n (short :: rest) =
      entryOf pending n short :: parseFrom .none (n + 1) rest := by
    intro pending n
    rw [parseFrom]
    simp only
    rw [if_neg hshort.notBlank, if_neg hshort.notDeleted, if_neg hshort.notLong,
      if_neg (not_not_intro hshort.notLabel)]
  rw [Block.slots, List.append_assoc, List.singleton_append, List.length_append,
    List.length_singleton]
  by_cases hnil : long = []
  · subst hnil
    rw [List.nil_append, hread, List.length_nil, Nat.zero_add]
    rfl
  · have howned : (long.map slotText).reverse ≠ [] ∧ True := ⟨by simpa using hnil, trivial⟩
    rw [parseFrom_longName hlong hnil, hread, Nat.add_assoc, entryOf, groupEntry]
    simp only
    rw [if_pos howned, if_pos howned, if_neg hnil, List.reverse_reverse, Block.slots,
      List.length_append, List.length_singleton, List.range'_1_concat, List.map_reverse]

/-- Reading well-formed blocks and the blank slots behind them gives one entry for each group. -/
theorem parseFrom_flatMap_slots {blocks : List Block} (h : ∀ b ∈ blocks, b.WellFormed)
    (k blank : Nat) :
    parseFrom .none k (blocks.flatMap Block.slots ++ List.replicate blank zeroSlot) =
      blockEntries k blocks := by
  induction blocks generalizing k with
  | nil =>
    cases blank with
    | zero => rfl
    | succ blank => rfl
  | cons b blocks ih =>
    rw [List.forall_mem_cons] at h
    rw [List.flatMap_cons, List.append_assoc]
    cases b with
    | deleted s =>
      rw [Block.slots, List.singleton_append, parseFrom]
      simp only [h.1.2]
      rw [if_neg (by decide), if_pos trivial, ih h.2, blockEntries]
    | group long short => rw [parseFrom_group h.1, ih h.2, blockEntries]

/-- No slot of a well-formed block ends the directory. -/
theorem Block.WellFormed.of_mem_slots {b : Block} (h : b.WellFormed) {s : Bytes}
    (hs : s ∈ b.slots) : s.length = slotSize ∧ s.getD 0 0 ≠ 0 := by
  cases b with
  | deleted slot =>
    obtain rfl := List.mem_singleton.1 hs
    exact ⟨h.1, h.2 ▸ by decide⟩
  | group long short =>
    rcases List.mem_append.1 hs with hs | hs
    · obtain ⟨i, hi, rfl⟩ := List.getElem_of_mem hs
      have hpart := h.1.part i hi
      exact ⟨hpart.length, hpart.number ▸ (partNumber_facts h.1.few hi).1⟩
    · obtain rfl := List.mem_singleton.1 hs
      exact ⟨h.2.length, h.2.notBlank⟩

/-! ### The blocks of records -/

theorem isLongName_nil (sum : UInt8) : IsLongName sum [] :=
  ⟨by simp, fun _ hplace => absurd hplace (by simp)⟩

/-- The slots of parts, told by their places: the parts are stored the last one first. -/
theorem exists_getElem_longSlotsFrom (sum : UInt8) (count number : Nat)
    (parts : List (List UInt16)) {place n : Nat} (hn : n + place + 1 = number + parts.length)
    (h : place < (longSlotsFrom sum count number parts).length) : ∃ part ∈ parts,
      (longSlotsFrom sum count number parts)[place] =
        longSlot (UInt8.ofNat n ||| if n = count then lastPartMark else 0) sum part := by
  induction parts generalizing number with
  | nil => simp [longSlotsFrom] at h
  | cons part parts ih =>
    have hlen := length_longSlotsFrom sum count (number + 1) parts
    rw [List.length_cons] at hn
    rw [length_longSlotsFrom, List.length_cons] at h
    simp only [longSlotsFrom]
    by_cases hplace : place < parts.length
    · obtain ⟨part', hpart', heq⟩ := ih (number + 1) (by omega) (by rwa [hlen])
      refine ⟨part', List.mem_cons_of_mem part hpart', ?_⟩
      rw [List.getElem_append_left (by rwa [hlen]), heq]
    · obtain rfl : n = number := by omega
      refine ⟨part, by simp, ?_⟩
      rw [List.getElem_append_right (by omega), List.getElem_singleton]

/-- The slots of a valid name are those of a long name. -/
theorem isLongName_longSlots {name : String} (h : isValidName name = true) (short : Bytes) :
    IsLongName (checksum short) (longSlots name short) := by
  obtain ⟨-, hfew, hlength⟩ := nameParts_facts h
  have hcount : (longSlots name short).length = (nameParts name).length := length_longSlotsFrom ..
  refine ⟨hcount ▸ hfew, fun place hplace => ?_⟩
  obtain ⟨part, hpart, heq⟩ := exists_getElem_longSlotsFrom (checksum short)
    (nameParts name).length 1 (nameParts name)
    (show (nameParts name).length - place + place + 1 = _ by omega) hplace
  have hfirst : (nameParts name).length - place = (nameParts name).length ↔ place = 0 := by
    omega
  rw [hcount, show (longSlots name short)[place] = _ from heq, partNumber]
  simp only [hfirst]
  exact ⟨length_longSlot (hlength part hpart), getD_longSlot_zero,
    getD_longSlot_mark (hlength part hpart), getD_longSlot_sum (hlength part hpart)⟩

/-- The slot of a short name, with what its first byte and its attributes have to be. -/
theorem isShort_shortSlot {short : Bytes} {attributes caseBits : UInt8} {cluster size : Nat}
    (h : short.length = 11) (h0 : short.getD 0 0 ≠ 0) (hE5 : short.getD 0 0 ≠ deletedMark)
    (hmark : attributes ≠ longNameMark) (hlabel : attributes &&& labelAttribute = 0) :
    IsShort (shortSlot short attributes cluster size caseBits) := by
  refine ⟨length_shortSlot h, ?_, ?_, ?_, ?_⟩
  · rwa [getD_shortSlot_zero h]
  · rwa [getD_shortSlot_zero h]
  · rwa [getD_shortSlot_attributes h]
  · rwa [getD_shortSlot_attributes h]

/-- The block of a record. -/
def Record.block (r : Record) : Block :=
  .group r.spelling.longPart (shortSlot r.spelling.short r.body.attributes r.body.first
    r.body.bytes.length (UInt8.ofNat r.spelling.caseBits))

theorem Record.WellFormed.block {r : Record} (h : r.WellFormed) : r.block.WellFormed := by
  obtain ⟨h0, hE5⟩ := h.spelling.first_ne
  obtain ⟨hmark, hlabel⟩ := r.body.attributes_facts
  refine ⟨?_, isShort_shortSlot h.spelling.length_short h0 hE5 hmark hlabel⟩
  rw [take_shortSlot h.spelling.length_short, Spelling.longPart]
  split
  · exact isLongName_nil _
  · exact isLongName_longSlots (h.spelling.long _ ‹_›) _

/-- Slots that are arranged are blocks with blank slots behind them. -/
theorem Arrangement.exists_blocks {k : Nat} {slots : List Bytes} {rs : List (Nat × Record)}
    (h : Arrangement k slots rs) : ∃ blocks : List Block, (∀ b ∈ blocks, b.WellFormed) ∧
      ∃ blank, slots = blocks.flatMap Block.slots ++ List.replicate blank zeroSlot := by
  induction h with
  | blank k blank => exact ⟨[], by simp, blank, rfl⟩
  | @deleted k s _ _ hlen hmark _ ih =>
    obtain ⟨blocks, hblocks, blank, rfl⟩ := ih
    exact ⟨.deleted s :: blocks, List.forall_mem_cons.2 ⟨⟨hlen, hmark⟩, hblocks⟩, blank, rfl⟩
  | @record k r _ _ hr _ ih =>
    obtain ⟨blocks, hblocks, blank, rfl⟩ := ih
    refine ⟨r.block :: blocks, List.forall_mem_cons.2 ⟨hr.block, hblocks⟩, blank, ?_⟩
    rw [List.flatMap_cons, List.append_assoc]
    rfl

/-! ### Directories -/

/-- The bytes of a directory are blocks and then blank slots. -/
structure LaidOut (blocks : List Block) (data : Bytes) : Prop where
  wellFormed : ∀ b ∈ blocks, b.WellFormed
  /-- The directory is whole slots, and behind those of the blocks all of them are zero. -/
  slots : slotSize ∣ data.length ∧ ∃ blank,
    slotsOf data = blocks.flatMap Block.slots ++ List.replicate blank zeroSlot
  /-- Reading does not stop before the blank slots. -/
  used : ∀ s ∈ blocks.flatMap Block.slots, s.getD 0 0 ≠ 0
  /-- There is one entry for each group, which owns its slots. -/
  entries : parse data = blockEntries 0 blocks
  /-- No two entries have the same short name. -/
  nodup : ((parse data).map (·.short)).Nodup

/-- The entry by which a directory stands in itself. -/
def selfEntry (cluster : Nat) : DirEntry :=
  ⟨".", dotName, directoryAttribute, cluster, 0, [0]⟩

/-- The entry by which its parent stands in a directory. -/
def parentEntry (cluster : Nat) : DirEntry :=
  ⟨"..", dotDotName, directoryAttribute, cluster, 0, [1]⟩

/-- Every directory is laid out, and begins with entries for itself and its parent, unless it is the
root. -/
structure Disk.LaidOut (d : Disk) : Prop where
  directory : ∀ dir, d.HasDirectory dir → ∃ cs data blocks, d.directory dir = .ok (cs, data) ∧
    Fat.LaidOut blocks data
  /-- Zero stands for the root as a parent. -/
  parent : ∀ dir es e, d.HasDirectory dir → d.entries dir = .ok es → e ∈ es →
    e.isDirectory = true → ∃ cs data rest, d.directory e.cluster = .ok (cs, data) ∧
      parse data = selfEntry e.cluster ::
        parentEntry (if dir = d.volume.geometry.rootCluster then 0 else dir) :: rest

namespace Folder

variable {f : Folder} {slots : List Bytes}

/-- The slots for a directory itself and its parent are blocks, too. -/
theorem exists_blocks_head (f : Folder) : ∃ blocks : List Block, (∀ b ∈ blocks, b.WellFormed) ∧
    f.head = blocks.flatMap Block.slots := by
  have hone : IsShort (shortSlot dotName directoryAttribute (f.dots.elim 0 Prod.fst) 0 0) :=
    isShort_shortSlot (by decide) (by decide) (by decide) (by decide) (by decide)
  have htwo : IsShort (shortSlot dotDotName directoryAttribute (f.dots.elim 0 Prod.snd) 0 0) :=
    isShort_shortSlot (by decide) (by decide) (by decide) (by decide) (by decide)
  rw [head]
  cases hdots : f.dots with
  | none => exact ⟨[], by simp, rfl⟩
  | some dots =>
    rw [hdots] at hone htwo
    exact ⟨[.group [] _, .group [] _], List.forall_mem_cons.2 ⟨⟨isLongName_nil _, hone⟩,
      List.forall_mem_singleton.2 ⟨isLongName_nil _, htwo⟩⟩, rfl⟩

/-- No two entries that are read have the same short name: those of the records differ, and no
record has that of the directory itself or of its parent. -/
theorem Stands.nodup_parseFrom (h : f.Stands slots) :
    ((parseFrom .none 0 slots).map (·.short)).Nodup := by
  have hdots : ∀ short ∈ f.shorts, short ≠ dotName ∧ short ≠ dotDotName := by
    intro short hmem
    obtain ⟨⟨n, r⟩, hr, rfl⟩ := List.mem_map.1 hmem
    exact short_ne_dots (h.wellFormed hr)
  rw [h.parseFrom_eq, List.map_append, map_short_entries]
  cases f.dots with
  | none => exact h.nodup
  | some dots =>
    have hne : dotName ≠ dotDotName := by decide
    refine List.nodup_cons.2 ⟨fun hmem => ?_, List.nodup_cons.2 ⟨fun hmem => ?_, h.nodup⟩⟩
    · rcases List.mem_cons.1 hmem with heq | hmem
      · exact hne heq
      · exact (hdots _ hmem).1 rfl
    · exact (hdots _ hmem).2 rfl

end Folder

namespace Disk

variable {d : Disk} {G : Catalog} {K : Owner → List Nat} {loose : List Nat}

theorem Holds.laidOut (h : d.Holds G K loose) (hw : d.Writable) : d.LaidOut := by
  refine ⟨fun dir hdir => ?_, fun dir es e hdir hentries he hkind => ?_⟩
  · obtain ⟨f, hf⟩ := h.exists_folder hw hdir
    obtain ⟨o, ho, -, -⟩ := h.exists_owner hf
    obtain ⟨hwhole, -, hstands⟩ := h.stands_bytes hf ho
    obtain ⟨rest, hslots, harranged⟩ := hstands.arranged
    obtain ⟨front, hfront, hhead⟩ := f.exists_blocks_head
    obtain ⟨blocks, hblocks, blank, rfl⟩ := harranged.exists_blocks
    have hall : ∀ b ∈ front ++ blocks, b.WellFormed := List.forall_mem_append.2 ⟨hfront, hblocks⟩
    rw [hhead, ← List.append_assoc, ← List.flatMap_append] at hslots
    refine ⟨_, _, front ++ blocks, h.directory_eq hw.1 hf ho, hall, ⟨hwhole, blank, hslots⟩, ?_,
      ?_, hstands.nodup_parseFrom⟩
    · intro s hs
      obtain ⟨b, hb, hs⟩ := List.mem_flatMap.1 hs
      exact ((hall b hb).of_mem_slots hs).2
    · rw [parse, hslots, parseFrom_flatMap_slots hall]
  · obtain ⟨f, hf⟩ := h.exists_folder hw hdir
    obtain ⟨n, r, hr, rfl⟩ := h.exists_record hw hf hentries he
    rw [Record.isDirectory_entry] at hkind
    have hbody := h.body dir f n r hf hr
    rw [Body.eq_folder_of_isFolder hkind] at hbody
    obtain ⟨-, g, hg, hdots⟩ := hbody
    obtain ⟨o, ho, -, -⟩ := h.exists_owner hg
    obtain ⟨-, -, hstands⟩ := h.stands_bytes hg ho
    have hparse := hstands.parseFrom_eq
    rw [hdots] at hparse
    exact ⟨_, _, g.entries, h.directory_eq hw.1 hg ho, hparse⟩

/-- The directories of a volume that was formatted are laid out, after any calls: for any names, and
whether or not the calls succeed. -/
theorem Fresh.laidOut_after (h : d.Fresh) (calls : List Call) : (d.after calls).LaidOut := by
  obtain ⟨hw, G, K, loose, hholds, -⟩ := h.after calls
  exact hholds.laidOut hw

/-- A directory and a file with a long name in it, on a volume that was formatted. -/
theorem exists_laidOut_after_long_name : ∃ d : Disk, d.Fresh ∧
    (d.after [.makeDirectory "bin",
      .writeFile "bin/a name of three slots.text" (Content.ofBytes [1, 2, 3]) 3,
      .writeFile "bin/sh" (Content.ofBytes [4]) 1]).LaidOut := by
  obtain ⟨d, hfresh⟩ := exists_fresh
  exact ⟨d, hfresh, hfresh.laidOut_after _⟩

end Disk

end BootImage.Fat
