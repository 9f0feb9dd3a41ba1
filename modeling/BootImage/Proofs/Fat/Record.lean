import BootImage.Proofs.Fat.Slots
import BootImage.Proofs.Fat.Spelling

/-!
# Records of a directory

A record is what an entry is made of: how its name is spelled, and what the entry is for. Its slots
are written next to each other, and reading slots that begin with those of a record gives one entry
and goes on behind them. This holds whatever follows, so a directory can be read record by record.

The bytes of a file are part of its record, though they are stored elsewhere: the size in the short
slot is their count. What a directory says about a file and what the file holds are then one thing.

## Main definitions

* `Body`: a subdirectory, or a file with its bytes.
* `Record`: a spelling and a body.
* `Record.entry`: the entry that is read.

## Main results

* `parseFrom_record`: reading the slots of a record.
* `parseFrom_newDirectory`: reading the slots that a subdirectory begins with.
-/

namespace BootImage.Fat

/-- What an entry is for. `first` is the first cluster. -/
inductive Body
  | folder (first : Nat)
  | file (first : Nat) (bytes : Bytes)
  deriving DecidableEq

namespace Body

/-- The first cluster. -/
def first : Body → Nat
  | folder first => first
  | file first _ => first

/-- The bytes of a file. -/
def bytes : Body → Bytes
  | folder _ => []
  | file _ bytes => bytes

/-- The attributes of the entry. -/
def attributes : Body → UInt8
  | folder _ => directoryAttribute
  | file _ _ => archiveAttribute

/-- Whether it is a directory. -/
def isFolder : Body → Bool
  | folder _ => true
  | file _ _ => false

/-- The attributes are not those of a long name or of a label. -/
theorem attributes_facts (b : Body) :
    b.attributes ≠ longNameMark ∧ b.attributes &&& labelAttribute = 0 := by
  have hfolder : directoryAttribute ≠ longNameMark ∧ directoryAttribute &&& labelAttribute = 0 := by
    decide
  have hfile : archiveAttribute ≠ longNameMark ∧ archiveAttribute &&& labelAttribute = 0 := by
    decide
  cases b with
  | folder => exact hfolder
  | file => exact hfile

end Body

/-- An entry: how its name is spelled and what it is for. -/
structure Record where
  spelling : Spelling
  body : Body

/-! ### The slots of a short name -/

/-- The bytes of a short slot behind the short name: dates that never change, and between them the
attributes, the case bits, the first cluster and the size. -/
def shortTail (attributes : UInt8) (cluster size : Nat) (caseBits : UInt8) : Bytes :=
  [attributes] ++ [caseBits] ++ Bytes.zeros 3 ++ Bytes.ofNat 2 epochDate ++
    Bytes.ofNat 2 epochDate ++ Bytes.ofNat 2 (cluster / 0x10000) ++ Bytes.zeros 2 ++
    Bytes.ofNat 2 epochDate ++ Bytes.ofNat 2 cluster ++ Bytes.ofNat 4 size

section Short

variable {short : Bytes} {attributes caseBits : UInt8} {cluster size : Nat}

theorem shortSlot_eq (h : short.length = 11) :
    shortSlot short attributes cluster size caseBits =
      short ++ shortTail attributes cluster size caseBits := by
  have hroom : Bytes.zeros (slotSize - 11 + short.length) = [] ++ Bytes.zeros 32 := by
    rw [h]
    rfl
  have hnone : Bytes.zeros 0 = [] := rfl
  rw [shortSlot, hroom]
  simp only [List.foldl]
  rw [Bytes.overlay_append_zeros 0 21 (by simp) (by simp [h]),
    Bytes.overlay_append_zeros 0 20 (by simp [h]) (by simp),
    Bytes.overlay_append_zeros 0 19 (by simp [h]) (by simp),
    Bytes.overlay_append_zeros 3 14 (by simp [h]) (by simp),
    Bytes.overlay_append_zeros 0 12 (by simp [h]) (by simp),
    Bytes.overlay_append_zeros 0 10 (by simp [h]) (by simp),
    Bytes.overlay_append_zeros 2 6 (by simp [h]) (by simp),
    Bytes.overlay_append_zeros 0 4 (by simp [h]) (by simp),
    Bytes.overlay_append_zeros 0 0 (by simp [h]) (by simp)]
  simp only [shortTail, hnone, List.append_nil, List.nil_append, List.append_assoc]

theorem length_shortSlot (h : short.length = 11) :
    (shortSlot short attributes cluster size caseBits).length = slotSize := by
  rw [shortSlot_eq h, shortTail]
  simp [h, slotSize]

theorem take_shortSlot (h : short.length = 11) :
    (shortSlot short attributes cluster size caseBits).take 11 = short := by
  rw [shortSlot_eq h]
  exact List.take_left' h

theorem getD_shortSlot_zero (h : short.length = 11) :
    (shortSlot short attributes cluster size caseBits).getD 0 0 = short.getD 0 0 := by
  rw [shortSlot_eq h]
  exact List.getD_append _ _ _ _ (by omega)

theorem getD_shortSlot_add (h : short.length = 11) (i : Nat) :
    (shortSlot short attributes cluster size caseBits).getD (11 + i) 0 =
      (shortTail attributes cluster size caseBits).getD i 0 := by
  rw [shortSlot_eq h, List.getD_append_right _ _ _ _ (by omega), h, Nat.add_sub_cancel_left]

theorem numberAt_shortSlot_add (h : short.length = 11) (start width : Nat) :
    numberAt (shortSlot short attributes cluster size caseBits) (11 + start) width =
      ((shortTail attributes cluster size caseBits).slice start width).toNat := by
  rw [shortSlot_eq h, numberAt, Bytes.slice, Bytes.slice, ← h, List.drop_length_add_append]

theorem getD_shortSlot_attributes (h : short.length = 11) :
    (shortSlot short attributes cluster size caseBits).getD 11 0 = attributes :=
  getD_shortSlot_add h 0

/-- The entry of a short slot. -/
theorem entryOf_shortSlot (h : short.length = 11) (hc : cluster < 0x100000000)
    (hs : size < 0x100000000) (pending : Pending) (number : Nat) :
    entryOf pending number (shortSlot short attributes cluster size caseBits) =
      { name :=
          if pending.parts ≠ [] ∧ pending.sum = some (checksum short) then
            String.ofList pending.parts.flatten
          else shortDisplay short caseBits.toNat
        short, attributes, cluster, size
        slots :=
          if pending.parts ≠ [] ∧ pending.sum = some (checksum short) then
            pending.slots.reverse ++ [number]
          else [number] } := by
  have hhigh : numberAt (shortSlot short attributes cluster size caseBits) 20 2 =
      cluster / 0x10000 := by
    refine (numberAt_shortSlot_add h 9 2).trans ?_
    have hlt : cluster / 0x10000 < 0x10000 := by omega
    exact (Bytes.toNat_ofNat 2 (cluster / 0x10000)).trans (Nat.mod_eq_of_lt hlt)
  have hlow : numberAt (shortSlot short attributes cluster size caseBits) 26 2 =
      cluster % 0x10000 :=
    (numberAt_shortSlot_add h 15 2).trans (Bytes.toNat_ofNat 2 cluster)
  have hsize : numberAt (shortSlot short attributes cluster size caseBits) 28 4 = size := by
    refine (numberAt_shortSlot_add h 17 4).trans ?_
    exact (Bytes.toNat_ofNat 4 size).trans (Nat.mod_eq_of_lt hs)
  have hcase : (shortSlot short attributes cluster size caseBits).getD 12 0 = caseBits :=
    getD_shortSlot_add h 1
  rw [entryOf, take_shortSlot h, hhigh, hlow, hsize, getD_shortSlot_attributes h, hcase,
    Nat.div_add_mod']

/-- Reading on at a short slot. -/
theorem parseFrom_shortSlot (h : short.length = 11) (h0 : short.getD 0 0 ≠ 0)
    (hE5 : short.getD 0 0 ≠ deletedMark) (ha : attributes ≠ longNameMark)
    (hl : attributes &&& labelAttribute = 0) (pending : Pending) (number : Nat)
    (rest : List Bytes) :
    parseFrom pending number (shortSlot short attributes cluster size caseBits :: rest) =
      entryOf pending number (shortSlot short attributes cluster size caseBits) ::
        parseFrom .none (number + 1) rest := by
  rw [parseFrom]
  simp only [getD_shortSlot_zero h, getD_shortSlot_attributes h]
  rw [if_neg h0, if_neg hE5, if_neg ha, if_neg (by simpa using hl)]

end Short

/-! ### The slots of a long name -/

theorem length_unitBytes (us : List UInt16) : (unitBytes us).length = 2 * us.length := by
  induction us with
  | nil => rfl
  | cons u us ih =>
    rw [unitBytes, List.flatMap_cons, List.length_append, Bytes.length_ofNat, List.length_cons]
    rw [unitBytes] at ih
    omega

theorem unitBytes_append (us vs : List UInt16) :
    unitBytes (us ++ vs) = unitBytes us ++ unitBytes vs := by
  simp [unitBytes]

theorem unitsOfBytes_unitBytes (us : List UInt16) : unitsOfBytes (unitBytes us) = us := by
  induction us with
  | nil => rfl
  | cons u us ih =>
    have hu : Bytes.toNat (Bytes.ofNat 2 u.toNat) = u.toNat := by
      rw [Bytes.toNat_ofNat]
      exact Nat.mod_eq_of_lt u.toNat_lt
    have hread : unitsOfBytes (Bytes.ofNat 2 u.toNat ++ unitBytes us) =
        UInt16.ofNat (Bytes.toNat (Bytes.ofNat 2 u.toNat)) :: unitsOfBytes (unitBytes us) := rfl
    rw [unitBytes, List.flatMap_cons]
    exact hread.trans (by rw [hu, ih, UInt16.ofNat_toNat])

/-- The units in a slot of a long name, before they are read as text. -/
def unitsIn (slot : Bytes) : List UInt16 :=
  unitsOfBytes (slot.slice 1 10 ++ slot.slice 14 12 ++ slot.slice 28 4)

/-- The text in one part of a long name. -/
def partText (part : List UInt16) : List Char :=
  (Text.ofUnits part).takeWhile (· ≠ '\x00')

section Long

variable {part : List UInt16} {number sum : UInt8}

theorem length_longSlot (h : part.length = slotUnits) :
    (longSlot number sum part).length = slotSize := by
  simp only [slotUnits] at h
  simp only [longSlot, List.length_append, List.length_cons, length_unitBytes, List.length_take,
    List.length_drop, h, slotSize]
  omega

theorem getD_longSlot_zero : (longSlot number sum part).getD 0 0 = number := rfl

/-- A long slot with its bytes put in order: three runs of units with marks between them. -/
theorem exists_longSlot_eq (number sum : UInt8) (h : part.length = slotUnits) : ∃ a b c : Bytes,
    a.length = 10 ∧ b.length = 12 ∧ c.length = 4 ∧ a ++ b ++ c = unitBytes part ∧
      longSlot number sum part =
        [number] ++ (a ++ ([longNameMark, 0, sum] ++ (b ++ ([0, 0] ++ c)))) := by
  simp only [slotUnits] at h
  refine ⟨unitBytes (part.take 5), unitBytes ((part.drop 5).take 6), unitBytes (part.drop 11),
    ?_, ?_, ?_, ?_, ?_⟩
  · rw [length_unitBytes, List.length_take, h]
    rfl
  · rw [length_unitBytes, List.length_take, List.length_drop, h]
    rfl
  · rw [length_unitBytes, List.length_drop, h]
  · rw [← unitBytes_append, ← unitBytes_append, List.append_assoc,
      show part.drop 11 = (part.drop 5).drop 6 by rw [List.drop_drop], List.take_append_drop,
      List.take_append_drop]
  · simp [longSlot]

theorem getD_longSlot_mark (h : part.length = slotUnits) :
    (longSlot number sum part).getD 11 0 = longNameMark := by
  obtain ⟨a, b, c, ha, -, -, -, heq⟩ := exists_longSlot_eq number sum h
  rw [heq, List.getD_append_right _ _ _ _ (by simp), List.length_singleton,
    List.getD_append_right _ _ _ _ (by omega), ha]
  rfl

theorem getD_longSlot_sum (h : part.length = slotUnits) :
    (longSlot number sum part).getD 13 0 = sum := by
  obtain ⟨a, b, c, ha, -, -, -, heq⟩ := exists_longSlot_eq number sum h
  rw [heq, List.getD_append_right _ _ _ _ (by simp), List.length_singleton,
    List.getD_append_right _ _ _ _ (by omega), ha]
  rfl

theorem unitsIn_longSlot (h : part.length = slotUnits) :
    unitsIn (longSlot number sum part) = part := by
  obtain ⟨a, b, c, ha, hb, hc, hparts, heq⟩ := exists_longSlot_eq number sum h
  have h1 : Bytes.slice (longSlot number sum part) 1 10 = a := by
    rw [heq, Bytes.slice, List.drop_left' (by rfl), List.take_left' ha]
  have h2 : Bytes.slice (longSlot number sum part) 14 12 = b := by
    rw [heq, Bytes.slice, ← List.append_assoc, ← List.append_assoc,
      List.drop_left' (by simp [ha]), List.take_left' hb]
  have h3 : Bytes.slice (longSlot number sum part) 28 4 = c := by
    rw [heq, Bytes.slice, ← List.append_assoc, ← List.append_assoc, ← List.append_assoc,
      ← List.append_assoc, List.drop_left' (by simp [ha, hb]), List.take_of_length_le (by omega)]
  rw [unitsIn, h1, h2, h3, hparts, unitsOfBytes_unitBytes]

theorem slotText_longSlot (h : part.length = slotUnits) :
    slotText (longSlot number sum part) = partText part := by
  change partText (unitsIn (longSlot number sum part)) = partText part
  rw [unitsIn_longSlot h]

/-- Reading on at a long slot. -/
theorem parseFrom_longSlot (h : part.length = slotUnits) (h0 : number ≠ 0)
    (hE5 : number ≠ deletedMark) (pending : Pending) (k : Nat) (rest : List Bytes)
    {before : Pending}
    (hbefore : before = if number &&& lastPartMark = 0 then pending else ⟨[], [], some sum⟩) :
    parseFrom pending k (longSlot number sum part :: rest) =
      parseFrom ⟨partText part :: before.parts, k :: before.slots, before.sum⟩ (k + 1) rest := by
  rw [parseFrom, hbefore]
  simp [-List.getD_eq_getElem?_getD, getD_longSlot_zero, getD_longSlot_mark h,
    getD_longSlot_sum h, slotText_longSlot h, h0, hE5]

end Long

theorem length_longSlotsFrom (sum : UInt8) (count number : Nat) (parts : List (List UInt16)) :
    (longSlotsFrom sum count number parts).length = parts.length := by
  induction parts generalizing number with
  | nil => rfl
  | cons part parts ih => rw [longSlotsFrom, List.length_append, ih]; rfl

/-- The number byte of a long slot is never that of a free slot, and it tells the last part of a
name from the others. -/
theorem number_facts : ∀ n < 64, 0 < n →
    (UInt8.ofNat n ||| lastPartMark ≠ 0 ∧ UInt8.ofNat n ||| lastPartMark ≠ deletedMark ∧
      (UInt8.ofNat n ||| lastPartMark) &&& lastPartMark ≠ 0) ∧
    UInt8.ofNat n ||| 0 ≠ 0 ∧ UInt8.ofNat n ||| 0 ≠ deletedMark ∧
      (UInt8.ofNat n ||| 0) &&& lastPartMark = 0 := by
  decide

/-- Every long slot is whole and none of them looks like a free slot. -/
theorem of_mem_longSlotsFrom {sum : UInt8} {count number : Nat} {parts : List (List UInt16)}
    (hlen : ∀ part ∈ parts, part.length = slotUnits) (hnumber : 0 < number)
    (hfit : number + parts.length ≤ 64) {s : Bytes}
    (hs : s ∈ longSlotsFrom sum count number parts) :
    s.length = slotSize ∧ s.getD 0 0 ≠ 0 ∧ s.getD 0 0 ≠ deletedMark := by
  induction parts generalizing number with
  | nil => simp [longSlotsFrom] at hs
  | cons part parts ih =>
    rw [List.length_cons] at hfit
    rcases List.mem_append.1 hs with hs | hs
    · exact ih (fun p hp => hlen p (List.mem_cons_of_mem part hp)) (by omega) (by omega) hs
    · obtain ⟨⟨h0, hE5, -⟩, h0', hE5', -⟩ := number_facts number (by omega) hnumber
      rw [List.mem_singleton.1 hs]
      refine ⟨length_longSlot (hlen part (by simp)), ?_⟩
      rw [getD_longSlot_zero]
      split
      · exact ⟨h0, hE5⟩
      · exact ⟨h0', hE5'⟩

/-- Reading all slots of a long name leaves it pending, whatever was pending before. -/
theorem parseFrom_longSlotsFrom (pending : Pending) (k : Nat) (sum : UInt8) {count number : Nat}
    {parts : List (List UInt16)} (rest : List Bytes) (hne : parts ≠ [])
    (hlen : ∀ part ∈ parts, part.length = slotUnits) (hnumber : 0 < number)
    (hcount : number + parts.length = count + 1) (hfit : count < 64) :
    parseFrom pending k (longSlotsFrom sum count number parts ++ rest) =
      parseFrom ⟨parts.map partText, (List.range' k parts.length).reverse, some sum⟩
        (k + parts.length) rest := by
  induction parts generalizing number rest with
  | nil => exact absurd rfl hne
  | cons part parts ih =>
    have hpart := hlen part (by simp)
    rw [List.length_cons] at hcount
    obtain ⟨hlast, hother⟩ := number_facts number (by omega) hnumber
    cases parts with
    | nil =>
      obtain rfl : number = count := by simpa using hcount
      obtain ⟨h0, hE5, hbit⟩ := hlast
      rw [longSlotsFrom, longSlotsFrom, List.nil_append, List.singleton_append, if_pos rfl,
        parseFrom_longSlot hpart h0 hE5 _ _ _ (if_neg hbit).symm]
      rfl
    | cons next parts =>
      obtain ⟨h0, hE5, hbit⟩ := hother
      rw [longSlotsFrom, List.append_assoc, ih _ (by simp)
        (fun p hp => hlen p (List.mem_cons_of_mem part hp)) (by omega) (by omega),
        if_neg (by simp only [List.length_cons] at hcount; omega), List.singleton_append,
        parseFrom_longSlot hpart h0 hE5 _ _ _ (if_pos hbit).symm]
      have hslots : (k + (next :: parts).length) :: (List.range' k (next :: parts).length).reverse =
          (List.range' k ((next :: parts).length + 1)).reverse := by
        rw [List.range'_concat, List.reverse_append]
        simp
      simp only [hslots]
      rfl

/-! ### The parts of a name -/

theorem length_fillUnits (us : List UInt16) : ∃ n, (fillUnits us).length = slotUnits * n ∧
    us.length ≤ slotUnits * n ∧ slotUnits * n < us.length + slotUnits := by
  have hmod := Nat.div_add_mod us.length slotUnits
  have hlt : us.length % slotUnits < slotUnits := Nat.mod_lt _ (by decide)
  rw [fillUnits]
  split
  · exact ⟨us.length / slotUnits, by omega, by omega, by omega⟩
  · refine ⟨us.length / slotUnits + 1, ?_, ?_, ?_⟩
    · rw [List.length_append, List.length_cons, List.length_replicate, Nat.mul_succ]
      omega
    · rw [Nat.mul_succ]
      omega
    · rw [Nat.mul_succ]
      omega

theorem unitParts_eq {us : List UInt16} {n : Nat} (h : us.length = slotUnits * n) :
    (unitParts us).length = n ∧ (∀ part ∈ unitParts us, part.length = slotUnits) ∧
      (unitParts us).flatten = us := by
  induction n generalizing us with
  | zero =>
    obtain rfl : us = [] := List.eq_nil_of_length_eq_zero (by omega)
    rw [unitParts, dif_pos rfl]
    exact ⟨rfl, by simp, rfl⟩
  | succ n ih =>
    rw [Nat.mul_succ] at h
    have hne : us ≠ [] := by
      rintro rfl
      simp [slotUnits] at h
    obtain ⟨hlen, hparts, hflat⟩ := @ih (us.drop slotUnits) (by
      rw [List.length_drop]
      omega)
    rw [unitParts, dif_neg hne]
    refine ⟨by rw [List.length_cons, hlen], ?_, by rw [List.flatten_cons, hflat,
      List.take_append_drop]⟩
    intro part hpart
    rcases List.mem_cons.1 hpart with rfl | hpart
    · rw [List.length_take]
      omega
    · exact hparts part hpart

/-- A valid name has at least one part and at most twenty. -/
theorem nameParts_facts {name : String} (h : isValidName name = true) :
    nameParts name ≠ [] ∧ (nameParts name).length ≤ 20 ∧
      ∀ part ∈ nameParts name, part.length = slotUnits := by
  obtain ⟨n, hfill, hlow, hhigh⟩ := length_fillUnits (Text.units name.toList)
  obtain ⟨hlen, hparts, -⟩ := unitParts_eq hfill
  simp only [isValidName, Bool.and_eq_true, decide_eq_true_eq] at h
  obtain ⟨⟨⟨⟨hne, -⟩, -⟩, hunits⟩, -⟩ := h
  have hpos : (Text.units name.toList).length ≠ 0 := by
    cases hname : name.toList with
    | nil => exact absurd (String.toList_injective hname) hne
    | cons c cs =>
      rw [Text.units_cons, List.length_append, Text.charUnits]
      split <;> simp
  refine ⟨?_, ?_, hparts⟩
  · intro hnil
    rw [nameParts] at hnil
    rw [hnil, List.length_nil] at hlen
    rw [← hlen] at hlow
    omega
  · rw [nameParts, hlen]
    simp only [slotUnits] at hhigh
    omega

/-! ### Reading a record -/

namespace Spelling

/-- The name that is read where a spelling stands. -/
def shown (s : Spelling) : String :=
  match s.long with
  | none => shortDisplay s.short s.caseBits
  | some name => String.ofList ((nameParts name).map partText).flatten

variable {s : Spelling}

theorem length_slots (s : Spelling) (attributes : UInt8) (cluster size : Nat) :
    (s.slots attributes cluster size).length = s.longPart.length + 1 := by
  simp [slots]

/-- The short name of an entry begins like no free slot. -/
theorem WellFormed.first_ne (h : s.WellFormed) :
    s.short.getD 0 0 ≠ 0 ∧ s.short.getD 0 0 ≠ deletedMark := by
  obtain ⟨hlow, hhigh, -⟩ := h.first_range
  constructor
  · intro h0
    rw [h0] at hlow
    exact absurd hlow (by decide)
  · intro hE5
    rw [hE5] at hhigh
    exact absurd hhigh (by decide)

theorem WellFormed.of_mem_longPart (h : s.WellFormed) {bs : Bytes} (hbs : bs ∈ s.longPart) :
    bs.length = slotSize ∧ bs.getD 0 0 ≠ 0 ∧ bs.getD 0 0 ≠ deletedMark := by
  rw [longPart] at hbs
  split at hbs
  · simp at hbs
  · rename_i name hname
    obtain ⟨-, hcount, hparts⟩ := nameParts_facts (h.long name hname)
    exact of_mem_longSlotsFrom hparts Nat.one_pos (by omega) hbs

/-- The slots of a spelling are whole and none of them looks like a free slot. -/
theorem WellFormed.of_mem_slots (h : s.WellFormed) {attributes : UInt8} {cluster size : Nat}
    {bs : Bytes} (hbs : bs ∈ s.slots attributes cluster size) :
    bs.length = slotSize ∧ bs.getD 0 0 ≠ 0 ∧ bs.getD 0 0 ≠ deletedMark := by
  rcases List.mem_append.1 hbs with hbs | hbs
  · exact h.of_mem_longPart hbs
  · rw [List.mem_singleton.1 hbs, getD_shortSlot_zero h.length_short]
    exact ⟨length_shortSlot h.length_short, h.first_ne⟩

end Spelling

namespace Record

/-- The slots of a record. -/
def slots (r : Record) : List Bytes :=
  r.spelling.slots r.body.attributes r.body.first r.body.bytes.length

/-- The entry that is read where a record starts at slot `number`. -/
def entry (number : Nat) (r : Record) : DirEntry where
  name := r.spelling.shown
  short := r.spelling.short
  attributes := r.body.attributes
  cluster := r.body.first
  size := r.body.bytes.length
  slots := List.range' number r.slots.length

/-- The values of a record fit their fields. -/
structure WellFormed (r : Record) : Prop where
  spelling : r.spelling.WellFormed
  first : r.body.first < 0x100000000
  size : r.body.bytes.length < 0x100000000

variable {r : Record}

theorem length_slots_pos (r : Record) : 0 < r.slots.length := by
  rw [slots, Spelling.length_slots]
  exact Nat.succ_pos _

/-- The slots of a record are whole and none of them looks like a free slot. -/
theorem WellFormed.of_mem_slots (h : r.WellFormed) {s : Bytes} (hs : s ∈ r.slots) :
    s.length = slotSize ∧ s.getD 0 0 ≠ 0 ∧ s.getD 0 0 ≠ deletedMark :=
  h.spelling.of_mem_slots hs

end Record

/-- The entry that is read where the slots of a spelling start at slot `number`. -/
def Spelling.entry (number : Nat) (s : Spelling) (attributes : UInt8) (cluster size : Nat) :
    DirEntry where
  name := s.shown
  short := s.short
  attributes
  cluster
  size
  slots := List.range' number (s.slots attributes cluster size).length

/-- Reading the slots of a spelling gives one entry, whatever follows. -/
theorem Spelling.WellFormed.parseFrom_slots {s : Spelling} (h : s.WellFormed) {attributes : UInt8}
    {cluster size : Nat} (hmark : attributes ≠ longNameMark)
    (hlabel : attributes &&& labelAttribute = 0) (hcluster : cluster < 0x100000000)
    (hsize : size < 0x100000000) (number : Nat) (rest : List Bytes) :
    parseFrom .none number (s.slots attributes cluster size ++ rest) =
      s.entry number attributes cluster size ::
        parseFrom .none (number + (s.slots attributes cluster size).length) rest := by
  obtain ⟨h0, hE5⟩ := h.first_ne
  have hshort := h.length_short
  rw [Spelling.entry, Spelling.length_slots, Spelling.slots, List.append_assoc,
    List.singleton_append]
  cases hlong : s.long with
  | none =>
    have hnone : s.longPart = [] := by rw [Spelling.longPart, hlong]
    have hcase : (UInt8.ofNat s.caseBits).toNat = s.caseBits := by
      rw [UInt8.toNat_ofNat']
      exact Nat.mod_eq_of_lt h.caseBits
    rw [hnone, List.nil_append, parseFrom_shortSlot hshort h0 hE5 hmark hlabel,
      entryOf_shortSlot hshort hcluster hsize, hcase, Spelling.shown, hlong]
    rfl
  | some name =>
    obtain ⟨hne, hcount, hparts⟩ := nameParts_facts (h.long name hlong)
    have hpart : s.longPart = longSlots name s.short := by
      rw [Spelling.longPart, hlong]
    have hlen : (longSlots name s.short).length = (nameParts name).length :=
      length_longSlotsFrom ..
    have howned : (nameParts name).map partText ≠ [] ∧
        some (checksum s.short) = some (checksum s.short) :=
      ⟨by simpa using hne, rfl⟩
    rw [hpart, hlen, longSlots, parseFrom_longSlotsFrom _ _ _ _ hne hparts Nat.one_pos
      (Nat.add_comm ..) (by omega), parseFrom_shortSlot hshort h0 hE5 hmark hlabel,
      entryOf_shortSlot hshort hcluster hsize, if_pos howned, if_pos howned, Spelling.shown, hlong,
      List.reverse_reverse, List.range'_1_concat, Nat.add_assoc]

/-- Reading the slots of a record gives its entry, whatever follows. -/
theorem parseFrom_record {r : Record} (h : r.WellFormed) (number : Nat) (rest : List Bytes) :
    parseFrom .none number (r.slots ++ rest) =
      r.entry number :: parseFrom .none (number + r.slots.length) rest := by
  obtain ⟨hmark, hlabel⟩ := r.body.attributes_facts
  exact h.spelling.parseFrom_slots hmark hlabel h.first h.size number rest

/-! ### The entries for a directory itself and its parent -/

theorem parseFrom_newDirectory (self up : Nat) (hself : self < 0x100000000)
    (hup : up < 0x100000000) (rest : List Bytes) :
    parseFrom .none 0 (shortSlot dotName directoryAttribute self 0 0 ::
      shortSlot dotDotName directoryAttribute up 0 0 :: rest) =
      ⟨".", dotName, directoryAttribute, self, 0, [0]⟩ ::
        ⟨"..", dotDotName, directoryAttribute, up, 0, [1]⟩ :: parseFrom .none 2 rest := by
  have hzero : 0 < 0x100000000 := by decide
  have hone : shortDisplay dotName 0 = "." := by decide
  have htwo : shortDisplay dotDotName 0 = ".." := by decide
  rw [parseFrom_shortSlot (by decide) (by decide) (by decide) (by decide) (by decide),
    parseFrom_shortSlot (by decide) (by decide) (by decide) (by decide) (by decide),
    entryOf_shortSlot (by decide) hself hzero, entryOf_shortSlot (by decide) hup hzero]
  simp [Pending.none, hone, htwo]

end BootImage.Fat
