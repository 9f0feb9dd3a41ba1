import BootImage.Proofs.Fat.Naming

/-!
# One entry, written and read back

The slots that are written for a name are read as one entry, whatever the name is and whichever
short names are taken. All of the entry is what was written, with one exception: the name may be
read as another one. There are two ways in which that happens. The slots of a long name are decoded
one by one, so that a pair of surrogates which two of them share is lost. And the upper case of two
characters that are not of ASCII is a legal character of short names, from which they are not made
again. Every other name is read back character for character.

## Main definitions

* `ReadBack`: neither of the two happens to a name.

## Main results

* `shown_eq_iff`: which names are read back.
* `parse_encodeEntry`: what is read of the slots of one entry.
-/

namespace BootImage.Fat

/-- What is needed of a name to be read back as it is, where some short names are taken. -/
structure ReadBack (name : String) (taken : Bytes → Bool) : Prop where
  /-- No pair of surrogates is divided between two slots. -/
  unbroken : Unbroken name.toList
  /-- A name that is stored without a long one has no dotless i and no long s. -/
  plain : ∀ short caseBits, shortForm name = some (short, caseBits) → taken short = false →
    'ı' ∉ name.toList ∧ 'ſ' ∉ name.toList

section

variable {name : String} {taken : Bytes → Bool}

/-- A valid name is spelled in one way or the other, as long as there is an alias for it. -/
theorem exists_spellingOf (hvalid : isValidName name = true)
    (halias : ∃ short, shortAlias name taken = .ok short) : ∃ s, spellingOf name taken = .ok s := by
  obtain ⟨short, halias⟩ := halias
  have hlong : aliasSpelling name taken = .ok ⟨some name, short, 0⟩ := by
    rw [aliasSpelling, halias, Except.map]
  rw [spellingOf, if_neg (by rw [hvalid]; simp)]
  split
  · split
    · exact ⟨_, hlong⟩
    · exact ⟨_, rfl⟩
  · exact ⟨_, hlong⟩

/-- A name of ASCII is read back. -/
theorem readBack_of_ascii (taken : Bytes → Bool) (h : ∀ c ∈ name.toList, c.toNat < 0x80) :
    ReadBack name taken :=
  ⟨unbroken_of_ascii h, fun _ _ _ _ =>
    ⟨fun hc => absurd (h _ hc) (by decide), fun hc => absurd (h _ hc) (by decide)⟩⟩

/-- What is shown where a name was stored is the name, just if it is one that is read back. -/
theorem shown_eq_iff {s : Spelling} (h : spellingOf name taken = .ok s) :
    s.shown = name ↔ ReadBack name taken := by
  obtain ⟨hvalid, ⟨short, caseBits, hform, hfree, rfl⟩ | ⟨short, -, rfl⟩⟩ := spellingOf_cases h
  · obtain ⟨base, extension, hparts⟩ := exists_plainParts hform
    exact hparts.shown_eq_iff.trans ⟨readBack_of_ascii taken, fun hback =>
      hparts.ascii_iff.2 (hback.plain short caseBits hform hfree)⟩
  · refine (shown_of_long_iff hvalid rfl).trans ⟨fun hunbroken => ⟨hunbroken, ?_⟩, fun hback =>
      hback.unbroken⟩
    intro short' caseBits hform hfree
    rw [spellingOf, if_neg (by rw [hvalid]; simp), hform] at h
    simp only [hfree] at h
    cases h

/-- What is written for a name is read as one entry, which has the attributes, the cluster and the
size that were given, a short name that was not taken, and all slots in their order. Its name is the
one that was written, just if that is one which is read back. -/
theorem parse_encodeEntry (hvalid : isValidName name = true)
    (halias : ∃ short, shortAlias name taken = .ok short) {attributes cluster size : Nat}
    (hkind : attributes = directoryAttribute.toNat ∨ attributes = archiveAttribute.toNat)
    (hcluster : cluster < 0x100000000) (hsize : size < 0x100000000) :
    ∃ slots e, encodeEntry name taken attributes cluster size = .ok slots ∧
      parse slots.flatten = [e] ∧ (e.name = name ↔ ReadBack name taken) ∧
      e.attributes.toNat = attributes ∧ e.cluster = cluster ∧ e.size = size ∧
      taken e.short = false ∧ e.slots = List.range slots.length := by
  have hbyte : attributes < 0x100 := by
    rcases hkind with rfl | rfl <;> decide
  have hmark : UInt8.ofNat attributes ≠ longNameMark ∧
      UInt8.ofNat attributes &&& labelAttribute = 0 := by
    rcases hkind with rfl | rfl <;> decide
  obtain ⟨s, hs⟩ := exists_spellingOf hvalid halias
  have hwf := wellFormed_of_spellingOf hs
  refine ⟨s.slots (UInt8.ofNat attributes) cluster size,
    s.entry 0 (UInt8.ofNat attributes) cluster size, ?_, ?_, shown_eq_iff hs, ?_, rfl, rfl,
    not_taken_of_spellingOf hs, ?_⟩
  · rw [encodeEntry_eq name taken size hbyte hcluster, hs, Except.bind,
      if_pos ⟨by omega, by omega⟩, Int.toNat_natCast]
  · have hread := hwf.parseFrom_slots hmark.1 hmark.2 hcluster hsize 0 []
    rw [List.append_nil] at hread
    rw [parse, slotsOf_flatten fun bs hbs => (hwf.of_mem_slots hbs).1, hread, parseFrom]
  · exact UInt8.toNat_ofNat_of_lt' hbyte
  · rw [Spelling.entry, List.range_eq_range']

end

/-- A name that is read back, and one that is not: the upper case of the long s is the letter S,
from which the letter s is made again. -/
theorem exists_name_not_read_back :
    (∃ slots e, encodeEntry "Read me.txt" (fun _ => false) 0x20 5 7 = .ok slots ∧
      parse slots.flatten = [e] ∧ e.name = "Read me.txt" ∧ e.cluster = 5 ∧ e.size = 7) ∧
    ∃ slots e, encodeEntry "ſ" (fun _ => false) 0x20 5 7 = .ok slots ∧
      parse slots.flatten = [e] ∧ e.name ≠ "ſ" ∧ e.cluster = 5 ∧ e.size = 7 := by
  constructor
  · obtain ⟨slots, e, hslots, hparse, hname, -, hcluster, hsize, -⟩ := @parse_encodeEntry
      "Read me.txt" (fun _ => false) (by decide) ⟨_, rfl⟩ 0x20 5 7 (.inr rfl) (by decide)
      (by decide)
    have hback : ReadBack "Read me.txt" fun _ => false :=
      readBack_of_ascii _ (Text.ascii_of_all (by decide))
    exact ⟨slots, e, hslots, hparse, hname.2 hback, hcluster, hsize⟩
  · obtain ⟨slots, e, hslots, hparse, hname, -, hcluster, hsize, -⟩ := @parse_encodeEntry
      "ſ" (fun _ => false) (by decide) ⟨_, rfl⟩ 0x20 5 7 (.inr rfl) (by decide) (by decide)
    refine ⟨slots, e, hslots, hparse, fun heq => ?_, hcluster, hsize⟩
    exact ((hname.1 heq).plain _ _ rfl rfl).2 (by decide)

end BootImage.Fat
