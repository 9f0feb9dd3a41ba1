import BootImage.Proofs.Fat.Format
import BootImage.Proofs.Fat.Writing

/-!
# Writing the table back

A flush writes the table over every copy of it, and FSInfo over two of the reserved sectors. All of
this lies behind the boot sector and before the clusters, so the boot sector still records the same
geometry, the clusters hold what they held, and a volume that is closed and opened again has the
table that it was closed with.

## Main results

* `Disk.Sound.flushed_facts`: what is in an image after a flush.
* `Disk.Sound.read_copy_flushed`, `Disk.Sound.read_fsInfo_flushed`: what is read then of the copies
  of the table and of FSInfo.
* `Disk.Holds.flush`: a flush keeps the catalog.
-/

namespace BootImage.Fat

namespace ClusterTable

theorem length_toBytes (t : ClusterTable) : t.toBytes.length = t.size := by
  have hentries : ∀ es : List UInt32,
      (es.flatMap fun entry => Bytes.ofNat 4 entry.toNat).length = 4 * es.length := by
    intro es
    induction es with
    | nil => rfl
    | cons e es ih =>
      rw [List.flatMap_cons, List.length_append, ih, Bytes.length_ofNat, List.length_cons]
      omega
  rw [toBytes, List.length_append, hentries, Array.length_toList, size]

theorem ofBytes_toBytes {t : ClusterTable} (h : t.rest = []) : ofBytes t.toBytes = t := by
  obtain ⟨entries, rest⟩ := t
  obtain rfl : rest = [] := h
  rw [ofBytes, toBytes, List.append_nil, decodeFrom_flatMap]
  simp

end ClusterTable

namespace Disk

/-! ### The copies of the table -/

/-- Where the copies of the table are, one behind the other. -/
theorem tableOffset_eq (g : Geometry) (copy : Nat) : g.tableOffset copy =
    g.reservedSectors * g.bytesPerSector + copy * (g.tableSectors * g.bytesPerSector) := by
  rw [Geometry.tableOffset, Nat.add_mul, Nat.mul_assoc]

theorem dataPlace_eq (g : Geometry) : g.dataStart * g.bytesPerSector =
    g.reservedSectors * g.bytesPerSector + g.tableCount * (g.tableSectors * g.bytesPerSector) := by
  rw [Division.dataStart, Nat.add_mul, Nat.mul_assoc]

/-- What is in an image after the first copies of the table were written. -/
theorem writeCopies_facts {g : Geometry} {stored : Bytes} (content : Content) (count : Nat)
    (hlen : stored.length = g.tableSectors * g.bytesPerSector)
    (hfit : g.tableOffset count ≤ content.size) :
    ((List.range count).foldl (fun c copy => c.write (g.tableOffset copy) stored) content).size =
        content.size ∧
      (∀ i, i < g.tableOffset 0 ∨ g.tableOffset count ≤ i →
        ((List.range count).foldl (fun c copy => c.write (g.tableOffset copy) stored) content).get
          i = content.get i) ∧
      (∀ copy < count, ∀ i < stored.length,
        ((List.range count).foldl (fun c copy => c.write (g.tableOffset copy) stored) content).get
          (g.tableOffset copy + i) = stored.getD i 0) := by
  induction count with
  | zero => exact ⟨rfl, fun _ _ => rfl, fun copy h => absurd h (Nat.not_lt_zero copy)⟩
  | succ count ih =>
    have hnext : g.tableOffset (count + 1) = g.tableOffset count + stored.length := by
      rw [tableOffset_eq, tableOffset_eq, hlen, Nat.succ_mul]
      omega
    have hfirst : g.tableOffset 0 ≤ g.tableOffset count := by
      rw [tableOffset_eq, tableOffset_eq, Nat.zero_mul]
      omega
    obtain ⟨hsize, hother, hread⟩ := ih (by omega)
    rw [List.range_succ, List.foldl_append, List.foldl_cons, List.foldl_nil]
    refine ⟨?_, fun i hi => ?_, fun copy hcopy i hi => ?_⟩
    · rw [Content.size_write_of_le _ (by omega), hsize]
    · rw [Content.get_write, if_neg (by omega), hother i (by omega)]
    · rw [Content.get_write]
      rcases Nat.lt_succ_iff_lt_or_eq.1 hcopy with hbefore | rfl
      · have hend : g.tableOffset copy + stored.length ≤ g.tableOffset count := by
          rw [tableOffset_eq, tableOffset_eq, hlen, Nat.add_assoc, ← Nat.succ_mul]
          exact Nat.add_le_add_left (Nat.mul_le_mul_right _ hbefore) _
        rw [if_neg (by omega), hread copy hbefore i hi]
      · rw [if_pos (by omega), Nat.add_sub_cancel_left]

/-- What is in an image after a flush: the clusters are as they were, and so are the reserved
sectors but the two of FSInfo; every copy of the table is that of the volume. -/
theorem Sound.flushed_facts {d : Disk} (h : d.Sound) :
    (flushed d.volume d.content).size = d.content.size ∧
      (∀ i < d.volume.geometry.reservedSectors * d.volume.geometry.bytesPerSector,
        i / d.volume.geometry.bytesPerSector ∉ [1, 7] →
          (flushed d.volume d.content).get i = d.content.get i) ∧
      (∀ i, d.volume.geometry.dataStart * d.volume.geometry.bytesPerSector ≤ i →
        (flushed d.volume d.content).get i = d.content.get i) ∧
      (∀ copy < d.volume.geometry.tableCount, ∀ i < d.volume.table.size,
        (flushed d.volume d.content).get (d.volume.geometry.tableOffset copy + i) =
          d.volume.table.toBytes.getD i 0) := by
  have hsector := h.sector
  have hinfo := length_fsInfo d.volume.free d.volume.hint hsector
  have hlen := d.volume.table.length_toBytes
  have hroom := h.room
  have hlast : d.volume.geometry.tableOffset d.volume.geometry.tableCount =
      d.volume.geometry.dataStart * d.volume.geometry.bytesPerSector := by
    rw [tableOffset_eq, dataPlace_eq]
  have hfirst : 8 * d.volume.geometry.bytesPerSector ≤ d.volume.geometry.tableOffset 0 := by
    rw [tableOffset_eq, Nat.zero_mul, Nat.add_zero]
    exact Nat.mul_le_mul_right _ h.reserved
  have horder : d.volume.geometry.tableOffset 0 ≤
      d.volume.geometry.tableOffset d.volume.geometry.tableCount := by
    rw [tableOffset_eq, tableOffset_eq, Nat.zero_mul]
    omega
  obtain ⟨hsize, hother, hread⟩ := writeCopies_facts d.content
    d.volume.geometry.tableCount (hlen.trans h.table) (by omega)
  simp only [flushed]
  refine ⟨?_, fun i hi hnot => ?_, fun i hi => ?_, fun copy hcopy i hi => ?_⟩
  · rw [Content.size_write_of_le, Content.size_write_of_le, hsize]
    · omega
    · rw [Content.size_write_of_le] <;> omega
  · have hplace : ∀ k ∈ [1, 7], ¬ (k * d.volume.geometry.bytesPerSector ≤ i ∧
        i < k * d.volume.geometry.bytesPerSector + d.volume.geometry.bytesPerSector) := by
      rintro k hk ⟨hlow, hhigh⟩
      rw [← Nat.succ_mul] at hhigh
      exact hnot (Nat.div_eq_of_lt_le hlow hhigh ▸ hk)
    have hone := hplace 1 (by simp)
    have hseven := hplace 7 (by simp)
    rw [tableOffset_eq, Nat.zero_mul, Nat.add_zero] at hother
    rw [Content.get_write, if_neg (by omega), Content.get_write, if_neg (by omega)]
    exact hother i (.inl hi)
  · rw [Content.get_write, if_neg (by omega), Content.get_write, if_neg (by omega)]
    exact hother i (by omega)
  · have hplace : d.volume.geometry.tableOffset 0 ≤ d.volume.geometry.tableOffset copy := by
      rw [tableOffset_eq, tableOffset_eq, Nat.zero_mul]
      omega
    rw [Content.get_write, if_neg (by omega), Content.get_write, if_neg (by omega)]
    exact hread copy hcopy i (by omega)

/-- What is read of every copy of the table after a flush. -/
theorem Sound.read_copy_flushed {d : Disk} (h : d.Sound) {copy : Nat}
    (hcopy : copy < d.volume.geometry.tableCount) :
    (flushed d.volume d.content).read (d.volume.geometry.tableOffset copy)
        (d.volume.geometry.tableSectors * d.volume.geometry.bytesPerSector) =
      d.volume.table.toBytes := by
  obtain ⟨hsize, -, -, hstored⟩ := h.flushed_facts
  have hlen := d.volume.table.length_toBytes
  have hroom := h.room
  have hplace := dataPlace_eq d.volume.geometry
  have hmul := Nat.mul_le_mul_right
    (d.volume.geometry.tableSectors * d.volume.geometry.bytesPerSector) hcopy
  rw [Nat.succ_mul] at hmul
  have hend : d.volume.geometry.tableOffset copy +
      d.volume.geometry.tableSectors * d.volume.geometry.bytesPerSector ≤ d.content.size := by
    rw [tableOffset_eq]
    omega
  refine Bytes.ext_getD ?_ fun i hi => ?_
  · rw [Content.length_read, hsize, hlen, h.table]
    omega
  · rw [Content.length_read, hsize] at hi
    rw [Content.getD_read _ _ _ _ (by omega), hstored copy hcopy i (by rw [h.table]; omega)]

/-- What is read of the two sectors of FSInfo after a flush. -/
theorem Sound.read_fsInfo_flushed {d : Disk} (h : d.Sound) {sector : Nat} (hs : sector ∈ [1, 7]) :
    (flushed d.volume d.content).read (sector * d.volume.geometry.bytesPerSector)
        d.volume.geometry.bytesPerSector =
      fsInfo d.volume.free d.volume.hint d.volume.geometry.bytesPerSector := by
  obtain ⟨hsize, -, -, -⟩ := h.flushed_facts
  have hinfo := length_fsInfo d.volume.free d.volume.hint h.sector
  have hroom := h.room
  have hplace := dataPlace_eq d.volume.geometry
  have hreserved := Nat.mul_le_mul_right d.volume.geometry.bytesPerSector h.reserved
  have hsector : sector = 1 ∨ sector = 7 := by simpa using hs
  refine Bytes.ext_getD ?_ fun i hi => ?_
  · rw [Content.length_read, hsize, hinfo]
    rcases hsector with rfl | rfl <;> omega
  · rw [Content.length_read, hsize] at hi
    rw [Content.getD_read _ _ _ _ (by omega)]
    simp only [flushed]
    rw [Content.get_write]
    rcases hsector with rfl | rfl
    · rw [if_neg (by omega), Content.get_write, if_pos (by omega), Nat.one_mul,
        Nat.add_sub_cancel_left]
    · rw [if_pos (by omega), Nat.add_sub_cancel_left]

/-- The boot sector is reserved, and it is none of FSInfo. -/
theorem Sound.boot_reserved {d : Disk} (h : d.Sound) {i : Nat} (hi : i < 512) :
    i < d.volume.geometry.reservedSectors * d.volume.geometry.bytesPerSector ∧
      i / d.volume.geometry.bytesPerSector ∉ [1, 7] := by
  have hsector := h.sector
  have hreserved := Nat.mul_le_mul_right d.volume.geometry.bytesPerSector h.reserved
  refine ⟨by omega, ?_⟩
  rw [Nat.div_eq_of_lt (by omega)]
  decide

/-- A flush changes no cluster. -/
theorem Sound.readCluster_flushed {d d' : Disk} (h : d.Sound)
    (hgeometry : d'.volume.geometry = d.volume.geometry)
    (hcontent : d'.content = flushed d.volume d.content) {x : Nat}
    (hx : d.volume.inRange x = true) : d'.readCluster x = d.readCluster x := by
  obtain ⟨hsize, -, hdata, -⟩ := h.flushed_facts
  have hplace : d'.offset x = d.offset x := by rw [offset, offset, hgeometry]
  have hlow := (Volume.inRange_iff.1 hx).1
  have hend := h.offset_le hx
  rw [readCluster, readCluster, Content.read_eq, Content.read_eq, hplace, hgeometry, hcontent,
    hsize]
  refine List.map_congr_left fun i _ => hdata _ ?_
  rw [d.offset_eq hlow, Nat.add_assoc]
  exact Nat.le_add_right _ _

variable {d : Disk} {G : Catalog} {K : Owner → List Nat} {loose : List Nat}

/-- A volume that has the table of a flushed one holds the same catalog. -/
theorem Holds.of_flushed {d' : Disk} (h : d.Holds G K loose)
    (hgeometry : d'.volume.geometry = d.volume.geometry)
    (htable : d'.volume.table = d.volume.table)
    (hfree : d'.volume.free = d.volume.free) (hhint : d'.volume.inRange d'.volume.hint = true)
    (hcontent : d'.content = flushed d.volume d.content) : d'.Holds G K loose := by
  have hclusters : d'.volume.clusters = d.volume.clusters := by
    rw [Volume.clusters, Volume.clusters, hgeometry]
  have hlast : d'.volume.last = d.volume.last := by rw [Volume.last, Volume.last, hclusters]
  have hrange : ∀ x, d'.volume.inRange x = d.volume.inRange x := fun x => by
    rw [Volume.inRange, Volume.inRange, hlast]
  have hs := h.sound
  refine h.of_agree ?_ hgeometry ?_ hhint (fun o x _ => by rw [htable])
    (fun o x hx => hs.readCluster_flushed hgeometry hcontent (h.owned_used hx).1) h.apart ?_
    h.loose_nodup ?_
  · constructor
    · exact hgeometry ▸ hs.sector
    · exact hgeometry ▸ hs.reserved
    · exact hgeometry ▸ hs.slots
    · exact hgeometry ▸ hs.pos
    · exact hclusters ▸ hs.clusters
    · exact hlast ▸ hs.few
    · rw [hlast, htable]
      exact hs.entries
    · rw [hgeometry, htable]
      exact hs.table
    · rw [htable]
      exact hs.whole
    · rw [hgeometry, hclusters, hcontent, hs.flushed_facts.1]
      exact hs.room
  · rw [hfree, h.free, htable, hlast]
  · intro x hx hused
    rw [hrange] at hx
    rw [htable] at hused
    exact h.covered x hx hused
  · intro x hx
    rw [hrange, htable]
    exact h.loose_used x hx

/-- A flush keeps what a disk holds. -/
theorem Holds.flush (h : d.Holds G K loose) (hopen : d.volume.closed = false)
    (hwritable : d.volume.readOnly = false) :
    d.flush = .ok ⟨d.volume, flushed d.volume d.content⟩ ∧
      Disk.Holds ⟨d.volume, flushed d.volume d.content⟩ G K loose := by
  refine ⟨?_, h.of_flushed rfl rfl rfl h.hint rfl⟩
  rw [Disk.flush, Volume.checkOpen, hopen, hwritable]
  rfl

end Disk

end BootImage.Fat
