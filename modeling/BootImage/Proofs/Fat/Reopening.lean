import BootImage.Proofs.Fat.Runs

/-!
# Opening an image again

What opening an image reads is its boot sector and its first table. Neither is touched by a change
of the volume; closing writes the table, and with it the image can be opened again and holds what
the volume held. It also makes no difference if something was appended to the image in the meantime.

## Main definitions

* `Disk.Openable`: the image of a volume can be opened, once its table is written back.

## Main results

* `Disk.Openable.ofContent_flushed`, `Disk.Openable.reopen`: a volume that was closed and is opened
  again is as it was and holds the same catalog.
* `Disk.Openable.ofContent_extends`, `Disk.Holds.extend`: more at the end of an image changes
  nothing.
-/

namespace BootImage.Fat

namespace Disk

variable {d d' : Disk} {G : Catalog} {K : Owner → List Nat} {loose : List Nat} {content : Content}

/-- What a disk holds it still holds if its image goes on. -/
theorem Holds.extend (h : d.Holds G K loose) (hcontent : d.content.Extends content) :
    Disk.Holds ⟨d.volume, content⟩ G K loose := by
  have hs := h.sound
  have hsound : Disk.Sound ⟨d.volume, content⟩ :=
    { hs with room := Nat.le_trans hs.room hcontent.1 }
  have hread : ∀ o, ∀ x ∈ K o, Disk.readCluster ⟨d.volume, content⟩ x = d.readCluster x :=
    fun o x hx => hcontent.read_eq (hs.offset_le (h.owned_used hx).1)
  exact h.of_agree hsound rfl h.free h.hint (fun _ _ _ => rfl) hread h.apart h.covered h.loose_nodup
    h.loose_used

/-! ### Opening -/

/-- The image of a volume can be opened, once its table is written back: its boot sector records the
geometry, and the tables are not too long to be read and have an entry for each cluster. -/
structure Openable (d : Disk) : Prop where
  boot : Geometry.ofBootSector (d.content.read 0 512) d.volume.image = .ok d.volume.geometry
  held : d.volume.geometry.tableSectors * d.volume.geometry.bytesPerSector ≤ Bytes.maxHeld
  entries : 0 ≤ d.volume.geometry.clusterCount ∧ 8 + 4 * d.volume.geometry.clusterCount ≤
    (d.volume.geometry.tableSectors * d.volume.geometry.bytesPerSector : Nat)
  copies : 0 < d.volume.geometry.tableCount

/-- Where the boot sector and the first table end, the clusters do not start before. -/
theorem Sound.heads_le (h : d.Sound) (hcopies : 0 < d.volume.geometry.tableCount) :
    512 ≤ d.volume.geometry.dataStart * d.volume.geometry.bytesPerSector ∧
      d.volume.geometry.tableOffset 0 +
          d.volume.geometry.tableSectors * d.volume.geometry.bytesPerSector ≤
        d.volume.geometry.dataStart * d.volume.geometry.bytesPerSector ∧
      d.volume.geometry.dataStart * d.volume.geometry.bytesPerSector ≤ d.content.size := by
  have hroom := h.room
  have hsector := h.sector
  have hreserved := Nat.mul_le_mul h.reserved hsector
  have hfirst := Nat.le_mul_of_pos_left
    (d.volume.geometry.tableSectors * d.volume.geometry.bytesPerSector) hcopies
  have hplace := dataPlace_eq d.volume.geometry
  refine ⟨by omega, ?_, by omega⟩
  rw [tableOffset_eq, Nat.zero_mul, hplace]
  omega

/-- No file is as long as the image that it is in. -/
theorem Holds.length_bytes_lt (h : d.Holds G K loose) (hcopies : 0 < d.volume.geometry.tableCount)
    {dir n c : Nat} {f : Folder} {s : Spelling} {bytes : Bytes} (hf : G dir = some f)
    (hr : (n, ⟨s, .file c bytes⟩) ∈ f.records) : bytes.length < d.content.size := by
  obtain ⟨-, -, hbytes⟩ := h.body dir f n _ hf hr
  obtain ⟨hhead, -, -⟩ := h.sound.heads_le hcopies
  have hroom := h.sound.room
  have hlinked : d.Linked c (K (some (dir, n))) := h.linked _ _ (.record hf hr)
  have hcount : (K (some (dir, n))).length ≤ d.volume.clusters := by
    rw [Linked] at hlinked
    split at hlinked
    · rw [hlinked]
      exact Nat.zero_le _
    · have hlen := ClusterTable.Chain.length_le h.sound.few hlinked
      rw [Volume.last] at hlen
      omega
  have hlen := h.sound.length_readChain fun x hx => (hlinked.inRange hx).1
  have htake : bytes.length ≤ ((K (some (dir, n))).flatMap d.readCluster).length := by
    rw [← hbytes, List.length_take]
    exact Nat.min_le_right _ _
  have hmul := Nat.mul_le_mul_right d.volume.geometry.clusterSize hcount
  omega

/-- That a boot sector is accepted does not depend on whose it is. -/
theorem ofBootSector_image {boot : Bytes} {image : String} {g : Geometry}
    (h : Geometry.ofBootSector boot image = .ok g) (image' : String) :
    Geometry.ofBootSector boot image' = .ok g := by
  rw [Geometry.ofBootSector] at h ⊢
  obtain ⟨hsignature, h⟩ := ok_of_unless h
  obtain ⟨hkind, h⟩ := ok_of_unless h
  obtain ⟨hvalid, h⟩ := ok_of_unless h
  simp only
  rw [if_pos hsignature, if_pos hkind, if_pos hvalid]
  exact h

/-- An image can still be opened if of its reserved sectors only those of FSInfo have changed. -/
theorem Openable.sameReserved (h : d.Openable) (hs : d.Sound) (hsame : d.SameReserved d') :
    d'.Openable := by
  obtain ⟨hhead, -, hsize⟩ := hs.heads_le h.copies
  have hread : d'.content.read 0 512 = d.content.read 0 512 := by
    rw [Content.read_eq, Content.read_eq, hsame.size]
    refine List.map_congr_left fun i hi => ?_
    have hlow := List.mem_range.1 hi
    obtain ⟨hreserved, hsector⟩ := hs.boot_reserved (i := 0 + i) (by omega)
    exact hsame.get _ hreserved hsector
  constructor
  · rw [hread, hsame.geometry]
    exact ofBootSector_image h.boot _
  · rw [hsame.geometry]
    exact h.held
  · rw [hsame.geometry]
    exact h.entries
  · rw [hsame.geometry]
    exact h.copies

theorem Openable.alike (h : d.Openable) (hs : d.Sound) (halike : d.Alike d') : d'.Openable :=
  h.sameReserved hs halike.sameReserved

theorem Openable.extend (h : d.Openable) (hs : d.Sound) (hcontent : d.content.Extends content) :
    Disk.Openable ⟨d.volume, content⟩ := by
  obtain ⟨hhead, -, hsize⟩ := hs.heads_le h.copies
  refine ⟨?_, h.held, h.entries, h.copies⟩
  have hread : content.read 0 512 = d.content.read 0 512 := hcontent.read_eq (by omega)
  exact (congrArg (Geometry.ofBootSector · _) hread).trans h.boot

/-- What opening an image gives, by the table that is stored in it. -/
theorem Openable.ofContent_eq (h : d.Openable) {table : ClusterTable} (readOnly : Bool)
    (hread : ClusterTable.ofBytes (d.content.read (d.volume.geometry.tableOffset 0)
      (d.volume.geometry.tableSectors * d.volume.geometry.bytesPerSector)) = table)
    (hsize : table.size = d.volume.geometry.tableSectors * d.volume.geometry.bytesPerSector) :
    Volume.ofContent d.volume.image d.content readOnly =
      .ok { image := d.volume.image, geometry := d.volume.geometry, table,
            free := Volume.countFree table d.volume.clusters, hint := 2, readOnly,
            closed := false } := by
  have hmemory : ¬ d.volume.geometry.tableSectors * d.volume.geometry.bytesPerSector >
      Bytes.maxHeld := Nat.not_lt.2 h.held
  rw [Volume.ofContent, h.boot]
  simp only [bind, Except.bind, hread]
  rw [if_neg hmemory]
  exact if_pos (hsize ▸ h.entries)

/-- The volume in an image that goes on is the one that was in it before. -/
theorem Openable.ofContent_extends (h : d.Openable) (hs : d.Sound)
    (hcontent : d.content.Extends content) (readOnly : Bool) :
    Volume.ofContent d.volume.image content readOnly =
      Volume.ofContent d.volume.image d.content readOnly := by
  obtain ⟨hhead, htable, hsize⟩ := hs.heads_le h.copies
  have hboot : content.read 0 512 = d.content.read 0 512 := hcontent.read_eq (by omega)
  have hread : content.read (d.volume.geometry.tableOffset 0)
        (d.volume.geometry.tableSectors * d.volume.geometry.bytesPerSector) =
      d.content.read (d.volume.geometry.tableOffset 0)
        (d.volume.geometry.tableSectors * d.volume.geometry.bytesPerSector) :=
    hcontent.read_eq (by omega)
  rw [Volume.ofContent, Volume.ofContent, hboot, h.boot]
  simp only [bind, Except.bind, hread]

/-- A volume that was closed and is opened again is as it was; only the search for free clusters
starts from the first of them. -/
theorem Openable.ofContent_flushed (h : d.Openable) (hholds : d.Holds G K loose) (readOnly : Bool) :
    Volume.ofContent d.volume.image (flushed d.volume d.content) readOnly =
      .ok { d.volume with hint := 2, readOnly, closed := false } := by
  have hs := hholds.sound
  have hread := hs.read_copy_flushed h.copies
  have hopen := (h.sameReserved hs hs.sameReserved_flushed).ofContent_eq readOnly
    ((congrArg ClusterTable.ofBytes hread).trans (ClusterTable.ofBytes_toBytes hs.whole)) hs.table
  have hfree : Volume.countFree d.volume.table d.volume.clusters = d.volume.free := by
    rw [hholds.free]
    exact ClusterTable.countFree_eq _ _
  refine hopen.trans ?_
  simp only [hfree]

/-- A volume that was closed and is opened again holds the same catalog. -/
theorem Openable.reopen (h : d.Openable) (hholds : d.Holds G K loose) (readOnly : Bool) :
    ∃ v, Volume.ofContent d.volume.image (flushed d.volume d.content) readOnly = .ok v ∧
      v.image = d.volume.image ∧ v.geometry = d.volume.geometry ∧ v.readOnly = readOnly ∧
      v.closed = false ∧ Disk.Holds ⟨v, flushed d.volume d.content⟩ G K loose ∧
      Disk.Openable ⟨v, flushed d.volume d.content⟩ := by
  have hs := hholds.sound
  have htwo : 2 ≤ 2 ∧ 2 ≤ d.volume.last := by
    have := hs.clusters
    rw [Volume.last]
    omega
  obtain ⟨hboot, hheld, hentries, hcopies⟩ := h.sameReserved hs hs.sameReserved_flushed
  exact ⟨_, h.ofContent_flushed hholds readOnly, rfl, rfl, rfl, rfl,
    hholds.of_flushed rfl rfl rfl (Volume.inRange_iff.2 htwo) rfl,
    ⟨hboot, hheld, hentries, hcopies⟩⟩

theorem ofBootSector_of_ofContent {image : String} {readOnly : Bool} {v : Volume}
    (h : Volume.ofContent image content readOnly = .ok v) :
    Geometry.ofBootSector (content.read 0 512) image = .ok v.geometry ∧ v.image = image := by
  rw [Volume.ofContent] at h
  cases hboot : Geometry.ofBootSector (content.read 0 512) image with
  | error e =>
    rw [hboot] at h
    cases h
  | ok g =>
    rw [hboot] at h
    simp only [bind, Except.bind] at h
    split at h
    · cases h
    · split at h
      · cases h
        exact ⟨rfl, rfl⟩
      · cases h

/-- The image of a new volume can be opened. -/
theorem Fresh.openable (h : d.Fresh) : d.Openable := by
  obtain ⟨image, content, spc, label, id, g, hformat, hopen⟩ := h
  obtain ⟨hnew, name, hname, hcontent⟩ := formatImage_eq hformat
  have heq := ofContent_formattedWith id hnew hname image false
  rw [← hcontent] at heq
  have hvolume := Except.ok.inj (hopen.symm.trans heq)
  obtain ⟨hboot, -⟩ := ofBootSector_of_ofContent hopen
  have htable := hnew.table_le
  have hcount := hnew.clusters
  have hentries := hnew.entries
  have hgeometry : d.volume.geometry = g := by rw [hvolume]
  have himage : d.volume.image = image := by rw [hvolume]
  constructor
  · rw [himage]
    exact hboot
  · rw [hgeometry, hnew.sector, Bytes.maxHeld]
    omega
  · rw [hgeometry, hnew.sector]
    omega
  · rw [hgeometry, hnew.tables]
    decide

end Disk

end BootImage.Fat
