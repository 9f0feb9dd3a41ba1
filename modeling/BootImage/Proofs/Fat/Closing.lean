import BootImage.Proofs.Fat.Ownership
import BootImage.Proofs.Fat.Reopening

/-!
# Closing a volume

An open volume keeps its table in memory and its directories and files in the image; the two only
fit together again when it is closed. What is in the image then is all that the next one to open it
will know: the copies of the table, the two sectors of FSInfo, and the clusters, which closing must
not touch. The count of free clusters is a running number before, and counted anew from the table
after.

That the volume is read as it was is shown without the catalog: whatever is read is read of the
geometry, the table and the bytes of clusters, and of nothing else. So it is the same for any two
disks that have these in common (`Disk.ReadsAlike`), whatever path is asked for and whether or not
there is something at it.

## Main definitions

* `Disk.ReadsAlike`: two disks with the same geometry, table and bytes of clusters.
* `Disk.SameTree`: two disks with the same directories and files, as far as they are read.
* `Disk.Saved`: what closing a volume leaves in the image.

## Main results

* `Disk.ReadsAlike.sameTree`: disks that read alike have the same directories and files.
* `Disk.Fresh.saved_after`: closing loses nothing, after any calls on a volume that was formatted.
-/

namespace BootImage.Fat

/-! ### Disks that read alike -/

/-- Both volumes are open, or both are closed, and have the same geometry, table and bytes of
clusters. -/
structure Disk.ReadsAlike (d d' : Disk) : Prop where
  image : d'.volume.image = d.volume.image
  geometry : d'.volume.geometry = d.volume.geometry
  table : d'.volume.table = d.volume.table
  closed : d'.volume.closed = d.volume.closed
  cluster : ∀ x, d.volume.inRange x = true → d'.readCluster x = d.readCluster x

/-- Every chain is made of clusters. -/
theorem Volume.inRange_of_chainFrom {v : Volume} {limit c : Nat} {seen cs : List Nat}
    (h : v.chainFrom seen limit c = some cs) (hseen : ∀ x ∈ seen, v.inRange x = true) :
    ∀ x ∈ cs, v.inRange x = true := by
  induction limit generalizing seen c with
  | zero =>
    rw [chainFrom] at h
    split at h
    · cases h
    · cases h
      exact fun x hx => hseen x (List.mem_reverse.1 hx)
  | succ limit ih =>
    rw [chainFrom] at h
    split at h
    · exact ih h (List.forall_mem_cons.2 ⟨‹_›, hseen⟩)
    · cases h
      exact fun x hx => hseen x (List.mem_reverse.1 hx)

theorem Volume.inRange_of_chain {v : Volume} {start : Int} {cs : List Nat}
    (h : v.chain start = .ok cs) : ∀ x ∈ cs, v.inRange x = true := by
  rw [chain] at h
  cases hfrom : v.chainFrom [] v.clusters start.toNat with
  | none =>
    rw [hfrom] at h
    cases h
  | some cs' =>
    rw [hfrom] at h
    cases h
    exact inRange_of_chainFrom hfrom (by simp)

namespace Disk

variable {d d' : Disk}

namespace ReadsAlike

theorem symm (h : d.ReadsAlike d') : d'.ReadsAlike d := by
  refine ⟨h.image.symm, h.geometry.symm, h.table.symm, h.closed.symm, fun x hx => ?_⟩
  rw [Volume.inRange, Volume.last, Volume.clusters, h.geometry] at hx
  exact (h.cluster x hx).symm

theorem trans {d'' : Disk} (h : d.ReadsAlike d') (h' : d'.ReadsAlike d'') : d.ReadsAlike d'' := by
  refine ⟨h'.image.trans h.image, h'.geometry.trans h.geometry, h'.table.trans h.table,
    h'.closed.trans h.closed, fun x hx => ?_⟩
  rw [← h.cluster x hx]
  refine h'.cluster x ?_
  rwa [Volume.inRange, Volume.last, Volume.clusters, h.geometry]

theorem clusters_eq (h : d.ReadsAlike d') : d'.volume.clusters = d.volume.clusters := by
  rw [Volume.clusters, Volume.clusters, h.geometry]

theorem chainFrom_eq (h : d.ReadsAlike d') (seen : List Nat) (limit c : Nat) :
    d'.volume.chainFrom seen limit c = d.volume.chainFrom seen limit c := by
  have hrange : ∀ x, d'.volume.inRange x = d.volume.inRange x := fun x => by
    rw [Volume.inRange, Volume.inRange, Volume.last, Volume.last, h.clusters_eq]
  induction limit generalizing seen c with
  | zero => rw [Volume.chainFrom, Volume.chainFrom, hrange]
  | succ limit ih => rw [Volume.chainFrom, Volume.chainFrom, hrange, h.table, ih]

theorem chain_eq (h : d.ReadsAlike d') (start : Int) :
    d'.volume.chain start = d.volume.chain start := by
  rw [Volume.chain, Volume.chain, h.chainFrom_eq, h.clusters_eq, h.image]

/-- The bytes of a chain that was found. -/
theorem readChain_eq (h : d.ReadsAlike d') {cs : List Nat}
    (hcs : ∀ x ∈ cs, d.volume.inRange x = true) : d'.readChain cs = d.readChain cs := by
  have hread : cs.flatMap d'.readCluster = cs.flatMap d.readCluster := by
    rw [List.flatMap_def, List.flatMap_def,
      List.map_congr_left fun x hx => h.cluster x (hcs x hx)]
  rw [readChain, readChain, h.closed, hread]

theorem directory_eq (h : d.ReadsAlike d') (c : Nat) : d'.directory c = d.directory c := by
  rw [directory, directory, h.chain_eq]
  cases hchain : d.volume.chain c with
  | error e => rfl
  | ok cs =>
    simp only [bind, Except.bind]
    rw [h.readChain_eq (Volume.inRange_of_chain hchain)]

theorem entries_eq (h : d.ReadsAlike d') (c : Nat) : d'.entries c = d.entries c := by
  rw [entries, entries, h.directory_eq]

theorem lookup_eq (h : d.ReadsAlike d') (c : Nat) (name : String) :
    d'.lookup c name = d.lookup c name := by
  rw [lookup, lookup, h.entries_eq]

theorem resolveFrom_eq (h : d.ReadsAlike d') (done : List String) (c : Nat)
    (names : List String) : d'.resolveFrom done c names = d.resolveFrom done c names := by
  induction names generalizing done c with
  | nil => rfl
  | cons name names ih =>
    have htarget : ∀ e, d'.target e = d.target e := fun e => by rw [target, target, h.geometry]
    simp only [resolveFrom, h.lookup_eq, h.image, htarget, ih]

theorem resolve_eq (h : d.ReadsAlike d') (names : List String) :
    d'.resolve names = d.resolve names := by
  rw [resolve, resolve, h.resolveFrom_eq, h.geometry]

theorem list_eq (h : d.ReadsAlike d') (path : String) : d'.list path = d.list path := by
  simp only [list, h.resolve_eq, h.entries_eq]

theorem stat_eq (h : d.ReadsAlike d') (path : String) : d'.stat path = d.stat path := by
  simp only [stat, h.resolve_eq, h.lookup_eq]

theorem bytesOf_eq (h : d.ReadsAlike d') (e : DirEntry) : d'.bytesOf e = d.bytesOf e := by
  rw [bytesOf, bytesOf, h.chain_eq]
  cases hchain : d.volume.chain e.cluster with
  | error e => rfl
  | ok cs =>
    simp only [Except.bind]
    rw [h.readChain_eq (Volume.inRange_of_chain hchain)]

theorem read_eq (h : d.ReadsAlike d') (path : String) : d'.read path = d.read path := by
  cases hstat : d.stat path with
  | error e =>
    rw [read, read, h.stat_eq, hstat]
    rfl
  | ok found =>
    cases found with
    | none =>
      rw [read, read, h.stat_eq, hstat, h.image]
      rfl
    | some e =>
      rw [read_of_stat ((h.stat_eq path).trans hstat), read_of_stat hstat, h.bytesOf_eq, h.image]

theorem walkFrom_eq (h : d.ReadsAlike d') (depth : Nat) (path : String) (done : List String)
    (c : Nat) : d'.walkFrom depth path done c = d.walkFrom depth path done c := by
  induction depth generalizing path done c with
  | zero => rfl
  | succ depth ih => simp only [walkFrom, h.entries_eq, h.resolveFrom_eq, ih]

theorem walk_eq (h : d.ReadsAlike d') (path : String) : d'.walk path = d.walk path := by
  simp only [walk, h.resolve_eq, h.walkFrom_eq]

end ReadsAlike

/-! ### The same directories and files -/

/-- Both disks have the same directories and files, and all of them can be read. -/
structure SameTree (d d' : Disk) : Prop where
  /-- Every directory has the same entries. -/
  directory : ∀ dir, d.HasDirectory dir → ∃ es, d.entries dir = .ok es ∧ d'.entries dir = .ok es
  /-- Every file has the same bytes, as many as its entry says. -/
  file : ∀ dir es e, d.HasDirectory dir → d.entries dir = .ok es → e ∈ es →
    e.isDirectory = false →
      ∃ bytes, bytes.length = e.size ∧ d.bytesOf e = .ok bytes ∧ d'.bytesOf e = .ok bytes
  /-- At every path there is the same. -/
  list : ∀ path, d'.list path = d.list path
  stat : ∀ path, d'.stat path = d.stat path
  read : ∀ path, d'.read path = d.read path
  walk : ∀ path, d'.walk path = d.walk path

/-- The bytes of a sector. -/
def sector (d : Disk) (number : Nat) : Bytes :=
  d.content.read (number * d.volume.geometry.bytesPerSector) d.volume.geometry.bytesPerSector

/-- The bytes of a copy of the table. -/
def tableCopy (d : Disk) (copy : Nat) : Bytes :=
  d.content.read (d.volume.geometry.tableOffset copy)
    (d.volume.geometry.tableSectors * d.volume.geometry.bytesPerSector)

/-- What closing a volume leaves in the image. -/
structure Saved (d : Disk) : Prop where
  closed : d.close.volume = { d.volume with closed := true }
  /-- Every copy of the table is the table in memory. -/
  copies : ∀ copy < d.volume.geometry.tableCount,
    d.close.tableCopy copy = d.volume.table.toBytes
  /-- Both sectors of FSInfo have the count of free clusters and the number of a cluster. -/
  info : ∀ number ∈ [1, 7],
    numberAt (d.close.sector number) 488 4 =
        Volume.countFree d.volume.table d.volume.clusters ∧
      2 ≤ numberAt (d.close.sector number) 492 4 ∧
      numberAt (d.close.sector number) 492 4 ≤ d.volume.clusters + 1
  /-- The image can be opened, to be changed or not, and is the volume that was closed. -/
  reopened : ∀ readOnly, ∃ v, Volume.ofContent d.volume.image d.close.content readOnly = .ok v ∧
    v.geometry = d.volume.geometry ∧ v.free = d.volume.free ∧ d.SameTree ⟨v, d.close.content⟩

variable {G : Catalog} {K : Owner → List Nat} {loose : List Nat}

/-- Where a disk holds a catalog its directories and files can be read, so they are the same on
every disk that reads alike. -/
theorem ReadsAlike.sameTree (halike : d.ReadsAlike d') (h : d.Holds G K loose)
    (hw : d.Writable) : d.SameTree d' := by
  refine ⟨fun dir hdir => ?_, fun dir es e hdir hentries he hkind => ?_, halike.list_eq,
    halike.stat_eq, halike.read_eq, halike.walk_eq⟩
  · obtain ⟨es, hentries, -⟩ := h.exists_entries hw hdir
    exact ⟨es, hentries, (halike.entries_eq dir).trans hentries⟩
  · obtain ⟨f, hf⟩ := h.exists_folder hw hdir
    obtain ⟨n, ⟨s, b⟩, hr, rfl⟩ := h.exists_record hw hf hentries he
    rw [Record.isDirectory_entry] at hkind
    cases b with
    | folder => cases hkind
    | file c bytes =>
      have hbytes := h.bytesOf_eq hw.1 hf hr
      exact ⟨bytes, rfl, hbytes, (halike.bytesOf_eq _).trans hbytes⟩

/-- A flush changes nothing that is read. -/
theorem Sound.readsAlike_flushed (h : d.Sound) (v : Volume) (himage : v.image = d.volume.image)
    (hgeometry : v.geometry = d.volume.geometry) (htable : v.table = d.volume.table)
    (hclosed : v.closed = d.volume.closed) :
    d.ReadsAlike ⟨v, flushed d.volume d.content⟩ := by
  have hread : ∀ d' : Disk, d'.volume.geometry = d.volume.geometry →
      d'.content = flushed d.volume d.content → ∀ x, d.volume.inRange x = true →
        d'.readCluster x = d.readCluster x :=
    fun _ hgeometry hcontent _ hx => h.readCluster_flushed hgeometry hcontent hx
  exact ⟨himage, hgeometry, htable, hclosed, hread _ hgeometry rfl⟩

theorem Holds.saved (h : d.Holds G K loose) (hw : d.Writable) (hopenable : d.Openable) :
    d.Saved := by
  have hs := h.sound
  have hclose := hw.close_eq
  have hfree : d.volume.free = Volume.countFree d.volume.table d.volume.clusters := by
    rw [ClusterTable.countFree_eq]
    exact h.free
  have hcount : Volume.countFree d.volume.table d.volume.clusters ≤ d.volume.clusters := by
    rw [Volume.countFree]
    exact List.countP_le_length.trans (List.length_range' ..).le
  obtain ⟨hlow, hhigh⟩ := Volume.inRange_iff.1 h.hint
  have hfew := hs.few
  simp only [Volume.last, ClusterTable.endOfChain] at hhigh hfew
  constructor
  · rw [hclose]
  · intro copy hcopy
    rw [hclose]
    exact hs.read_copy_flushed hcopy
  · intro number hnumber
    have hfour : d.volume.free < 0x100000000 ∧ d.volume.hint < 0x100000000 := by omega
    obtain ⟨hone, htwo⟩ := numberAt_fsInfo hs.sector hfour.1 hfour.2
    rw [hclose, sector, hs.read_fsInfo_flushed hnumber, hone, htwo]
    exact ⟨hfree, hlow, hhigh⟩
  · intro readOnly
    have hopen := hopenable.ofContent_flushed h readOnly
    have halike := hs.readsAlike_flushed { d.volume with hint := 2, readOnly, closed := false } rfl
      rfl rfl hw.1.symm
    rw [hclose]
    exact ⟨_, hopen, rfl, rfl, halike.sameTree h hw⟩

/-- Closing loses nothing, whatever calls changed a volume that was formatted: whether or not they
succeed, and even if a source was too short. -/
theorem Fresh.saved_after (h : d.Fresh) (calls : List Call) : (d.after calls).Saved := by
  obtain ⟨-, -, hholds⟩ := h.holds
  obtain ⟨hw, G, K, loose, hafter, -⟩ := h.after calls
  exact hafter.saved hw (h.openable.sameReserved hholds.sound (h.sameReserved_after calls))

/-- A directory and a file, written to a volume that was formatted. -/
theorem exists_saved_after_file : ∃ d : Disk, d.Fresh ∧
    (d.after [.makeDirectory "bin", .writeFile "bin/sh" (Content.ofBytes [1, 2, 3]) 3, .flush,
      .makeDirectory "etc"]).Saved := by
  obtain ⟨d, hfresh⟩ := exists_fresh
  exact ⟨d, hfresh, hfresh.saved_after _⟩

end Disk

end BootImage.Fat
