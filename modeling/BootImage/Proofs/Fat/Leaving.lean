import BootImage.Proofs.Fat.Capacity
import BootImage.Proofs.Fat.Closing

/-!
# The image that a volume leaves

A volume is opened, changed by calls, and closed. While it is open it is enough to know that the
disk holds a catalog in which no cluster is lost, and that its image can be opened again. Every call
keeps this, also one that fails, and it is all that is needed for the image to be whole when the
volume is closed at any point.

Which image that is depends on the calls that succeeded, and on nothing else. So a run that is
stopped by a failure leaves the image of a shorter run, all of whose calls succeed.

## Main definitions

* `Disk.Live`: a volume that is open for changes.
* `Disk.Whole`: what is stored in an image agrees.

## Main results

* `Disk.Live.on`: a volume after a call, whether or not it fails.
* `Disk.Live.exists_makeDirectory`: a path that is not made is a shorter one that is made.
* `Disk.Live.exists_whole`: the image of a volume that was closed.
-/

namespace BootImage.Fat.Disk

variable {d d' : Disk} {content : Content}

/-! ### Volumes that are open for changes -/

/-- A volume that is open for changes. No cluster is lost, and the image can be opened again once
the table is written back. -/
structure Live (d : Disk) : Prop where
  holds : ∃ G K, d.Holds G K []
  writable : d.Writable
  openable : d.Openable

namespace Live

theorem exactChecks (h : d.Live) : d.ExactChecks := by
  obtain ⟨G, K, hholds⟩ := h.holds
  exact hholds.exactChecks h.writable

/-- A call keeps a volume open for changes, also if it fails. -/
theorem on (h : d.Live) {call : Call} (hsupplied : call.Supplied) : (call.on d).2.Live := by
  obtain ⟨G, K, hholds⟩ := h.holds
  obtain ⟨hwritable, hsame, G', K', loose, hafter, hloose⟩ := hholds.on h.writable call
  rw [hloose hsupplied] at hafter
  exact ⟨⟨G', K', hafter⟩, hwritable, h.openable.sameReserved hholds.sound hsame⟩

/-- A call leaves the path of the image as it is. -/
theorem image_on (h : d.Live) (call : Call) : (call.on d).2.volume.image = d.volume.image := by
  obtain ⟨G, K, hholds⟩ := h.holds
  cases call with
  | makeDirectory path =>
    obtain ⟨result, d', G', K', found, hrun, -, -, -, halike⟩ :=
      Edit.makeDirectory_cases hholds h.writable.1 h.writable.2 path
    rw [Call.on_makeDirectory hrun]
    exact halike.image
  | writeFile path source size =>
    obtain ⟨result, d', hrun, hwrites⟩ :=
      Edit.writeFile_on hholds h.writable.1 h.writable.2 path source size
    rw [Call.on, Call.edit, hrun]
    cases hwrites with
    | refused => rfl
    | fresh _ _ _ _ hstores => exact (hstores.holds hholds).1.image
    | replaced _ _ _ _ _ _ hholds₁ halike₁ hstores =>
      exact (halike₁.trans (hstores.holds hholds₁).1).image
  | flush =>
    rw [Call.on_flush (hholds.flush h.writable.1 h.writable.2).1]

theorem extend (h : d.Live) (hcontent : d.content.Extends content) :
    Disk.Live ⟨d.volume, content⟩ := by
  obtain ⟨G, K, hholds⟩ := h.holds
  exact ⟨⟨G, K, hholds.extend hcontent⟩, h.writable, h.openable.extend hholds.sound hcontent⟩

end Live

theorem Fresh.live (h : d.Fresh) : d.Live := by
  obtain ⟨hopen, hwritable, hholds⟩ := h.holds
  exact ⟨⟨_, _, hholds⟩, ⟨hopen, hwritable⟩, h.openable⟩

/-! ### Paths that are not made -/

/-- A path that is not made is made up to some name, and what is left is what making the names
before that one leaves. With this name it fails as the whole path does. -/
theorem Live.exists_makeDirectory (h : d.Live) {path : String} {e : Error}
    (hfail : (Call.makeDirectory path).on d = (.error e, d')) :
    ∃ before name after, splitPath path = before ++ name :: after ∧
      d.Does [.makeDirectory (pathText before)] d' ∧
      (Call.makeDirectory (pathText (before ++ [name]))).on d = (.error e, d') := by
  obtain ⟨hopen, hwritable⟩ := h.writable
  cases hrun : (Edit.makeDirectory path).on d with
  | mk result d₁ =>
    rw [Call.on_makeDirectory hrun] at hfail
    obtain ⟨hresult, rfl⟩ := Prod.mk.inj hfail
    cases result with
    | ok c => cases hresult
    | error e' =>
      obtain rfl : e' = e := Except.error.inj hresult
      obtain ⟨before, name, after, dir, hpath, hmade, hwhy⟩ :=
        h.exactChecks.stopped path e' _ hrun
      have hnames : ∀ x ∈ before ++ [name], IsPathName x := by
        intro x hx
        have hmem : x ∈ splitPath path := by
          rw [hpath, List.append_cons]
          exact List.mem_append_left _ hx
        exact isPathName_of_mem hmem
      have hdoes := does_singleton.2 (Call.on_makeDirectory hmade)
      rw [Edit.makeDirectory_eq hopen hwritable,
        splitPath_pathText fun x hx => hnames x (List.mem_append_left _ hx)] at hmade
      have hnext : (Edit.makeDirectory (pathText (before ++ [name]))).on d = (.error e', d₁) := by
        rw [Edit.makeDirectory_eq hopen hwritable, splitPath_pathText hnames, Edit.makeFrom_append,
          Edit.on_bind_ok _ hmade]
        rcases hwhy with ⟨x, hlookup, hkind, rfl⟩ | ⟨hlookup, hchild⟩
        · exact Edit.makeFrom_blocked hlookup hkind
        · rw [Edit.makeFrom_create hlookup]
          exact Edit.on_bind_error _ hchild
      exact ⟨before, name, after, hpath, hdoes, Call.on_makeDirectory hnext⟩

/-- A file that was stored is not as long as the image. -/
theorem Stores.size_lt {G : Catalog} {loose : List Nat} {dir : Nat} {f : Folder}
    {name path : String} {source : Content}
    (h : d.Stores G loose dir f name path source source.size (.ok ()) d') (hf : G dir = some f)
    (hcopies : 0 < d.volume.geometry.tableCount) : source.size < d.content.size := by
  have hsupplied : (Call.writeFile path source source.size).Supplied := by
    rw [Call.supplied_iff]
    omega
  obtain ⟨-, halike, K', s, n, c, f', -, hadds, hholds⟩ := h.of_supplied hsupplied
  have hdir := Catalog.withFolder_of_some dir (d.upFrom dir) f'
    (b := .file c (source.read 0 (source.size : Int).toNat)) (by simp) hf
  have hlt := hholds.length_bytes_lt (by rwa [halike.geometry]) (hdir.trans (if_pos rfl))
    (hadds.mem_iff.2 (.inl rfl))
  rw [Content.length_read, halike.below.1] at hlt
  omega

/-- A file that was written is not as long as the image. -/
theorem Live.size_lt (h : d.Live) {path : String} {source : Content}
    (hwrite : (Call.writeFile path source source.size).on d = (.ok (), d')) :
    source.size < d.content.size := by
  obtain ⟨G, K, hholds⟩ := h.holds
  obtain ⟨result, d₁, hrun, hwrites⟩ :=
    Edit.writeFile_on hholds h.writable.1 h.writable.2 path source source.size
  cases hrun.symm.trans hwrite
  cases hwrites with
  | fresh _ _ hf _ hstores => exact hstores.size_lt hf h.openable.copies
  | replaced _ _ _ _ _ _ _ halike hstores =>
    have hlt := hstores.size_lt (Catalog.replace_self ..) (by
      rw [halike.geometry]
      exact h.openable.copies)
    rwa [halike.below.1] at hlt

/-! ### Images -/

/-- What is stored in an image agrees: the copies of the table are one table, both sectors of FSInfo
have the count of its free clusters, and each cluster in use is on one chain. -/
structure Whole (d : Disk) : Prop where
  copies : ∀ copy < d.volume.geometry.tableCount, d.tableCopy copy = d.volume.table.toBytes
  info : ∀ number ∈ [1, 7], numberAt (d.sector number) 488 4 =
    Volume.countFree d.volume.table d.volume.clusters
  owned : d.Owned

/-- An image can be opened to be changed or not, and is read alike. -/
theorem exists_ofContent {image : String} {v : Volume}
    (h : Volume.ofContent image content false = .ok v) (readOnly : Bool) :
    ∃ v', Volume.ofContent image content readOnly = .ok v' ∧
      Disk.ReadsAlike ⟨v, content⟩ ⟨v', content⟩ := by
  rw [Volume.ofContent] at h ⊢
  cases hboot : Geometry.ofBootSector (content.read 0 512) image with
  | error e =>
    rw [hboot] at h
    cases h
  | ok g =>
    rw [hboot] at h
    simp only [bind, Except.bind] at h ⊢
    split at h
    · cases h
    · rename_i hheld
      rw [if_neg hheld]
      split at h
      · rename_i hentries
        cases h
        rw [if_pos hentries]
        exact ⟨_, rfl, rfl, rfl, rfl, rfl, fun _ _ => rfl⟩
      · cases h

theorem ReadsAlike.hasDirectory (h : d.ReadsAlike d') {dir : Nat} (hdir : d.HasDirectory dir) :
    d'.HasDirectory dir := by
  induction hdir with
  | root =>
    rw [← h.geometry]
    exact .root
  | entry _ hentries he hkind ih => exact .entry ih ((h.entries_eq _).trans hentries) he hkind

/-- Whatever reads like the same volume has the same directories and files. -/
theorem Live.sameTree {d₁ d₂ : Disk} (h : d.Live) (h₁ : d.ReadsAlike d₁) (h₂ : d.ReadsAlike d₂) :
    d₁.SameTree d₂ := by
  obtain ⟨G, K, hholds⟩ := h.holds
  have hsame := h₂.sameTree hholds h.writable
  refine ⟨fun dir hdir => ?_, fun dir es e hdir hentries he hkind => ?_, fun path => ?_,
    fun path => ?_, fun path => ?_, fun path => ?_⟩
  · obtain ⟨es, hes, hes₂⟩ := hsame.directory dir (h₁.symm.hasDirectory hdir)
    exact ⟨es, (h₁.entries_eq dir).trans hes, hes₂⟩
  · rw [h₁.entries_eq] at hentries
    obtain ⟨bytes, hlen, hbytes, hbytes₂⟩ :=
      hsame.file dir es e (h₁.symm.hasDirectory hdir) hentries he hkind
    exact ⟨bytes, hlen, (h₁.bytesOf_eq e).trans hbytes, hbytes₂⟩
  · rw [h₂.list_eq, h₁.list_eq]
  · rw [h₂.stat_eq, h₁.stat_eq]
  · rw [h₂.read_eq, h₁.read_eq]
  · rw [h₂.walk_eq, h₁.walk_eq]

namespace Sound

theorem readsAlike_extend (h : d.Sound) (hcontent : d.content.Extends content) :
    d.ReadsAlike ⟨d.volume, content⟩ :=
  ⟨rfl, rfl, rfl, rfl, fun _ hx => hcontent.read_eq (h.offset_le hx)⟩

theorem tableCopy_extend (h : d.Sound) (hcontent : d.content.Extends content) {copy : Nat}
    (hcopy : copy < d.volume.geometry.tableCount) :
    Disk.tableCopy ⟨d.volume, content⟩ copy = d.tableCopy copy := by
  have hroom := h.room
  have hplace := dataPlace_eq d.volume.geometry
  have hcopies := Nat.mul_le_mul_right
    (d.volume.geometry.tableSectors * d.volume.geometry.bytesPerSector) (Nat.succ_le_of_lt hcopy)
  have hfit : d.volume.geometry.tableOffset copy +
      d.volume.geometry.tableSectors * d.volume.geometry.bytesPerSector ≤ d.content.size := by
    rw [tableOffset_eq]
    rw [Nat.succ_mul] at hcopies
    omega
  exact hcontent.read_eq hfit

theorem sector_extend (h : d.Sound) (hcontent : d.content.Extends content) {number : Nat}
    (hnumber : number ∈ [1, 7]) :
    Disk.sector ⟨d.volume, content⟩ number = d.sector number := by
  have hroom := h.room
  have hplace := dataPlace_eq d.volume.geometry
  have hreserved := Nat.mul_le_mul_right d.volume.geometry.bytesPerSector h.reserved
  have hsector : number = 1 ∨ number = 7 := by simpa using hnumber
  have hfit : number * d.volume.geometry.bytesPerSector + d.volume.geometry.bytesPerSector ≤
      d.content.size := by
    rcases hsector with rfl | rfl <;> omega
  exact hcontent.read_eq hfit

end Sound

/-- The image of a volume that was closed is whole, and what is read of it is what was read of the
volume; also if something was appended to it. -/
theorem Live.exists_whole (h : d.Live)
    (hcontent : (flushed d.volume d.content).Extends content) :
    (∀ readOnly, ∃ v, Volume.ofContent d.volume.image content readOnly = .ok v ∧
      d.ReadsAlike ⟨v, content⟩) ∧
    ∃ v, Volume.ofContent d.volume.image content false = .ok v ∧ Whole ⟨v, content⟩ := by
  obtain ⟨G, K, hholds⟩ := h.holds
  have hs := hholds.sound
  have hsaved := hholds.saved h.writable h.openable
  have hreopen : ∀ readOnly, ∃ v, Volume.ofContent d.volume.image content readOnly = .ok v ∧
      v = { d.volume with hint := 2, readOnly, closed := false } ∧
      Disk.Holds ⟨v, flushed d.volume d.content⟩ G K [] := by
    intro readOnly
    obtain ⟨v, hv, himage, -, -, -, hholds', hopenable⟩ := h.openable.reopen hholds readOnly
    have hsame := hopenable.ofContent_extends hholds'.sound hcontent readOnly
    rw [himage, hv] at hsame
    exact ⟨v, hsame, Except.ok.inj (hv.symm.trans (h.openable.ofContent_flushed hholds readOnly)),
      hholds'⟩
  refine ⟨fun readOnly => ?_, ?_⟩
  · obtain ⟨v, hv, rfl, hholds'⟩ := hreopen readOnly
    have halike := hs.readsAlike_flushed { d.volume with hint := 2, readOnly, closed := false } rfl
      rfl rfl h.writable.1.symm
    exact ⟨_, hv, halike.trans (hholds'.sound.readsAlike_extend hcontent)⟩
  · obtain ⟨v, hv, rfl, hholds'⟩ := hreopen false
    have hwritable : Disk.Writable
        ⟨{ d.volume with hint := 2, readOnly := false, closed := false }, content⟩ := ⟨rfl, rfl⟩
    refine ⟨_, hv, fun copy hcopy => ?_, fun number hnumber => ?_,
      (hholds'.extend hcontent).owned hwritable⟩
    · rw [hholds'.sound.tableCopy_extend hcontent hcopy]
      exact hs.read_copy_flushed hcopy
    · have hinfo := (hsaved.info number hnumber).1
      rw [h.writable.close_eq] at hinfo
      rw [hholds'.sound.sector_extend hcontent hnumber]
      exact hinfo

end BootImage.Fat.Disk
