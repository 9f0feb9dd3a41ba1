import BootImage.Proofs.Fat.Capacity
import BootImage.Proofs.Fat.FileTree
import BootImage.Proofs.Fat.Naming

/-!
# Filling the root directory

As long as there are files alone in the root directory, a list says what a volume holds: the names
of each file, and its bytes. Where they are stored is left out. A file that is written there takes
the place of the one that answers to its name, and its own short name is made as those of the others
allow. It is written if a cluster is free for each of its bytes and for each slot of its entry,
which is more than it takes. So what any number of small files come to is told from the list.

## Main definitions

* `ListedFile`, `Listing`: files with their names and their bytes.
* `Listing.fill?`: what a list of files comes to when more files are written.
* `Folder.HasFiles`: a folder holds the files of a list and nothing else.
* `Disk.HasFiles`: the root directory does, and so many clusters are free.

## Main results

* `Disk.HasFiles.exists_write`: a small file is written to the root directory.
* `Disk.HasFiles.exists_fill`: any number of them are.
* `Disk.HasFiles.exists_entries`: each of them has an entry.
-/

namespace BootImage.Fat

/-! ### Lists of files -/

/-- A file of a directory, with the name that is read of it, its short name and its bytes. -/
structure ListedFile where
  name : String
  short : Bytes
  bytes : Bytes
  deriving DecidableEq

/-- Files of a directory, in no order. -/
abbrev Listing := List ListedFile

/-- A file answers to a name. -/
def ListedFile.answersTo (x : ListedFile) (name : String) : Bool :=
  Text.fold x.name.toList == key name || Text.fold (shortDisplay x.short 0).toList == key name

namespace Listing

/-- The short names of files. -/
def taken (files : Listing) (short : Bytes) : Bool :=
  files.any (·.short == short)

/-- The files that do not answer to a name. -/
def without (files : Listing) (name : String) : Listing :=
  files.filter (!·.answersTo name)

/-- The files after one more was written, in the place of the one that answers to its name. This is
not told if several do, and only for names of ASCII. -/
def write? (files : Listing) (path : String) (bytes : Bytes) : Option Listing :=
  match splitPath path with
  | [name] =>
    if (files.filter (·.answersTo name)).length ≤ 1 ∧ name.toList.all fun c => c.toNat < 0x80 then
      match spellingOf name (files.without name).taken with
      | .ok s => some (⟨name, s.short, bytes⟩ :: files.without name)
      | .error _ => none
    else none
  | _ => none

/-- The files after some more were written, one after the other. -/
def fill? : Listing → List (String × Bytes) → Option Listing
  | files, [] => some files
  | files, (path, bytes) :: more => (files.write? path bytes).bind (fill? · more)

theorem write?_eq_some {files files' : Listing} {path : String} {bytes : Bytes}
    (h : files.write? path bytes = some files') : ∃ name s, splitPath path = [name] ∧
      (files.filter (·.answersTo name)).length ≤ 1 ∧ (∀ c ∈ name.toList, c.toNat < 0x80) ∧
      spellingOf name (files.without name).taken = .ok s ∧
      files' = ⟨name, s.short, bytes⟩ :: files.without name := by
  rw [write?] at h
  split at h
  · rename_i name hpath
    split at h
    · rename_i hchecks
      split at h
      · rename_i s hs
        exact ⟨name, s, hpath, hchecks.1, Text.ascii_of_all hchecks.2, hs, (Option.some.inj h).symm⟩
      · cases h
    · cases h
  · cases h

end Listing

/-- A record as a list of files has it. A directory is none of them. -/
def Record.listed (r : Record) : Option ListedFile :=
  match r.body with
  | .folder _ => none
  | .file _ bytes => some ⟨r.spelling.shown, r.spelling.short, bytes⟩

namespace Folder

variable {f f' f₁ : Folder} {files : Listing} {n : Nat} {r : Record} {name : String}

/-- A folder holds the files of a list and nothing else. -/
structure HasFiles (f : Folder) (files : Listing) : Prop where
  dots : f.dots = none
  records : (f.records.map fun x => x.2.listed).Perm (files.map some)

namespace HasFiles

theorem exists_listed (h : f.HasFiles files) {x : Nat × Record} (hx : x ∈ f.records) :
    ∃ c bytes, x.2.body = .file c bytes ∧
      ⟨x.2.spelling.shown, x.2.spelling.short, bytes⟩ ∈ files := by
  have hmem := h.records.mem_iff.1 (List.mem_map.2 ⟨x, hx, rfl⟩)
  obtain ⟨file, hfile, heq⟩ := List.mem_map.1 hmem
  rw [Record.listed] at heq
  split at heq
  · cases heq
  · rename_i c bytes hbody
    cases heq
    exact ⟨c, bytes, hbody, hfile⟩

theorem exists_record (h : f.HasFiles files) {x : ListedFile} (hx : x ∈ files) :
    ∃ y ∈ f.records, y.2.spelling.shown = x.name ∧ y.2.spelling.short = x.short := by
  have hmem := h.records.mem_iff.2 (List.mem_map.2 ⟨x, hx, rfl⟩)
  obtain ⟨y, hy, heq⟩ := List.mem_map.1 hmem
  obtain ⟨c, bytes, hbody, -⟩ := h.exists_listed hy
  rw [Record.listed, hbody] at heq
  cases heq
  exact ⟨y, hy, rfl, rfl⟩

theorem taken_eq (h : f.HasFiles files) : f.taken = files.taken := by
  funext short
  rw [Bool.eq_iff_iff, taken, h.dots, Listing.taken, List.any_eq_true, Option.isSome_none,
    Bool.false_and, Bool.false_or, List.contains_iff_mem, shorts, List.mem_map]
  constructor
  · rintro ⟨x, hx, rfl⟩
    obtain ⟨c, bytes, -, hfile⟩ := h.exists_listed hx
    exact ⟨_, hfile, beq_self_eq_true _⟩
  · rintro ⟨x, hx, hshort⟩
    obtain ⟨y, hy, -, hsame⟩ := h.exists_record hx
    exact ⟨y, hy, hsame.trans (beq_iff_eq.1 hshort)⟩

/-- One file more. -/
theorem add {s : Spelling} {c : Nat} {bytes : Bytes} (h : f.HasFiles files)
    (hadds : f.Adds n ⟨s, .file c bytes⟩ f') :
    f'.HasFiles (⟨s.shown, s.short, bytes⟩ :: files) := by
  obtain ⟨hdots, before, after, hf, hf'⟩ := hadds
  have hrecords := h.records
  rw [hf, List.map_append] at hrecords
  refine ⟨hdots.trans h.dots, ?_⟩
  rw [hf', List.map_append, List.map_cons, List.map_cons]
  exact List.perm_middle.trans (hrecords.cons _)

/-- The others are left when the only file that answers to a name is taken out. -/
theorem remove (h : f.HasFiles files) (hadds : f₁.Adds n r f)
    (hanswers : Disk.answersTo (key name) (r.entry n) = true)
    (hone : (files.filter (·.answersTo name)).length ≤ 1) :
    f₁.HasFiles (files.without name) := by
  have hr : (n, r) ∈ f.records := hadds.mem_iff.2 (.inl rfl)
  obtain ⟨c, bytes, hbody, hfile⟩ := h.exists_listed hr
  have hmem : ⟨r.spelling.shown, r.spelling.short, bytes⟩ ∈ files.filter (·.answersTo name) :=
    List.mem_filter.2 ⟨hfile, hanswers⟩
  obtain ⟨x, hfound⟩ := List.length_eq_one_iff.1 (hone.antisymm (List.length_pos_of_mem hmem))
  rw [hfound, List.mem_singleton] at hmem
  have hparts : (x :: files.without name).Perm files := by
    rw [← List.singleton_append, ← hfound]
    exact List.filter_append_perm ..
  have hlisted : r.listed = some x := by
    rw [← hmem, Record.listed, hbody]
  obtain ⟨hdots, before, after, hf₁, hf⟩ := hadds
  have hrecords := h.records.trans (hparts.symm.map some)
  rw [hf, List.map_append, List.map_cons, hlisted, List.map_cons] at hrecords
  refine ⟨hdots.symm.trans h.dots, ?_⟩
  rw [hf₁, List.map_append]
  exact (List.perm_middle.symm.trans hrecords).cons_inv

/-- No file answers to a name that finds nothing. -/
theorem without_eq (h : f.HasFiles files) (hfind : f.find name = none) :
    files.without name = files := by
  refine List.filter_eq_self.2 fun x hx => ?_
  obtain ⟨y, hy, hname, hshort⟩ := h.exists_record hx
  have hnot := List.find?_eq_none.1 hfind y hy
  rw [Bool.not_eq_true', Bool.eq_false_iff, ListedFile.answersTo, ← hname, ← hshort]
  exact hnot

theorem of_without (h : f.HasFiles files) (hwithout : f.Without name f₁)
    (hone : (files.filter (·.answersTo name)).length ≤ 1) :
    f₁.HasFiles (files.without name) := by
  rcases hwithout with ⟨hfind, rfl⟩ | ⟨n, r, hfind, hadds⟩
  · rwa [h.without_eq hfind]
  · have hanswers := List.find?_some hfind
    exact h.remove hadds hanswers hone

end HasFiles

end Folder

/-! ### Writing small files -/

namespace Disk

variable {d d' : Disk} {G : Catalog} {f : Folder} {files files' : Listing} {free dir : Nat}
  {path name : String} {bytes : Bytes} {s : Spelling}

/-- The root directory of a volume that can be changed holds the files of a list and nothing else,
and so many clusters are free. -/
structure HasFiles (d : Disk) (files : Listing) (free : Nat) : Prop where
  writable : d.Writable
  holds : ∃ G K f, d.Holds G K [] ∧ G d.volume.geometry.rootCluster = some f ∧ f.HasFiles files
  free : free ≤ d.volume.free

/-- There are no files on a new volume. -/
theorem Fresh.hasFiles (h : d.Fresh) : d.HasFiles [] (Error.minClusters - 1) := by
  obtain ⟨hopen, hwritable, hholds⟩ := h.holds
  exact ⟨⟨hopen, hwritable⟩, ⟨_, _, _, hholds, newCatalog_root d, rfl, .refl _⟩, h.free_ge⟩

theorem supplied_ofBytes (path : String) (bytes : Bytes) :
    (Call.writeFile path (Content.ofBytes bytes) bytes.length).Supplied := by
  rw [Call.supplied_iff, Content.size_ofBytes]
  omega

/-- A file that is stored is one more in the list. -/
theorem Stores.hasFiles
    (h : d.Stores G [] dir f name path (Content.ofBytes bytes) bytes.length (.ok ()) d')
    (hfiles : f.HasFiles files) (hs : spellingOf name files.taken = .ok s) :
    d.Alike d' ∧ ∃ G' K' f', d'.Holds G' K' [] ∧ G' dir = some f' ∧
      f'.HasFiles (⟨s.shown, s.short, bytes⟩ :: files) := by
  obtain ⟨-, halike, K', s', n, c, f', hs', hadds, hholds'⟩ :=
    h.of_supplied (supplied_ofBytes path bytes)
  rw [hfiles.taken_eq, hs] at hs'
  cases hs'
  have hbytes := Content.toBytes_ofBytes bytes
  rw [Content.toBytes, Content.size_ofBytes] at hbytes
  rw [Int.toNat_natCast, hbytes] at hadds hholds'
  exact ⟨halike, _, K', f', hholds', (if_neg (by simp)).trans (if_pos rfl), hfiles.add hadds⟩

/-- A file that is written to the root directory is in the list in the place of the one that answers
to its name. -/
theorem Writes.hasFiles (h : d.Writes G [] path (Content.ofBytes bytes) bytes.length (.ok ()) d')
    (hf : G d.volume.geometry.rootCluster = some f) (hfiles : f.HasFiles files)
    (hpath : splitPath path = [name])
    (hone : (files.filter (·.answersTo name)).length ≤ 1)
    (hs : spellingOf name (files.without name).taken = .ok s) :
    d.Alike d' ∧ ∃ G' K' f', d'.Holds G' K' [] ∧ G' d.volume.geometry.rootCluster = some f' ∧
      f'.HasFiles (⟨s.shown, s.short, bytes⟩ :: files.without name) := by
  have hname : (splitPath path).getLast? = some name := by rw [hpath]; rfl
  have hroot : G.descend d.volume.geometry.rootCluster (splitPath path).dropLast =
      some d.volume.geometry.rootCluster := by rw [hpath]; rfl
  cases h with
  | fresh hname' hdir hf' hfind hstores =>
    cases hname.symm.trans hname'
    cases hroot.symm.trans hdir
    cases hf.symm.trans hf'
    exact hstores.hasFiles (hfiles.of_without (.inl ⟨hfind, rfl⟩) hone) hs
  | replaced hname' hdir hf' hfind _ hadds _ halike hstores =>
    cases hname.symm.trans hname'
    cases hroot.symm.trans hdir
    cases hf.symm.trans hf'
    obtain ⟨halike', hafter⟩ :=
      hstores.hasFiles (hfiles.of_without (.inr ⟨_, _, hfind, hadds⟩) hone) hs
    exact ⟨halike.trans halike', hafter⟩

theorem Holds.free_lt {K : Owner → List Nat} {loose : List Nat} (h : d.Holds G K loose) :
    d.volume.free < ClusterTable.endOfChain := by
  have hfew := h.sound.few
  have hle := Finset.card_filter_le (Finset.Icc 2 d.volume.last)
    fun x => d.volume.table.link x = ClusterTable.free
  rw [Nat.card_Icc] at hle
  rw [h.free, ClusterTable.freeSet]
  omega

theorem clustersFor_le (hpos : 0 < d.volume.geometry.clusterSize) (size : Nat) :
    d.clustersFor size ≤ size := by
  have hle := Nat.le_mul_of_pos_left size hpos
  refine Nat.lt_succ_iff.1 (Nat.div_lt_of_lt_mul ?_)
  rw [Nat.mul_succ]
  omega

/-- An entry has at most 21 slots. -/
theorem length_longPart_le {taken : Bytes → Bool} (h : spellingOf name taken = .ok s) :
    s.longPart.length ≤ 20 := by
  have hwell := wellFormed_of_spellingOf h
  rw [Spelling.longPart]
  cases hlong : s.long with
  | none => exact Nat.zero_le _
  | some long =>
    obtain ⟨-, hfew, -⟩ := nameParts_facts (hwell.long long hlong)
    exact (length_longSlotsFrom ..).trans_le hfew

/-- A file is written to the root directory if clusters are free for its bytes and for the slots of
its entry. -/
theorem HasFiles.exists_write (h : d.HasFiles files free) (path : String) (bytes : Bytes)
    (left : Nat) (hwrite : files.write? path bytes = some files')
    (hroom : bytes.length + 21 + left ≤ free) :
    ∃ d', (Call.writeFile path (Content.ofBytes bytes) bytes.length).on d = (.ok (), d') ∧
      d.Alike d' ∧ d'.HasFiles files' left := by
  obtain ⟨hw, ⟨G, K, f, hholds, hf, hfiles⟩, hfree⟩ := h
  obtain ⟨name, s, hpath, hone, hascii, hs, rfl⟩ := Listing.write?_eq_some hwrite
  have hname : (splitPath path).getLast? = some name := by rw [hpath]; rfl
  have hresolve : d.resolve (splitPath path).dropLast = .ok d.volume.geometry.rootCluster := by
    rw [hpath]; rfl
  -- The check is passed, so the file is written, and it is known what that takes.
  obtain ⟨f₀, hf₀, hcounted⟩ := hholds.exists_counts hw hname hresolve hf fun x hx => by
    obtain ⟨c, bytes, hbody, -⟩ := hfiles.exists_listed (Folder.mem_of_find hx)
    rw [hbody]
    rfl
  obtain ⟨old, reclaimed, grow, hcounts, hgrow⟩ :=
    hcounted s ((hfiles.of_without hf₀ hone).taken_eq ▸ hs)
  have hslots := length_longPart_le hs
  have hclusters := d.clustersFor_le hholds.sound.pos bytes.length
  have hmax : (bytes.length : Int) ≤ Edit.maxFileSize := by
    have hfew := hholds.free_lt
    rw [ClusterTable.endOfChain] at hfew
    rw [Edit.maxFileSize]
    omega
  obtain ⟨d', hrun, hfree', -⟩ := hholds.writeFile_passed hw (supplied_ofBytes path bytes) hmax
    hcounts (by rw [Int.toNat_natCast]; omega)
  rw [Int.toNat_natCast] at hfree'
  obtain ⟨_, _, hrun', hwrites⟩ :=
    Edit.writeFile_on hholds hw.1 hw.2 path (Content.ofBytes bytes) bytes.length
  cases hrun.symm.trans hrun'
  obtain ⟨halike, hafter⟩ := hwrites.hasFiles hf hfiles hpath hone hs
  rw [← halike.geometry, shown_eq hs hascii] at hafter
  exact ⟨d', hrun, halike, halike.writable hw, hafter, by omega⟩

/-- Files are written to the root directory, one after the other, if clusters are free for all of
them. -/
theorem HasFiles.exists_fill (h : d.HasFiles files free) (more : List (String × Bytes))
    (left : Nat) (hfill : files.fill? more = some files')
    (hroom : (more.map fun x => x.2.length + 21).sum + left ≤ free) :
    ∃ d', d.Does (more.map fun x => .writeFile x.1 (Content.ofBytes x.2) x.2.length) d' ∧
      d.Alike d' ∧ d'.HasFiles files' left := by
  induction more generalizing d files free with
  | nil =>
    cases hfill
    exact ⟨d, rfl, .refl d, h.writable, h.holds, by simpa using hroom.trans h.free⟩
  | cons x more ih =>
    obtain ⟨path, bytes⟩ := x
    obtain ⟨files₁, hwrite, hmore⟩ := Option.bind_eq_some_iff.1 hfill
    rw [List.map_cons, List.sum_cons, Nat.add_assoc] at hroom
    obtain ⟨d₁, hcall, halike, hfiles⟩ := h.exists_write path bytes _ hwrite hroom
    obtain ⟨d', hdoes, halike', hfiles'⟩ := ih hfiles hmore le_rfl
    exact ⟨d', ⟨d₁, hcall, hdoes⟩, halike.trans halike', hfiles'⟩

/-- There is an entry for each file. -/
theorem HasFiles.exists_entries (h : d.HasFiles files free) :
    ∃ es, d.entries d.volume.geometry.rootCluster = .ok es ∧
      ∀ x ∈ files, ∃ e ∈ es, e.name = x.name ∧ e.short = x.short := by
  obtain ⟨hw, ⟨G, K, f, hholds, hf, hfiles⟩, -⟩ := h
  refine ⟨f.entries, hholds.entries_eq hw.1 hf, fun x hx => ?_⟩
  obtain ⟨y, hy, hname, hshort⟩ := hfiles.exists_record hx
  exact ⟨_, List.mem_map.2 ⟨y, hy, rfl⟩, hname, hshort⟩

end Disk

end BootImage.Fat
