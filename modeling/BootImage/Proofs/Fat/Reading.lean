import BootImage.Fat.Tree
import BootImage.Proofs.Fat.Catalog

/-!
# Reading what a disk holds

On a disk that holds a catalog, everything that is looked up by name or by path is found in the
catalog, and no look-up fails for a reason other than that a name is missing or is not that of a
directory.

## Main definitions

* `Folder.find`: the record that answers to a name.
* `Catalog.descend`: the directory reached by names.
* `Disk.bytesOf`: the bytes of the file that an entry is for.

## Main results

* `Disk.Holds.entries_eq`, `Disk.Holds.lookup_eq`: the entries of a directory, and one of them.
* `Disk.Holds.resolveFrom_cases`: what following names gives.
* `Disk.Holds.bytesOf_eq`: the bytes of a file.
-/

namespace BootImage.Fat

/-! ### In the catalog -/

/-- The first record of a folder that answers to a name. -/
def Folder.find (f : Folder) (name : String) : Option (Nat × Record) :=
  f.records.find? fun x => Disk.answersTo (Text.fold name.toList) (x.2.entry x.1)

theorem Folder.mem_of_find {f : Folder} {name : String} {x : Nat × Record}
    (h : f.find name = some x) : x ∈ f.records :=
  List.mem_of_find?_eq_some h

theorem Record.isDirectory_entry (n : Nat) (r : Record) :
    (r.entry n).isDirectory = r.body.isFolder := by
  have hfolder : (directoryAttribute &&& directoryAttribute != 0) = true := by decide
  have hfile : (archiveAttribute &&& directoryAttribute != 0) = false := by decide
  rw [DirEntry.isDirectory, Record.entry]
  cases r.body with
  | folder => exact hfolder
  | file => exact hfile

theorem Body.eq_folder_of_isFolder {b : Body} (h : b.isFolder = true) : b = .folder b.first := by
  cases b with
  | folder => rfl
  | file => simp [Body.isFolder] at h

theorem Body.ne_folder_of_isFolder {b : Body} (h : b.isFolder = false) (c : Nat) :
    b ≠ .folder c := by
  rintro rfl
  simp [Body.isFolder] at h

/-- The directory reached from one by names. -/
def Catalog.descend (G : Catalog) : Nat → List String → Option Nat
  | c, [] => some c
  | c, name :: rest =>
    match (G c).bind (·.find name) with
    | some (_, r) => if r.body.isFolder then G.descend r.body.first rest else none
    | none => none

/-! ### The bytes of an entry -/

namespace Disk

/-- The bytes of the file that an entry is for. -/
def bytesOf (d : Disk) (e : DirEntry) : Except Error Bytes :=
  if e.cluster = 0 then .ok []
  else (d.volume.chain e.cluster).bind fun cs => (d.readChain cs).map (·.take e.size)

/-- Reading at a path gives the bytes of the entry that is found there, unless it is that of a
directory. -/
theorem read_of_stat {d : Disk} {path : String} {e : DirEntry} (h : d.stat path = .ok (some e)) :
    d.read path =
      if e.isDirectory then .error (.isDirectory d.volume.image (withoutLeadingSlashes path))
      else d.bytesOf e := by
  rw [read, h, bytesOf]
  simp only [bind, Except.bind]
  by_cases hdirectory : e.isDirectory = true
  · rw [if_pos hdirectory, if_pos hdirectory]
    rfl
  · rw [if_neg hdirectory, if_neg hdirectory]
    by_cases hcluster : e.cluster = 0
    · rw [if_pos hcluster, if_pos hcluster]
      rfl
    · rw [if_neg hcluster, if_neg hcluster]
      cases d.volume.chain e.cluster <;> rfl

end Disk

namespace Disk.Holds

variable {d : Disk} {G : Catalog} {K : Owner → List Nat} {loose : List Nat} {dir : Nat} {f : Folder}
  {o : Owner}

/-! ### Directories -/

theorem directory_eq (h : d.Holds G K loose) (hopen : d.volume.closed = false)
    (hf : G dir = some f) (ho : G.Starts d.volume.geometry.rootCluster o dir) :
    d.directory dir = .ok (K o, (K o).flatMap d.readCluster) := by
  have hchain := h.chain_of_starts hf ho
  have hread : d.readChain (K o) = .ok ((K o).flatMap d.readCluster) := by
    rw [readChain, if_neg]
    rw [hopen]
    simp
  rw [directory, Volume.chain_eq h.sound.few hchain]
  simp only [bind, Except.bind, hread]
  rfl

/-- The bytes of a directory are whole slots, and they hold its folder. -/
theorem stands_bytes (h : d.Holds G K loose) (hf : G dir = some f)
    (ho : G.Starts d.volume.geometry.rootCluster o dir) :
    slotSize ∣ ((K o).flatMap d.readCluster).length ∧
      slotsOf ((K o).flatMap d.readCluster) = d.slotsIn (K o) ∧
      f.Stands (slotsOf ((K o).flatMap d.readCluster)) := by
  have hrange : ∀ c ∈ K o, d.volume.inRange c = true := fun c hc => (h.owned_used hc).1
  have hslots := h.sound.slotsOf_readChain hrange
  refine ⟨?_, hslots, ?_⟩
  · rw [h.sound.length_readChain hrange]
    exact Dvd.dvd.mul_left h.sound.slots _
  · rw [hslots]
    exact h.stands o dir f ho hf

theorem entries_eq (h : d.Holds G K loose) (hopen : d.volume.closed = false) (hf : G dir = some f) :
    d.entries dir = .ok f.entries := by
  obtain ⟨o, ho, -, -⟩ := h.exists_owner hf
  obtain ⟨-, -, hstands⟩ := h.stands_bytes hf ho
  rw [entries, h.directory_eq hopen hf ho]
  exact congrArg Except.ok hstands.filter_parseFrom

theorem lookup_eq (h : d.Holds G K loose) (hopen : d.volume.closed = false) (hf : G dir = some f)
    (name : String) : d.lookup dir name = .ok ((f.find name).map fun x => x.2.entry x.1) := by
  rw [lookup, h.entries_eq hopen hf]
  refine congrArg Except.ok ?_
  rw [Folder.entries, List.find?_map, Folder.find]
  rfl

/-- The record of a directory leads to its cluster. -/
theorem target_eq (h : d.Holds G K loose) (hf : G dir = some f) {n : Nat} {r : Record}
    (hr : (n, r) ∈ f.records) (hfolder : r.body.isFolder = true) :
    d.target (r.entry n) = r.body.first ∧ ∃ g, G r.body.first = some g := by
  have hbody := h.body dir f n r hf hr
  rw [Body.eq_folder_of_isFolder hfolder] at hbody
  obtain ⟨hne, g, hg, -⟩ := hbody
  exact ⟨if_neg hne, g, hg⟩

/-! ### Paths -/

/-- Following names gives the directory that the catalog has there, or fails because a name is
missing or not that of a directory. -/
theorem resolveFrom_cases (h : d.Holds G K loose) (hopen : d.volume.closed = false)
    (names done : List String) (hf : G dir = some f) :
    (∃ c g, d.resolveFrom done dir names = .ok c ∧ G.descend dir names = some c ∧ G c = some g) ∨
      G.descend dir names = none ∧
        ((∃ path, d.resolveFrom done dir names = .error (.notFound d.volume.image path)) ∨
          ∃ path, d.resolveFrom done dir names = .error (.notDirectory d.volume.image path)) := by
  induction names generalizing dir f done with
  | nil => exact .inl ⟨dir, f, rfl, rfl, hf⟩
  | cons name names ih =>
    have hlookup := h.lookup_eq hopen hf name
    have hbind : (G dir).bind (·.find name) = f.find name := by rw [hf, Option.bind_some]
    rw [resolveFrom, hlookup, Catalog.descend, hbind]
    cases hfind : f.find name with
    | none => exact .inr ⟨rfl, .inl ⟨_, rfl⟩⟩
    | some x =>
      obtain ⟨n, r⟩ := x
      have hr := Folder.mem_of_find hfind
      have hkind := r.isDirectory_entry n
      by_cases hfolder : r.body.isFolder = true
      · obtain ⟨htarget, g, hg⟩ := h.target_eq hf hr hfolder
        have hstep := ih (done ++ [name]) hg
        simp only [Option.map_some, bind, Except.bind, hkind, hfolder, if_true, htarget]
        exact hstep
      · rw [Bool.not_eq_true] at hfolder
        simp only [Option.map_some, bind, Except.bind, hkind, hfolder]
        exact .inr ⟨rfl, .inr ⟨_, rfl⟩⟩

/-- Names lead to the directory that the catalog has there. -/
theorem resolve_eq (h : d.Holds G K loose) (hopen : d.volume.closed = false) {names : List String}
    {c : Nat} (hc : G.descend d.volume.geometry.rootCluster names = some c) :
    d.resolve names = .ok c := by
  obtain ⟨f, hf, -⟩ := h.root
  obtain ⟨c', _, hresolve, hc', -⟩ | ⟨hnone, -⟩ := h.resolveFrom_cases hopen names [] hf
  · cases hc.symm.trans hc'
    exact hresolve
  · rw [hc] at hnone
    cases hnone

/-- What names lead to is a directory of the catalog. -/
theorem exists_folder_of_resolve (h : d.Holds G K loose) (hopen : d.volume.closed = false)
    {names : List String} {c : Nat} (hresolve : d.resolve names = .ok c) : ∃ f, G c = some f := by
  obtain ⟨f₀, hf₀, -⟩ := h.root
  obtain ⟨c', f, hfound, -, hf⟩ | ⟨-, ⟨_, hmissing⟩ | ⟨_, hmissing⟩⟩ :=
    h.resolveFrom_cases hopen names [] hf₀
  · cases hfound.symm.trans hresolve
    exact ⟨f, hf⟩
  · cases hmissing.symm.trans hresolve
  · cases hmissing.symm.trans hresolve

/-! ### Files -/

/-- A file without bytes has no cluster, and the bytes of any other are read from its chain. -/
theorem readChain_file (h : d.Holds G K loose) (hopen : d.volume.closed = false)
    (hf : G dir = some f) {n c : Nat} {s : Spelling} {bytes : Bytes}
    (hr : (n, ⟨s, .file c bytes⟩) ∈ f.records) :
    c = 0 ∧ bytes = [] ∨ c ≠ 0 ∧ d.volume.chain c = .ok (K (some (dir, n))) ∧
      ∃ data, d.readChain (K (some (dir, n))) = .ok data ∧ data.take bytes.length = bytes := by
  obtain ⟨-, -, hbytes⟩ := h.body dir f n _ hf hr
  have hlinked : d.Linked c (K (some (dir, n))) := h.linked _ _ (.record hf hr)
  by_cases hc : c = 0
  · subst hc
    rw [hlinked.eq_nil, List.flatMap_nil, List.take_nil] at hbytes
    exact .inl ⟨rfl, hbytes.symm⟩
  · refine .inr ⟨hc, Volume.chain_eq h.sound.few (hlinked.hasChain hc), _, ?_, hbytes⟩
    rw [readChain, if_neg]
    rw [hopen]
    simp

/-- The bytes of a file are those that its record is for. -/
theorem bytesOf_eq (h : d.Holds G K loose) (hopen : d.volume.closed = false) (hf : G dir = some f)
    {n c : Nat} {s : Spelling} {bytes : Bytes} (hr : (n, ⟨s, .file c bytes⟩) ∈ f.records) :
    d.bytesOf (Record.entry n ⟨s, .file c bytes⟩) = .ok bytes := by
  have hcluster : (Record.entry n ⟨s, .file c bytes⟩).cluster = c := rfl
  rw [bytesOf, hcluster]
  obtain ⟨rfl, rfl⟩ | ⟨hne, hchain, data, hdata, htake⟩ := h.readChain_file hopen hf hr
  · rfl
  · rw [if_neg hne, hchain, Except.bind, hdata]
    exact congrArg Except.ok htake

end Disk.Holds

end BootImage.Fat
