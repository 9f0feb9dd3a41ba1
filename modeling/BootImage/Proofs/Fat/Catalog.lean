import BootImage.Proofs.Fat.Clusters
import Mathlib.Logic.Function.Basic

/-!
# What a disk holds

A disk holds a tree of directories and files, but what is stored is flat: directories are found by
their first cluster, and each names the first clusters of what it holds. A `Catalog` is this flat
picture, a folder for each cluster at which a directory starts. `Disk.Holds` ties it to a disk.

Every cluster in use has one owner. Owners are the root directory and the records, and a record is
told by its directory and the number of its first slot, so that no two records are one owner. While
a change is under way there are clusters that have been taken and belong to nobody yet; the
invariant lists them as loose, and each step of a change says what it does to that list. A finished
change leaves no loose clusters behind, unless it failed half way.

## Main definitions

* `Catalog`, `Owner`: the folders of a disk, and whom its clusters belong to.
* `Catalog.Has`, `Catalog.Reach`: the records of a catalog, and the directories found from the root.
* `Disk.Holds`: the invariant.
* `Disk.Parted`: the part of it that says whom the clusters belong to.

## Main results

* `Disk.Parted.give`, `Disk.Parted.take`: clusters that change hands.
* `Disk.Holds.chain_of_starts`, `Disk.Holds.not_starts_of_loose`: which chains have an owner.
* `Disk.Holds.of_agree`: a change that leaves every owned cluster alone keeps the catalog.
* `Disk.Holds.grow`: a loose cluster becomes the last one of a directory.
* `Disk.Holds.insert`: a record takes over loose clusters.
* `Disk.Holds.remove`: the clusters of a record become loose.
-/

namespace BootImage.Fat

/-- The folder at each cluster where a directory starts. -/
abbrev Catalog := Nat → Option Folder

/-- Whom a chain of clusters belongs to: the root directory, or the record that starts at a slot of
the directory at a cluster. -/
abbrev Owner := Option (Nat × Nat)

namespace Catalog

/-- The chain of an owner starts at a cluster, which is zero for a file without bytes. -/
inductive Starts (G : Catalog) (root : Nat) : Owner → Nat → Prop
  | root : Starts G root none root
  | record {dir n : Nat} {f : Folder} {r : Record} (hf : G dir = some f)
      (hr : (n, r) ∈ f.records) : Starts G root (some (dir, n)) r.body.first

/-- A directory is found from the root. -/
inductive Reach (G : Catalog) (root : Nat) : Nat → Prop
  | root : Reach G root root
  | child {dir n c : Nat} {f : Folder} {s : Spelling} (h : Reach G root dir)
      (hf : G dir = some f) (hr : (n, ⟨s, .folder c⟩) ∈ f.records) : Reach G root c

/-- A record stands at a slot of the directory at a cluster. -/
def Has (G : Catalog) (x : Nat × Nat × Record) : Prop :=
  ∃ f, G x.1 = some f ∧ x.2 ∈ f.records

theorem starts_iff {G : Catalog} {root : Nat} {o : Owner} {c : Nat} : G.Starts root o c ↔
    o = none ∧ c = root ∨ ∃ dir n r, G.Has (dir, n, r) ∧ o = some (dir, n) ∧ c = r.body.first := by
  constructor
  · rintro (_ | ⟨hf, hr⟩)
    · exact .inl ⟨rfl, rfl⟩
    · exact .inr ⟨_, _, _, ⟨_, hf, hr⟩, rfl, rfl⟩
  · rintro (⟨rfl, rfl⟩ | ⟨dir, n, r, ⟨f, hf, hr⟩, rfl, rfl⟩)
    · exact .root
    · exact .record hf hr

/-- What is found from the root is still found as long as the records of directories stay. -/
theorem Reach.mono {G G' : Catalog} {root c : Nat} (h : G.Reach root c)
    (hkeep : ∀ dir n s c, G.Has (dir, n, ⟨s, .folder c⟩) → G'.Has (dir, n, ⟨s, .folder c⟩)) :
    G'.Reach root c := by
  induction h with
  | root => exact .root
  | child _ hf hr ih =>
    obtain ⟨f', hf', hr'⟩ := hkeep _ _ _ _ ⟨_, hf, hr⟩
    exact .child ih hf' hr'

/-- The catalog with another folder in the place of one, and an empty one where the body of a new
record is a directory. -/
def withFolder (G : Catalog) (dir up : Nat) (f : Folder) (b : Body) : Catalog := fun c =>
  if b = .folder c then some ⟨some (c, up), []⟩ else if c = dir then some f else G c

/-- The catalog with another folder in the place of one. -/
def replace (G : Catalog) (dir : Nat) (f : Folder) : Catalog :=
  Function.update G dir (some f)

theorem replace_self (G : Catalog) (dir : Nat) (f : Folder) : G.replace dir f dir = some f :=
  Function.update_self ..

theorem replace_of_ne (G : Catalog) {dir c : Nat} (f : Folder) (h : c ≠ dir) :
    G.replace dir f c = G c :=
  Function.update_of_ne h ..

section Replace

variable {G : Catalog} {root dir n : Nat} {f f' : Folder} {r : Record} {o : Owner}

/-- What is in the catalog after a folder was replaced. -/
theorem replace_eq_some {c : Nat} {g : Folder} (hg : G.replace dir f c = some g) :
    c = dir ∧ g = f ∨ c ≠ dir ∧ G c = some g := by
  by_cases hc : c = dir
  · rw [hc, replace_self] at hg
    exact .inl ⟨hc, (Option.some.inj hg).symm⟩
  · rw [replace_of_ne G f hc] at hg
    exact .inr ⟨hc, hg⟩

theorem has_replace (hf' : G dir = some f') (hadds : f.Adds n r f')
    (hnew : ∀ r', (n, r') ∉ f.records) (x : Nat × Nat × Record) :
    (G.replace dir f).Has x ↔ G.Has x ∧ x ≠ (dir, n, r) := by
  obtain ⟨dir', y⟩ := x
  by_cases hdir : dir' = dir
  · subst hdir
    constructor
    · rintro ⟨g, hg, hy⟩
      rw [replace_self] at hg
      cases hg
      refine ⟨⟨f', hf', hadds.mem_iff.2 (.inr hy)⟩, ?_⟩
      rintro ⟨⟩
      exact hnew r hy
    · rintro ⟨⟨g, hg, hy⟩, hne⟩
      cases hf'.symm.trans hg
      refine ⟨f, replace_self .., (hadds.mem_iff.1 hy).resolve_left ?_⟩
      rintro rfl
      exact hne rfl
  · have hne : (dir', y) ≠ (dir, n, r) := fun heq => hdir (congrArg Prod.fst heq)
    have hsame : G.replace dir f dir' = G dir' := replace_of_ne G f hdir
    rw [Has, Has, hsame, and_iff_left hne]

theorem Starts.replace {c : Nat} (h : G.Starts root o c) (hf' : G dir = some f')
    (hadds : f.Adds n r f') (hne : o ≠ some (dir, n)) : (G.replace dir f).Starts root o c := by
  cases h with
  | root => exact .root
  | @record dir' m g r' hg hr =>
    by_cases heq : dir' = dir
    · subst heq
      cases hf'.symm.trans hg
      refine .record (replace_self ..) ((hadds.mem_iff.1 hr).resolve_left ?_)
      rintro ⟨⟩
      exact hne rfl
    · exact .record ((replace_of_ne _ _ heq).trans hg) hr

/-- The owners that are left when a record has gone out of a folder. -/
theorem starts_replace (hf' : G dir = some f') (hadds : f.Adds n r f')
    (hnew : ∀ r', (n, r') ∉ f.records) (root : Nat) (o : Owner) (c : Nat) :
    (G.replace dir f).Starts root o c ↔ G.Starts root o c ∧ o ≠ some (dir, n) := by
  refine ⟨fun h => ?_, fun h => h.1.replace hf' hadds h.2⟩
  rcases starts_iff.1 h with ⟨rfl, rfl⟩ | ⟨dir', m, r', hr, rfl, rfl⟩
  · exact ⟨.root, by simp⟩
  · obtain ⟨g, hg, hr'⟩ := ((has_replace hf' hadds hnew _).1 hr).1
    refine ⟨.record hg hr', ?_⟩
    rintro ⟨⟩
    obtain ⟨g', hg', hr'⟩ := hr
    cases (replace_self ..).symm.trans hg'
    exact hnew r' hr'

theorem exists_dots_replace (hf' : G dir = some f') (hadds : f.Adds n r f') {c : Nat} {g : Folder}
    (hg : G c = some g) : ∃ g', G.replace dir f c = some g' ∧ g'.dots = g.dots := by
  by_cases hc : c = dir
  · subst hc
    cases hf'.symm.trans hg
    exact ⟨f, replace_self .., hadds.1.symm⟩
  · exact ⟨g, (replace_of_ne G f hc).trans hg, rfl⟩

/-- The directories of a catalog are found from the root where a file has gone out of a folder. -/
theorem reach_replace (hf' : G dir = some f') (hadds : f.Adds n r f')
    (hnew : ∀ r', (n, r') ∉ f.records) (hfile : ∀ c, r.body ≠ .folder c) (root : Nat)
    (hreach : ∀ c g, G c = some g → G.Reach root c) {c : Nat} {g : Folder}
    (hg : G.replace dir f c = some g) : (G.replace dir f).Reach root c := by
  have hold : ∀ c g, G c = some g → (G.replace dir f).Reach root c := by
    intro c g hg
    refine (hreach c g hg).mono fun dir' m s e hr => (has_replace hf' hadds hnew _).2 ⟨hr, ?_⟩
    rintro ⟨⟩
    exact hfile e rfl
  rcases replace_eq_some hg with ⟨rfl, -⟩ | ⟨-, hg⟩
  · exact hold _ f' hf'
  · exact hold c g hg

/-- The number that a record is added at is that of no record before. -/
theorem not_starts_of_adds (hf : G dir = some f) (hadds : f.Adds n r f') {slots : List Bytes}
    (hs : f'.Stands slots) (root c : Nat) : ¬ G.Starts root (some (dir, n)) c := by
  rintro ⟨⟩
  rename_i g r' hg hr
  cases hf.symm.trans hg
  exact hadds.number_new hs r' hr

end Replace

section WithFolder

variable {G : Catalog} {dir up n : Nat} {f f' : Folder} {r : Record}

/-- What is in the catalog after a folder was replaced and another one may have been added. -/
theorem withFolder_eq_some {b : Body} {c : Nat} {g : Folder}
    (hg : G.withFolder dir up f b c = some g) :
    b = .folder c ∧ g = ⟨some (c, up), []⟩ ∨ c = dir ∧ g = f ∨ c ≠ dir ∧ G c = some g := by
  rw [withFolder] at hg
  split at hg
  · exact .inl ⟨‹_›, (Option.some.inj hg).symm⟩
  · split at hg
    · exact .inr (.inl ⟨‹_›, (Option.some.inj hg).symm⟩)
    · exact .inr (.inr ⟨‹_›, hg⟩)

/-- A folder that was in the catalog is still there, the replaced one in its new form. -/
theorem withFolder_of_some (dir up : Nat) (f : Folder) {b : Body}
    (hb : ∀ c, b = .folder c → G c = none) {c : Nat} {g : Folder} (hg : G c = some g) :
    G.withFolder dir up f b c = if c = dir then some f else some g := by
  rw [withFolder, if_neg fun heq => by simp [hb c heq] at hg, hg]

variable (hf : G dir = some f) (hb : ∀ c, r.body = .folder c → G c = none) (hadds : f.Adds n r f')
include hf hb hadds

theorem has_withFolder (up : Nat) (x : Nat × Nat × Record) :
    (G.withFolder dir up f' r.body).Has x ↔ G.Has x ∨ x = (dir, n, r) := by
  constructor
  · rintro ⟨g, hg, hx⟩
    rcases withFolder_eq_some hg with ⟨-, rfl⟩ | ⟨hdir, rfl⟩ | ⟨-, hg⟩
    · simp at hx
    · rcases hadds.mem_iff.1 hx with hx | hx
      · exact .inr (Prod.ext hdir hx)
      · exact .inl ⟨f, hdir ▸ hf, hx⟩
    · exact .inl ⟨g, hg, hx⟩
  · rintro (⟨g, hg, hx⟩ | rfl)
    · have hg' := withFolder_of_some dir up f' hb hg
      by_cases hdir : x.1 = dir
      · rw [if_pos hdir] at hg'
        rw [hdir] at hg
        cases hf.symm.trans hg
        exact ⟨f', hg', hadds.mem_iff.2 (.inr hx)⟩
      · rw [if_neg hdir] at hg'
        exact ⟨g, hg', hx⟩
    · have hg' := withFolder_of_some dir up f' hb hf
      rw [if_pos rfl] at hg'
      exact ⟨f', hg', hadds.mem_iff.2 (.inl rfl)⟩

/-- The owners there are when a folder has a record more. -/
theorem starts_withFolder (up root : Nat) (o : Owner) (c : Nat) :
    (G.withFolder dir up f' r.body).Starts root o c ↔
      G.Starts root o c ∨ o = some (dir, n) ∧ c = r.body.first := by
  have hhas := has_withFolder hf hb hadds up
  rw [starts_iff, starts_iff, or_assoc]
  refine or_congr_right ⟨?_, ?_⟩
  · rintro ⟨dir', m, r', h, rfl, rfl⟩
    rcases (hhas _).1 h with h | heq
    · exact .inl ⟨dir', m, r', h, rfl, rfl⟩
    · cases heq
      exact .inr ⟨rfl, rfl⟩
  · rintro (⟨dir', m, r', h, rfl, rfl⟩ | ⟨rfl, rfl⟩)
    · exact ⟨dir', m, r', (hhas _).2 (.inl h), rfl, rfl⟩
    · exact ⟨dir, n, r, (hhas _).2 (.inr rfl), rfl, rfl⟩

theorem exists_dots_withFolder (up : Nat) {c : Nat} {g : Folder} (hg : G c = some g) :
    ∃ g', G.withFolder dir up f' r.body c = some g' ∧ g'.dots = g.dots := by
  have hg' := withFolder_of_some dir up f' hb hg
  by_cases hc : c = dir
  · subst hc
    cases hf.symm.trans hg
    rw [if_pos rfl] at hg'
    exact ⟨f', hg', hadds.1⟩
  · rw [if_neg hc] at hg'
    exact ⟨g, hg', rfl⟩

/-- The directories of a catalog are found from the root where a folder has a record more. -/
theorem reach_withFolder (up root : Nat) (hreach : ∀ c g, G c = some g → G.Reach root c) {c : Nat}
    {g : Folder} (hg : G.withFolder dir up f' r.body c = some g) :
    (G.withFolder dir up f' r.body).Reach root c := by
  have hhas := has_withFolder hf hb hadds up
  have hold : ∀ c g, G c = some g → (G.withFolder dir up f' r.body).Reach root c := fun c g hg =>
    (hreach c g hg).mono fun _ _ _ _ hr => (hhas _).2 (.inl hr)
  rcases withFolder_eq_some hg with ⟨hbc, -⟩ | ⟨rfl, -⟩ | ⟨-, hg⟩
  · obtain ⟨g', hg', hr⟩ := (hhas (dir, n, r)).2 (.inr rfl)
    exact .child (s := r.spelling) (n := n) (hold dir f hf) hg' (hbc ▸ hr)
  · exact hold _ f hf
  · exact hold c g hg

end WithFolder

end Catalog

namespace Disk

/-- The clusters from `c` on are a chain. -/
def HasChain (d : Disk) (c : Nat) (cs : List Nat) : Prop :=
  d.volume.table.Chain d.volume.last c cs

/-- The clusters of an owner whose chain starts at `c`: none if there is no such cluster. -/
def Linked (d : Disk) (c : Nat) (cs : List Nat) : Prop :=
  if c = 0 then cs = [] else d.HasChain c cs

/-- The count of clusters that so many bytes fill. -/
def clustersFor (d : Disk) (bytes : Nat) : Nat :=
  (bytes + (d.volume.geometry.clusterSize - 1)) / d.volume.geometry.clusterSize

/-- The clusters of a record are what its body says. A directory is in the catalog, and its first
slots name its parent, where zero stands for the root. -/
def BodyAt (d : Disk) (G : Catalog) (up : Nat) (cs : List Nat) : Body → Prop
  | .folder c => c ≠ 0 ∧ ∃ f, G c = some f ∧ f.dots = some (c, up)
  | .file c bytes => (bytes = [] → c = 0) ∧ cs.length = d.clustersFor bytes.length ∧
      (cs.flatMap d.readCluster).take bytes.length = bytes

/-- The first cluster of a parent directory as its children have it. -/
def upFrom (d : Disk) (dir : Nat) : Nat :=
  if dir = d.volume.geometry.rootCluster then 0 else dir

/-- The disk holds the folders of a catalog. `K` has the clusters of every owner, and `loose` has
those in use that belong to none. -/
structure Holds (d : Disk) (G : Catalog) (K : Owner → List Nat) (loose : List Nat) : Prop where
  sound : d.Sound
  free : d.volume.free = (d.volume.table.freeSet d.volume.last).card
  hint : d.volume.inRange d.volume.hint = true
  root_ne : d.volume.geometry.rootCluster ≠ 0
  root : ∃ f, G d.volume.geometry.rootCluster = some f ∧ f.dots = none
  reach : ∀ c f, G c = some f → G.Reach d.volume.geometry.rootCluster c
  linked : ∀ o c, G.Starts d.volume.geometry.rootCluster o c → d.Linked c (K o)
  stands : ∀ o c f, G.Starts d.volume.geometry.rootCluster o c → G c = some f →
    f.Stands (d.slotsIn (K o))
  body : ∀ dir f n r, G dir = some f → (n, r) ∈ f.records →
    d.BodyAt G (d.upFrom dir) (K (some (dir, n))) r.body
  owner : ∀ o x, x ∈ K o → ∃ c, G.Starts d.volume.geometry.rootCluster o c
  unique : ∀ o o' x, x ∈ K o → x ∈ K o' → o = o'
  apart : ∀ o x, x ∈ K o → x ∉ loose
  covered : ∀ x, d.volume.inRange x = true → d.volume.table.link x ≠ ClusterTable.free →
    x ∈ loose ∨ ∃ o, x ∈ K o
  loose_nodup : loose.Nodup
  loose_used : ∀ x ∈ loose, d.volume.inRange x = true ∧ d.volume.table.link x ≠ ClusterTable.free

/-- Every cluster in use belongs to one owner or is loose, and not both. -/
structure Parted (d : Disk) (K : Owner → List Nat) (loose : List Nat) : Prop where
  unique : ∀ o o' x, x ∈ K o → x ∈ K o' → o = o'
  apart : ∀ o x, x ∈ K o → x ∉ loose
  covered : ∀ x, d.volume.inRange x = true → d.volume.table.link x ≠ ClusterTable.free →
    x ∈ loose ∨ ∃ o, x ∈ K o
  loose_nodup : loose.Nodup
  loose_used : ∀ x ∈ loose, d.volume.inRange x = true ∧ d.volume.table.link x ≠ ClusterTable.free

/-- Clusters can be taken over by a record: they hold the bytes of the file, or are the first
clusters of a directory that holds nothing. -/
def Ready (d : Disk) (G : Catalog) (up : Nat) (cs : List Nat) : Body → Prop
  | .folder c => c ≠ 0 ∧ G c = none ∧ Folder.Stands ⟨some (c, up), []⟩ (d.slotsIn cs)
  | .file c bytes => d.BodyAt G up cs (.file c bytes)

variable {d d' : Disk} {G : Catalog} {K : Owner → List Nat} {loose : List Nat}

/-! ### Chains and what is read from them -/

theorem HasChain.linked {c : Nat} {cs : List Nat} (h : d.HasChain c cs) : d.Linked c cs := by
  have hlow : 2 ≤ c := (ClusterTable.Chain.head_range h).1
  rw [Linked, if_neg (by omega)]
  exact h

theorem Linked.hasChain {c : Nat} {cs : List Nat} (h : d.Linked c cs) (hc : c ≠ 0) :
    d.HasChain c cs := by
  rwa [Linked, if_neg hc] at h

theorem Linked.eq_nil {cs : List Nat} (h : d.Linked 0 cs) : cs = [] := by
  rwa [Linked, if_pos rfl] at h

theorem Linked.inRange {c : Nat} {cs : List Nat} (h : d.Linked c cs) {x : Nat} (hx : x ∈ cs) :
    d.volume.inRange x = true ∧ d.volume.table.link x ≠ ClusterTable.free := by
  rw [Linked] at h
  split at h
  · rw [h] at hx
    simp at hx
  · exact ⟨Volume.inRange_iff.2 (ClusterTable.Chain.mem_range h hx),
      ClusterTable.Chain.link_ne_free h hx⟩

theorem Linked.nodup {c : Nat} {cs : List Nat} (hs : d.Sound) (h : d.Linked c cs) : cs.Nodup := by
  rw [Linked] at h
  split at h
  · rw [h]
    exact List.nodup_nil
  · exact ClusterTable.Chain.nodup hs.few h

/-- Chains stay while the entries of their clusters do. -/
theorem Linked.congr {c : Nat} {cs : List Nat} (h : d.Linked c cs)
    (hlast : d'.volume.last = d.volume.last)
    (hsame : ∀ x ∈ cs, d'.volume.table.link x = d.volume.table.link x) : d'.Linked c cs := by
  rw [Linked] at h ⊢
  split
  · rwa [if_pos ‹_›] at h
  · rw [if_neg ‹_›] at h
    rw [HasChain, hlast]
    exact ClusterTable.Chain.congr h hsame

/-- What a record is for stays while its clusters do. -/
theorem BodyAt.congr {up : Nat} {cs : List Nat} {b : Body} (h : d.BodyAt G up cs b)
    (hgeometry : d'.volume.geometry = d.volume.geometry)
    (hsame : ∀ x ∈ cs, d'.readCluster x = d.readCluster x) : d'.BodyAt G up cs b := by
  cases b with
  | folder => exact h
  | file c bytes =>
    obtain ⟨hempty, hlen, hbytes⟩ := h
    refine ⟨hempty, ?_, ?_⟩
    · rw [hlen, clustersFor, clustersFor, hgeometry]
    · rw [List.flatMap_congr hsame, hbytes]

/-- Clusters that can be taken over can still be after a change to other ones. -/
theorem Ready.congr {up : Nat} {cs : List Nat} {b : Body} (h : d.Ready G up cs b)
    (hgeometry : d'.volume.geometry = d.volume.geometry)
    (hsame : ∀ x ∈ cs, d'.readCluster x = d.readCluster x) : d'.Ready G up cs b := by
  cases b with
  | folder c =>
    obtain ⟨hne, hnone, hstands⟩ := h
    refine ⟨hne, hnone, ?_⟩
    rwa [slotsIn_congr hsame]
  | file c bytes =>
    have hbody : d.BodyAt G up cs (.file c bytes) := h
    exact hbody.congr hgeometry hsame

/-- Clusters that can be taken over are those of the body where it is entered. -/
theorem Ready.bodyAt {up : Nat} {cs : List Nat} {b : Body} (h : d.Ready G up cs b) (dir : Nat)
    (f : Folder) : d.BodyAt (G.withFolder dir up f b) up cs b := by
  cases b with
  | folder c => exact ⟨h.1, _, if_pos rfl, rfl⟩
  | file c bytes => exact h

/-! ### Clusters that change hands -/

section Parted

variable {o p : Owner} {cs : List Nat} {x : Nat}

theorem mem_update_append :
    x ∈ Function.update K o (K o ++ cs) p ↔ x ∈ K p ∨ p = o ∧ x ∈ cs := by
  by_cases heq : p = o
  · subst heq
    rw [Function.update_self, List.mem_append]
    simp
  · rw [Function.update_of_ne heq]
    simp [heq]

theorem mem_update_nil : x ∈ Function.update K o [] p ↔ x ∈ K p ∧ p ≠ o := by
  by_cases heq : p = o
  · subst heq
    rw [Function.update_self]
    simp
  · rw [Function.update_of_ne heq]
    simp [heq]

/-- An owner takes over loose clusters. -/
theorem Parted.give (h : d.Parted K (cs ++ loose)) (o : Owner) :
    d.Parted (Function.update K o (K o ++ cs)) loose := by
  have hnodup := List.nodup_append.1 h.loose_nodup
  have hcs : ∀ p, ∀ x ∈ K p, x ∉ cs := fun p x hx hmem =>
    h.apart p x hx (List.mem_append_left _ hmem)
  refine ⟨fun p q x hx hx' => ?_, fun p x hx hl => ?_, fun x hx hu => ?_, hnodup.2.1,
    fun x hx => h.loose_used x (List.mem_append_right _ hx)⟩
  · rcases mem_update_append.1 hx with hp | ⟨rfl, hnew⟩
    · rcases mem_update_append.1 hx' with hq | ⟨-, hnew⟩
      · exact h.unique p q x hp hq
      · exact absurd hnew (hcs p x hp)
    · rcases mem_update_append.1 hx' with hq | ⟨rfl, -⟩
      · exact absurd hnew (hcs q x hq)
      · rfl
  · rcases mem_update_append.1 hx with hp | ⟨-, hnew⟩
    · exact h.apart p x hp (List.mem_append_right _ hl)
    · exact hnodup.2.2 x hnew x hl rfl
  · rcases h.covered x hx hu with hl | ⟨p, hp⟩
    · rcases List.mem_append.1 hl with hl | hl
      · exact .inr ⟨o, mem_update_append.2 (.inr ⟨rfl, hl⟩)⟩
      · exact .inl hl
    · exact .inr ⟨p, mem_update_append.2 (.inl hp)⟩

/-- The clusters of an owner become loose. -/
theorem Parted.take (h : d.Parted K loose) (hnodup : (K o).Nodup) (hused : ∀ x ∈ K o,
      d.volume.inRange x = true ∧ d.volume.table.link x ≠ ClusterTable.free) :
    d.Parted (Function.update K o []) (K o ++ loose) := by
  refine ⟨fun p q x hx hx' => ?_, fun p x hx hl => ?_, fun x hx hu => ?_, ?_, fun x hx => ?_⟩
  · exact h.unique p q x (mem_update_nil.1 hx).1 (mem_update_nil.1 hx').1
  · obtain ⟨hp, hne⟩ := mem_update_nil.1 hx
    rcases List.mem_append.1 hl with hl | hl
    · exact hne (h.unique p o x hp hl)
    · exact h.apart p x hp hl
  · rcases h.covered x hx hu with hl | ⟨p, hp⟩
    · exact .inl (List.mem_append_right _ hl)
    · by_cases heq : p = o
      · exact .inl (List.mem_append_left _ (heq ▸ hp))
      · exact .inr ⟨p, mem_update_nil.2 ⟨hp, heq⟩⟩
  · refine List.nodup_append.2 ⟨hnodup, h.loose_nodup, ?_⟩
    rintro x hx y hy rfl
    exact h.apart o x hx hy
  · rcases List.mem_append.1 hx with hx | hx
    · exact hused x hx
    · exact h.loose_used x hx

/-- Which clusters belong to whom stays while the same ones are in use. -/
theorem Parted.congr (h : d.Parted K loose) (hlast : d'.volume.last = d.volume.last)
    (hused : ∀ x, d'.volume.table.link x ≠ ClusterTable.free ↔
      d.volume.table.link x ≠ ClusterTable.free) : d'.Parted K loose := by
  have hrange : ∀ x, d'.volume.inRange x = true ↔ d.volume.inRange x = true := fun x => by
    rw [Volume.inRange_iff, Volume.inRange_iff, hlast]
  exact ⟨h.unique, h.apart, fun x hx hu => h.covered x ((hrange x).1 hx) ((hused x).1 hu),
    h.loose_nodup, fun x hx => (h.loose_used x hx).imp (hrange x).2 (hused x).2⟩

end Parted

namespace Holds

theorem parted (h : d.Holds G K loose) : d.Parted K loose :=
  ⟨h.unique, h.apart, h.covered, h.loose_nodup, h.loose_used⟩

/-! ### Owners -/

/-- A directory has an owner whose clusters are its chain. -/
theorem exists_owner (h : d.Holds G K loose) {c : Nat} {f : Folder} (hf : G c = some f) :
    ∃ o, G.Starts d.volume.geometry.rootCluster o c ∧ d.HasChain c (K o) ∧
      f.Stands (d.slotsIn (K o)) := by
  have hstart : ∃ o, G.Starts d.volume.geometry.rootCluster o c ∧ c ≠ 0 := by
    cases h.reach c f hf with
    | root => exact ⟨none, .root, h.root_ne⟩
    | child _ hdir hr => exact ⟨_, .record hdir hr, (h.body _ _ _ _ hdir hr).1⟩
  obtain ⟨o, ho, hne⟩ := hstart
  exact ⟨o, ho, (h.linked o c ho).hasChain hne, h.stands o c f ho hf⟩

/-- An owner has one chain, and it starts at one cluster. -/
theorem starts_unique (h : d.Holds G K loose) {o : Owner} {c c' : Nat}
    (hc : G.Starts d.volume.geometry.rootCluster o c)
    (hc' : G.Starts d.volume.geometry.rootCluster o c') : c = c' := by
  cases hc with
  | root => cases hc'; rfl
  | record hf hr =>
    cases hc' with
    | record hf' hr' =>
      cases hf.symm.trans hf'
      obtain ⟨_, _, _, hstands⟩ := h.exists_owner hf
      rw [hstands.eq_of_number hr hr']

/-- Two owners whose chains start at one cluster are the same. -/
theorem owner_unique (h : d.Holds G K loose) {o o' : Owner} {c : Nat} (hne : c ≠ 0)
    (ho : G.Starts d.volume.geometry.rootCluster o c)
    (ho' : G.Starts d.volume.geometry.rootCluster o' c) : o = o' := by
  have hchain := (h.linked o c ho).hasChain hne
  have hchain' := (h.linked o' c ho').hasChain hne
  exact h.unique o o' c (ClusterTable.Chain.mem_head hchain) (ClusterTable.Chain.mem_head hchain')

/-- The clusters of the owner of a directory are its chain. -/
theorem chain_of_starts (h : d.Holds G K loose) {o : Owner} {c : Nat} {f : Folder}
    (hf : G c = some f) (ho : G.Starts d.volume.geometry.rootCluster o c) :
    d.HasChain c (K o) := by
  obtain ⟨_, _, hchain, _⟩ := h.exists_owner hf
  have hlow : 2 ≤ c := (ClusterTable.Chain.head_range hchain).1
  exact (h.linked o c ho).hasChain (by omega)

/-- What owns no chain has no clusters. -/
theorem eq_nil_of_not_starts (h : d.Holds G K loose) {o : Owner}
    (hnone : ∀ c, ¬ G.Starts d.volume.geometry.rootCluster o c) : K o = [] := by
  refine List.eq_nil_iff_forall_not_mem.2 fun x hx => ?_
  obtain ⟨c, hc⟩ := h.owner o x hx
  exact hnone c hc

/-- No owner has a chain from where loose clusters are linked up. -/
theorem not_starts_of_loose {cs : List Nat} (h : d.Holds G K (cs ++ loose)) {c : Nat} (hc : c ≠ 0)
    (hlinked : d.Linked c cs) (o : Owner) : ¬ G.Starts d.volume.geometry.rootCluster o c := by
  intro ho
  have hchain := (h.linked o c ho).hasChain hc
  have hloose := hlinked.hasChain hc
  exact h.apart o c (ClusterTable.Chain.mem_head hchain)
    (List.mem_append_left _ (ClusterTable.Chain.mem_head hloose))

theorem owned_used (h : d.Holds G K loose) {o : Owner} {x : Nat} (hx : x ∈ K o) :
    d.volume.inRange x = true ∧ d.volume.table.link x ≠ ClusterTable.free := by
  obtain ⟨c, hc⟩ := h.owner o x hx
  exact (h.linked o c hc).inRange hx

/-! ### Changes outside the catalog -/

/-- A change that leaves the clusters of every owner alone keeps the catalog. What it does to the
other clusters has to be told by the new list of loose ones. -/
theorem of_agree (h : d.Holds G K loose) {loose' : List Nat} (hsound : d'.Sound)
    (hgeometry : d'.volume.geometry = d.volume.geometry)
    (hfree : d'.volume.free = (d'.volume.table.freeSet d'.volume.last).card)
    (hhint : d'.volume.inRange d'.volume.hint = true)
    (hlink : ∀ o, ∀ x ∈ K o, d'.volume.table.link x = d.volume.table.link x)
    (hread : ∀ o, ∀ x ∈ K o, d'.readCluster x = d.readCluster x)
    (hapart : ∀ o, ∀ x ∈ K o, x ∉ loose')
    (hcovered : ∀ x, d'.volume.inRange x = true → d'.volume.table.link x ≠ ClusterTable.free →
      x ∈ loose' ∨ ∃ o, x ∈ K o)
    (hnodup : loose'.Nodup)
    (hused : ∀ x ∈ loose', d'.volume.inRange x = true ∧
      d'.volume.table.link x ≠ ClusterTable.free) : d'.Holds G K loose' := by
  have hlast : d'.volume.last = d.volume.last := by
    rw [Volume.last, Volume.clusters, hgeometry]
    rfl
  have hup : ∀ dir, d'.upFrom dir = d.upFrom dir := fun dir => by rw [upFrom, upFrom, hgeometry]
  refine
    { sound := hsound, free := hfree, hint := hhint, unique := h.unique, apart := hapart,
      covered := hcovered, loose_nodup := hnodup, loose_used := hused, root_ne := ?_, root := ?_,
      reach := ?_, linked := ?_, stands := ?_, body := ?_, owner := ?_ }
  · rw [hgeometry]
    exact h.root_ne
  · rw [hgeometry]
    exact h.root
  · rw [hgeometry]
    exact h.reach
  · rw [hgeometry]
    exact fun o c hc => (h.linked o c hc).congr hlast (hlink o)
  · rw [hgeometry]
    intro o c f hc hf
    rw [slotsIn_congr (hread o)]
    exact h.stands o c f hc hf
  · intro dir f n r hf hr
    rw [hup]
    exact (h.body dir f n r hf hr).congr hgeometry (hread _)
  · rw [hgeometry]
    exact h.owner

/-- Taking clusters makes them loose. -/
theorem allocate (h : d.Holds G K loose) {count : Nat} (hcount : count ≤ d.volume.free) :
    ∃ found t hint, d.volume.allocate count =
        .ok (found, { d.volume with table := t, free := d.volume.free - count, hint }) ∧
      found.length = count ∧ (∀ x ∉ found, t.link x = d.volume.table.link x) ∧
      (∀ x ∈ found, d.volume.table.link x = ClusterTable.free) ∧
      (∀ c rest, found = c :: rest → t.Chain d.volume.last c found) ∧
      ({ d with volume := { d.volume with table := t, free := d.volume.free - count, hint } } :
        Disk).Holds G K (found ++ loose) := by
  have hcard := h.free
  rw [Volume.last, ← ClusterTable.countFree_eq] at hcard
  obtain ⟨found, hint, heq, hlen, hnodup, hfound, hhint, -⟩ :=
    Volume.allocate_eq h.sound.clusters hcard h.hint hcount
  have hrange : ∀ x ∈ found, 2 ≤ x ∧ x ≤ d.volume.last := fun x hx =>
    (ClusterTable.mem_freeSet.1 (hfound x hx)).1
  have hwas : ∀ x ∈ found, d.volume.table.link x = ClusterTable.free := fun x hx =>
    (ClusterTable.mem_freeSet.1 (hfound x hx)).2
  have hlink : ∀ x ∉ found,
      (Volume.linkUp d.volume.table found).link x = d.volume.table.link x := fun x hx =>
    ClusterTable.link_linkUp_of_not_mem _ hx
  have hset := ClusterTable.freeSet_linkUp h.sound.entries h.sound.few hnodup hrange
  have howned : ∀ o, ∀ x ∈ K o, x ∉ found := fun o x hx hmem => (h.owned_used hx).2 (hwas x hmem)
  refine ⟨found, Volume.linkUp d.volume.table found, hint, heq, hlen, hlink, hwas, ?_, ?_⟩
  · rintro c rest rfl
    exact ClusterTable.chain_linkUp h.sound.entries h.sound.few hnodup hrange
  refine h.of_agree ?_ rfl ?_ hhint (fun o x hx => hlink x (howned o x hx)) (fun _ _ _ => rfl) ?_ ?_
    ?_ ?_
  · exact h.sound.withTable (ClusterTable.entries_size_linkUp ..) (ClusterTable.rest_linkUp ..) _ _
  · have hsub : found.toFinset ⊆ d.volume.table.freeSet d.volume.last := fun x hx =>
      hfound x (List.mem_toFinset.1 hx)
    exact (by rw [h.free, ← hlen, ← List.toFinset_card_of_nodup hnodup,
      ← Finset.card_sdiff_of_subset hsub, ← hset] : d.volume.free - count = _)
  · intro o x hx hmem
    rcases List.mem_append.1 hmem with hmem | hmem
    · exact howned o x hx hmem
    · exact h.apart o x hx hmem
  · intro x hx hused
    by_cases hmem : x ∈ found
    · exact .inl (List.mem_append_left _ hmem)
    · have hused' : d.volume.table.link x ≠ ClusterTable.free := hlink x hmem ▸ hused
      exact (h.covered x hx hused').imp_left (List.mem_append_right _)
  · refine List.nodup_append.2 ⟨hnodup, h.loose_nodup, ?_⟩
    rintro x hx y hy rfl
    exact (h.loose_used x hy).2 (hwas x hx)
  · intro x hx
    rcases List.mem_append.1 hx with hx | hx
    · refine ⟨Volume.inRange_iff.2 (hrange x hx), fun hfree => ?_⟩
      have : x ∈ (Volume.linkUp d.volume.table found).freeSet d.volume.last :=
        ClusterTable.mem_freeSet.2 ⟨hrange x hx, hfree⟩
      rw [hset, Finset.mem_sdiff, List.mem_toFinset] at this
      exact this.2 hx
    · obtain ⟨hin, hused⟩ := h.loose_used x hx
      refine ⟨hin, fun hfree => hused ?_⟩
      by_cases hmem : x ∈ found
      · exact hwas x hmem
      · rw [← hlink x hmem]
        exact hfree

/-- Giving back a loose chain makes its clusters free. -/
theorem release {c : Nat} {cs : List Nat} (h : d.Holds G K (cs ++ loose))
    (hc : d.HasChain c cs) : ∃ t, d.volume.release c =
        .ok { d.volume with table := t, free := d.volume.free + cs.length } ∧
      (∀ x ∉ cs, t.link x = d.volume.table.link x) ∧
      ({ d with volume := { d.volume with table := t, free := d.volume.free + cs.length } } :
        Disk).Holds G K loose := by
  have hnodup := List.nodup_append.1 h.loose_nodup
  have hlink : ∀ x ∉ cs, (Volume.freeAll d.volume.table cs).link x = d.volume.table.link x :=
    fun x hx => by rw [ClusterTable.link_freeAll, if_neg hx]
  have hset := ClusterTable.freeSet_freeAll (t := d.volume.table) fun x hx =>
    ClusterTable.Chain.mem_range hc hx
  have howned : ∀ o, ∀ x ∈ K o, x ∉ cs := fun o x hx hmem =>
    h.apart o x hx (List.mem_append_left _ hmem)
  refine ⟨Volume.freeAll d.volume.table cs, ?_, hlink, ?_⟩
  · rw [Volume.release, Volume.chain_eq h.sound.few hc]
    rfl
  refine h.of_agree ?_ rfl ?_ h.hint (fun o x hx => hlink x (howned o x hx)) (fun _ _ _ => rfl)
    (fun o x hx hmem => h.apart o x hx (List.mem_append_right _ hmem)) ?_ hnodup.2.1 ?_
  · exact h.sound.withTable (ClusterTable.entries_size_freeAll ..) (ClusterTable.rest_freeAll ..)
      _ _
  · have hdisjoint : Disjoint (d.volume.table.freeSet d.volume.last) cs.toFinset := by
      refine Finset.disjoint_left.2 fun x hx hmem => ?_
      exact ClusterTable.Chain.link_ne_free hc (List.mem_toFinset.1 hmem)
        (ClusterTable.mem_freeSet.1 hx).2
    exact (by rw [h.free, ← List.toFinset_card_of_nodup hnodup.1,
      ← Finset.card_union_of_disjoint hdisjoint, ← hset] : d.volume.free + cs.length = _)
  · intro x hx hused
    by_cases hmem : x ∈ cs
    · refine absurd ?_ hused
      exact (ClusterTable.link_freeAll ..).trans (if_pos hmem)
    · have hused' : d.volume.table.link x ≠ ClusterTable.free := hlink x hmem ▸ hused
      refine (h.covered x hx hused').imp_left fun hl => ?_
      exact (List.mem_append.1 hl).resolve_left hmem
  · intro x hx
    obtain ⟨hin, hused⟩ := h.loose_used x (List.mem_append_right _ hx)
    refine ⟨hin, fun hfree => hused ?_⟩
    rw [← hlink x fun hmem => hnodup.2.2 x hmem x hx rfl]
    exact hfree

/-- Writing to a loose cluster is seen by nobody. -/
theorem writeCluster (h : d.Holds G K loose) {x : Nat} (hx : x ∈ loose) {bs : Bytes}
    (hfit : bs.length ≤ d.volume.geometry.clusterSize) :
    (d.writeCluster x bs).Holds G K loose := by
  have hin := (h.loose_used x hx).1
  refine h.of_agree (h.sound.writeCluster hin hfit) rfl h.free h.hint (fun _ _ _ => rfl) ?_ h.apart
    h.covered h.loose_nodup h.loose_used
  intro o y hy
  rw [h.sound.readCluster_writeCluster (h.owned_used hy).1 hin hfit,
    if_neg (by rintro rfl; exact h.apart o _ hy hx)]

/-! ### Growing a directory -/

/-- A record whose chain is that of a directory is the record of that directory. -/
theorem body_eq_folder (h : d.Holds G K loose) {c dir n : Nat} {f g : Folder} {r : Record}
    (hf : G c = some f) (hg : G dir = some g) (hr : (n, r) ∈ g.records)
    (hfirst : r.body.first = c) : r.body = .folder c := by
  have hstart : G.Starts d.volume.geometry.rootCluster (some (dir, n)) c :=
    hfirst ▸ Catalog.Starts.record hg hr
  cases h.reach c f hf with
  | root =>
    have := h.owner_unique h.root_ne .root hstart
    simp at this
  | @child dir' n' _ f' s _ hf' hr' =>
    have hne : c ≠ 0 := (h.body _ _ _ _ hf' hr').1
    have hstart' : G.Starts d.volume.geometry.rootCluster (some (dir', n')) c := .record hf' hr'
    obtain ⟨rfl, rfl⟩ : dir' = dir ∧ n' = n := by
      simpa using h.owner_unique hne hstart' hstart
    cases hg.symm.trans hf'
    obtain ⟨_, _, _, hstands⟩ := h.exists_owner hg
    rw [hstands.eq_of_number hr hr']

/-- A loose cluster of zeros becomes the last one of a directory. -/
theorem grow {y z dir : Nat} {o : Owner} {f : Folder} (h : d.Holds G K (y :: loose))
    (ho : G.Starts d.volume.geometry.rootCluster o dir) (hf : G dir = some f)
    (hz : (K o).getLast? = some z) (hend : d.volume.table.link y = ClusterTable.endOfChain)
    (hzero : d.readCluster y = Bytes.zeros d.volume.geometry.clusterSize) :
    ({ d with volume := { d.volume with table := d.volume.table.set z y } } : Disk).Holds G
      (Function.update K o (K o ++ [y])) loose := by
  have hchain := h.chain_of_starts hf ho
  have hzmem : z ∈ K o := List.mem_of_getLast? hz
  obtain ⟨hzin, hzused⟩ := h.owned_used hzmem
  have hyrange := Volume.inRange_iff.1 (h.loose_used y (by simp)).1
  have hzrange := Volume.inRange_iff.1 hzin
  have hyz : y ≠ z := by
    rintro rfl
    exact h.apart o y hzmem (by simp)
  have hfew := h.sound.few
  have hself : (d.volume.table.set z y).link z = y := by
    refine ClusterTable.link_set_self _ (by have := h.sound.entries; omega) ?_
    simp only [ClusterTable.endOfChain] at hfew
    omega
  have hother : ∀ x, x ≠ z → (d.volume.table.set z y).link x = d.volume.table.link x :=
    fun x hx => ClusterTable.link_set_of_ne _ _ fun heq => hx heq.symm
  have hused : ∀ x, (d.volume.table.set z y).link x = ClusterTable.free ↔
      d.volume.table.link x = ClusterTable.free := by
    intro x
    by_cases hx : x = z
    · subst hx
      have hy : y ≠ ClusterTable.free := by simp only [ClusterTable.free]; omega
      rw [hself, iff_false_left hy]
      exact hzused
    · rw [hother x hx]
  have hupdate : ∀ p, p ≠ o → Function.update K o (K o ++ [y]) p = K p :=
    fun p hne => Function.update_of_ne hne _ _
  have hgiven : d.Parted (Function.update K o (K o ++ [y])) loose := Parted.give h.parted o
  have hparted : Parted { d with volume := { d.volume with table := d.volume.table.set z y } }
      (Function.update K o (K o ++ [y])) loose := hgiven.congr rfl fun x => not_congr (hused x)
  refine
    { sound := h.sound.withTable (ClusterTable.entries_size_set ..) rfl _ _, free := ?_,
      hint := h.hint, root_ne := h.root_ne, root := h.root, reach := h.reach, linked := ?_,
      stands := ?_, body := ?_, owner := ?_, unique := hparted.unique, apart := hparted.apart,
      covered := hparted.covered, loose_nodup := hparted.loose_nodup,
      loose_used := hparted.loose_used }
  · exact h.free.trans (congrArg Finset.card (ClusterTable.freeSet_congr hused).symm)
  · intro p c hc
    by_cases heq : p = o
    · subst heq
      obtain rfl := h.starts_unique hc ho
      rw [Function.update_self]
      refine HasChain.linked (ClusterTable.Chain.concat hchain hz hself ?_ ?_ ?_)
      · exact .single hyrange.1 hyrange.2 (by rw [hother y hyz, hend])
      · exact ClusterTable.not_mem_dropLast (ClusterTable.Chain.nodup hfew hchain) hz
      · exact fun x _ hx => hother x hx
    · rw [hupdate p heq]
      refine (h.linked p c hc).congr rfl fun x hx => hother x ?_
      rintro rfl
      exact heq (h.unique p o x hx hzmem)
  · intro p c g hc hg
    by_cases heq : p = o
    · subst heq
      obtain rfl := h.starts_unique hc ho
      obtain ⟨n, hn⟩ := h.sound.slots
      have hblank : slotsOf (d.readCluster y) = List.replicate n zeroSlot := by
        rw [hzero, hn, slotsOf_zeros]
      have hstands := (h.stands p c g hc hg).append_zeros n
      rw [← hblank] at hstands
      rwa [Function.update_self, slotsIn, List.flatMap_append, List.flatMap_singleton]
    · rw [hupdate p heq]
      exact h.stands p c g hc hg
  · intro dir' g n r hg hr
    have hbody := h.body dir' g n r hg hr
    by_cases heq : some (dir', n) = o
    · have hstart : G.Starts d.volume.geometry.rootCluster o r.body.first :=
        heq ▸ Catalog.Starts.record hg hr
      have hfolder := h.body_eq_folder hf hg hr (h.starts_unique hstart ho)
      rw [hfolder] at hbody ⊢
      exact hbody
    · rw [hupdate _ heq]
      exact hbody.congr rfl fun _ _ => rfl
  · intro p x hx
    rcases mem_update_append.1 hx with hx | ⟨rfl, -⟩
    · exact h.owner p x hx
    · exact ⟨dir, ho⟩

/-! ### Changing what a directory holds -/

/-- A change to the clusters of one directory leaves what the records are for. -/
theorem body_of_rewrite {dir : Nat} {o : Owner} {f : Folder} (h : d.Holds G K loose)
    (hf : G dir = some f) (ho : G.Starts d.volume.geometry.rootCluster o dir)
    (hvolume : d'.volume = d.volume)
    (hread : ∀ p, p ≠ o → ∀ x ∈ K p, d'.readCluster x = d.readCluster x) {G' : Catalog}
    (hkeep : ∀ c g, G c = some g → ∃ g', G' c = some g' ∧ g'.dots = g.dots) {dir' m : Nat}
    {g : Folder} {r : Record} (hg : G dir' = some g) (hr : (m, r) ∈ g.records) :
    d'.BodyAt G' (d.upFrom dir') (K (some (dir', m))) r.body := by
  have hbody := h.body dir' g m r hg hr
  cases hcase : r.body with
  | folder e =>
    rw [hcase] at hbody
    obtain ⟨hne, g₀, hg₀, hdots⟩ := hbody
    obtain ⟨g', hg', hdots'⟩ := hkeep e g₀ hg₀
    exact ⟨hne, g', hg', hdots'.trans hdots⟩
  | file e bytes =>
    rw [hcase] at hbody
    refine BodyAt.congr (d := d) hbody (by rw [hvolume]) (hread _ ?_)
    rintro rfl
    have := h.body_eq_folder hf hg hr (h.starts_unique (.record hg hr) ho)
    rw [hcase] at this
    simp at this

/-- A change to the clusters of one owner is not seen in those of another. -/
theorem readCluster_of_frame (h : d.Holds G K loose) {o p : Owner}
    (hframe : ∀ x, d.volume.inRange x = true → x ∉ K o → d'.readCluster x = d.readCluster x)
    (hne : p ≠ o) : ∀ x ∈ K p, d'.readCluster x = d.readCluster x :=
  fun x hx => hframe x (h.owned_used hx).1 fun hx' => hne (h.unique p o x hx hx')

/-- A change to the clusters of one directory leaves the slots of the others. -/
theorem stands_of_rewrite (h : d.Holds G K loose) {dir : Nat} {o p : Owner}
    (ho : G.Starts d.volume.geometry.rootCluster o dir)
    (hread : ∀ p, p ≠ o → ∀ x ∈ K p, d'.readCluster x = d.readCluster x) {c : Nat} {g : Folder}
    (hc : c ≠ dir) (hp : G.Starts d.volume.geometry.rootCluster p c) (hg : G c = some g) :
    g.Stands (d'.slotsIn (K p)) := by
  have hother : p ≠ o := by
    rintro rfl
    exact hc (h.starts_unique hp ho)
  rw [slotsIn_congr (hread p hother)]
  exact h.stands p c g hp hg

/-- A record goes into a directory and takes over loose clusters. -/
theorem insert {dir n : Nat} {o : Owner} {f f' : Folder} {r : Record} {cs : List Nat}
    (h : d.Holds G K (cs ++ loose)) (hf : G dir = some f)
    (ho : G.Starts d.volume.geometry.rootCluster o dir) (hvolume : d'.volume = d.volume)
    (hsound : d'.Sound)
    (hframe : ∀ x, d.volume.inRange x = true → x ∉ K o → d'.readCluster x = d.readCluster x)
    (hadds : f.Adds n r f') (hstands : f'.Stands (d'.slotsIn (K o)))
    (hlinked : d.Linked r.body.first cs) (hready : d.Ready G (d.upFrom dir) cs r.body) :
    d'.Holds (G.withFolder dir (d.upFrom dir) f' r.body)
      (Function.update K (some (dir, n)) cs) loose := by
  obtain ⟨v, content⟩ := d'
  obtain rfl : v = d.volume := hvolume
  have hlow : 2 ≤ dir := (ClusterTable.Chain.head_range (h.chain_of_starts hf ho)).1
  have hb : ∀ c, r.body = .folder c → G c = none := by
    intro c hc
    rw [hc] at hready
    exact hready.2.1
  have hkeep : ∀ c g, G c = some g →
      ∃ g', G.withFolder dir (d.upFrom dir) f' r.body c = some g' ∧ g'.dots = g.dots :=
    fun c g hg => Catalog.exists_dots_withFolder hf hb hadds _ hg
  have hstarts := Catalog.starts_withFolder hf hb hadds (d.upFrom dir)
    d.volume.geometry.rootCluster
  -- The owner is new, so nothing belonged to it.
  have hnew := Catalog.not_starts_of_adds hf hadds hstands d.volume.geometry.rootCluster
  have hgive : Function.update K (some (dir, n)) cs =
      Function.update K (some (dir, n)) (K (some (dir, n)) ++ cs) := by
    rw [h.eq_nil_of_not_starts hnew, List.nil_append]
  have hparted : d.Parted (Function.update K (some (dir, n)) cs) loose := hgive ▸ h.parted.give _
  have hupdate : ∀ p c, G.Starts d.volume.geometry.rootCluster p c →
      Function.update K (some (dir, n)) cs p = K p := by
    intro p c hc
    refine Function.update_of_ne ?_ _ _
    rintro rfl
    exact hnew c hc
  have hread : ∀ p, p ≠ o → ∀ x ∈ K p, Disk.readCluster ⟨d.volume, content⟩ x = d.readCluster x :=
    fun p hne => h.readCluster_of_frame hframe hne
  have hready' : Ready ⟨d.volume, content⟩ G (d.upFrom dir) cs r.body := by
    refine hready.congr rfl fun x hx => hframe x ?_ fun hmem => ?_
    · exact (h.loose_used x (List.mem_append_left _ hx)).1
    · exact h.apart o x hmem (List.mem_append_left _ hx)
  have hold : ∀ dir' g m r', G dir' = some g → (m, r') ∈ g.records →
      BodyAt ⟨d.volume, content⟩ (G.withFolder dir (d.upFrom dir) f' r.body) (d.upFrom dir')
        (Function.update K (some (dir, n)) cs (some (dir', m))) r'.body := by
    intro dir' g m r' hg hr
    rw [hupdate _ _ (.record hg hr)]
    have hvolume : (⟨d.volume, content⟩ : Disk).volume = d.volume := rfl
    exact h.body_of_rewrite hf ho hvolume hread hkeep hg hr
  refine
    { sound := hsound, free := h.free, hint := h.hint, root_ne := h.root_ne, root := ?_,
      reach := fun c g hg => Catalog.reach_withFolder hf hb hadds _ _ h.reach hg, linked := ?_,
      stands := ?_, body := ?_, owner := ?_, unique := hparted.unique, apart := hparted.apart,
      covered := hparted.covered, loose_nodup := hparted.loose_nodup,
      loose_used := hparted.loose_used }
  · obtain ⟨g, hg, hdots⟩ := h.root
    obtain ⟨g', hg', hdots'⟩ := hkeep _ g hg
    exact ⟨g', hg', hdots'.trans hdots⟩
  · intro p c hc
    rcases (hstarts p c).1 hc with hc | ⟨rfl, rfl⟩
    · rw [hupdate p c hc]
      exact h.linked p c hc
    · rw [Function.update_self]
      exact hlinked
  · -- Where a directory starts is either where the new record's clusters do or where one did
    -- before, and never both.
    intro p c g hc hg
    rcases (hstarts p c).1 hc with hold' | ⟨rfl, rfl⟩
    · rw [hupdate p c hold']
      rcases Catalog.withFolder_eq_some hg with ⟨hbc, -⟩ | ⟨rfl, rfl⟩ | ⟨hne, hg⟩
      · rw [hbc] at hready hlinked
        exact absurd hold' (h.not_starts_of_loose hready.1 hlinked p)
      · obtain rfl : p = o := h.owner_unique (by omega) hold' ho
        exact hstands
      · exact h.stands_of_rewrite ho hread hne hold' hg
    · rw [Function.update_self]
      rcases Catalog.withFolder_eq_some hg with ⟨hbc, rfl⟩ | ⟨hdir, -⟩ | ⟨-, hg⟩
      · rw [hbc] at hready'
        exact hready'.2.2
      · exact absurd (hdir ▸ ho) (h.not_starts_of_loose (by omega) hlinked o)
      · obtain ⟨q, hq, hchain, -⟩ := h.exists_owner hg
        have hlow' : 2 ≤ r.body.first := (ClusterTable.Chain.head_range hchain).1
        exact absurd hq (h.not_starts_of_loose (by omega) hlinked q)
  · intro dir' g m r' hg hr
    rcases Catalog.withFolder_eq_some hg with ⟨-, rfl⟩ | ⟨rfl, rfl⟩ | ⟨-, hg⟩
    · simp at hr
    · rcases hadds.mem_iff.1 hr with heq | hr
      · cases heq
        rw [Function.update_self]
        exact hready'.bodyAt _ _
      · exact hold _ f m r' hf hr
    · exact hold dir' g m r' hg hr
  · intro p x hx
    rw [hgive] at hx
    rcases mem_update_append.1 hx with hx | ⟨rfl, -⟩
    · obtain ⟨c, hc⟩ := h.owner p x hx
      exact ⟨c, (hstarts p c).2 (.inl hc)⟩
    · exact ⟨_, (hstarts _ _).2 (.inr ⟨rfl, rfl⟩)⟩

/-- The record of a file goes out of a directory, and its clusters become loose. -/
theorem remove {dir n : Nat} {o : Owner} {f f' : Folder} {r : Record}
    (h : d.Holds G K loose) (hf' : G dir = some f')
    (ho : G.Starts d.volume.geometry.rootCluster o dir) (hvolume : d'.volume = d.volume)
    (hsound : d'.Sound)
    (hframe : ∀ x, d.volume.inRange x = true → x ∉ K o → d'.readCluster x = d.readCluster x)
    (hadds : f.Adds n r f') (hstands : f.Stands (d'.slotsIn (K o)))
    (hfile : ∀ c, r.body ≠ .folder c) :
    d'.Holds (G.replace dir f) (Function.update K (some (dir, n)) [])
      (K (some (dir, n)) ++ loose) := by
  obtain ⟨v, content⟩ := d'
  obtain rfl : v = d.volume := hvolume
  have hchain := h.chain_of_starts hf' ho
  have hlow : 2 ≤ dir := (ClusterTable.Chain.head_range hchain).1
  have hrecord : (n, r) ∈ f'.records := hadds.mem_iff.2 (.inl rfl)
  have hnew := hadds.number_new (h.stands o dir f' ho hf')
  have hkeep : ∀ c g, G c = some g → ∃ g', G.replace dir f c = some g' ∧ g'.dots = g.dots :=
    fun c g hg => Catalog.exists_dots_replace hf' hadds hg
  have hstarts := Catalog.starts_replace hf' hadds hnew d.volume.geometry.rootCluster
  have hparted : d.Parted (Function.update K (some (dir, n)) []) (K (some (dir, n)) ++ loose) :=
    h.parted.take ((h.linked _ _ (.record hf' hrecord)).nodup h.sound) fun x hx => h.owned_used hx
  have hupdate : ∀ p, p ≠ some (dir, n) → Function.update K (some (dir, n)) [] p = K p :=
    fun p hne => Function.update_of_ne hne _ _
  have hread : ∀ p, p ≠ o → ∀ x ∈ K p, Disk.readCluster ⟨d.volume, content⟩ x = d.readCluster x :=
    fun p hne => h.readCluster_of_frame hframe hne
  have hbody : ∀ dir' g m r', G dir' = some g → (m, r') ∈ g.records →
      BodyAt ⟨d.volume, content⟩ (G.replace dir f) (d.upFrom dir')
        (K (some (dir', m))) r'.body := by
    intro dir' g m r' hg hr
    have hvolume : (⟨d.volume, content⟩ : Disk).volume = d.volume := rfl
    exact h.body_of_rewrite hf' ho hvolume hread hkeep hg hr
  refine
    { sound := hsound, free := h.free, hint := h.hint, root_ne := h.root_ne, root := ?_,
      reach := fun c g hg => Catalog.reach_replace hf' hadds hnew hfile _ h.reach hg,
      linked := ?_, stands := ?_, body := ?_, owner := ?_, unique := hparted.unique,
      apart := hparted.apart, covered := hparted.covered, loose_nodup := hparted.loose_nodup,
      loose_used := hparted.loose_used }
  · obtain ⟨g, hg, hdots⟩ := h.root
    obtain ⟨g', hg', hdots'⟩ := hkeep _ g hg
    exact ⟨g', hg', hdots'.trans hdots⟩
  · intro p c hc
    obtain ⟨hold, hne⟩ := (hstarts p c).1 hc
    rw [hupdate p hne]
    exact h.linked p c hold
  · intro p c g hc hg
    obtain ⟨hold, hne⟩ := (hstarts p c).1 hc
    rw [hupdate p hne]
    rcases Catalog.replace_eq_some hg with ⟨rfl, rfl⟩ | ⟨hdir, hg⟩
    · obtain rfl : p = o := h.owner_unique (by omega) hold ho
      exact hstands
    · exact h.stands_of_rewrite ho hread hdir hold hg
  · intro dir' g m r' hg hr
    rw [hupdate _ ((hstarts _ _).1 (.record hg hr)).2]
    rcases Catalog.replace_eq_some hg with ⟨rfl, rfl⟩ | ⟨-, hg⟩
    · exact hbody _ f' m r' hf' (hadds.mem_iff.2 (.inr hr))
    · exact hbody dir' g m r' hg hr
  · intro p x hx
    obtain ⟨hx, hne⟩ := mem_update_nil.1 hx
    obtain ⟨c, hc⟩ := h.owner p x hx
    exact ⟨c, hc.replace hf' hadds hne⟩

end Holds

end Disk

end BootImage.Fat
