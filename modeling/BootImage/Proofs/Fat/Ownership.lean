import BootImage.Proofs.Fat.Runs

/-!
# Who owns the clusters

Every cluster that is not free belongs to the root directory or to one entry of one directory, and
is on the chain that starts there. This is stated here about a disk as a reader sees it, who follows
entries from the root; `Disk.Holds` has it with the catalog that the proofs carry along.

## Main definitions

* `Disk.HasDirectory`: the directories that are found from the root.
* `Disk.HasHead`: where chains start.
* `Disk.Owned`: each cluster in use is on one chain, and each chain is as long as it has to be.

## Main results

* `Disk.Holds.owned`: on a disk that holds a catalog without loose clusters, each is owned.
* `Disk.Fresh.owned_after`: so it is after any calls.
-/

namespace BootImage.Fat

namespace Disk

/-- A directory that is found from the root. -/
inductive HasDirectory (d : Disk) : Nat → Prop
  | root : d.HasDirectory d.volume.geometry.rootCluster
  | entry {dir : Nat} {es : List DirEntry} {e : DirEntry} (h : d.HasDirectory dir)
      (hentries : d.entries dir = .ok es) (he : e ∈ es) (hkind : e.isDirectory = true) :
      d.HasDirectory e.cluster

/-- What starts at a cluster: the root directory, or what an entry of the directory at a cluster is
for. -/
inductive HasHead (d : Disk) : Option (Nat × DirEntry) → Nat → Prop
  | root : d.HasHead none d.volume.geometry.rootCluster
  | entry {dir : Nat} {es : List DirEntry} {e : DirEntry} (h : d.HasDirectory dir)
      (hentries : d.entries dir = .ok es) (he : e ∈ es) : d.HasHead (some (dir, e)) e.cluster

/-- Nothing is lost and nothing is shared. -/
structure Owned (d : Disk) : Prop where
  /-- The count of free clusters is that of the free entries of the table. -/
  free : d.volume.free = Volume.countFree d.volume.table d.volume.clusters
  /-- The next search for a free cluster starts at a cluster. -/
  hint : 2 ≤ d.volume.hint ∧ d.volume.hint ≤ d.volume.clusters + 1
  /-- Every directory can be listed, and has each entry once. -/
  listed : ∀ dir, d.HasDirectory dir → ∃ es, d.entries dir = .ok es ∧ es.Nodup
  /-- What starts at a cluster is a chain that ends with the end mark and has no free cluster. -/
  chained : ∀ o c, d.HasHead o c → c ≠ 0 → ∃ cs, d.HasChain c cs ∧ d.volume.chain c = .ok cs ∧
    ∀ x ∈ cs, d.volume.table.link x ≠ ClusterTable.free
  /-- No two chains have a cluster in common. -/
  disjoint : ∀ o o' c c' cs cs', d.HasHead o c → d.HasHead o' c' → d.HasChain c cs →
    d.HasChain c' cs' → o ≠ o' → cs.Disjoint cs'
  /-- Every cluster that is not free is on one chain. -/
  covered : ∀ x, 2 ≤ x → x ≤ d.volume.clusters + 1 → d.volume.table.link x ≠ ClusterTable.free →
    ∃! o, ∃ c cs, d.HasHead o c ∧ d.HasChain c cs ∧ x ∈ cs
  /-- A directory has a chain. -/
  directory : ∀ dir es e, d.HasDirectory dir → d.entries dir = .ok es → e ∈ es →
    e.isDirectory = true → e.cluster ≠ 0
  /-- A file has as many clusters as its bytes fill: none if it has no bytes. -/
  file : ∀ dir es e, d.HasDirectory dir → d.entries dir = .ok es → e ∈ es →
    e.isDirectory = false → (e.size = 0 → e.cluster = 0) ∧
      (e.size ≠ 0 → ∃ cs, d.HasChain e.cluster cs ∧ cs.length = d.clustersFor e.size)

variable {d : Disk} {G : Catalog} {K : Owner → List Nat} {loose : List Nat}

/-- The owner that a head stands for: an entry is told by its first slot. -/
def ownerOf (o : Option (Nat × DirEntry)) : Owner :=
  o.map fun x => (x.1, x.2.slots.headD 0)

theorem headD_slots_entry (n : Nat) (r : Record) : (r.entry n).slots.headD 0 = n := by
  obtain ⟨k, hk⟩ := Nat.exists_eq_succ_of_ne_zero (Nat.ne_of_gt r.length_slots_pos)
  rw [Record.entry, hk, List.range'_succ]
  rfl

namespace Holds

/-! ### Directories and heads in the catalog -/

theorem exists_record (h : d.Holds G K loose) (hw : d.Writable) {dir : Nat} {f : Folder}
    (hf : G dir = some f) {es : List DirEntry} {e : DirEntry} (hentries : d.entries dir = .ok es)
    (he : e ∈ es) : ∃ n r, (n, r) ∈ f.records ∧ e = r.entry n := by
  rw [h.entries_eq hw.1 hf] at hentries
  obtain rfl := Except.ok.inj hentries
  obtain ⟨⟨n, r⟩, hr, rfl⟩ := List.mem_map.1 he
  exact ⟨n, r, hr, rfl⟩

theorem exists_folder (h : d.Holds G K loose) (hw : d.Writable) {c : Nat}
    (hc : d.HasDirectory c) : ∃ f, G c = some f := by
  induction hc with
  | root =>
    obtain ⟨f, hf, -⟩ := h.root
    exact ⟨f, hf⟩
  | entry _ hentries he hkind ih =>
    obtain ⟨f, hf⟩ := ih
    obtain ⟨n, r, hr, rfl⟩ := h.exists_record hw hf hentries he
    rw [Record.isDirectory_entry] at hkind
    exact (h.target_eq hf hr hkind).2

/-- Every directory can be listed, and has each entry once. -/
theorem exists_entries (h : d.Holds G K loose) (hw : d.Writable) {c : Nat} (hc : d.HasDirectory c) :
    ∃ es, d.entries c = .ok es ∧ es.Nodup := by
  obtain ⟨f, hf⟩ := h.exists_folder hw hc
  obtain ⟨_, _, _, hstands⟩ := h.exists_owner hf
  refine ⟨f.entries, h.entries_eq hw.1 hf, List.Nodup.of_map (fun e => e.slots.headD 0) ?_⟩
  rw [Folder.entries, List.map_map]
  refine (List.map_congr_left fun x _ => ?_) ▸ hstands.nodup_numbers
  exact (headD_slots_entry x.1 x.2).symm

theorem hasDirectory (h : d.Holds G K loose) (hw : d.Writable) {c : Nat} {f : Folder}
    (hf : G c = some f) : d.HasDirectory c := by
  have hreach := h.reach c f hf
  clear hf
  induction hreach with
  | root => exact .root
  | @child dir n c f s _ hf hr ih =>
    refine HasDirectory.entry (e := Record.entry n ⟨s, .folder c⟩) ih (h.entries_eq hw.1 hf)
      (List.mem_map.2 ⟨_, hr, rfl⟩) ?_
    rw [Record.isDirectory_entry]
    rfl

theorem starts_of_hasHead (h : d.Holds G K loose) (hw : d.Writable) {o : Option (Nat × DirEntry)}
    {c : Nat} (ho : d.HasHead o c) : G.Starts d.volume.geometry.rootCluster (ownerOf o) c := by
  cases ho with
  | root => exact .root
  | entry hdir hentries he =>
    obtain ⟨f, hf⟩ := h.exists_folder hw hdir
    obtain ⟨n, r, hr, rfl⟩ := h.exists_record hw hf hentries he
    rw [ownerOf, Option.map_some, headD_slots_entry]
    exact .record hf hr

theorem exists_hasHead (h : d.Holds G K loose) (hw : d.Writable) {o : Owner} {c : Nat}
    (ho : G.Starts d.volume.geometry.rootCluster o c) :
    ∃ o', d.HasHead o' c ∧ ownerOf o' = o := by
  cases ho with
  | root => exact ⟨none, .root, rfl⟩
  | @record dir n f r hf hr =>
    refine ⟨some (dir, r.entry n), .entry (h.hasDirectory hw hf) (h.entries_eq hw.1 hf)
      (List.mem_map.2 ⟨_, hr, rfl⟩), ?_⟩
    rw [ownerOf, Option.map_some, headD_slots_entry]

theorem eq_of_ownerOf (h : d.Holds G K loose) (hw : d.Writable) {o o' : Option (Nat × DirEntry)}
    {c c' : Nat} (ho : d.HasHead o c) (ho' : d.HasHead o' c') (heq : ownerOf o = ownerOf o') :
    o = o' := by
  cases ho with
  | root =>
    cases ho' with
    | root => rfl
    | entry => simp [ownerOf] at heq
  | entry hdir hentries he =>
    cases ho' with
    | root => simp [ownerOf] at heq
    | entry hdir' hentries' he' =>
      obtain ⟨f, hf⟩ := h.exists_folder hw hdir
      obtain ⟨f', hf'⟩ := h.exists_folder hw hdir'
      obtain ⟨n, r, hr, rfl⟩ := h.exists_record hw hf hentries he
      obtain ⟨n', r', hr', rfl⟩ := h.exists_record hw hf' hentries' he'
      simp only [ownerOf, Option.map_some, headD_slots_entry, Option.some.injEq,
        Prod.mk.injEq] at heq
      obtain ⟨rfl, rfl⟩ := heq
      cases hf.symm.trans hf'
      obtain ⟨_, _, _, hstands⟩ := h.exists_owner hf
      rw [hstands.eq_of_number hr hr']

/-- The chain from where an owner starts is that of the owner. -/
theorem eq_of_hasChain (h : d.Holds G K loose) (hw : d.Writable) {o : Option (Nat × DirEntry)}
    {c : Nat} {cs : List Nat} (ho : d.HasHead o c) (hcs : d.HasChain c cs) :
    cs = K (ownerOf o) := by
  have hlow : 2 ≤ c := (ClusterTable.Chain.head_range hcs).1
  have hchain := (h.linked _ c (h.starts_of_hasHead hw ho)).hasChain (by omega)
  exact ClusterTable.Chain.unique h.sound.few hcs hchain

/-! ### Ownership -/

/-- Where no cluster is loose, each is owned. -/
theorem owned (h : d.Holds G K []) (hw : d.Writable) : d.Owned := by
  constructor
  · rw [ClusterTable.countFree_eq]
    exact h.free
  · exact Volume.inRange_iff.1 h.hint
  · exact fun dir hdir => h.exists_entries hw hdir
  · intro o c ho hc
    have hchain := (h.linked _ c (h.starts_of_hasHead hw ho)).hasChain hc
    exact ⟨_, hchain, Volume.chain_eq h.sound.few hchain, fun x hx =>
      ClusterTable.Chain.link_ne_free hchain hx⟩
  · intro o o' c c' cs cs' ho ho' hcs hcs' hne x hx hx'
    rw [h.eq_of_hasChain hw ho hcs] at hx
    rw [h.eq_of_hasChain hw ho' hcs'] at hx'
    exact hne (h.eq_of_ownerOf hw ho ho' (h.unique _ _ x hx hx'))
  · intro x hlow hhigh hused
    rcases h.covered x (Volume.inRange_iff.2 ⟨hlow, hhigh⟩) hused with hx | ⟨o, hx⟩
    · simp at hx
    obtain ⟨c, hc⟩ := h.owner o x hx
    obtain ⟨o', ho', rfl⟩ := h.exists_hasHead hw hc
    have hne : c ≠ 0 := by
      rintro rfl
      rw [(h.linked _ 0 hc).eq_nil] at hx
      simp at hx
    refine ⟨o', ⟨c, _, ho', (h.linked _ c hc).hasChain hne, hx⟩, ?_⟩
    rintro p ⟨c', cs, hp, hcs, hx'⟩
    rw [h.eq_of_hasChain hw hp hcs] at hx'
    exact h.eq_of_ownerOf hw hp ho' (h.unique _ _ x hx' hx)
  · intro dir es e hdir hentries he hkind
    obtain ⟨f, hf⟩ := h.exists_folder hw hdir
    obtain ⟨n, r, hr, rfl⟩ := h.exists_record hw hf hentries he
    rw [Record.isDirectory_entry] at hkind
    have hbody := h.body dir f n r hf hr
    rw [Body.eq_folder_of_isFolder hkind] at hbody
    exact hbody.1
  · intro dir es e hdir hentries he hkind
    obtain ⟨f, hf⟩ := h.exists_folder hw hdir
    obtain ⟨n, ⟨s, b⟩, hr, rfl⟩ := h.exists_record hw hf hentries he
    rw [Record.isDirectory_entry] at hkind
    cases b with
    | folder => cases hkind
    | file c bytes =>
      obtain ⟨hempty, hlen, hbytes⟩ := h.body dir f n _ hf hr
      refine ⟨fun hsize => hempty (List.eq_nil_of_length_eq_zero hsize), fun hsize => ?_⟩
      have hlinked : d.Linked c (K (some (dir, n))) := h.linked _ _ (.record hf hr)
      refine ⟨_, hlinked.hasChain ?_, hlen⟩
      rintro rfl
      rw [hlinked.eq_nil, List.flatMap_nil, List.take_nil] at hbytes
      exact hsize (congrArg List.length hbytes.symm)

end Holds

/-- After any calls on a volume that was formatted each cluster in use is owned, provided that every
source has the bytes that are asked of it. -/
theorem Fresh.owned_after (h : d.Fresh) (calls : List Call)
    (hsupplied : ∀ call ∈ calls, call.Supplied) : (d.after calls).Owned := by
  obtain ⟨hw, G, K, loose, hholds, hloose⟩ := h.after calls
  rw [hloose hsupplied] at hholds
  exact hholds.owned hw

/-- A file in a directory, on a volume that was formatted. -/
theorem exists_owned_after_file : ∃ d : Disk, d.Fresh ∧
    (d.after [.makeDirectory "bin", .writeFile "bin/sh" (Content.ofBytes [1, 2, 3]) 3,
      .flush]).Owned := by
  obtain ⟨d, hfresh⟩ := exists_fresh
  refine ⟨d, hfresh, hfresh.owned_after _ fun call hcall => ?_⟩
  simp only [List.mem_cons, List.not_mem_nil, or_false] at hcall
  rcases hcall with rfl | rfl | rfl
  · trivial
  · rw [Call.supplied_iff]
    simp
  · trivial

end Disk

end BootImage.Fat
