import BootImage.Proofs.Fat.Growing

/-!
# Making directories

A directory is made in one step as far as its parent is concerned: either the disk is as it was, or
the parent has one more record and the new directory is in the catalog. Making what is missing of a
path is a number of such steps; what they do to the catalog is `Catalog.Makes`, which stops at the
first name that cannot be passed.

## Main definitions

* `Catalog.Held`: a catalog that some disk holds.
* `Catalog.Makes`: what making the directories of a path does to a catalog.

## Main results

* `Edit.neededGrowth_on`: the count of clusters that a name needs.
* `Edit.takeFolder_on`: the cluster of a new directory.
* `Edit.makeChild_on`: one directory is made, or nothing happens.
* `Edit.makeFrom_cases`: the directories of a path are made one by one.
-/

namespace BootImage.Fat

/-- Some disk, whose root directory starts at the given cluster, holds the catalog. -/
def Catalog.Held (G : Catalog) (root : Nat) : Prop :=
  ∃ (d : Disk) (K : Owner → List Nat) (loose : List Nat),
    d.Holds G K loose ∧ d.volume.geometry.rootCluster = root

/-- Reaching the directory at the end of a path from one directory, making those that are missing.
The last two arguments are the cluster that is reached, if any, and the catalog then. -/
inductive Catalog.Makes (root : Nat) :
    Catalog → Nat → List String → Option Nat → Catalog → Prop
  | done {G : Catalog} {dir : Nat} : Makes root G dir [] (some dir) G
  | enter {G G' : Catalog} {dir n : Nat} {f : Folder} {r : Record} {name : String}
      {rest : List String} {found : Option Nat} (hf : G dir = some f)
      (hfind : f.find name = some (n, r)) (hfolder : r.body.isFolder = true)
      (hrest : Makes root G r.body.first rest found G') : Makes root G dir (name :: rest) found G'
  | blocked {G : Catalog} {dir n : Nat} {f : Folder} {r : Record} {name : String}
      {rest : List String} (hf : G dir = some f) (hfind : f.find name = some (n, r))
      (hfile : r.body.isFolder = false) : Makes root G dir (name :: rest) none G
  | refused {G : Catalog} {dir : Nat} {f : Folder} {name : String} {rest : List String}
      (hf : G dir = some f) (hfind : f.find name = none) : Makes root G dir (name :: rest) none G
  | create {G G' : Catalog} {dir n c : Nat} {f f' : Folder} {s : Spelling} {name : String}
      {rest : List String} {found : Option Nat} (hf : G dir = some f) (hfind : f.find name = none)
      (hspelling : spellingOf name f.taken = .ok s) (hnew : G c = none)
      (hadds : f.Adds n ⟨s, .folder c⟩ f')
      (hheld : (G.withFolder dir (if dir = root then 0 else dir) f' (.folder c)).Held root)
      (hrest : Makes root (G.withFolder dir (if dir = root then 0 else dir) f' (.folder c)) c rest
        found G') : Makes root G dir (name :: rest) found G'

namespace Edit

variable {d : Disk} {G : Catalog} {K : Owner → List Nat} {loose : List Nat} {dir : Nat} {f : Folder}
  {o : Owner}

/-! ### The clusters that a name needs -/

/-- The clusters that are needed are counted without a change. -/
theorem neededGrowth_on {f₀ : Folder} (h : d.Holds G K loose) (hopen : d.volume.closed = false)
    (hf : G dir = some f) (ho : G.Starts d.volume.geometry.rootCluster o dir) (name : String)
    (b : Body) (replaced : Option DirEntry) {data : Bytes}
    (hdata : replaced.elim ((K o).flatMap d.readCluster)
      (withoutEntry ((K o).flatMap d.readCluster)) = data) (hshows : Shows data f₀) :
    (neededGrowth dir name b.attributes replaced).on d =
      ((spellingOf name f₀.taken).map fun s =>
        growth data d.volume.geometry.clusterSize (s.longPart.length + 1), d) := by
  have hdirectory := h.directory_eq hopen hf ho
  have hencode := encodeEntry_taken hshows name b (show 0 < 0x100000000 by decide) 0
  rw [neededGrowth]
  refine (on_bind_ok _ ((on_query _ d).trans (congrArg (·, d) hdirectory))).trans ?_
  simp only [hdata]
  cases hs : spellingOf name f₀.taken with
  | error e =>
    rw [hs] at hencode
    exact on_bind_error _ ((on_query _ d).trans (congrArg (·, d) hencode))
  | ok s =>
    rw [hs, Except.bind, if_pos ⟨Int.le_refl 0, by decide⟩] at hencode
    refine (on_bind_ok _ ((on_query _ d).trans (congrArg (·, d) hencode))).trans ?_
    refine (on_bind_ok _ (on_get _)).trans ?_
    rw [s.length_slots]
    rfl

/-- No spelling fails because a source was too short. -/
theorem spellingOf_ne_shortSource {name : String} {taken : Bytes → Bool} {e : Error}
    (h : spellingOf name taken = .error e) (path : String) (missing : Nat) :
    e ≠ .shortSource path missing := by
  rintro rfl
  have halias : ∀ e, aliasSpelling name taken = .error e → e = .noAlias name := by
    intro e he
    rw [aliasSpelling, shortAlias] at he
    simp only at he
    split at he
    · cases he
    · cases he
      rfl
  rw [spellingOf] at h
  split at h
  · cases h
  · split at h
    · split at h
      · cases halias _ h
      · cases h
    · cases halias _ h

/-! ### Making one directory -/

/-- The first cluster of a new directory holds its entries for itself and its parent alone. -/
theorem stands_newDirectory {c up n : Nat} (hc : c < 0x100000000) (hup : up < 0x100000000) :
    Folder.Stands ⟨some (c, up), []⟩
      (slotsOf (newDirectory c up ++ Bytes.zeros (slotSize * n))) := by
  have hone : (shortSlot dotName directoryAttribute c 0 0).length = slotSize :=
    length_shortSlot (by decide)
  have htwo : (shortSlot dotDotName directoryAttribute up 0 0).length = slotSize :=
    length_shortSlot (by decide)
  rw [newDirectory, List.append_assoc, slotsOf_append_of_length _ hone,
    slotsOf_append_of_length _ htwo, slotsOf_zeros]
  refine ⟨?_, ⟨_, rfl, .blank _ _⟩, List.nodup_nil⟩
  rintro self up' ⟨rfl, rfl⟩
  exact ⟨hc, hup⟩

theorem length_newDirectory (c up : Nat) : (newDirectory c up).length = 2 * slotSize := by
  rw [newDirectory, List.length_append, length_shortSlot (by decide), length_shortSlot (by decide)]
  rfl

/-- A cluster has room for the first slots of a directory. -/
theorem two_slots_le (h : d.Sound) : 2 * slotSize ≤ d.volume.geometry.clusterSize := by
  have hpos := h.pos
  have hsector := h.sector
  rw [Geometry.clusterSize] at hpos ⊢
  have hone : 1 ≤ d.volume.geometry.sectorsPerCluster := Nat.pos_of_mul_pos_right hpos
  calc 2 * slotSize ≤ 512 := by decide
    _ ≤ d.volume.geometry.bytesPerSector := hsector
    _ ≤ _ := Nat.le_mul_of_pos_left _ hone

/-- A cluster that is filled up behind its first slots is one of a directory without records. -/
theorem stands_filled (h : d.Sound) {c up : Nat} (hc : c ≤ d.volume.last)
    (hup : up ≤ d.volume.last) :
    Folder.Stands ⟨some (c, up), []⟩ (slotsOf (newDirectory c up ++
      Bytes.zeros (d.volume.geometry.clusterSize - (newDirectory c up).length))) := by
  have hfew := h.few
  simp only [ClusterTable.endOfChain] at hfew
  obtain ⟨n, hn⟩ : slotSize ∣ d.volume.geometry.clusterSize - (newDirectory c up).length := by
    rw [length_newDirectory]
    exact Nat.dvd_sub h.slots (Nat.dvd_mul_left ..)
  rw [hn]
  exact stands_newDirectory (by omega) (by omega)

/-- A cluster is taken for a new directory and filled with its first slots. -/
theorem takeFolder_on (h : d.Holds G K loose) {up : Nat} (hup : up ≤ d.volume.last)
    (hone : 1 ≤ d.volume.free) : ∃ c d₁, (allocate 1).on d = (.ok [c], d₁) ∧ G c = none ∧
      d.Supplies G K loose up [c] (.folder c) (d₁.writeCluster c (newDirectory c up)) := by
  obtain ⟨found, t, hint, halloc, hlen, -, hwas, hlinked, hholds⟩ := h.allocate hone
  obtain ⟨c, rfl⟩ := List.length_eq_one_iff.1 hlen
  have hfree : d.volume.table.link c = ClusterTable.free := hwas c (by simp)
  have hin : d.volume.inRange c = true := (hholds.loose_used c (by simp)).1
  have hrange := Volume.inRange_iff.1 hin
  have hfit : (newDirectory c up).length ≤ d.volume.geometry.clusterSize := by
    rw [length_newDirectory]
    exact two_slots_le h.sound
  have hnone : G c = none := by
    cases hg : G c with
    | none => rfl
    | some g =>
      obtain ⟨p, -, hp, -⟩ := h.exists_owner hg
      exact absurd hfree (ClusterTable.Chain.link_ne_free hp (ClusterTable.Chain.mem_head hp))
  refine ⟨c, _, onVolume_ok halloc, hnone, ?_⟩
  obtain ⟨d₂, hd₂⟩ : ∃ d₂, d₂ = Disk.writeCluster ⟨{ d.volume with
    table := t, free := d.volume.free - 1, hint }, d.content⟩ c (newDirectory c up) := ⟨_, rfl⟩
  have hreads : ∀ x, d.volume.inRange x = true → d₂.readCluster x =
      if x = c then newDirectory c up ++ Bytes.zeros
        (d.volume.geometry.clusterSize - (newDirectory c up).length)
      else d.readCluster x := fun x hx =>
    hd₂ ▸ hholds.sound.readCluster_writeCluster hx hin hfit
  have hbelow := hholds.sound.sameBelow_writeCluster hin hfit
  have hchain : d₂.HasChain c [c] := hd₂ ▸ hlinked c [] rfl
  rw [← hd₂] at hbelow ⊢
  refine
    { holds := hd₂ ▸ hholds.writeCluster (by simp) hfit
      alike := (Disk.Alike.of_table d t _ hint).trans (.of_below (hd₂ ▸ rfl) hbelow)
      free := ?_, read := fun o x hx => ?_, linked := hchain.linked
      ready := ⟨by omega, hnone, ?_⟩ }
  · rw [hd₂]
    exact Nat.sub_add_cancel hone
  · obtain ⟨hx', hused⟩ := h.owned_used hx
    rw [hreads x hx', if_neg]
    rintro rfl
    exact hused hfree
  · rw [Disk.slotsIn, List.flatMap_singleton, hreads c hin, if_pos rfl]
    exact stands_filled h.sound hrange.2 hup

/-- A directory cannot be made where its name has no spelling or too few clusters are free, and the
disk is as it was. Else it is made, and takes just the clusters that were counted before. -/
theorem makeChild_on (h : d.Holds G K loose) (hopen : d.volume.closed = false)
    (hf : G dir = some f) (path : List String) (name : String) :
    (∃ e, (neededGrowth dir name directoryAttribute none).on d = (.error e, d) ∧
        (makeChild dir path name).on d = (.error e, d)) ∨
      ∃ s grow, spellingOf name f.taken = .ok s ∧
        (neededGrowth dir name directoryAttribute none).on d = (.ok grow, d) ∧
        (1 + grow > d.volume.free ∧ (makeChild dir path name).on d =
            (.error (.noRoomForDirectory d.volume.image path (1 + grow) d.volume.free), d) ∨
          ∃ d' K' n f' c, (makeChild dir path name).on d = (.ok c, d') ∧ G c = none ∧
            f.Adds n ⟨s, .folder c⟩ f' ∧
            d'.Holds (G.withFolder dir (d.upFrom dir) f' (.folder c)) K' loose ∧ d.Alike d' ∧
            d'.volume.free + (1 + grow) = d.volume.free ∧ d.ChainGrows d' dir grow) := by
  obtain ⟨o, ho, hchain, -⟩ := h.exists_owner hf
  obtain ⟨hwhole, -, hstands⟩ := h.stands_bytes hf ho
  have hneeded : (neededGrowth dir name directoryAttribute none).on d =
      ((spellingOf name f.taken).map fun s => growth ((K o).flatMap d.readCluster)
        d.volume.geometry.clusterSize (s.longPart.length + 1), d) :=
    neededGrowth_on h hopen hf ho name (.folder 0) none rfl ⟨hwhole, hstands⟩
  cases hs : spellingOf name f.taken with
  | error e =>
    rw [hs] at hneeded
    exact .inl ⟨e, hneeded, on_bind_error _ hneeded⟩
  | ok s =>
    obtain ⟨grow, hgrow⟩ : ∃ n, n = growth ((K o).flatMap d.readCluster)
      d.volume.geometry.clusterSize (s.longPart.length + 1) := ⟨_, rfl⟩
    rw [hs, Except.map, ← hgrow] at hneeded
    refine .inr ⟨s, grow, rfl, hneeded, ?_⟩
    by_cases hroom : 1 + grow > d.volume.free
    · refine .inl ⟨hroom, ?_⟩
      refine (on_bind_ok _ hneeded).trans ?_
      refine (on_bind_ok _ (on_get d)).trans ?_
      exact on_refuse hroom _ _ d
    · right
      have hup : d.upFrom dir ≤ d.volume.last := by
        rw [Disk.upFrom]
        split
        · exact Nat.zero_le _
        · exact (ClusterTable.Chain.head_range hchain).2
      obtain ⟨c, d₁, halloc, hnone, hsupplies⟩ := takeFolder_on h hup (by omega)
      obtain ⟨d', K', n, f', hadd, hadds, hholds', halike, hfree, more, hmore, hchain'⟩ :=
        addEntry_supplied hsupplies hopen hf ho hs (by simp [Body.bytes])
          (by rw [← hgrow, List.length_singleton]; omega)
      rw [← hgrow] at hfree hmore
      refine ⟨d', K', n, f', c, ?_, hnone, hadds, hholds', halike, hfree, K o, more, hchain, hmore,
        hchain'⟩
      refine (on_bind_ok _ hneeded).trans ?_
      refine (on_bind_ok _ (on_get d)).trans ?_
      refine (on_pass hroom _ _ d).trans ?_
      refine (on_bind_ok _ halloc).trans ?_
      refine (on_bind_ok _ (on_modify _ _)).trans ?_
      exact on_bind_ok _ hadd

/-! ### Making what is missing of a path -/

section MakeFrom

variable {done names : List String} {name : String} {e : DirEntry}

/-- A directory that is there is entered. -/
theorem makeFrom_enter (hlookup : d.lookup dir name = .ok (some e)) (hkind : e.isDirectory = true) :
    (makeFrom done dir (name :: names)).on d =
      (makeFrom (done ++ [name]) (d.target e) names).on d := by
  rw [makeFrom]
  refine (on_bind_ok _ ((on_query _ d).trans (congrArg (·, d) hlookup))).trans ?_
  refine (on_bind_ok _ (on_get d)).trans ?_
  simp only [hkind, if_true]

/-- A file is not passed. -/
theorem makeFrom_blocked (hlookup : d.lookup dir name = .ok (some e))
    (hkind : e.isDirectory = false) : (makeFrom done dir (name :: names)).on d =
      (.error (.notDirectory d.volume.image (Disk.pathText (done ++ [name]))), d) := by
  rw [makeFrom]
  refine (on_bind_ok _ ((on_query _ d).trans (congrArg (·, d) hlookup))).trans ?_
  refine (on_bind_ok _ (on_get d)).trans ?_
  simp only [hkind]
  rfl

/-- A directory that is missing is made. -/
theorem makeFrom_create (hlookup : d.lookup dir name = .ok none) :
    (makeFrom done dir (name :: names)).on d =
      (makeChild dir (done ++ [name]) name >>= fun c =>
        makeFrom (done ++ [name]) c names).on d := by
  have hquery := on_query (·.lookup dir name) d
  rw [hlookup] at hquery
  rw [makeFrom]
  exact on_bind_ok _ hquery

/-- More names are followed from where the first ones led. -/
theorem makeFrom_append (done : List String) (dir : Nat) (names more : List String) :
    makeFrom done dir (names ++ more) =
      makeFrom done dir names >>= fun c => makeFrom (done ++ names) c more := by
  induction names generalizing done dir with
  | nil => rw [makeFrom, pure_bind, List.nil_append, List.append_nil]
  | cons name names ih =>
    have hdone : done ++ name :: names = done ++ [name] ++ names := by simp
    rw [List.cons_append, makeFrom, makeFrom, bind_assoc, hdone]
    refine bind_congr fun found => ?_
    cases found with
    | none =>
      rw [bind_assoc]
      exact bind_congr fun c => ih ..
    | some e =>
      rw [bind_assoc]
      refine bind_congr fun d => ?_
      by_cases hkind : e.isDirectory = true
      · simp only [hkind, if_true]
        exact ih ..
      · simp only [hkind]
        rfl

end MakeFrom

/-- The directories of a path are made one by one. -/
theorem makeFrom_cases (h : d.Holds G K loose) (hopen : d.volume.closed = false)
    (hf : G dir = some f) (names done : List String) :
    ∃ result d' G' K' found, (makeFrom done dir names).on d = (result, d') ∧
      Catalog.Makes d.volume.geometry.rootCluster G dir names found G' ∧
      (∀ c, result = .ok c ↔ found = some c) ∧ (∀ c, found = some c → ∃ g, G' c = some g) ∧
      d'.Holds G' K' loose ∧ d.Alike d' := by
  induction names generalizing d G K dir f done with
  | nil =>
    refine ⟨.ok dir, d, G, K, some dir, rfl, .done, fun c => by simp, ?_, h, .refl d⟩
    rintro _ ⟨⟩
    exact ⟨f, hf⟩
  | cons name names ih =>
    have hlookup := h.lookup_eq hopen hf name
    cases hfind : f.find name with
    | none =>
      rw [hfind] at hlookup
      have hrefused : ∀ e, (makeChild dir (done ++ [name]) name).on d = (.error e, d) →
          (makeFrom done dir (name :: names)).on d = (.error e, d) := fun e herror =>
        (makeFrom_create hlookup).trans (on_bind_error _ herror)
      rcases makeChild_on h hopen hf (done ++ [name]) name with
        ⟨e, -, herror⟩ | ⟨s, grow, hs, -, ⟨-, herror⟩ |
          ⟨d₁, K₁, n, f', c, hmade, hnew, hadds, hholds, halike, -, -⟩⟩
      · exact ⟨.error e, d, G, K, none, hrefused e herror, .refused hf hfind, by simp, by simp, h,
          .refl d⟩
      · exact ⟨_, d, G, K, none, hrefused _ herror, .refused hf hfind, by simp, by simp, h, .refl d⟩
      · have hc : G.withFolder dir (d.upFrom dir) f' (.folder c) c =
            some ⟨some (c, d.upFrom dir), []⟩ := if_pos rfl
        obtain ⟨result, d', G', K', found, hrun, hmakes, hresult, hfound, hholds', halike'⟩ :=
          ih hholds (halike.closed.trans hopen) hc (done ++ [name])
        rw [halike.geometry] at hmakes
        exact ⟨result, d', G', K', found, (makeFrom_create hlookup).trans
            ((on_bind_ok _ hmade).trans hrun),
          .create hf hfind hs hnew hadds ⟨d₁, K₁, loose, hholds, by rw [halike.geometry]⟩ hmakes,
          hresult, hfound, hholds', halike.trans halike'⟩
    | some x =>
      obtain ⟨n, r⟩ := x
      rw [hfind] at hlookup
      have hr := Folder.mem_of_find hfind
      by_cases hfolder : r.body.isFolder = true
      · obtain ⟨htarget, g, hg⟩ := h.target_eq hf hr hfolder
        obtain ⟨result, d', G', K', found, hrun, hmakes, hresult, hfound, hholds', halike'⟩ :=
          ih h hopen hg (done ++ [name])
        rw [← htarget] at hrun
        exact ⟨result, d', G', K', found,
          (makeFrom_enter hlookup ((r.isDirectory_entry n).trans hfolder)).trans hrun,
          .enter hf hfind hfolder hmakes, hresult, hfound, hholds', halike'⟩
      · rw [Bool.not_eq_true] at hfolder
        exact ⟨_, d, G, K, none,
          makeFrom_blocked hlookup ((r.isDirectory_entry n).trans hfolder),
          .blocked hf hfind hfolder, by simp, by simp, h, .refl d⟩

theorem makeDirectory_eq (hopen : d.volume.closed = false) (hwritable : d.volume.readOnly = false)
    (path : String) : (makeDirectory path).on d =
      (makeFrom [] d.volume.geometry.rootCluster (splitPath path)).on d := by
  rw [makeDirectory]
  refine (on_bind_ok _ (on_checkOpen hopen hwritable)).trans ?_
  exact on_bind_ok _ (on_get d)

/-- Making a directory either makes what is missing of its path, or does part of that. -/
theorem makeDirectory_cases (h : d.Holds G K loose) (hopen : d.volume.closed = false)
    (hwritable : d.volume.readOnly = false) (path : String) :
    ∃ result d' G' K' found, (makeDirectory path).on d = (result, d') ∧
      Catalog.Makes d.volume.geometry.rootCluster G d.volume.geometry.rootCluster (splitPath path)
        found G' ∧
      (∀ c, result = .ok c ↔ found = some c) ∧ d'.Holds G' K' loose ∧ d.Alike d' := by
  obtain ⟨f, hf, -⟩ := h.root
  obtain ⟨result, d', G', K', found, hrun, hmakes, hresult, -, hholds, halike⟩ :=
    makeFrom_cases h hopen hf (splitPath path) []
  exact ⟨result, d', G', K', found, (makeDirectory_eq hopen hwritable path).trans hrun, hmakes,
    hresult, hholds, halike⟩

end Edit

end BootImage.Fat
