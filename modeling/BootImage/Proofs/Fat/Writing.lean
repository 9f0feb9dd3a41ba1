import BootImage.Proofs.Bytes.Extending
import BootImage.Proofs.Fat.Making

/-!
# Writing files

A file is written in four steps: the one that it replaces is taken out, clusters are taken, bytes
are copied to them, and the entry is added. Everything that can be refused is refused before the
first of these, except that a source may turn out too short while it is copied. Then the old file is
gone and the clusters belong to nobody.

## Main definitions

* `Disk.Stores`, `Disk.Writes`: how storing a file under a free name ends, and how writing one does.
* `Disk.Refuses`: why a file is refused before anything is changed.

## Main results

* `Edit.removeEntry_on`: taking out the entry of a file.
* `Edit.copyClusters_on`: the bytes of a source in clusters that were taken.
* `Edit.storeFile_on`: a file is stored under a free name, or its source was too short.
* `Edit.writeFile_on`: a file is written, or nothing happens, or its source was too short.
-/

namespace BootImage.Fat

/-! ### Slots that are marked as deleted -/

/-- Marking slots in the bytes of a directory marks them in its list of slots. -/
theorem slotsOf_marked {data : Bytes} {n k : Nat} (h : slotSize ∣ data.length)
    (hle : n + k ≤ (slotsOf data).length) :
    slotSize ∣ ((List.range' n k).foldl
        (fun bs number => Bytes.overlay bs (number * slotSize) [deletedMark]) data).length ∧
      slotsOf ((List.range' n k).foldl
        (fun bs number => Bytes.overlay bs (number * slotSize) [deletedMark]) data) =
        writeFrom (slotsOf data) n (List.replicate k [deletedMark]) := by
  induction k generalizing n data with
  | zero => exact ⟨h, rfl⟩
  | succ k ih =>
    have hlen := length_slotsOf h
    have hroom : slotSize * (n + 1) ≤ data.length := by
      rw [← hlen]
      exact Nat.mul_le_mul_left _ (by omega)
    have hone : ([deletedMark] : Bytes).length ≤ slotSize := by decide
    have hfit : n * slotSize + ([deletedMark] : Bytes).length ≤ data.length := by
      rw [Nat.mul_succ, Nat.mul_comm] at hroom
      omega
    have hmark := slotsOf_overlay h hroom hone
    have hwhole : slotSize ∣ (Bytes.overlay data (n * slotSize) [deletedMark]).length := by
      rwa [Bytes.length_overlay_of_le hfit]
    obtain ⟨hdvd, heq⟩ := ih hwhole (n := n + 1) (by rw [hmark, length_writeAt]; omega)
    rw [List.range'_succ, List.foldl_cons, List.replicate_succ, writeFrom, ← hmark]
    exact ⟨hdvd, heq⟩

namespace Edit

variable {d : Disk} {G : Catalog} {K : Owner → List Nat} {loose : List Nat} {dir : Nat} {f : Folder}
  {o : Owner}

/-- The loop that marks the slots of an entry. -/
theorem markSlots_on (clusters : List Nat) (n k : Nat) (d : Disk) :
    (forIn (List.range' n k) PUnit.unit fun number _ => do
        writeSlot clusters number [deletedMark]
        pure (ForInStep.yield PUnit.unit) : Edit PUnit).on d =
      (.ok PUnit.unit, d.putSlots clusters n (List.replicate k [deletedMark])) := by
  induction k generalizing n d with
  | zero => rfl
  | succ k ih =>
    have hstep : (writeSlot clusters n [deletedMark]).on d =
        (.ok (), d.putSlot clusters n [deletedMark]) := rfl
    rw [List.range'_succ, List.forIn_cons, bind_assoc, on_bind_ok _ hstep]
    exact ih ..

/-! ### Taking out the entry of a file -/

/-- Without one of its entries a directory shows a folder that has one record less. -/
theorem exists_shows_withoutEntry {data : Bytes} {f' : Folder} (h : Shows data f') {n : Nat}
    {r : Record} (hr : (n, r) ∈ f'.records) :
    ∃ f : Folder, f.Adds n r f' ∧ Shows (withoutEntry data (r.entry n)) f := by
  obtain ⟨hle, f, hadds, hstands⟩ := h.2.strike hr
  obtain ⟨hdvd, heq⟩ := slotsOf_marked h.1 hle
  refine ⟨f, hadds, hdvd, ?_⟩
  rw [withoutEntry, Record.entry, heq]
  exact hstands

/-- The record of a file is not that of a directory. -/
theorem ne_of_isFolder (h : d.Holds G K loose) (hf : G dir = some f)
    (ho : G.Starts d.volume.geometry.rootCluster o dir) {dir' n : Nat} {g : Folder} {r : Record}
    (hg : G dir' = some g) (hr : (n, r) ∈ g.records) (hfile : r.body.isFolder = false) :
    o ≠ some (dir', n) := by
  rintro rfl
  have hbody := h.body_eq_folder hf hg hr (h.starts_unique (.record hg hr) ho)
  exact Body.ne_folder_of_isFolder hfile dir hbody

/-- With its slots marked as deleted the record of a file is gone, and its clusters are loose. -/
theorem putSlots_deleted (h : d.Holds G K loose) {f' : Folder} (hf' : G dir = some f')
    (ho : G.Starts d.volume.geometry.rootCluster o dir) {n : Nat} {r : Record}
    (hadds : f.Adds n r f') (hfile : r.body.isFolder = false)
    (hshows : Shows (withoutEntry ((K o).flatMap d.readCluster) (r.entry n)) f) :
    ∃ d', d' = d.putSlots (K o) n (List.replicate r.slots.length [deletedMark]) ∧
      d'.Holds (G.replace dir f) (Function.update K (some (dir, n)) [])
        (K (some (dir, n)) ++ loose) ∧
      d'.volume = d.volume ∧ d.SameBelow d' ∧
      (K o).flatMap d'.readCluster = withoutEntry ((K o).flatMap d.readCluster) (r.entry n) := by
  have hr : (n, r) ∈ f'.records := hadds.mem_iff.2 (.inl rfl)
  obtain ⟨hwhole, hslots, hstands'⟩ := h.stands_bytes hf' ho
  have hrange : ∀ c ∈ K o, d.volume.inRange c = true := fun c hc => (h.owned_used hc).1
  have hle : n + r.slots.length ≤ (slotsOf ((K o).flatMap d.readCluster)).length :=
    (hstands'.strike hr).1
  obtain ⟨-, hmarked⟩ := slotsOf_marked hwhole hle
  obtain ⟨d', hd'⟩ : ∃ d', d' = d.putSlots (K o) n (List.replicate r.slots.length [deletedMark]) :=
    ⟨_, rfl⟩
  obtain ⟨hsound', hvolume, hslots', hframe, hbelow⟩ := h.sound.putSlots hrange
    ((h.linked o dir ho).nodup h.sound) n (List.replicate r.slots.length [deletedMark])
    (by rw [List.length_replicate, ← hslots]; exact hle)
    (fun bs hbs => by rw [(List.mem_replicate.1 hbs).2]; decide)
  rw [← hd'] at hsound' hvolume hslots' hframe hbelow
  rw [← hslots, ← hmarked] at hslots'
  have hrange' : ∀ c ∈ K o, d'.volume.inRange c = true := by rwa [hvolume]
  have hdvd : slotSize ∣ ((K o).flatMap d'.readCluster).length := by
    rw [hsound'.length_readChain hrange']
    exact Dvd.dvd.mul_left hsound'.slots _
  have hstands : f.Stands (d'.slotsIn (K o)) := by
    rw [hslots']
    exact hshows.2
  refine ⟨d', hd', h.remove hf' ho hvolume hsound' hframe hadds hstands
    (Body.ne_folder_of_isFolder hfile), hvolume, hbelow, ?_⟩
  rw [← flatten_slotsOf hdvd, ← flatten_slotsOf hshows.1, hsound'.slotsOf_readChain hrange',
    hslots']
  rfl

/-- The entry of a file is taken out, and its clusters are free then. -/
theorem removeEntry_on (h : d.Holds G K loose) {f' : Folder} (hf' : G dir = some f')
    (ho : G.Starts d.volume.geometry.rootCluster o dir) {n : Nat} {r : Record}
    (hadds : f.Adds n r f') (hfile : r.body.isFolder = false)
    (hshows : Shows (withoutEntry ((K o).flatMap d.readCluster) (r.entry n)) f) :
    ∃ d' K', (removeEntry dir (r.entry n)).on d = (.ok (), d') ∧
      d'.Holds (G.replace dir f) K' loose ∧ d.Alike d' ∧
      d'.volume.free = d.volume.free + (K (some (dir, n))).length ∧ K' o = K o ∧
      (K o).flatMap d'.readCluster = withoutEntry ((K o).flatMap d.readCluster) (r.entry n) := by
  have hr : (n, r) ∈ f'.records := hadds.mem_iff.2 (.inl rfl)
  have hchain := h.chain_of_starts hf' ho
  have hupdate : Function.update K (some (dir, n)) [] o = K o :=
    Function.update_of_ne (ne_of_isFolder h hf' ho hf' hr hfile) _ _
  obtain ⟨d₁, hd₁, hholds₁, hvolume₁, hbelow₁, hdata₁⟩ :=
    putSlots_deleted h hf' ho hadds hfile hshows
  have hmark := markSlots_on (K o) n r.slots.length d
  rw [← hd₁] at hmark
  have hquery : (query (·.volume.chain dir)).on d = (.ok (K o), d) := by
    rw [on_query, Volume.chain_eq h.sound.few hchain]
  have hrun : (removeEntry dir (r.entry n)).on d =
      (if r.body.first ≠ 0 then release r.body.first else pure ()).on d₁ := by
    rw [removeEntry]
    exact (on_bind_ok _ hquery).trans (on_bind_ok _ hmark)
  have hlinked : d.Linked r.body.first (K (some (dir, n))) := h.linked _ _ (.record hf' hr)
  by_cases hzero : r.body.first = 0
  · rw [hzero] at hlinked
    have hnil := hlinked.eq_nil
    rw [hnil] at hholds₁
    refine ⟨d₁, _, ?_, hholds₁, .of_below hvolume₁ hbelow₁, ?_, hupdate, hdata₁⟩
    · rw [hrun, if_neg (not_not.2 hzero)]
      rfl
    · rw [hvolume₁, hnil]
      rfl
  · have hchain₁ : d₁.HasChain r.body.first (K (some (dir, n))) := by
      rw [Disk.HasChain, hvolume₁]
      exact hlinked.hasChain hzero
    obtain ⟨t, hrelease, -, hholds₂⟩ := hholds₁.release hchain₁
    refine ⟨_, _, ?_, hholds₂, ?_, ?_, hupdate, hdata₁⟩
    · rw [hrun, if_pos hzero, release]
      refine onVolume_ok ?_
      rw [hrelease]
      rfl
    · exact (Disk.Alike.of_below hvolume₁ hbelow₁).trans (.of_table ..)
    · show d₁.volume.free + _ = _
      rw [hvolume₁]

/-! ### Copying to clusters that were taken -/

/-- Copying to the first of some clusters: what is read for it is all that was wanted, or the source
is too short. -/
theorem copyClusters_cons_on (path : String) (source : Content) (position remaining c : Nat)
    (cs : List Nat) {wanted : Nat}
    (hwanted : wanted = min d.volume.geometry.clusterSize remaining) :
    (copyClusters path source position remaining (c :: cs)).on d =
      if (source.read position wanted).length = wanted then
        (copyClusters path source (position + wanted) (remaining - wanted) cs).on
          (d.writeCluster c (source.read position wanted))
      else (.error (.shortSource path (remaining - (source.read position wanted).length)), d) := by
  rw [copyClusters]
  refine (on_bind_ok _ (on_get d)).trans ?_
  simp only [← hwanted]
  by_cases hread : (source.read position wanted).length = wanted
  · rw [if_pos hread, on_pass (not_not.2 hread)]
    exact on_bind_ok _ (on_modify _ _)
  · rw [if_neg hread, on_refuse hread]

/-- Bytes that fill whole clusters but for the last one, read from the first cluster and then from
the others. -/
theorem take_readCluster_append {source : Content} {position remaining size wanted : Nat}
    {rest : Bytes} (hwanted : wanted = min size remaining)
    (hle : position + remaining ≤ source.size)
    (hrest : rest.take (remaining - wanted) =
      source.read (position + wanted) (remaining - wanted)) :
    (source.read position wanted ++ Bytes.zeros (size - wanted) ++ rest).take remaining =
      source.read position remaining := by
  have hlen : (source.read position wanted).length = wanted := by
    rw [Content.length_read]
    omega
  have hlast : (Bytes.zeros (size - wanted) ++ rest).take (remaining - wanted) =
      source.read (position + wanted) (remaining - wanted) := by
    rcases Nat.le_total size remaining with hge | hge
    · rw [show size - wanted = 0 by omega]
      exact hrest
    · rw [show remaining - wanted = 0 by omega, List.take_zero]
      exact (List.eq_nil_of_length_eq_zero (by simp)).symm
  rw [List.append_assoc, List.take_append, List.take_of_length_le (by omega), hlen, hlast,
    ← Content.read_add _ _ (by omega), Nat.add_sub_cancel' (by omega)]

/-- Bytes are copied to loose clusters that have room for them, unless the source is too short. -/
theorem copyClusters_on (path : String) (source : Content) {cs : List Nat}
    {position remaining : Nat} (h : d.Holds G K loose) (hloose : ∀ x ∈ cs, x ∈ loose)
    (hnodup : cs.Nodup) (hroom : remaining ≤ cs.length * d.volume.geometry.clusterSize)
    (hposition : position ≤ source.size) :
    ∃ d', (copyClusters path source position remaining cs).on d =
        (if position + remaining ≤ source.size then .ok ()
          else .error (.shortSource path (position + remaining - source.size)), d') ∧
      d'.Holds G K loose ∧ d'.volume = d.volume ∧ d.SameBelow d' ∧
      (∀ x, d.volume.inRange x = true → x ∉ cs → d'.readCluster x = d.readCluster x) ∧
      (position + remaining ≤ source.size →
        (cs.flatMap d'.readCluster).take remaining = source.read position remaining) := by
  induction cs generalizing d position remaining with
  | nil =>
    obtain rfl : remaining = 0 := by simpa using hroom
    refine ⟨d, ?_, h, rfl, .refl d, fun _ _ _ => rfl, fun _ => ?_⟩
    · rw [if_pos (by omega)]
      rfl
    · rw [List.take_zero]
      exact (List.eq_nil_of_length_eq_zero (by simp)).symm
  | cons c cs ih =>
    rw [List.forall_mem_cons] at hloose
    rw [List.nodup_cons] at hnodup
    obtain ⟨wanted, hwanted⟩ : ∃ n, n = min d.volume.geometry.clusterSize remaining := ⟨_, rfl⟩
    have hlen := source.length_read position wanted
    rw [copyClusters_cons_on path source position remaining c cs hwanted]
    by_cases hshort : (source.read position wanted).length = wanted
    · have hin := (h.loose_used c hloose.1).1
      have hfit : (source.read position wanted).length ≤ d.volume.geometry.clusterSize := by omega
      rw [List.length_cons, Nat.succ_mul] at hroom
      have hroom₁ : remaining - wanted ≤ cs.length * d.volume.geometry.clusterSize := by omega
      obtain ⟨d', hrun, hholds', hvolume, hbelow, hframe, hread⟩ :=
        ih (h.writeCluster hloose.1 hfit) hloose.2 hnodup.2 hroom₁
          (by omega : position + wanted ≤ source.size)
      have htotal : position + wanted + (remaining - wanted) = position + remaining := by omega
      rw [htotal] at hrun hread
      have hother : ∀ x, d.volume.inRange x = true → x ∉ c :: cs →
          d'.readCluster x = d.readCluster x := by
        intro x hx hnot
        rw [List.mem_cons, not_or] at hnot
        rw [hframe x hx hnot.2, h.sound.readCluster_writeCluster hx hin hfit, if_neg hnot.1]
      have hfirst : d'.readCluster c = source.read position wanted ++
          Bytes.zeros (d.volume.geometry.clusterSize - (source.read position wanted).length) := by
        rw [hframe c hin hnodup.1, h.sound.readCluster_writeCluster hin hin hfit, if_pos rfl]
      have hbelow₁ := h.sound.sameBelow_writeCluster hin hfit
      rw [if_pos hshort]
      refine ⟨d', hrun, hholds', hvolume, hbelow₁.trans hbelow rfl, hother, fun hle => ?_⟩
      rw [List.flatMap_cons, hfirst, hshort]
      exact take_readCluster_append hwanted hle (hread hle)
    · rw [if_neg hshort, if_neg (by omega), show remaining - (source.read position wanted).length =
        position + remaining - source.size by omega]
      exact ⟨d, rfl, h, rfl, .refl d, fun _ _ _ => rfl, fun hle => by omega⟩

end Edit

/-! ### Storing a file -/

/-- What storing a file under a free name gives. The disk stays as it is where the size is negative;
a source that is too short leaves clusters behind that belong to nobody. -/
inductive Disk.Stores (d : Disk) (G : Catalog) (loose : List Nat) (dir : Nat) (f : Folder)
    (name path : String) (source : Content) (size : Int) : Except Error Unit → Disk → Prop
  | negative {e : Error} (hsize : size < 0) :
      Stores d G loose dir f name path source size (.error e) d
  | short {d' : Disk} {K' : Owner → List Nat} {cs : List Nat} (hsize : source.size < size.toNat)
      (hholds : d'.Holds G K' (cs ++ loose)) (halike : d.Alike d')
      (hless : d'.volume.free < d.volume.free) : Stores d G loose dir f name path source size
        (.error (.shortSource path (size.toNat - source.size))) d'
  | stored {d' : Disk} {K' : Owner → List Nat} {s : Spelling} {n c : Nat} {f' : Folder}
      (hpos : 0 ≤ size) (hsize : size.toNat ≤ source.size)
      (hspelling : spellingOf name f.taken = .ok s)
      (hadds : f.Adds n ⟨s, .file c (source.read 0 size.toNat)⟩ f')
      (hholds : d'.Holds
        (G.withFolder dir (d.upFrom dir) f' (.file c (source.read 0 size.toNat))) K' loose)
      (halike : d.Alike d') : Stores d G loose dir f name path source size (.ok ()) d'

namespace Edit

variable {d : Disk} {G : Catalog} {K : Owner → List Nat} {loose : List Nat} {dir : Nat} {f : Folder}
  {o : Owner}

/-- The part of writing a file that follows once its name is free. -/
def storeFile (parent : Nat) (name path : String) (source : Content) (size needed : Int) :
    Edit Unit := do
  let clusters ← allocate needed
  copyClusters path source 0 size.toNat clusters
  addEntry parent name archiveAttribute (clusters.headD 0) size

/-- A negative size fails before anything is changed. -/
theorem storeFile_negative {data : Bytes} {cs : List Nat}
    (hdirectory : d.directory dir = .ok (cs, data)) (hshows : Shows data f)
    (name path : String) (source : Content) {size needed : Int} (hsize : size < 0)
    (hneeded : needed ≤ 0) :
    ∃ e, (storeFile dir name path source size needed).on d = (.error e, d) := by
  rcases Int.lt_or_eq_of_le hneeded with hlt | rfl
  · have halloc : d.volume.allocate needed = .error .noLastCluster := by
      rw [Volume.allocate, if_neg (by omega), if_neg (by omega), if_pos hlt]
      rfl
    exact ⟨_, on_bind_error _ (onVolume_error halloc)⟩
  · have halloc : d.volume.allocate 0 = .ok ([], d.volume) := rfl
    have hencode := encodeEntry_taken hshows name (.file 0 [])
      (show 0 < 0x100000000 by decide) size
    have hfail : ∃ e, encodeEntry name (shortNames (parse data)).contains
        archiveAttribute.toNat 0 size = .error e := by
      cases hs : spellingOf name f.taken with
      | error e =>
        rw [hs] at hencode
        exact ⟨e, hencode⟩
      | ok s =>
        rw [hs, Except.bind, if_neg (by omega)] at hencode
        exact ⟨_, hencode⟩
    obtain ⟨e, he⟩ := hfail
    refine ⟨e, ?_⟩
    rw [storeFile]
    refine (on_bind_ok _ (onVolume_ok halloc)).trans ?_
    refine (on_bind_ok _ (on_pure () d)).trans ?_
    rw [addEntry]
    refine (on_bind_ok _ ((on_query _ d).trans (congrArg (·, d) hdirectory))).trans ?_
    exact on_bind_error _ ((on_query _ d).trans (congrArg (·, d) he))

theorem maxQuotient_pos : 0 < maxQuotient :=
  Int.sub_pos_of_lt (Int.pow_lt_pow_of_lt (by decide) (by decide))

/-- The clusters for a file, counted from its size. -/
theorem clustersFor_eq (hpos : 0 < d.volume.geometry.clusterSize) (size : Nat) :
    ((size : Int) + ((d.volume.geometry.clusterSize : Int) - 1)) /
      d.volume.geometry.clusterSize = d.clustersFor size := by
  rw [Disk.clustersFor, Int.natCast_ediv, Int.natCast_add, Int.natCast_sub (by omega)]
  rfl

theorem le_clustersFor (hpos : 0 < d.volume.geometry.clusterSize) (size : Nat) :
    size ≤ d.clustersFor size * d.volume.geometry.clusterSize := by
  have hdiv := Nat.div_add_mod (size + (d.volume.geometry.clusterSize - 1))
    d.volume.geometry.clusterSize
  have hmod := Nat.mod_lt (size + (d.volume.geometry.clusterSize - 1)) hpos
  rw [Disk.clustersFor, Nat.mul_comm]
  omega

/-- Clusters are taken for a file, and its bytes are copied to them as far as the source goes. -/
theorem fillClusters_on (h : d.Holds G K loose) (path : String) (source : Content) {count : Nat}
    (hcount : d.clustersFor count ≤ d.volume.free) (up : Nat) :
    ∃ found d₁ d₂, (allocate (d.clustersFor count)).on d = (.ok found, d₁) ∧
      (copyClusters path source 0 count found).on d₁ = (if count ≤ source.size then .ok ()
        else .error (.shortSource path (count - source.size)), d₂) ∧
      found.length = d.clustersFor count ∧ d₂.Holds G K (found ++ loose) ∧ d.Alike d₂ ∧
      d₂.volume.free + d.clustersFor count = d.volume.free ∧
      (count ≤ source.size → d.Supplies G K loose up found
        (.file (found.headD 0) (source.read 0 count)) d₂) := by
  have hpos := h.sound.pos
  obtain ⟨found, t, hint, halloc, hlen, -, hwas, hlinked, hholds⟩ := h.allocate hcount
  obtain ⟨d₁, hd₁⟩ : ∃ d₁ : Disk, d₁ = ⟨{ d.volume with
      table := t, free := d.volume.free - d.clustersFor count, hint }, d.content⟩ := ⟨_, rfl⟩
  rw [← hd₁] at hholds
  have halike₁ : d.Alike d₁ := hd₁ ▸ .of_table d t _ hint
  have hfree₁ : d₁.volume.free = d.volume.free - d.clustersFor count := hd₁ ▸ rfl
  have hread₁ : d₁.readCluster = d.readCluster := hd₁ ▸ rfl
  have hrange : ∀ x, d₁.volume.inRange x = d.volume.inRange x := fun x => hd₁ ▸ rfl
  have hlong : count ≤ found.length * d₁.volume.geometry.clusterSize := by
    rw [halike₁.geometry, hlen]
    exact le_clustersFor hpos count
  obtain ⟨d₂, hcopy, hholds₂, hvolume₂, hbelow, hframe, hread⟩ := copyClusters_on path source
    hholds (fun x hx => List.mem_append_left _ hx) (List.nodup_append.1 hholds.loose_nodup).1 hlong
    (Nat.zero_le source.size)
  rw [Nat.zero_add] at hcopy hread
  have halike₂ : d.Alike d₂ := halike₁.trans (.of_below hvolume₂ hbelow)
  have hfree₂ : d₂.volume.free + d.clustersFor count = d.volume.free := by
    rw [hvolume₂, hfree₁, Nat.sub_add_cancel hcount]
  refine ⟨found, d₁, d₂, hd₁ ▸ onVolume_ok halloc, hcopy, hlen, hholds₂, halike₂, hfree₂,
    fun hfull => ?_⟩
  have hbytes : (source.read 0 count).length = count := by
    rw [Content.length_read]
    omega
  refine
    { holds := hholds₂, alike := halike₂, free := hlen ▸ hfree₂, read := fun o x hx => ?_
      linked := ?_, ready := ⟨fun hempty => ?_, ?_, ?_⟩ }
  · obtain ⟨hin, hused⟩ := h.owned_used hx
    rw [hframe x ((hrange x).trans hin) fun hmem => hused (hwas x hmem), hread₁]
  · cases hfound : found with
    | nil => rfl
    | cons c rest =>
      have hchain : d₁.HasChain c (c :: rest) := hd₁ ▸ hfound ▸ hlinked c rest hfound
      have hchain₂ : d₂.HasChain c (c :: rest) := by rwa [Disk.HasChain, hvolume₂]
      exact hchain₂.linked
  · rw [hempty] at hbytes
    have hzero : d.clustersFor 0 = 0 := Nat.div_eq_of_lt (by omega)
    rw [← hbytes, List.length_nil, hzero] at hlen
    rw [List.eq_nil_of_length_eq_zero hlen]
    rfl
  · rw [hlen, hbytes, Disk.clustersFor, Disk.clustersFor, halike₂.geometry]
  · rw [hbytes]
    exact hread hfull

/-- A file is stored under a free name, as far as its source goes. What is free then is less by just
the clusters that were counted before, and so much longer is the chain of the directory. -/
theorem storeFile_on (h : d.Holds G K loose) (hopen : d.volume.closed = false)
    (hf : G dir = some f) (ho : G.Starts d.volume.geometry.rootCluster o dir)
    {name : String} (path : String) (source : Content) {size : Int} (hmax : size ≤ maxFileSize)
    {s : Spelling} (hs : spellingOf name f.taken = .ok s)
    (hroom : (size + ((d.volume.geometry.clusterSize : Int) - 1)) / d.volume.geometry.clusterSize +
      growth ((K o).flatMap d.readCluster) d.volume.geometry.clusterSize (s.longPart.length + 1) ≤
        d.volume.free) :
    ∃ result d', (storeFile dir name path source size
        ((size + ((d.volume.geometry.clusterSize : Int) - 1)) /
          d.volume.geometry.clusterSize)).on d = (result, d') ∧
        d.Stores G loose dir f name path source size result d' ∧
        (result = .ok () →
          d'.volume.free + (d.clustersFor size.toNat + growth ((K o).flatMap d.readCluster)
            d.volume.geometry.clusterSize (s.longPart.length + 1)) = d.volume.free ∧
          ∃ more, more.length = growth ((K o).flatMap d.readCluster) d.volume.geometry.clusterSize
            (s.longPart.length + 1) ∧ d'.HasChain dir (K o ++ more)) := by
  have hpos := h.sound.pos
  obtain ⟨hwhole, -, hstands⟩ := h.stands_bytes hf ho
  rcases lt_or_ge size 0 with hsize | hsize
  · have hneeded : (size + ((d.volume.geometry.clusterSize : Int) - 1)) /
        d.volume.geometry.clusterSize ≤ 0 :=
      Int.lt_add_one_iff.1 (Int.ediv_lt_of_lt_mul (by omega) (by omega))
    obtain ⟨e, he⟩ := storeFile_negative (h.directory_eq hopen hf ho) ⟨hwhole, hstands⟩ name path
      source hsize hneeded
    exact ⟨_, _, he, .negative hsize, by simp⟩
  · obtain ⟨count, rfl⟩ := Int.eq_ofNat_of_zero_le hsize
    have hcount := clustersFor_eq hpos count
    rw [hcount] at hroom ⊢
    have hcount' : d.clustersFor count ≤ d.volume.free := by omega
    obtain ⟨found, d₁, d₂, hstart, hcopy, hlen, hholds₂, halike₂, hfree₂, hsupplies⟩ :=
      fillClusters_on h path source hcount' (d.upFrom dir)
    by_cases hshort : count ≤ source.size
    · rw [if_pos hshort] at hcopy
      have hbytes : (source.read 0 count).length = count := by
        rw [Content.length_read]
        omega
      have hmax' : (source.read 0 count).length < 0x100000000 := by
        rw [hbytes]
        rw [maxFileSize] at hmax
        omega
      obtain ⟨d', K', n, f', hadd, hadds, hholds', halike', hfree', more, hmore, hchain'⟩ :=
        addEntry_supplied (hsupplies hshort) hopen hf ho hs hmax' (by rw [hlen]; omega)
      rw [hlen] at hfree'
      refine ⟨.ok (), d', ?_, .stored hsize hshort hs hadds hholds' halike',
        fun _ => ⟨hfree', more, hmore, hchain'⟩⟩
      rw [storeFile]
      refine (on_bind_ok _ hstart).trans ?_
      refine (on_bind_ok _ hcopy).trans ?_
      rw [show (Body.file (found.headD 0) (source.read 0 count)).bytes.length = count from hbytes]
        at hadd
      exact hadd
    · rw [if_neg hshort] at hcopy
      refine ⟨_, d₂, ?_, .short (by simpa using hshort) hholds₂ halike₂ ?_, by simp⟩
      · rw [storeFile]
        refine (on_bind_ok _ hstart).trans ?_
        exact on_bind_error _ hcopy
      · have hle := le_clustersFor hpos count
        have hone : 0 < d.clustersFor count := by
          refine Nat.pos_of_ne_zero fun hzero => ?_
          rw [hzero] at hle
          omega
        omega

end Edit

/-! ### Writing a file -/

/-- A name can be spelled in a folder, and the clusters for the bytes and for as many slots as the
spelling has are free. -/
def Disk.HasRoom (d : Disk) (name : String) (size : Int) (f : Folder) : Prop :=
  ∃ s, spellingOf name f.taken = .ok s ∧
    (size + ((d.volume.geometry.clusterSize : Int) - 1)) / d.volume.geometry.clusterSize +
      (s.longPart.length + 1 : Nat) ≤ d.volume.free

theorem Disk.hasRoom_of_le {d : Disk} {name : String} {size : Int} {f : Folder} {s : Spelling}
    (hs : spellingOf name f.taken = .ok s) (hpos : 0 < d.volume.geometry.clusterSize)
    (hsize : 0 ≤ size) (hle : size + (s.longPart.length + 1 : Nat) ≤ d.volume.free) :
    d.HasRoom name size f := by
  have hone : (1 : Int) ≤ d.volume.geometry.clusterSize := by exact_mod_cast hpos
  have hmul : size + ((d.volume.geometry.clusterSize : Int) - 1) <
      (size + 1) * d.volume.geometry.clusterSize := by
    have hmore := Int.mul_le_mul_of_nonneg_left hone hsize
    rw [Int.add_mul, Int.one_mul]
    omega
  have hdiv := Int.ediv_lt_of_lt_mul (by omega) hmul
  exact ⟨s, hs, by omega⟩

/-- Why a file is not written. -/
inductive Disk.Refuses (d : Disk) (G : Catalog) (path : String) (size : Int) : Prop
  | noName (h : splitPath path = [])
  | tooLarge (h : size > Edit.maxFileSize)
  | tooSmall (h : size ≤ -(Edit.maxQuotient * d.volume.geometry.clusterSize))
  | noDirectory (h : G.descend d.volume.geometry.rootCluster (splitPath path).dropLast = none)
  | isDirectory {dir n : Nat} {name : String} {f : Folder} {r : Record}
      (hname : (splitPath path).getLast? = some name)
      (hdir : G.descend d.volume.geometry.rootCluster (splitPath path).dropLast = some dir)
      (hf : G dir = some f) (hfind : f.find name = some (n, r)) (hfolder : r.body.isFolder = true)
  | noRoom {dir : Nat} {name : String} {f : Folder} (hname : (splitPath path).getLast? = some name)
      (hdir : G.descend d.volume.geometry.rootCluster (splitPath path).dropLast = some dir)
      (hf : G dir = some f) (hfind : f.find name = none) (hroom : ¬ d.HasRoom name size f)
  | noRoomInPlace {dir n : Nat} {name : String} {f f₁ : Folder} {r : Record}
      (hname : (splitPath path).getLast? = some name)
      (hdir : G.descend d.volume.geometry.rootCluster (splitPath path).dropLast = some dir)
      (hf : G dir = some f) (hfind : f.find name = some (n, r)) (hadds : f₁.Adds n r f)
      (hroom : ¬ d.HasRoom name size f₁)

/-- What writing a file gives: it is refused and the disk stays as it is, or it is stored, in the
place of a file that is taken out before if there is one. -/
inductive Disk.Writes (d : Disk) (G : Catalog) (loose : List Nat) (path : String)
    (source : Content) (size : Int) : Except Error Unit → Disk → Prop
  | refused {e : Error} (he : ∀ path missing, e ≠ .shortSource path missing)
      (hwhy : d.Refuses G path size) : Writes d G loose path source size (.error e) d
  | fresh {dir : Nat} {name : String} {f : Folder} {result : Except Error Unit} {d' : Disk}
      (hname : (splitPath path).getLast? = some name)
      (hdir : G.descend d.volume.geometry.rootCluster (splitPath path).dropLast = some dir)
      (hf : G dir = some f) (hfind : f.find name = none)
      (hstores : d.Stores G loose dir f name path source size result d') :
      Writes d G loose path source size result d'
  | replaced {dir n : Nat} {name : String} {f f₁ : Folder} {r : Record} {d₁ : Disk}
      {K₁ : Owner → List Nat} {result : Except Error Unit} {d' : Disk}
      (hname : (splitPath path).getLast? = some name)
      (hdir : G.descend d.volume.geometry.rootCluster (splitPath path).dropLast = some dir)
      (hf : G dir = some f) (hfind : f.find name = some (n, r)) (hfile : r.body.isFolder = false)
      (hadds : f₁.Adds n r f) (hholds : d₁.Holds (G.replace dir f₁) K₁ loose)
      (halike : d.Alike d₁)
      (hstores : d₁.Stores (G.replace dir f₁) loose dir f₁ name path source size result d') :
      Writes d G loose path source size result d'

/-- The count of clusters that the file which is replaced gives back. -/
def Disk.reclaimed (d : Disk) : Option DirEntry → Except Error Nat
  | none => .ok 0
  | some e => if e.cluster = 0 then .ok 0 else (d.volume.chain e.cluster).map List.length

theorem Disk.Holds.reclaimed_eq {d : Disk} {G : Catalog} {K : Owner → List Nat} {loose : List Nat}
    (h : d.Holds G K loose) {dir n : Nat} {f : Folder} {r : Record} (hf : G dir = some f)
    (hr : (n, r) ∈ f.records) :
    d.reclaimed (some (r.entry n)) = .ok (K (some (dir, n))).length := by
  have hcluster : (r.entry n).cluster = r.body.first := rfl
  have hlinked : d.Linked r.body.first (K (some (dir, n))) := h.linked _ _ (.record hf hr)
  rw [Disk.reclaimed, hcluster]
  split
  · rename_i hzero
    rw [hzero] at hlinked
    rw [hlinked.eq_nil, List.length_nil]
  · rename_i hne
    rw [Volume.chain_eq h.sound.few (hlinked.hasChain hne), Except.map]

namespace Edit

variable {d : Disk} {G : Catalog} {K : Owner → List Nat} {loose : List Nat} {dir : Nat} {f : Folder}
  {o : Owner}

/-- The part of writing a file that follows once it is known what its name stands for. -/
def putFile (parent : Nat) (name path : String) (source : Content) (size needed : Int)
    (old : Option DirEntry) (clusterSize reclaimed : Nat) : Edit Unit := do
  let grow ← neededGrowth parent name archiveAttribute old
  let free := (← get).volume.free + reclaimed
  if needed + grow > free then
    throw (.noRoomForFile path ((needed + grow) * clusterSize) (free * clusterSize))
  if let some e := old then removeEntry parent e
  storeFile parent name path source size needed

section PutFile

variable {name path : String} {source : Content} {size needed : Int} {old : Option DirEntry}
  {clusterSize reclaimed grow : Nat}

/-- Nothing happens where not enough clusters are free. -/
theorem putFile_refused
    (hneeded : (neededGrowth dir name archiveAttribute old).on d = (.ok grow, d))
    (hroom : needed + grow > ((d.volume.free + reclaimed : Nat) : Int)) :
    (putFile dir name path source size needed old clusterSize reclaimed).on d =
      (.error (.noRoomForFile path ((needed + grow) * clusterSize)
        (((d.volume.free + reclaimed : Nat) : Int) * clusterSize)), d) := by
  rw [putFile]
  refine (on_bind_ok _ hneeded).trans ?_
  refine (on_bind_ok _ (on_get d)).trans ?_
  exact on_refuse hroom _ _ d

/-- A file is stored where enough clusters are free and nothing is replaced. -/
theorem putFile_none (hneeded : (neededGrowth dir name archiveAttribute none).on d = (.ok grow, d))
    (hroom : ¬ needed + grow > ((d.volume.free + reclaimed : Nat) : Int)) :
    (putFile dir name path source size needed none clusterSize reclaimed).on d =
      (storeFile dir name path source size needed).on d := by
  rw [putFile]
  refine (on_bind_ok _ hneeded).trans ?_
  refine (on_bind_ok _ (on_get d)).trans ?_
  exact on_pass hroom _ _ d

/-- A file is stored where enough clusters are free once the one that it replaces is taken out. -/
theorem putFile_some {e : DirEntry} {d₁ : Disk}
    (hneeded : (neededGrowth dir name archiveAttribute (some e)).on d = (.ok grow, d))
    (hroom : ¬ needed + grow > ((d.volume.free + reclaimed : Nat) : Int))
    (hremove : (removeEntry dir e).on d = (.ok (), d₁)) :
    (putFile dir name path source size needed (some e) clusterSize reclaimed).on d =
      (storeFile dir name path source size needed).on d₁ := by
  rw [putFile]
  refine (on_bind_ok _ hneeded).trans ?_
  refine (on_bind_ok _ (on_get d)).trans ?_
  refine (on_pass hroom _ _ d).trans ?_
  exact on_bind_ok _ hremove

end PutFile

/-- Nothing happens unless the name has a spelling in the folder that it goes into, and the clusters
that are needed are free or become so. -/
theorem putFile_room {name : String} (path : String) (source : Content) {size : Int}
    {old : Option DirEntry} {reclaimed : Nat} {data : Bytes} (hs : d.Sound) (hshows : Shows data f)
    (hneeded : (neededGrowth dir name archiveAttribute old).on d =
      ((spellingOf name f.taken).map fun s =>
        growth data d.volume.geometry.clusterSize (s.longPart.length + 1), d)) :
    (∃ e, (putFile dir name path source size
        ((size + ((d.volume.geometry.clusterSize : Int) - 1)) / d.volume.geometry.clusterSize) old
        d.volume.geometry.clusterSize reclaimed).on d = (.error e, d) ∧
      (∀ path missing, e ≠ .shortSource path missing) ∧ ¬ d.HasRoom name size f) ∨
    ∃ s, spellingOf name f.taken = .ok s ∧
      ¬ (size + ((d.volume.geometry.clusterSize : Int) - 1)) / d.volume.geometry.clusterSize +
        (growth data d.volume.geometry.clusterSize (s.longPart.length + 1) : Nat) >
          ((d.volume.free + reclaimed : Nat) : Int) := by
  cases hspelling : spellingOf name f.taken with
  | error e =>
    rw [hspelling] at hneeded
    refine .inl ⟨e, on_bind_error _ hneeded, spellingOf_ne_shortSource hspelling, ?_⟩
    rintro ⟨s, hs', -⟩
    rw [hspelling] at hs'
    cases hs'
  | ok s =>
    rw [hspelling] at hneeded
    by_cases hroom : (size + ((d.volume.geometry.clusterSize : Int) - 1)) /
        d.volume.geometry.clusterSize + (growth data d.volume.geometry.clusterSize
          (s.longPart.length + 1) : Nat) > ((d.volume.free + reclaimed : Nat) : Int)
    · refine .inl ⟨_, putFile_refused hneeded hroom, by simp, ?_⟩
      rintro ⟨s', hs', hle⟩
      obtain rfl := Except.ok.inj (hspelling.symm.trans hs')
      have hgrowth : growth data d.volume.geometry.clusterSize (s.longPart.length + 1) ≤
          s.longPart.length + 1 :=
        (growth_facts hshows.1 hs.slots hs.pos (Nat.succ_pos _)).2.1
      omega
    · exact .inr ⟨s, rfl, hroom⟩

/-- A file is stored under a name that nothing answers to, unless it is refused. -/
theorem putFile_fresh (h : d.Holds G K loose) (hopen : d.volume.closed = false)
    (hf : G dir = some f) (name path : String) (source : Content) {size : Int}
    (hmax : size ≤ maxFileSize) :
    ∃ result d', (putFile dir name path source size
        ((size + ((d.volume.geometry.clusterSize : Int) - 1)) / d.volume.geometry.clusterSize) none
        d.volume.geometry.clusterSize 0).on d = (result, d') ∧
      ((∃ e, result = .error e ∧ d' = d ∧ (∀ path missing, e ≠ .shortSource path missing) ∧
          ¬ d.HasRoom name size f) ∨
        d.Stores G loose dir f name path source size result d') := by
  obtain ⟨o, ho, -, -⟩ := h.exists_owner hf
  obtain ⟨hwhole, -, hstands⟩ := h.stands_bytes hf ho
  have hneeded := neededGrowth_on h hopen hf ho name (.file 0 []) none rfl
    ⟨hwhole, hstands⟩
  rcases putFile_room path source h.sound ⟨hwhole, hstands⟩ hneeded with
    ⟨e, hrun, he, hroom⟩ | ⟨s, hs, hroom⟩
  · exact ⟨_, d, hrun, .inl ⟨e, rfl, rfl, he, hroom⟩⟩
  · obtain ⟨result, d', hrun, hstores, -⟩ := storeFile_on h hopen hf ho path source hmax hs
      (by simpa using hroom)
    rw [hs] at hneeded
    exact ⟨result, d', (putFile_none hneeded hroom).trans hrun, .inr hstores⟩

/-- A file that answers to a name stays if the new one is refused; else it is taken out, and the new
one is stored under the name. -/
theorem putFile_replaced (h : d.Holds G K loose) (hopen : d.volume.closed = false)
    (hf : G dir = some f) (name path : String) (source : Content) {size : Int}
    (hmax : size ≤ maxFileSize) {n : Nat} {r : Record} (hr : (n, r) ∈ f.records)
    (hfile : r.body.isFolder = false) :
    ∃ result d' f₁, (putFile dir name path source size
        ((size + ((d.volume.geometry.clusterSize : Int) - 1)) / d.volume.geometry.clusterSize)
        (some (r.entry n)) d.volume.geometry.clusterSize (K (some (dir, n))).length).on d =
          (result, d') ∧ f₁.Adds n r f ∧
      ((∃ e, result = .error e ∧ d' = d ∧ (∀ path missing, e ≠ .shortSource path missing) ∧
          ¬ d.HasRoom name size f₁) ∨
        ∃ d₁ K₁, d₁.Holds (G.replace dir f₁) K₁ loose ∧ d.Alike d₁ ∧
          d₁.Stores (G.replace dir f₁) loose dir f₁ name path source size result d') := by
  obtain ⟨o, ho, -, -⟩ := h.exists_owner hf
  obtain ⟨hwhole, -, hstands⟩ := h.stands_bytes hf ho
  obtain ⟨f₁, hadds, hshows⟩ := exists_shows_withoutEntry ⟨hwhole, hstands⟩ hr
  have hneeded := neededGrowth_on h hopen hf ho name (.file 0 []) (some (r.entry n)) rfl
    hshows
  rcases putFile_room path source h.sound hshows hneeded with
    ⟨e, hrun, he, hroom⟩ | ⟨s, hs, hroom⟩
  · exact ⟨_, d, f₁, hrun, hadds, .inl ⟨e, rfl, rfl, he, hroom⟩⟩
  · obtain ⟨d₁, K₁, hremove, hholds₁, halike, hfree, hK, hdata⟩ :=
      removeEntry_on h hf ho hadds hfile hshows
    have hgeometry := halike.geometry
    have ho₁ : (G.replace dir f₁).Starts d₁.volume.geometry.rootCluster o dir := by
      rw [hgeometry]
      exact ho.replace hf hadds (ne_of_isFolder h hf ho hf hr hfile)
    obtain ⟨result, d', hrun, hstores, -⟩ := storeFile_on hholds₁ (halike.closed.trans hopen)
      (Catalog.replace_self ..) ho₁ path source hmax hs
      (by rw [hK, hdata, hgeometry, hfree]; exact not_lt.1 hroom)
    rw [hgeometry] at hrun
    rw [hs] at hneeded
    exact ⟨result, d', f₁, (putFile_some hneeded hroom hremove).trans hrun, hadds,
      .inr ⟨d₁, K₁, hholds₁, halike, hstores⟩⟩

/-- The part of writing a file that follows once its directory is known. -/
def putNamed (parent : Nat) (name path image : String) (source : Content) (size : Int)
    (clusterSize : Nat) : Edit Unit := do
  let needed : Int := (size + (clusterSize - 1)) / clusterSize
  let old ← query (·.lookup parent name)
  let mut reclaimed := 0
  if let some e := old then
    if e.isDirectory then throw (.isDirectory image (Disk.pathText (splitPath path)))
    if e.cluster ≠ 0 then reclaimed := (← query (·.volume.chain e.cluster)).length
  putFile parent name path source size needed old clusterSize reclaimed

/-- A file that is there already is replaced, and a directory is not. -/
theorem putNamed_eq {name : String} (path image : String) (source : Content) (size : Int)
    (clusterSize : Nat) {old : Option DirEntry} {reclaimed : Nat}
    (hlookup : d.lookup dir name = .ok old) (hfile : ∀ e ∈ old, e.isDirectory = false)
    (hreclaimed : d.reclaimed old = .ok reclaimed) :
    (putNamed dir name path image source size clusterSize).on d =
      (putFile dir name path source size ((size + ((clusterSize : Int) - 1)) / clusterSize) old
        clusterSize reclaimed).on d := by
  have hquery := on_query (·.lookup dir name) d
  rw [hlookup] at hquery
  rw [putNamed]
  refine (on_bind_ok _ hquery).trans ?_
  cases old with
  | none =>
    cases hreclaimed
    rfl
  | some e =>
    have hnot : ¬ e.isDirectory = true := by simp [hfile e rfl]
    refine (on_pass hnot _ _ d).trans ?_
    rw [Disk.reclaimed] at hreclaimed
    by_cases hzero : e.cluster = 0
    · rw [if_pos hzero] at hreclaimed
      cases hreclaimed
      rw [if_neg (not_not.2 hzero)]
    · rw [if_neg hzero] at hreclaimed
      rw [if_pos hzero]
      have hchain := on_query (fun d => d.volume.chain e.cluster) d
      cases hclusters : d.volume.chain e.cluster with
      | error => rw [hclusters] at hreclaimed; cases hreclaimed
      | ok clusters =>
        rw [hclusters] at hreclaimed hchain
        cases hreclaimed
        exact on_bind_ok _ hchain

theorem putNamed_on (h : d.Holds G K loose) (hopen : d.volume.closed = false)
    {path : String} (image : String) (source : Content) {size : Int} (hmax : size ≤ maxFileSize)
    {name : String} (hname : (splitPath path).getLast? = some name)
    (hdir : G.descend d.volume.geometry.rootCluster (splitPath path).dropLast = some dir)
    (hf : G dir = some f) :
    ∃ result d', (putNamed dir name path image source size d.volume.geometry.clusterSize).on d =
      (result, d') ∧ d.Writes G loose path source size result d' := by
  have hlookup := h.lookup_eq hopen hf name
  cases hfind : f.find name with
  | none =>
    rw [hfind] at hlookup
    obtain ⟨result, d', hrun, houtcome⟩ := putFile_fresh h hopen hf name path source hmax
    refine ⟨result, d', (putNamed_eq path image source size _ hlookup (by simp) rfl).trans hrun, ?_⟩
    rcases houtcome with ⟨e, rfl, rfl, he, hroom⟩ | hstores
    · exact .refused he (.noRoom hname hdir hf hfind hroom)
    · exact .fresh hname hdir hf hfind hstores
  | some x =>
    obtain ⟨n, r⟩ := x
    rw [hfind, Option.map_some] at hlookup
    have hr := Folder.mem_of_find hfind
    have hkind := r.isDirectory_entry n
    cases hfile : r.body.isFolder with
    | true =>
      rw [hfile] at hkind
      refine ⟨.error (.isDirectory image (Disk.pathText (splitPath path))), d, ?_,
        .refused (by simp) (.isDirectory hname hdir hf hfind hfile)⟩
      rw [putNamed]
      refine (on_bind_ok _ ((on_query _ d).trans (congrArg (·, d) hlookup))).trans ?_
      exact on_refuse hkind _ _ d
    | false =>
      rw [hfile] at hkind
      obtain ⟨result, d', f₁, hrun, hadds, houtcome⟩ :=
        putFile_replaced h hopen hf name path source hmax hr hfile
      refine ⟨result, d', (putNamed_eq path image source size _ hlookup ?_
        (h.reclaimed_eq hf hr)).trans hrun, ?_⟩
      · rintro _ ⟨⟩
        exact hkind
      · rcases houtcome with ⟨e, rfl, rfl, he, hroom⟩ | ⟨d₁, K₁, hholds, halike, hstores⟩
        · exact .refused he (.noRoomInPlace hname hdir hf hfind hadds hroom)
        · exact .replaced hname hdir hf hfind hfile hadds hholds halike hstores

/-- A file is written under a name in the directory that the names before it lead to. -/
theorem writeFile_eq (hopen : d.volume.closed = false) (hwritable : d.volume.readOnly = false)
    {path name : String} (source : Content) {size : Int}
    (hname : (splitPath path).getLast? = some name) (hmax : ¬ size > maxFileSize)
    (hresolve : d.resolve (splitPath path).dropLast = .ok dir)
    (hleast : ¬ size ≤ -(maxQuotient * d.volume.geometry.clusterSize)) :
    (writeFile path source size).on d =
      (putNamed dir name path d.volume.image source size d.volume.geometry.clusterSize).on d := by
  have hquery := on_query (·.resolve (splitPath path).dropLast) d
  rw [hresolve] at hquery
  rw [writeFile, on_bind_ok _ (on_checkOpen hopen hwritable)]
  simp only [on_bind_ok _ (on_get d), hname]
  refine (on_pass hmax _ _ d).trans ?_
  refine (on_bind_ok _ hquery).trans ?_
  refine (on_bind_ok _ (on_get d)).trans ?_
  exact on_pass hleast _ _ d

/-- A file is written, or nothing happens, or its source was too short. -/
theorem writeFile_on (h : d.Holds G K loose) (hopen : d.volume.closed = false)
    (hwritable : d.volume.readOnly = false) (path : String) (source : Content) (size : Int) :
    ∃ result d', (writeFile path source size).on d = (result, d') ∧
      d.Writes G loose path source size result d' := by
  rw [writeFile, on_bind_ok _ (on_checkOpen hopen hwritable)]
  simp only [on_bind_ok _ (on_get d)]
  cases hname : (splitPath path).getLast? with
  | none =>
    exact ⟨_, d, on_throw _ d, .refused (by simp) (.noName (List.getLast?_eq_none_iff.1 hname))⟩
  | some name =>
    by_cases hmax : size > maxFileSize
    · exact ⟨_, d, on_refuse hmax _ _ d, .refused (by simp) (.tooLarge hmax)⟩
    have hresolve := on_query (·.resolve (splitPath path).dropLast) d
    obtain ⟨f₀, hf₀, -⟩ := h.root
    rcases h.resolveFrom_cases hopen (splitPath path).dropLast [] hf₀ with
      ⟨dir, f, hfound, hdir, hf⟩ | ⟨hnone, ⟨_, hmissing⟩ | ⟨_, hmissing⟩⟩
    · rw [Disk.resolve, hfound] at hresolve
      by_cases hleast : size ≤ -(maxQuotient * d.volume.geometry.clusterSize)
      · refine ⟨.error .beyondSize, d, ?_, .refused (by simp) (.tooSmall hleast)⟩
        refine (on_pass hmax _ _ d).trans ?_
        refine (on_bind_ok _ hresolve).trans ?_
        refine (on_bind_ok _ (on_get d)).trans ?_
        exact on_refuse hleast _ _ d
      · obtain ⟨result, d', hrun, hwrites⟩ := putNamed_on h hopen d.volume.image
          source (not_lt.1 hmax) hname hdir hf
        refine ⟨result, d', ?_, hwrites⟩
        refine (on_pass hmax _ _ d).trans ?_
        refine (on_bind_ok _ hresolve).trans ?_
        refine (on_bind_ok _ (on_get d)).trans ?_
        exact (on_pass hleast _ _ d).trans hrun
    · rw [Disk.resolve, hmissing] at hresolve
      exact ⟨_, d, (on_pass hmax _ _ d).trans (on_bind_error _ hresolve),
        .refused (by simp) (.noDirectory hnone)⟩
    · rw [Disk.resolve, hmissing] at hresolve
      exact ⟨_, d, (on_pass hmax _ _ d).trans (on_bind_error _ hresolve),
        .refused (by simp) (.noDirectory hnone)⟩

end Edit

end BootImage.Fat
