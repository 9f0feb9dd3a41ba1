import BootImage.Proofs.Fat.Circles

/-!
# Taking clusters and giving them back

The search for free clusters has no bound of its own. It goes round the table, from the last cluster
to the first one, and ends because it is only begun if enough clusters are free by the count, which
agrees with the table: one turn passes every cluster once, so it passes enough that are free. It
takes the first of them, in the order of that turn, and the entries of all others stay as they are.
What was taken is a chain, and when it is given back the table says again what it said before. The
entries need not be the same bytes, since four bits of an entry that was free do not count.

## Main definitions

* `Volume.Ready`: a table that covers the clusters, with a count and a hint that agree with it.
* `Disk.Takes`: what taking clusters leaves.
* `Disk.Restores`: the table says what it said before.

## Main results

* `Disk.allocate_exact`: clusters are taken if enough are free, and can be given back; if not,
  nothing changes.
-/

namespace BootImage.Fat

namespace ClusterTable

theorem getElem?_set_of_ne (t : ClusterTable) {cluster other : Nat} (value : Nat)
    (h : cluster ≠ other) : (t.set cluster value).entries[other]? = t.entries[other]? := by
  simp [set, h]

/-- Linking clusters up changes their own entries only. -/
theorem getElem?_linkUp_of_not_mem (t : ClusterTable) {found : List Nat} {x : Nat}
    (hx : x ∉ found) : (Volume.linkUp t found).entries[x]? = t.entries[x]? := by
  fun_induction Volume.linkUp t found with
  | case1 => rfl
  | case2 t c => exact getElem?_set_of_ne t _ (by simpa [eq_comm] using hx)
  | case3 t c d rest ih =>
    rw [List.mem_cons, not_or] at hx
    rw [ih hx.2, getElem?_set_of_ne t _ (Ne.symm hx.1)]

end ClusterTable

namespace Volume

variable {v : Volume}

/-- A volume whose table has an entry for every cluster, with the count of those that are free and a
cluster that the next search starts from. -/
structure Ready (v : Volume) : Prop where
  few : v.clusters ≤ Error.maxClusters
  covers : v.last < v.table.entries.size
  free : v.free = countFree v.table v.clusters
  hint : v.inRange v.hint = true

theorem Ready.clusters_pos (h : v.Ready) : 0 < v.clusters := by
  have := inRange_iff.1 h.hint
  rw [last] at this
  omega

theorem Ready.last_lt (h : v.Ready) : v.last < ClusterTable.endOfChain := by
  have := h.few
  rw [Error.maxClusters] at this
  rw [last, ClusterTable.endOfChain]
  omega

theorem allocate_refused {count : Nat} (h : v.free < count) :
    v.allocate count = .error (.noClusters v.image count v.free) := by
  rw [allocate, if_neg (by omega)]
  simp only [bind_pure_comp]
  rw [if_pos (by omega)]
  rfl

end Volume

namespace Disk

variable {d d' d'' : Disk} {count : Nat} {found : List Nat}

/-- Taking `count` clusters of the disk `d` gives the clusters `found` and leaves `d'`. -/
structure Takes (d : Disk) (count : Nat) (found : List Nat) (d' : Disk) : Prop where
  /-- The search comes to an end. -/
  search : d.volume.Searches count d.volume.hint found d'.volume.hint
  /-- It finds the first free clusters, going round from the hint on. -/
  first : found = (d.volume.freeFrom d.volume.hint).take count
  length : found.length = count
  nodup : found.Nodup
  wasFree : ∀ x ∈ found, d.volume.inRange x = true ∧ d.volume.table.link x = ClusterTable.free
  /-- All other entries stay as they are, with the bits that do not count. -/
  others : ∀ x ∉ found, d'.volume.table.entries[x]? = d.volume.table.entries[x]?
  rest : d'.volume.table.rest = d.volume.table.rest
  free : d'.volume.free + count = d.volume.free
  hint : d'.volume.inRange d'.volume.hint = true
  /-- Only the table, the count and the hint can differ. -/
  frame : d' = { d with volume := { d.volume with
    table := d'.volume.table, free := d'.volume.free, hint := d'.volume.hint } }

/-- The table says of every cluster what it said before, and the count of free ones is the same. -/
structure Restores (d d' : Disk) : Prop where
  link : ∀ x, d'.volume.table.link x = d.volume.table.link x
  free : d'.volume.free = d.volume.free

/-- Clusters are taken if enough are free. -/
theorem exists_takes (h : d.volume.Ready) (hcount : count ≤ d.volume.free) :
    ∃ found d', (Edit.allocate count).on d = (.ok found, d') ∧ d.Takes count found d' ∧
      d'.volume.table = Volume.linkUp d.volume.table found := by
  obtain ⟨found, hint, hallocate, hlen, hnodup, hfree, hhint, hfirst, hsearch⟩ :=
    Volume.allocate_eq h.clusters_pos h.free h.hint hcount
  refine ⟨found, _, Edit.onVolume_ok hallocate, ⟨hsearch, hfirst, hlen, hnodup, fun x hx => ?_,
    fun x hx => ClusterTable.getElem?_linkUp_of_not_mem _ hx, ClusterTable.rest_linkUp ..,
    Nat.sub_add_cancel hcount, hhint, rfl⟩, rfl⟩
  rw [Volume.inRange_iff]
  exact ClusterTable.mem_freeSet.1 (hfree x hx)

/-- Clusters that were taken are a chain, and are free again when it is given back. -/
theorem Takes.restores (h : d.Takes count found d') (hready : d.volume.Ready)
    (htable : d'.volume.table = Volume.linkUp d.volume.table found) {c : Nat}
    (hc : found.head? = some c) : d'.volume.chain c = .ok found ∧
      ∃ d'', (Edit.release c).on d' = (.ok (), d'') ∧ d.Restores d'' := by
  obtain ⟨rest, rfl⟩ := List.head?_eq_some_iff.1 hc
  have hlast : d'.volume.last = d.volume.last := by rw [h.frame]; rfl
  have hchain : d'.volume.chain c = .ok (c :: rest) := by
    refine Volume.chain_eq (hlast ▸ hready.last_lt) ?_
    rw [hlast, htable]
    exact ClusterTable.chain_linkUp hready.covers hready.last_lt h.nodup
      fun x hx => Volume.inRange_iff.1 (h.wasFree x hx).1
  have hrelease : d'.volume.release c = .ok { d'.volume with
      table := Volume.freeAll d'.volume.table (c :: rest)
      free := d'.volume.free + (c :: rest).length } := by
    rw [Volume.release, hchain]
    rfl
  refine ⟨hchain, _, Edit.onVolume_ok (by rw [hrelease]; rfl), fun x => ?_, ?_⟩
  · rw [ClusterTable.link_freeAll, htable]
    split
    · rename_i hx
      exact (h.wasFree x hx).2.symm
    · rename_i hx
      exact ClusterTable.link_linkUp_of_not_mem _ hx
  · rw [h.length]
    exact h.free

/-- In a volume whose count and hint agree with its table, any clusters can be taken that are free.
They are then a chain that starts with the first of them, and giving it back undoes it. If there are
too few free clusters, nothing changes. -/
theorem allocate_exact (h : d.volume.Ready) (count : Nat) :
    (count ≤ d.volume.free → ∃ found d', (Edit.allocate count).on d = (.ok found, d') ∧
      d.Takes count found d' ∧
      (0 < count → ∃ c, found.head? = some c ∧ d'.volume.chain c = .ok found ∧
        ∃ d'', (Edit.release c).on d' = (.ok (), d'') ∧ d.Restores d'')) ∧
    (d.volume.free < count → ∃ e, (Edit.allocate count).on d = (.error e, d) ∧
      e = .noClusters d.volume.image count d.volume.free ∧ e.kind = .capacity) := by
  refine ⟨fun hcount => ?_, fun hmany =>
    ⟨_, Edit.onVolume_error (Volume.allocate_refused hmany), rfl, rfl⟩⟩
  obtain ⟨found, d', hallocate, htakes, htable⟩ := exists_takes h hcount
  refine ⟨found, d', hallocate, htakes, fun hpos => ?_⟩
  cases found with
  | nil => exact absurd htakes.length (Nat.ne_of_lt hpos)
  | cons c rest => exact ⟨c, rfl, htakes.restores h htable rfl⟩

/-- In a volume of five clusters, of which the last two and the second one are free, a search that
starts at the last but one goes on with the first. The entry of the second cluster has a bit that
does not count. -/
theorem exists_allocate_exact : ∃ d : Disk, d.volume.Ready ∧ 3 ≤ d.volume.free ∧
    ∃ d', (Edit.allocate 3).on d = (.ok [5, 6, 3], d') ∧ d'.volume.chain 5 = .ok [5, 6, 3] ∧
      ∃ d'', (Edit.release 5).on d' = (.ok (), d'') ∧ d.Restores d'' := by
  let v : Volume :=
    { image := "fs.img"
      geometry :=
        { totalSectors := 39, tableSectors := 1, sectorsPerCluster := 1, reservedSectors := 32,
          tableCount := 2, rootCluster := 2, bytesPerSector := 512 }
      table := ⟨#[0x0FFFFFF8, 0x0FFFFFFF, 0x0FFFFFFF, 0x10000000, 0x0FFFFFFF, 0, 0], []⟩
      free := 3, hint := 5, readOnly := false, closed := false }
  have hready : (⟨v, .empty⟩ : Disk).volume.Ready := ⟨by decide, by decide, by decide, by decide⟩
  have hcount : 3 ≤ (⟨v, .empty⟩ : Disk).volume.free := by decide
  obtain ⟨found, d', hallocate, htakes, hchain⟩ := (allocate_exact hready 3).1 hcount
  obtain rfl : found = [5, 6, 3] := by
    rw [htakes.first]
    decide
  obtain ⟨c, hc, hchain, hrestores⟩ := hchain (by decide)
  obtain rfl : 5 = c := Option.some.inj hc
  exact ⟨_, hready, hcount, d', hallocate, hchain, hrestores⟩

end Disk

end BootImage.Fat
