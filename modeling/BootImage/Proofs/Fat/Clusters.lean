import BootImage.Proofs.Fat.Chains
import BootImage.Proofs.Fat.Folder

/-!
# Clusters in the image

The clusters of a volume are ranges of its image that lie behind each other, after the tables. What
is written to one of them is read there and nowhere else, and a slot of a directory is a range
inside one of the directory's clusters. So a directory can be taken as one list of slots, `slotsIn`,
in which writing a slot changes that slot alone.

## Main definitions

* `Disk.Sound`: the sizes that make the ranges of a volume lie apart and inside the image.
* `Disk.putSlot`, `Disk.putSlots`: an image with slots of a directory written over.
* `Disk.slotsIn`: the slots in the clusters of a directory.

## Main results

* `Disk.Sound.readCluster_write`, `Disk.Sound.readCluster_writeCluster`: what is read after a write.
* `Disk.Sound.exists_slotPlace`: the range of a slot is inside one cluster.
* `Disk.Sound.putSlots`: what the slots of a directory are after a write.
-/

namespace BootImage.Fat

theorem ClusterTable.toNat_clusterOffset (g : Geometry) {x : Nat} (hx : 2 ≤ x) :
    (g.clusterOffset x).toNat = g.dataStart * g.bytesPerSector + (x - 2) * g.clusterSize := by
  have hsub : ((x : Int) - 2) = ((x - 2 : Nat) : Int) := by omega
  have hvalue : g.clusterOffset x =
      ((g.dataStart * g.bytesPerSector + (x - 2) * g.clusterSize : Nat) : Int) := by
    rw [Geometry.clusterOffset, Division.clusterOffset, hsub, Geometry.clusterSize]
    simp only [Int.natCast_add, Int.natCast_mul, Int.add_mul, Int.mul_assoc]
  rw [hvalue, Int.toNat_natCast]

namespace Disk

/-- The parts of the image of a volume do not overlap, and all of them are in the image. -/
structure Sound (d : Disk) : Prop where
  sector : 512 ≤ d.volume.geometry.bytesPerSector
  reserved : 8 ≤ d.volume.geometry.reservedSectors
  slots : slotSize ∣ d.volume.geometry.clusterSize
  pos : 0 < d.volume.geometry.clusterSize
  clusters : 0 < d.volume.clusters
  few : d.volume.last < ClusterTable.endOfChain
  entries : d.volume.last < d.volume.table.entries.size
  table : d.volume.table.size =
    d.volume.geometry.tableSectors * d.volume.geometry.bytesPerSector
  whole : d.volume.table.rest = []
  room : d.volume.geometry.dataStart * d.volume.geometry.bytesPerSector +
    d.volume.clusters * d.volume.geometry.clusterSize ≤ d.content.size

variable {d : Disk} {x y : Nat}

theorem offset_eq (d : Disk) (hx : 2 ≤ x) : d.offset x =
    d.volume.geometry.dataStart * d.volume.geometry.bytesPerSector +
      (x - 2) * d.volume.geometry.clusterSize :=
  ClusterTable.toNat_clusterOffset _ hx

/-- A cluster ends where the next one starts, or later ones do. -/
theorem offset_add_le (hx : 2 ≤ x) (hxy : x < y) :
    d.offset x + d.volume.geometry.clusterSize ≤ d.offset y := by
  rw [d.offset_eq hx, d.offset_eq (by omega), Nat.add_assoc, ← Nat.succ_mul]
  exact Nat.add_le_add_left (Nat.mul_le_mul_right _ (by omega)) _

theorem Sound.offset_le (h : d.Sound) (hx : d.volume.inRange x = true) :
    d.offset x + d.volume.geometry.clusterSize ≤ d.content.size := by
  obtain ⟨hlow, hhigh⟩ := Volume.inRange_iff.1 hx
  rw [Volume.last] at hhigh
  refine le_trans ?_ h.room
  rw [d.offset_eq hlow, Nat.add_assoc, ← Nat.succ_mul]
  exact Nat.add_le_add_left (Nat.mul_le_mul_right _ (by omega)) _

/-! ### What lies before the clusters -/

/-- The image is as long as it was, and what lies before the clusters is the same. -/
def SameBelow (d d' : Disk) : Prop :=
  d'.content.size = d.content.size ∧
    ∀ i < d.volume.geometry.dataStart * d.volume.geometry.bytesPerSector,
      d'.content.get i = d.content.get i

theorem SameBelow.refl (d : Disk) : d.SameBelow d := ⟨rfl, fun _ _ => rfl⟩

theorem SameBelow.trans {d d' d'' : Disk} (h : d.SameBelow d') (h' : d'.SameBelow d'')
    (hgeometry : d'.volume.geometry = d.volume.geometry) : d.SameBelow d'' := by
  refine ⟨h'.1.trans h.1, fun i hi => ?_⟩
  rw [h'.2 i (hgeometry ▸ hi), h.2 i hi]

/-- A write into a cluster changes nothing before the clusters. -/
theorem Sound.sameBelow_write (h : d.Sound) (hy : d.volume.inRange y = true) {k : Nat} {bs : Bytes}
    (hfit : k + bs.length ≤ d.volume.geometry.clusterSize) :
    d.SameBelow { d with content := d.content.write (d.offset y + k) bs } := by
  have hroom := h.offset_le hy
  have hstart := d.offset_eq (Volume.inRange_iff.1 hy).1
  refine ⟨d.content.size_write_of_le (by omega), fun i hi => ?_⟩
  rw [Content.get_write, if_neg (by omega)]

/-! ### Reading and writing clusters -/

theorem Sound.length_readCluster (h : d.Sound) (hx : d.volume.inRange x = true) :
    (d.readCluster x).length = d.volume.geometry.clusterSize := by
  have := h.offset_le hx
  rw [readCluster, Content.length_read]
  omega

theorem getD_readCluster (d : Disk) {i : Nat} (hi : i < d.volume.geometry.clusterSize) :
    (d.readCluster x).getD i 0 = d.content.get (d.offset x + i) :=
  Content.getD_read _ _ _ _ hi

/-- The image of a volume with another one in its place. -/
theorem Sound.of_content (h : d.Sound) {c : Content} (hc : c.size = d.content.size) :
    ({ d with content := c } : Disk).Sound :=
  { h with room := hc ▸ h.room }

/-- A volume with another table of the same size in the place of its own. -/
theorem Sound.withTable (h : d.Sound) {t : ClusterTable}
    (hsize : t.entries.size = d.volume.table.entries.size) (hrest : t.rest = d.volume.table.rest)
    (free hint : Nat) :
    ({ d with volume := { d.volume with table := t, free, hint } } : Disk).Sound :=
  { h with
    entries := hsize ▸ h.entries
    table := by
      rw [← h.table, ClusterTable.size, ClusterTable.size]
      exact congrArg₂ (4 * · + List.length ·) hsize hrest
    whole := hrest.trans h.whole }

/-- Bytes written into one cluster are read there, and the other clusters stay. -/
theorem Sound.readCluster_write (h : d.Sound) (hx : d.volume.inRange x = true)
    (hy : d.volume.inRange y = true) {k : Nat} {bs : Bytes}
    (hfit : k + bs.length ≤ d.volume.geometry.clusterSize) :
    ({ d with content := d.content.write (d.offset y + k) bs } : Disk).readCluster x =
      if x = y then (d.readCluster y).overlay k bs else d.readCluster x := by
  have hroom := h.offset_le hy
  have hlow := (Volume.inRange_iff.1 hx).1
  have hlow' := (Volume.inRange_iff.1 hy).1
  have hsize : (d.content.write (d.offset y + k) bs).size = d.content.size :=
    d.content.size_write_of_le (by omega)
  have hlen :
      (Disk.readCluster { d with content := d.content.write (d.offset y + k) bs } x).length =
        d.volume.geometry.clusterSize := (h.of_content hsize).length_readCluster hx
  have hget : ∀ i < d.volume.geometry.clusterSize,
      (Disk.readCluster { d with content := d.content.write (d.offset y + k) bs } x).getD i 0 =
        (d.content.write (d.offset y + k) bs).get (d.offset x + i) :=
    fun i hi => getD_readCluster _ hi
  have hlenx := h.length_readCluster hx
  have hleny := h.length_readCluster hy
  by_cases hxy : x = y
  · subst hxy
    rw [if_pos rfl]
    refine Bytes.ext_getD
      (by rw [hlen, Bytes.length_overlay_of_le (by omega), hlenx]) fun i hi => ?_
    rw [hlen] at hi
    rw [hget i hi, Bytes.getD_overlay, getD_readCluster _ hi, Content.get_write]
    by_cases hin : k ≤ i ∧ i < k + bs.length
    · rw [if_pos hin, if_pos (by omega), show d.offset x + i - (d.offset x + k) = i - k by omega]
    · rw [if_neg hin, if_neg (by omega)]
  · rw [if_neg hxy]
    refine Bytes.ext_getD (by rw [hlen, hlenx]) fun i hi => ?_
    rw [hlen] at hi
    rw [hget i hi, getD_readCluster _ hi, Content.get_write, if_neg]
    rcases Nat.lt_or_gt_of_ne hxy with hlt | hlt
    · have := d.offset_add_le hlow hlt
      omega
    · have := d.offset_add_le hlow' hlt
      omega

theorem Sound.readCluster_writeCluster (h : d.Sound) (hx : d.volume.inRange x = true)
    (hy : d.volume.inRange y = true) {bs : Bytes}
    (hfit : bs.length ≤ d.volume.geometry.clusterSize) :
    (d.writeCluster y bs).readCluster x =
      if x = y then bs ++ Bytes.zeros (d.volume.geometry.clusterSize - bs.length)
      else d.readCluster x := by
  have hlen : (bs ++ Bytes.zeros (d.volume.geometry.clusterSize - bs.length)).length =
      d.volume.geometry.clusterSize := by
    rw [List.length_append, Bytes.length_zeros]
    omega
  have hwrite := h.readCluster_write hx hy (k := 0) (by rw [Nat.zero_add]; exact hlen.le)
  rw [Bytes.overlay_zero_of_length (hlen.trans (h.length_readCluster hy).symm)] at hwrite
  exact hwrite

theorem Sound.writeCluster (h : d.Sound) (hy : d.volume.inRange y = true) {bs : Bytes}
    (hfit : bs.length ≤ d.volume.geometry.clusterSize) : (d.writeCluster y bs).Sound := by
  refine h.of_content (d.content.size_write_of_le ?_)
  have := h.offset_le hy
  rw [List.length_append, Bytes.length_zeros]
  omega

theorem Sound.sameBelow_writeCluster (h : d.Sound) (hy : d.volume.inRange y = true) {bs : Bytes}
    (hfit : bs.length ≤ d.volume.geometry.clusterSize) : d.SameBelow (d.writeCluster y bs) := by
  refine h.sameBelow_write hy (k := 0) ?_
  rw [List.length_append, Bytes.length_zeros]
  omega

/-! ### The slots of a directory -/

/-- Where a slot of the directory with the given clusters is. -/
def slotPlace (d : Disk) (clusters : List Nat) (number : Nat) : Nat :=
  d.offset (clusters.getD (number / (d.volume.geometry.clusterSize / slotSize)) 0) +
    number % (d.volume.geometry.clusterSize / slotSize) * slotSize

/-- The image with bytes written over the beginning of a slot. -/
def putSlot (d : Disk) (clusters : List Nat) (number : Nat) (bs : Bytes) : Disk :=
  { d with content := d.content.write (d.slotPlace clusters number) bs }

/-- The image with bytes written over the beginnings of slots that follow each other. -/
def putSlots (d : Disk) (clusters : List Nat) : (number : Nat) → List Bytes → Disk
  | _, [] => d
  | number, bs :: rest => (d.putSlot clusters number bs).putSlots clusters (number + 1) rest

/-- The slots of a directory. -/
def slotsIn (d : Disk) (clusters : List Nat) : List Bytes :=
  clusters.flatMap fun c => slotsOf (d.readCluster c)

theorem Sound.length_readChain (h : d.Sound) {clusters : List Nat}
    (hrange : ∀ c ∈ clusters, d.volume.inRange c = true) :
    (clusters.flatMap d.readCluster).length =
      clusters.length * d.volume.geometry.clusterSize := by
  induction clusters with
  | nil => rw [List.flatMap_nil, List.length_nil, List.length_nil, Nat.zero_mul]
  | cons c clusters ih =>
    rw [List.forall_mem_cons] at hrange
    rw [List.flatMap_cons, List.length_append, ih hrange.2, h.length_readCluster hrange.1,
      List.length_cons, Nat.succ_mul, Nat.add_comm]

theorem Sound.slotsOf_readChain (h : d.Sound) {clusters : List Nat}
    (hrange : ∀ c ∈ clusters, d.volume.inRange c = true) :
    slotsOf (clusters.flatMap d.readCluster) = d.slotsIn clusters :=
  slotsOf_flatMap _ _ fun c hc => by rw [h.length_readCluster (hrange c hc)]; exact h.slots

theorem Sound.length_slotsOf_readCluster (h : d.Sound) (hx : d.volume.inRange x = true) :
    (slotsOf (d.readCluster x)).length = d.volume.geometry.clusterSize / slotSize := by
  have hdvd : slotSize ∣ (d.readCluster x).length := by
    rw [h.length_readCluster hx]
    exact h.slots
  have hlen := length_slotsOf hdvd
  rw [h.length_readCluster hx] at hlen
  rw [← hlen, Nat.mul_div_cancel_left _ (by decide)]

theorem Sound.length_slotsIn (h : d.Sound) {clusters : List Nat}
    (hrange : ∀ c ∈ clusters, d.volume.inRange c = true) : (d.slotsIn clusters).length =
      clusters.length * (d.volume.geometry.clusterSize / slotSize) := by
  induction clusters with
  | nil => rw [slotsIn, List.flatMap_nil, List.length_nil, List.length_nil, Nat.zero_mul]
  | cons c clusters ih =>
    rw [List.forall_mem_cons] at hrange
    rw [slotsIn] at ih ⊢
    rw [List.flatMap_cons, List.length_append, ih hrange.2, List.length_cons,
      h.length_slotsOf_readCluster hrange.1, Nat.succ_mul, Nat.add_comm]

/-- The slots of a directory that are found in equal clusters are equal. -/
theorem slotsIn_congr {d d' : Disk} {clusters : List Nat}
    (h : ∀ c ∈ clusters, d'.readCluster c = d.readCluster c) :
    d'.slotsIn clusters = d.slotsIn clusters :=
  List.flatMap_congr fun c hc => by rw [h c hc]

/-- A slot of a directory is a range inside one of its clusters, as many slots behind the cluster's
start as it comes after the slots of the clusters before. -/
theorem Sound.exists_slotPlace (h : d.Sound) {clusters : List Nat}
    (hrange : ∀ c ∈ clusters, d.volume.inRange c = true) {number : Nat}
    (hn : number < (d.slotsIn clusters).length) :
    ∃ before c after k, clusters = before ++ c :: after ∧
      d.slotPlace clusters number = d.offset c + k * slotSize ∧
      k * slotSize + slotSize ≤ d.volume.geometry.clusterSize ∧
      number = (d.slotsIn before).length + k ∧ k < (slotsOf (d.readCluster c)).length := by
  obtain ⟨per, hper⟩ := h.slots
  have hdiv : d.volume.geometry.clusterSize / slotSize = per := by
    rw [hper, Nat.mul_div_cancel_left _ (by decide)]
  have hpos : 0 < per := by
    have := h.pos
    rw [hper] at this
    exact Nat.pos_of_mul_pos_left this
  rw [h.length_slotsIn hrange, hdiv] at hn
  have hindex : number / per < clusters.length := Nat.div_lt_of_lt_mul (by rwa [Nat.mul_comm])
  have hmod : number % per < per := Nat.mod_lt _ hpos
  obtain ⟨before, c, after, rfl, hbefore⟩ :
      ∃ before c after, clusters = before ++ c :: after ∧ before.length = number / per :=
    ⟨clusters.take (number / per), clusters[number / per], clusters.drop (number / per + 1),
      by rw [List.getElem_cons_drop, List.take_append_drop], by rw [List.length_take]; omega⟩
  have hc : d.volume.inRange c = true := hrange c (by simp)
  refine ⟨before, c, after, number % per, rfl, ?_, ?_, ?_, ?_⟩
  · rw [slotPlace, hdiv, ← hbefore, List.getD_append_right _ _ _ _ (Nat.le_refl _), Nat.sub_self,
      List.getD_cons_zero]
  · rw [← Nat.succ_mul, hper, Nat.mul_comm]
    exact Nat.mul_le_mul_left _ hmod
  · rw [h.length_slotsIn fun x hx => hrange x (by simp [hx]), hdiv, hbefore]
    exact (Nat.div_add_mod' number per).symm
  · rwa [h.length_slotsOf_readCluster hc, hdiv]

/-- A write to a slot of a directory changes that slot alone, and no cluster outside. -/
theorem Sound.putSlot (h : d.Sound) {clusters : List Nat}
    (hrange : ∀ c ∈ clusters, d.volume.inRange c = true) (hnodup : clusters.Nodup) (number : Nat)
    (hn : number < (d.slotsIn clusters).length) {bs : Bytes} (hbs : bs.length ≤ slotSize) :
    (d.putSlot clusters number bs).Sound ∧
      (d.putSlot clusters number bs).slotsIn clusters = writeAt (d.slotsIn clusters) number bs ∧
      (∀ x, d.volume.inRange x = true → x ∉ clusters →
        (d.putSlot clusters number bs).readCluster x = d.readCluster x) ∧
      d.SameBelow (d.putSlot clusters number bs) := by
  obtain ⟨before, c, after, k, rfl, hplace, hslot, hnumber, hk⟩ := h.exists_slotPlace hrange hn
  have hc : d.volume.inRange c = true := hrange c (by simp)
  have hread : ∀ x, d.volume.inRange x = true →
      (d.putSlot (before ++ c :: after) number bs).readCluster x =
        if x = c then (d.readCluster c).overlay (k * slotSize) bs else d.readCluster x := by
    intro x hx
    rw [Disk.putSlot, hplace]
    exact h.readCluster_write hx hc (by omega)
  have hsame : ∀ part : List Nat, (∀ x ∈ part, d.volume.inRange x = true) → c ∉ part →
      (d.putSlot (before ++ c :: after) number bs).slotsIn part = d.slotsIn part := by
    intro part hpart hnot
    refine slotsIn_congr fun x hx => ?_
    rw [hread x (hpart x hx), if_neg (by rintro rfl; exact hnot hx)]
  obtain ⟨hbefore, hafter⟩ : c ∉ before ∧ c ∉ after := by
    have := (List.nodup_cons.1 (List.nodup_middle.1 hnodup)).1
    exact ⟨fun hm => this (by simp [hm]), fun hm => this (by simp [hm])⟩
  refine ⟨?_, ?_, fun x hx hnot => ?_, ?_⟩
  · refine h.of_content (d.content.size_write_of_le ?_)
    have := h.offset_le hc
    rw [hplace]
    omega
  · have hparts : d.slotsIn (before ++ c :: after) =
        d.slotsIn before ++ (slotsOf (d.readCluster c) ++ d.slotsIn after) := by
      simp [slotsIn]
    have hparts' : (d.putSlot (before ++ c :: after) number bs).slotsIn (before ++ c :: after) =
        d.slotsIn before ++ (slotsOf ((d.readCluster c).overlay (k * slotSize) bs) ++
          d.slotsIn after) := by
      rw [← hsame before (fun x hx => hrange x (by simp [hx])) hbefore,
        ← hsame after (fun x hx => hrange x (by simp [hx])) hafter]
      simp [slotsIn, hread c hc]
    have hwrite : slotsOf ((d.readCluster c).overlay (k * slotSize) bs) =
        writeAt (slotsOf (d.readCluster c)) k bs := by
      have hlen := h.length_readCluster hc
      exact slotsOf_overlay (hlen ▸ h.slots)
        (by rw [hlen, Nat.mul_comm, Nat.succ_mul]; exact hslot) hbs
    rw [hparts', hwrite, hparts]
    conv_rhs => rw [hnumber]
    rw [writeAt_append_right, writeAt_append_left _ _ hk]
  · rw [hread x hx, if_neg (by rintro rfl; exact hnot (by simp))]
  · rw [Disk.putSlot, hplace]
    exact h.sameBelow_write hc (by omega)

/-- Slots that are written over one after the other. -/
theorem Sound.putSlots (h : d.Sound) {clusters : List Nat}
    (hrange : ∀ c ∈ clusters, d.volume.inRange c = true) (hnodup : clusters.Nodup) (number : Nat)
    (written : List Bytes) (hn : number + written.length ≤ (d.slotsIn clusters).length)
    (hwritten : ∀ bs ∈ written, bs.length ≤ slotSize) :
    (d.putSlots clusters number written).Sound ∧
      (d.putSlots clusters number written).volume = d.volume ∧
      (d.putSlots clusters number written).slotsIn clusters =
        writeFrom (d.slotsIn clusters) number written ∧
      (∀ x, d.volume.inRange x = true → x ∉ clusters →
        (d.putSlots clusters number written).readCluster x = d.readCluster x) ∧
      d.SameBelow (d.putSlots clusters number written) := by
  induction written generalizing d number with
  | nil => exact ⟨h, rfl, rfl, fun _ _ _ => rfl, .refl d⟩
  | cons bs written ih =>
    rw [List.forall_mem_cons] at hwritten
    rw [List.length_cons] at hn
    obtain ⟨hsound, hslots, hframe, hbelow⟩ :=
      h.putSlot hrange hnodup number (by omega) hwritten.1
    obtain ⟨hsound', hvolume, hslots', hframe', hbelow'⟩ := ih hsound hrange (number + 1)
      (by rw [hslots, length_writeAt]; omega) hwritten.2
    refine ⟨hsound', hvolume, ?_, fun x hx hnot => ?_, hbelow.trans hbelow' rfl⟩
    · rw [Disk.putSlots, hslots', hslots, writeFrom]
    · rw [Disk.putSlots, hframe' x hx hnot, hframe x hx hnot]

end Disk

end BootImage.Fat
