import BootImage.Proofs.Fat.Format

/-!
# The areas of a volume

The reserved sectors, the copies of the table and the clusters of a volume are ranges of bytes of
its image. Each of them is a range of sectors, and in these the order is plain: first the reserved
ones, then one table after the other, then one cluster after the other. So of two areas one ends
before the other starts, and the last cluster ends inside the image.

## Main definitions

* `Area`: a part of a volume, with `Area.Has`, where its bytes are.
* `Geometry.Sound`: what makes a volume usable, its areas apart from each other among it.

## Main results

* `Area.before_or_before`: of two areas one ends before the other starts.
* `Area.eq_of_has`: no byte is in two areas.
* `Geometry.sound_of_ofSize`: a geometry that was found for an image is sound.
-/

namespace BootImage.Fat

/-- A part of a volume. -/
inductive Area
  | reserved
  | table (copy : Nat)
  | cluster (number : Nat)
  deriving DecidableEq, Repr

namespace Area

variable {g : Geometry} {a b : Area}

/-- Whether a volume has such a part. The numbers of clusters start with 2. -/
def IsOf (g : Geometry) : Area → Prop
  | reserved => True
  | table copy => copy < g.tableCount
  | cluster number => 2 ≤ number ∧ (number : Int) < g.clusterCount + 2

/-- Where an area starts. -/
def start (g : Geometry) : Area → Int
  | reserved => 0
  | table copy => g.tableOffset copy
  | cluster number => g.clusterOffset number

/-- How many bytes an area has. -/
def size (g : Geometry) : Area → Nat
  | reserved => g.reservedSectors * g.bytesPerSector
  | table _ => g.tableSectors * g.bytesPerSector
  | cluster _ => g.clusterSize

/-- Whether an area has the byte at a place. -/
def Has (g : Geometry) (a : Area) (i : Int) : Prop :=
  a.start g ≤ i ∧ i < a.start g + a.size g

/-! ### Areas in sectors -/

/-- The first sector of an area. -/
def firstSector (g : Geometry) : Area → Nat
  | reserved => 0
  | table copy => g.reservedSectors + copy * g.tableSectors
  | cluster number => g.dataStart + (number - 2) * g.sectorsPerCluster

/-- How many sectors an area has. -/
def sectors (g : Geometry) : Area → Nat
  | reserved => g.reservedSectors
  | table _ => g.tableSectors
  | cluster _ => g.sectorsPerCluster

theorem has_iff (ha : a.IsOf g) {i : Int} : a.Has g i ↔
    ((a.firstSector g * g.bytesPerSector : Nat) : Int) ≤ i ∧
      i < ((a.firstSector g + a.sectors g) * g.bytesPerSector : Nat) := by
  cases a with
  | reserved => simp [Has, start, size, firstSector, sectors]
  | table copy =>
    simp only [Has, start, size, firstSector, sectors, Geometry.tableOffset]
    rw [Nat.add_mul _ g.tableSectors, Int.natCast_add]
  | cluster number =>
    obtain ⟨k, rfl⟩ := Nat.exists_eq_add_of_le ha.1
    have hstart : g.clusterOffset ((2 + k : Nat) : Int) =
        ((g.dataStart + k * g.sectorsPerCluster) * g.bytesPerSector : Nat) := by
      simp [Geometry.clusterOffset, Division.clusterOffset]
    simp only [Has, start, size, firstSector, sectors, Geometry.clusterSize, hstart,
      Nat.add_sub_cancel_left]
    rw [Nat.add_mul _ g.sectorsPerCluster, Int.natCast_add]

/-- Whether an area ends before another one starts. -/
def Before (g : Geometry) (a b : Area) : Prop :=
  a.firstSector g + a.sectors g ≤ b.firstSector g

/-- An area that ends before another one starts has none of its bytes. -/
theorem Before.not_has (ha : a.IsOf g) (hb : b.IsOf g) (h : Before g a b) {i : Int}
    (hi : a.Has g i) : ¬ b.Has g i := by
  rw [has_iff ha] at hi
  rw [has_iff hb]
  have := Nat.mul_le_mul_right g.bytesPerSector h
  omega

theorem reserved_before (ha : a ≠ reserved) : Before g reserved a := by
  cases a with
  | reserved => exact absurd rfl ha
  | table copy => simp only [Before, firstSector, sectors]; omega
  | cluster number => simp only [Before, firstSector, sectors, Division.dataStart]; omega

theorem table_before_table {i j : Nat} (h : i < j) : Before g (table i) (table j) := by
  have := Nat.mul_le_mul_right g.tableSectors (Nat.succ_le_of_lt h)
  rw [Nat.succ_mul] at this
  simp only [Before, firstSector, sectors]
  omega

theorem table_before_cluster {i n : Nat} (h : (table i).IsOf g) :
    Before g (table i) (cluster n) := by
  have := Nat.mul_le_mul_right g.tableSectors (Nat.succ_le_of_lt h)
  rw [Nat.succ_mul] at this
  simp only [Before, firstSector, sectors, Division.dataStart]
  omega

theorem cluster_before_cluster {m n : Nat} (hm : 2 ≤ m) (h : m < n) :
    Before g (cluster m) (cluster n) := by
  have := Nat.mul_le_mul_right g.sectorsPerCluster (show m - 2 + 1 ≤ n - 2 by omega)
  rw [Nat.succ_mul] at this
  simp only [Before, firstSector, sectors]
  omega

/-- Of two areas one ends before the other starts. -/
theorem before_or_before (ha : a.IsOf g) (hb : b.IsOf g) (h : a ≠ b) :
    Before g a b ∨ Before g b a := by
  cases a with
  | reserved => exact .inl (reserved_before h.symm)
  | table i =>
    cases b with
    | reserved => exact .inr (reserved_before h)
    | table j =>
      rcases Nat.lt_or_gt_of_ne (fun hij => h (congrArg table hij)) with hij | hij
      · exact .inl (table_before_table hij)
      · exact .inr (table_before_table hij)
    | cluster n => exact .inl (table_before_cluster ha)
  | cluster m =>
    cases b with
    | reserved => exact .inr (reserved_before h)
    | table j => exact .inr (table_before_cluster hb)
    | cluster n =>
      rcases Nat.lt_or_gt_of_ne (fun hmn => h (congrArg cluster hmn)) with hmn | hmn
      · exact .inl (cluster_before_cluster ha.1 hmn)
      · exact .inr (cluster_before_cluster hb.1 hmn)

/-- No byte is in two areas. -/
theorem eq_of_has (ha : a.IsOf g) (hb : b.IsOf g) {i : Int} (hi : a.Has g i) (hi' : b.Has g i) :
    a = b := by
  by_contra hab
  rcases before_or_before ha hb hab with h | h
  · exact h.not_has ha hb hi hi'
  · exact h.not_has hb ha hi' hi

/-- No area reaches past the end of the image. -/
theorem inside_of_has {bytes spc : Int} {bps : Nat} (h : g.Sized bytes spc bps) (ha : a.IsOf g)
    {i : Int} (hi : a.Has g i) : 0 ≤ i ∧ i < bytes := by
  have hend : a.firstSector g + a.sectors g ≤ g.totalSectors := by
    have hroom := h.room
    rw [h.reserved] at hroom
    cases a with
    | reserved =>
      simp only [firstSector, sectors, h.reserved]
      omega
    | table copy =>
      have := Nat.mul_le_mul_right g.tableSectors (Nat.succ_le_of_lt ha)
      rw [Nat.succ_mul, h.tables] at this
      simp only [firstSector, sectors, h.reserved]
      omega
    | cluster number =>
      have hlast : number - 2 + 1 ≤ g.clusterCount.toNat := by
        have := ha.1
        have := ha.2
        omega
      have := Nat.mul_le_mul_right g.sectorsPerCluster hlast
      rw [Nat.succ_mul] at this
      simp only [firstSector, sectors, Division.dataStart, h.reserved, h.tables]
      omega
  rw [has_iff ha, h.sector] at hi
  have hle := Nat.mul_le_mul_right bps hend
  have htotal := h.total
  omega

end Area

/-- What makes a volume usable: besides being divided for its image, no cluster has a number that
is a mark, the areas lie apart from each other inside the image, and the boot sector tells all of
that. The mark of a bad cluster is the least mark. -/
structure Geometry.Sound (g : Geometry) (bytes spc : Int) (bps : Nat) : Prop
    extends g.Sized bytes spc bps where
  unmarked : ∀ n : Nat, (Area.cluster n).IsOf g → n < 0x0FFFFFF7
  inside : ∀ a : Area, a.IsOf g → ∀ i, a.Has g i → 0 ≤ i ∧ i < bytes
  disjoint : ∀ a b : Area, a.IsOf g → b.IsOf g → ∀ i, a.Has g i → b.Has g i → a = b
  told : ∀ label text, labelText label = .ok text → ∀ (id : Int) (image : String),
    Geometry.ofBootSector (bootSector g (asciiBytes text) id) image = .ok g

/-- A geometry that was found for an image is sound. -/
theorem Geometry.sound_of_ofSize {bytes spc : Int} {bps : Nat} {g : Geometry}
    (hbps : bps ∈ [512, 1024, 2048, 4096]) (h : Geometry.ofSize bytes spc bps = .ok g) :
    g.Sound bytes spc bps := by
  have hsized := Geometry.sized_of_ofSize hbps h
  refine { hsized with
    unmarked := fun n hn => ?_
    inside := fun a ha i => Area.inside_of_has hsized ha
    disjoint := fun a b ha hb i => Area.eq_of_has ha hb
    told := fun label text htext id image => ?_ }
  · have hcount := hsized.clusters.2
    have := hn.2
    omega
  · have htable := hsized.table_le
    exact Geometry.ofBootSector_bootSector (length_asciiBytes_labelText htext) id image
      (by rw [hsized.sector]; exact hbps) hsized.cluster (by rw [hsized.reserved]; decide)
      (by rw [hsized.tables]; decide) (by rw [hsized.tables]; decide) hsized.total_lt (by omega)
      (by rw [hsized.root]; decide)

/-- A geometry is found for an image of 512 MiB in sectors of 4096 bytes. -/
theorem Geometry.exists_sound_large : 4096 ∈ [512, 1024, 2048, 4096] ∧ ∃ g : Geometry,
    Geometry.ofSize 0x20000000 1 4096 = .ok g ∧ g.Sound 0x20000000 1 4096 := by
  have hsettle : Division.settle 0x20000000 0x20000 1 4096 1 = .ok 128 := by
    rw [Division.settle_one _ _ (by decide) (by decide)]
    rfl
  obtain ⟨g, hg⟩ : ∃ g, Geometry.ofSize 0x20000000 1 4096 = .ok g := by
    rw [Geometry.ofSize, Division.ofSize]
    simp only [Nat.cast_ofNat, Int.reduceDiv, hsettle]
    exact ⟨_, rfl⟩
  exact ⟨by decide, g, hg, Geometry.sound_of_ofSize (by decide) hg⟩

end BootImage.Fat
