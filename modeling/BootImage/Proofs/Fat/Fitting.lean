import BootImage.Proofs.Fat.Sizing

/-!
# Sizes that are refused

An image can be divided as a FAT32 volume if there is any size of the tables at which they have an
entry for each cluster that is left, and the count of clusters is one of FAT32. Whether there is one
can be told from the count of sectors: it has to be enough for the fewest clusters beside the
smallest tables that hold them.

The size that guessing ends with is a size for the clusters that would be left beside tables of one
sector. So it is larger than it has to be, by one part in 64 for clusters of one sector and less
for larger ones. That matters at both ends. With a few sectors more than the fewest, the clusters
that this takes are missed. And an image can be too large: its tables could be made so large that
few clusters are left, but they are sized for all the clusters that there are.

## Main definitions

* `Division.Fits`: a size of the tables at which an image is a FAT32 volume.
* `Division.fewest`: the fewest sectors for which there is one.
* `Division.spare`, `Division.most`: what guessing needs beyond that, and up to where it goes.

## Main results

* `Division.exists_fits_iff`: when there is a size that fits.
* `Division.ofSize_eq`: what becomes of every whole count of sectors.
* `Geometry.ofSize_of_fits`: a size that could be a FAT32 volume is refused for two reasons only.
-/

namespace BootImage.Fat

namespace Division

variable {total spc tableSectors : Int}

/-- The clusters that are left beside the reserved sectors and tables of a size. -/
def clustersBeside (total spc tableSectors : Int) : Int :=
  (total - newReserved - newTableCount * tableSectors) / spc

/-- Tables of a size fit an image of so many sectors: they leave as many clusters as a FAT32 volume
can have, and have an entry for each of them. -/
structure Fits (total spc tableSectors : Int) : Prop where
  pos : 1 ≤ tableSectors
  clusters : 65525 ≤ clustersBeside total spc tableSectors ∧
    clustersBeside total spc tableSectors ≤ 0x0FFFFFF5
  entries : (clustersBeside total spc tableSectors + 2) * 4 ≤ 512 * tableSectors

/-- The fewest sectors for which there are tables that fit: 512 sectors hold the entries of the
fewest clusters. -/
def fewest (spc : Int) : Int :=
  newReserved + newTableCount * 512 + 65525 * spc

/-- The sectors that the tables take beyond what they need, just above the fewest sectors. -/
def spare : Int → Int
  | 1 => 18
  | 2 => 8
  | 4 => 4
  | 128 => 0
  | _ => 2

/-- The most sectors for which the tables are not sized for too many clusters. From clusters of 16
sectors on that is never so. -/
def most : Int → Int
  | 1 => 272696359
  | 2 => 541098253
  | 4 => 1077952569
  | 8 => 2151686111
  | _ => 0xFFFFFFFF

/-- The size of the tables that guessing ends with. -/
def settled (total spc : Int) : Int :=
  max 1 (neededSectors total spc 512 1)

theorem le_clustersBeside_iff (hspc : 0 < spc) {n : Int} :
    n ≤ clustersBeside total spc tableSectors ↔
      newReserved + newTableCount * tableSectors + n * spc ≤ total := by
  rw [clustersBeside, Int.le_ediv_iff_mul_le hspc]
  omega

theorem clustersBeside_le_iff (hspc : 0 < spc) {n : Int} :
    clustersBeside total spc tableSectors ≤ n ↔
      total < newReserved + newTableCount * tableSectors + (n + 1) * spc := by
  rw [← not_lt, Int.lt_iff_add_one_le, le_clustersBeside_iff hspc, not_le]

theorem clusterCount_eq {d : Division} (hreserved : d.reservedSectors = newReserved)
    (htables : d.tableCount = newTableCount) :
    d.clusterCount = clustersBeside d.totalSectors d.sectorsPerCluster d.tableSectors := by
  rw [clusterCount, dataStart, clustersBeside, hreserved, htables, Int.natCast_add,
    Int.natCast_mul, Int.sub_sub]

/-! ### Sizes that fit -/

/-- There are tables that fit from the fewest sectors on, up to any count. -/
theorem exists_fits_iff (hspc : 0 < spc) :
    (∃ tableSectors, Fits total spc tableSectors) ↔ fewest spc ≤ total := by
  constructor
  · rintro ⟨n, -, ⟨hfew, -⟩, hentries⟩
    have hn : 512 ≤ n := by omega
    rw [le_clustersBeside_iff hspc] at hfew
    simp only [fewest, newTableCount] at hfew ⊢
    omega
  · intro hle
    -- The largest tables that leave enough clusters leave one more than these at most.
    let n := (total - newReserved - 65525 * spc) / 2
    have hn : 512 ≤ n := by
      simp only [n, fewest, newReserved, newTableCount] at hle ⊢
      omega
    have hfew : 65525 ≤ clustersBeside total spc n := by
      rw [le_clustersBeside_iff hspc]
      simp only [n, newTableCount]
      omega
    have hmany : clustersBeside total spc n ≤ 65526 := by
      rw [clustersBeside_le_iff hspc]
      simp only [n, newTableCount]
      omega
    exact ⟨n, by omega, ⟨hfew, by omega⟩, by omega⟩

/-! ### What guessing ends with -/

/-- The division of an image with tables of a size. -/
def new (total spc tableSectors : Int) : Division where
  totalSectors := total.toNat
  tableSectors := tableSectors.toNat
  sectorsPerCluster := spc.toNat
  reservedSectors := newReserved
  tableCount := newTableCount
  rootCluster := newRoot

theorem clusterCount_new (htotal : 0 ≤ total) (hspc : 0 ≤ spc) (htable : 0 ≤ tableSectors) :
    (new total spc tableSectors).clusterCount = clustersBeside total spc tableSectors := by
  rw [clusterCount_eq rfl rfl, new, Int.toNat_of_nonneg htotal, Int.toNat_of_nonneg hspc,
    Int.toNat_of_nonneg htable]

/-- What becomes of an image of so many sectors hangs on the clusters that are left beside the
tables that guessing ends with. -/
theorem ofSize_eq (hspc : spc ∈ [1, 2, 4, 8, 16, 32, 64, 128]) (htotal : total ≤ 0xFFFFFFFF)
    {n : Int} (hn : clustersBeside total spc (settled total spc) = n) :
    ofSize (total * 512) spc 512 =
      if total - newReserved - newTableCount * settled total spc ≤ 0 then
        .error (.noDataRegion (total * 512))
      else if n < 65525 then .error (.tooFewClusters (total * 512) spc n)
      else if n > 0x0FFFFFF5 then .error (.tooManyClusters n)
      else .ok (new total spc (settled total spc)) := by
  have hpos : 0 < spc := by
    simp only [List.mem_cons, List.not_mem_nil, or_false] at hspc
    omega
  have hsectors : total * 512 / 512 = total := Int.mul_ediv_cancel _ (by decide)
  have hsettle := settle_one (total * 512) total hpos (show (0 : Int) < 512 by decide)
  rw [ofSize]
  refine (eq_of_unless hspc).trans ((eq_of_if (by decide)).trans
    ((eq_of_unless (Int.mul_emod_left ..)).trans ((eq_of_if ?_).trans ?_)))
  · rw [hsectors]
    exact not_lt.2 htotal
  rw [hsectors, hsettle, ← settled]
  split
  · rfl
  · rename_i hdata
    have htable : 1 ≤ settled total spc := le_max_left _ _
    have hcount : (new total spc (settled total spc)).clusterCount = n := by
      rw [clusterCount_new _ hpos.le (by omega), hn]
      simp only [newReserved, newTableCount] at hdata
      omega
    subst hcount
    by_cases hfew : (new total spc (settled total spc)).clusterCount < 65525
    · rw [if_pos hfew]
      exact error_of_if hfew
    · rw [if_neg hfew]
      refine (eq_of_if hfew).trans ?_
      by_cases hmany : (new total spc (settled total spc)).clusterCount > 0x0FFFFFF5
      · rw [if_pos hmany]
        exact error_of_if hmany
      · rw [if_neg hmany]
        exact eq_of_if hmany

/-- An image is divided if the clusters that are left are as many as a FAT32 volume can have. -/
theorem exists_ofSize_iff (hspc : spc ∈ [1, 2, 4, 8, 16, 32, 64, 128])
    (htotal : total ≤ 0xFFFFFFFF) :
    (∃ d, ofSize (total * 512) spc 512 = .ok d) ↔
      65525 ≤ clustersBeside total spc (settled total spc) ∧
        clustersBeside total spc (settled total spc) ≤ 0x0FFFFFF5 := by
  rw [ofSize_eq hspc htotal rfl]
  have hpos : 0 < spc := by
    simp only [List.mem_cons, List.not_mem_nil, or_false] at hspc
    omega
  constructor
  · rintro ⟨d, hd⟩
    split at hd
    · cases hd
    · split at hd
      · cases hd
      · split at hd
        · cases hd
        · exact ⟨not_lt.1 ‹_›, not_lt.1 ‹_›⟩
  · rintro ⟨hfew, hmany⟩
    have hdata := (le_clustersBeside_iff hpos).1 hfew
    rw [if_neg (by omega), if_neg (not_lt.2 hfew), if_neg (not_lt.2 hmany)]
    exact ⟨_, rfl⟩

/-! ### The two ends -/

/-- Guessing ends with enough clusters if there are some sectors to spare. -/
theorem le_clustersBeside_settled_iff (hspc : spc ∈ [1, 2, 4, 8, 16, 32, 64, 128]) :
    65525 ≤ clustersBeside total spc (settled total spc) ↔ fewest spc + spare spc ≤ total := by
  simp only [List.mem_cons, List.not_mem_nil, or_false] at hspc
  rcases hspc with rfl | rfl | rfl | rfl | rfl | rfl | rfl | rfl
  all_goals
    simp only [clustersBeside, settled, neededSectors, fewest, spare, newReserved, newTableCount]
    omega

/-- Guessing ends with too many clusters for very large images only. -/
theorem clustersBeside_settled_le_iff (hspc : spc ∈ [1, 2, 4, 8, 16, 32, 64, 128])
    (htotal : total ≤ 0xFFFFFFFF) :
    clustersBeside total spc (settled total spc) ≤ 0x0FFFFFF5 ↔ total ≤ most spc := by
  simp only [List.mem_cons, List.not_mem_nil, or_false] at hspc
  rcases hspc with rfl | rfl | rfl | rfl | rfl | rfl | rfl | rfl
  all_goals
    simp only [clustersBeside, settled, neededSectors, most, newReserved, newTableCount]
    omega

end Division

open Division

variable {total spc : Int}

/-- The tables of a geometry that was found fit. -/
theorem Geometry.Sized.fits {g : Geometry} (h : g.Sized (total * 512) spc 512) :
    Fits total spc g.tableSectors := by
  have htotal : (g.totalSectors : Int) = total := by
    have := h.total
    omega
  have hcount : g.clusterCount = clustersBeside total spc g.tableSectors := by
    rw [clusterCount_eq h.reserved h.tables, htotal, h.cluster_eq]
  have hpos := h.table_pos
  have hclusters := h.clusters
  have hentries := h.entries
  exact ⟨by omega, hcount ▸ hclusters, by omega⟩

/-- An image of so many sectors for which there are tables that fit is refused for two reasons
only: it has hardly more sectors than the fewest, or its tables are sized for too many clusters. The
tables that are found fit. -/
theorem Geometry.ofSize_of_fits (hspc : spc ∈ [1, 2, 4, 8, 16, 32, 64, 128])
    (htotal : total ≤ 0xFFFFFFFF) :
    ((∃ tableSectors, Fits total spc tableSectors) →
      ¬ (fewest spc ≤ total ∧ total < fewest spc + spare spc) →
        ((∃ g, Geometry.ofSize (total * 512) spc 512 = .ok g) ↔ total ≤ most spc)) ∧
    ∀ g, Geometry.ofSize (total * 512) spc 512 = .ok g → Fits total spc g.tableSectors := by
  have hpos : 0 < spc := by
    simp only [List.mem_cons, List.not_mem_nil, or_false] at hspc
    omega
  refine ⟨fun hfits hroom => ?_, fun g hg => (Geometry.sized_of_ofSize (by decide) hg).fits⟩
  rw [exists_fits_iff hpos] at hfits
  have henough : fewest spc + spare spc ≤ total :=
    not_lt.1 fun hlt => hroom ⟨hfits, hlt⟩
  have hdivided : (∃ g, Geometry.ofSize (total * 512) spc 512 = .ok g) ↔
      ∃ d, Division.ofSize (total * 512) spc 512 = .ok d := by
    constructor
    · rintro ⟨g, hg⟩
      obtain ⟨d, hd, -⟩ := ok_of_bind hg
      exact ⟨d, hd⟩
    · rintro ⟨d, hd⟩
      exact ⟨_, by rw [Geometry.ofSize, Nat.cast_ofNat, hd]; rfl⟩
  rw [hdivided, exists_ofSize_iff hspc htotal, le_clustersBeside_settled_iff hspc,
    clustersBeside_settled_le_iff hspc htotal]
  exact and_iff_right henough

/-- The smallest image with clusters of 64 sectors that is not refused. -/
theorem Geometry.exists_ofSize_of_fits : Fits 4194658 64 513 ∧
    ¬ (fewest 64 ≤ 4194658 ∧ 4194658 < fewest 64 + spare 64) ∧
      ∃ g, Geometry.ofSize (4194658 * 512) 64 512 = .ok g ∧ Fits 4194658 64 g.tableSectors := by
  have hfits : Fits 4194658 64 513 := by
    refine ⟨by decide, ?_, ?_⟩ <;> decide
  have happly := Geometry.ofSize_of_fits (show (64 : Int) ∈ [1, 2, 4, 8, 16, 32, 64, 128] by decide)
    (show (4194658 : Int) ≤ 0xFFFFFFFF by decide)
  have hroom : ¬ (fewest 64 ≤ 4194658 ∧ 4194658 < fewest 64 + spare 64) := by
    rintro ⟨-, hlt⟩
    exact absurd hlt (by decide)
  obtain ⟨g, hg⟩ := (happly.1 ⟨513, hfits⟩ hroom).2 (by decide)
  exact ⟨hfits, hroom, g, hg, happly.2 g hg⟩

/-- The smallest image for which there are tables that fit is refused, and so is the largest one
with clusters of one sector. -/
theorem Geometry.fits_and_refused :
    (Fits 66581 1 512 ∧
      Geometry.ofSize (66581 * 512) 1 512 = .error (.tooFewClusters 34089472 1 65509)) ∧
    Fits 0xFFFFFFFF 1 2013265909 ∧
      Geometry.ofSize (0xFFFFFFFF * 512) 1 512 = .error (.tooManyClusters 4227858399) := by
  have hspc : (1 : Int) ∈ [1, 2, 4, 8, 16, 32, 64, 128] := by decide
  have hfew : clustersBeside 66581 1 (settled 66581 1) = 65509 := by decide
  have hsmall : Division.ofSize (66581 * 512) 1 512 = .error (.tooFewClusters 34089472 1 65509) :=
    ofSize_eq hspc (by decide) hfew
  have hmany : clustersBeside 0xFFFFFFFF 1 (settled 0xFFFFFFFF 1) = 4227858399 := by decide
  have hlarge : Division.ofSize (0xFFFFFFFF * 512) 1 512 = .error (.tooManyClusters 4227858399) :=
    ofSize_eq hspc (by decide) hmany
  refine ⟨⟨⟨by decide, by decide, by decide⟩, ?_⟩, ⟨by decide, by decide, by decide⟩, ?_⟩
  · rw [Geometry.ofSize, Nat.cast_ofNat, hsmall]
    rfl
  · rw [Geometry.ofSize, Nat.cast_ofNat, hlarge]
    rfl

end BootImage.Fat
