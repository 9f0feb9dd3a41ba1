import BootImage.Fat.Geometry
import BootImage.Proofs.Checks
import Mathlib.Algebra.Order.Group.Int
import Mathlib.Algebra.Order.Ring.Int
import Mathlib.Logic.Function.Iterate
import Mathlib.Tactic.Linarith

/-!
# Sizing the tables of a volume

The size of the tables and the count of clusters hang on each other: a table has an entry for each
cluster, and each sector of a table is one less for clusters. The size is found by guessing. Larger
tables leave fewer clusters, so what is needed beside the second guess is no more than the second
guess itself, and there is no third one. What a guess rounds up and what the count of clusters
rounds down are on the safe side: there are entries for all clusters, and room for them.

## Main definitions

* `Geometry.Sized`: what holds of a geometry that was found for an image.

## Main results

* `Division.settle_eq_ok`: what guessing ends with.
* `Division.settle_one`: it ends with the first or the second guess.
* `Geometry.sized_of_ofSize`: a geometry that was found has all that it should have.
-/

namespace BootImage.Fat

namespace Division

variable {bytes total spc bps guess last : Int}

/-- The needed sectors have an entry for each cluster that is left, and the entries 0 and 1. -/
theorem le_neededSectors_mul (total spc guess : Int) (hbps : 0 < bps) :
    ((total - newReserved - newTableCount * guess) / spc + 2) * 4 ≤
      neededSectors total spc bps guess * bps := by
  have hlt := Int.lt_ediv_add_one_mul_self
    (((total - newReserved - newTableCount * guess) / spc + 2) * 4 + (bps - 1)) hbps
  rw [add_one_mul] at hlt
  simp only [neededSectors]
  omega

/-- Beside larger tables smaller ones are enough. -/
theorem neededSectors_le_of_le (hspc : 0 < spc) (hbps : 0 < bps) {a b : Int} (h : a ≤ b) :
    neededSectors total spc bps b ≤ neededSectors total spc bps a := by
  have hclusters : (total - newReserved - newTableCount * b) / spc ≤
      (total - newReserved - newTableCount * a) / spc :=
    Int.ediv_le_ediv hspc (by simp only [newTableCount]; omega)
  exact Int.ediv_le_ediv hbps (by omega)

/-- Guessing ends with a size beside which no larger one is needed, and which leaves something for
clusters. -/
theorem settle_eq_ok (h : settle bytes total spc bps guess = .ok last) :
    guess ≤ last ∧ 0 < total - newReserved - newTableCount * last ∧
      neededSectors total spc bps last ≤ last := by
  fun_induction settle bytes total spc bps guess with
  | case1 guess hdata => cases h
  | case2 guess hdata hneeded =>
    cases h
    exact ⟨le_rfl, not_le.1 hdata, hneeded⟩
  | case3 guess hdata hneeded ih =>
    obtain ⟨hle, hdone⟩ := ih h
    exact ⟨(not_le.1 hneeded).le.trans hle, hdone⟩

/-- From one sector on, guessing ends with the first guess or with the second one. -/
theorem settle_one (bytes total : Int) (hspc : 0 < spc) (hbps : 0 < bps) :
    settle bytes total spc bps 1 =
      if total - newReserved - newTableCount * max 1 (neededSectors total spc bps 1) ≤ 0 then
        .error (.noDataRegion bytes)
      else .ok (max 1 (neededSectors total spc bps 1)) := by
  have hagain : ∀ n, 1 ≤ n → neededSectors total spc bps n ≤ neededSectors total spc bps 1 :=
    fun n hn => neededSectors_le_of_le hspc hbps hn
  rw [settle]
  by_cases hone : neededSectors total spc bps 1 ≤ 1
  · rw [max_eq_left hone, if_pos hone]
  · rw [max_eq_right (not_le.1 hone).le, if_neg hone, settle, if_pos (hagain _ (not_le.1 hone).le)]
    by_cases hdata : total - newReserved - newTableCount * neededSectors total spc bps 1 ≤ 0
    · rw [if_pos hdata, ite_self]
    · rw [if_neg hdata, if_neg]
      simp only [newTableCount] at hdata ⊢
      omega

/-- What guessing ends with is the first guess, or what was needed beside it. -/
theorem exists_iterate_of_settle (hspc : 0 < spc) (hbps : 0 < bps)
    (h : settle bytes total spc bps 1 = .ok last) :
    ∃ n ≤ 1, last = (neededSectors total spc bps)^[n] 1 := by
  rw [settle_one _ _ hspc hbps] at h
  split at h
  · cases h
  · cases h
    rcases le_total (neededSectors total spc bps 1) 1 with hone | hone
    · exact ⟨0, Nat.zero_le 1, max_eq_left hone⟩
    · exact ⟨1, le_rfl, max_eq_right hone⟩

/-- The needed sectors for an image of at most 2^32 - 1 sectors. -/
theorem neededSectors_one_le (htotal : total ≤ 0xFFFFFFFF) (hspc : 0 < spc) (hbps : 512 ≤ bps) :
    neededSectors total spc bps 1 ≤ 0x2000001 := by
  have hdata : total - newReserved - newTableCount * 1 ≤ 0xFFFFFFFD := by
    simp only [newReserved, newTableCount]
    omega
  have hclusters : (total - newReserved - newTableCount * 1) / spc ≤ 0xFFFFFFFD := by
    have hle := Int.ediv_le_ediv hspc hdata
    exact hle.trans (Int.ediv_le_self _ (by decide))
  have hlt := Int.ediv_lt_of_lt_mul (show 0 < bps by omega)
    (show ((total - newReserved - newTableCount * 1) / spc + 2) * 4 + (bps - 1) <
      0x2000002 * bps by omega)
  simp only [neededSectors]
  omega

/-- What guessing ends with for such an image. -/
theorem settle_le (htotal : total ≤ 0xFFFFFFFF) (hspc : 0 < spc) (hbps : 512 ≤ bps)
    (h : settle bytes total spc bps 1 = .ok last) : last ≤ 0x2000001 := by
  obtain ⟨n, hn, rfl⟩ := exists_iterate_of_settle hspc (by omega) h
  obtain rfl | rfl := Nat.le_one_iff_eq_zero_or_eq_one.1 hn
  · exact show (1 : Int) ≤ 0x2000001 by decide
  · exact neededSectors_one_le htotal hspc hbps

/-- Tables that are large enough have an entry for each cluster, and leave room for the clusters. -/
theorem fit_of_neededSectors_le {d : Division} (hbps : 0 < bps) (hspc : 0 < d.sectorsPerCluster)
    (hreserved : d.reservedSectors = newReserved) (htables : d.tableCount = newTableCount)
    (h : neededSectors d.totalSectors d.sectorsPerCluster bps d.tableSectors ≤ d.tableSectors) :
    (d.clusterCount + 2) * 4 ≤ d.tableSectors * bps ∧
      d.dataStart + d.clusterCount * d.sectorsPerCluster ≤ d.totalSectors := by
  constructor
  · have hleft : (d.totalSectors : Int) - d.dataStart =
        d.totalSectors - newReserved - newTableCount * d.tableSectors := by
      rw [dataStart, hreserved, htables, Int.natCast_add, Int.natCast_mul, Int.sub_sub]
    rw [clusterCount, hleft]
    exact (le_neededSectors_mul _ _ _ hbps).trans (Int.mul_le_mul_of_nonneg_right h hbps.le)
  · have hle := Int.ediv_mul_le ((d.totalSectors : Int) - d.dataStart)
      (show (d.sectorsPerCluster : Int) ≠ 0 by omega)
    rw [clusterCount]
    omega

/-- What was checked of a division that was found, and where its numbers are from. -/
theorem ofSize_eq_ok {d : Division} (h : ofSize bytes spc bps = .ok d) :
    spc ∈ [1, 2, 4, 8, 16, 32, 64, 128] ∧ bytes % bps = 0 ∧ bytes / bps ≤ 0xFFFFFFFF ∧
      (∃ last, settle bytes (bytes / bps) spc bps 1 = .ok last ∧
        d = { totalSectors := (bytes / bps).toNat, tableSectors := last.toNat,
              sectorsPerCluster := spc.toNat, reservedSectors := newReserved,
              tableCount := newTableCount, rootCluster := newRoot }) ∧
      65525 ≤ d.clusterCount ∧ d.clusterCount ≤ 0x0FFFFFF5 := by
  rw [ofSize] at h
  obtain ⟨hspc, h⟩ := ok_of_unless h
  obtain ⟨-, h⟩ := ok_of_if h
  obtain ⟨hwhole, h⟩ := ok_of_unless h
  obtain ⟨htotal, h⟩ := ok_of_if h
  obtain ⟨last, hlast, h⟩ := ok_of_bind h
  obtain ⟨hfew, h⟩ := ok_of_if h
  obtain ⟨hmany, h⟩ := ok_of_if h
  cases h
  exact ⟨hspc, hwhole, not_lt.1 htotal, ⟨last, hlast, rfl⟩, not_lt.1 hfew, not_lt.1 hmany⟩

end Division

/-- How an image of `bytes` bytes is divided into sectors and clusters: the fields fit the boot
sector, the tables have an entry for each cluster, and the clusters lie inside the image. -/
structure Geometry.Sized (g : Geometry) (bytes spc : Int) (bps : Nat) : Prop where
  sector : g.bytesPerSector = bps
  cluster : g.sectorsPerCluster ∈ [1, 2, 4, 8, 16, 32, 64, 128]
  cluster_eq : (g.sectorsPerCluster : Int) = spc
  reserved : g.reservedSectors = 32
  tables : g.tableCount = 2
  root : g.rootCluster = 2
  total : (g.totalSectors * bps : Nat) = bytes
  total_lt : g.totalSectors < 0x100000000
  loop : Division.settle bytes g.totalSectors spc bps 1 = .ok g.tableSectors
  guesses : ∃ n ≤ 1, (g.tableSectors : Int) = (Division.neededSectors g.totalSectors spc bps)^[n] 1
  settled : Division.neededSectors g.totalSectors spc bps g.tableSectors ≤ g.tableSectors
  table_pos : 0 < g.tableSectors
  table_le : g.tableSectors ≤ 0x2000001
  clusters : 65525 ≤ g.clusterCount ∧ g.clusterCount ≤ 0x0FFFFFF5
  entries : (g.clusterCount.toNat + 2) * 4 ≤ g.tableSectors * bps
  room : g.reservedSectors + 2 * g.tableSectors + g.clusterCount.toNat * g.sectorsPerCluster ≤
    g.totalSectors

/-- A geometry that was found for an image has all that it should have. -/
theorem Geometry.sized_of_ofSize {bytes spc : Int} {bps : Nat} {g : Geometry}
    (hbps : bps ∈ [512, 1024, 2048, 4096]) (h : Geometry.ofSize bytes spc bps = .ok g) :
    g.Sized bytes spc bps := by
  obtain ⟨d, hd, hg⟩ := ok_of_bind h
  obtain rfl : { d with bytesPerSector := bps } = g := by cases hg; rfl
  obtain ⟨hmem, hwhole, htotal, ⟨last, hlast, hparts⟩, hfew, hmany⟩ := Division.ofSize_eq_ok hd
  have hbps : 512 ≤ bps := by
    simp only [List.mem_cons, List.not_mem_nil, or_false] at hbps
    omega
  have hspc : 0 < spc := by
    simp only [List.mem_cons, List.not_mem_nil, or_false] at hmem
    omega
  obtain ⟨hone, hdata, hsettled⟩ := Division.settle_eq_ok hlast
  have hguess := Division.exists_iterate_of_settle hspc (by omega) hlast
  have hle := Division.settle_le htotal hspc (by omega) hlast
  -- The numbers that were found are not negative, so the division has them as they are.
  have hT : bytes / bps = d.totalSectors := by
    rw [hparts, Int.toNat_of_nonneg]
    simp only [Division.newReserved, Division.newTableCount] at hdata
    omega
  have ht : last = d.tableSectors := by rw [hparts, Int.toNat_of_nonneg (by omega)]
  have hn : spc = d.sectorsPerCluster := by rw [hparts, Int.toNat_of_nonneg hspc.le]
  have hreserved : d.reservedSectors = Division.newReserved := by rw [hparts]
  have htables : d.tableCount = Division.newTableCount := by rw [hparts]
  have hsize : ((d.totalSectors * bps : Nat) : Int) = bytes := by
    rw [Int.natCast_mul, ← hT]
    exact Int.ediv_mul_cancel (Int.dvd_of_emod_eq_zero hwhole)
  rw [hT, ht, hn] at hguess hsettled hlast
  rw [hT] at htotal
  obtain ⟨hentries, hroom⟩ :=
    Division.fit_of_neededSectors_le (by omega) (by omega) hreserved htables hsettled
  have hcluster : d.sectorsPerCluster ∈ [1, 2, 4, 8, 16, 32, 64, 128] := by
    rw [hn] at hmem
    simp only [List.mem_cons, List.not_mem_nil, or_false] at hmem ⊢
    omega
  obtain ⟨c, hc⟩ := Int.eq_ofNat_of_zero_le (show 0 ≤ d.clusterCount by omega)
  have hcount : d.clusterCount.toNat = c := by rw [hc, Int.toNat_natCast]
  rw [hc] at hentries hroom
  rw [Division.dataStart, hreserved, htables] at hroom
  exact
    { sector := rfl, cluster := hcluster, cluster_eq := hn.symm, reserved := hreserved,
      tables := htables, root := by rw [hparts]; rfl, total := hsize,
      total_lt := show d.totalSectors < 0x100000000 by omega,
      loop := hn ▸ hlast, guesses := hn ▸ hguess, settled := hn ▸ hsettled,
      table_pos := show 0 < d.tableSectors by omega,
      table_le := show d.tableSectors ≤ 0x2000001 by omega,
      clusters := ⟨hfew, hmany⟩,
      entries := show (d.clusterCount.toNat + 2) * 4 ≤ _ by rw [hcount]; exact_mod_cast hentries,
      room := show d.reservedSectors + _ + d.clusterCount.toNat * _ ≤ _ by
        rw [hcount, hreserved]
        exact_mod_cast hroom }

end BootImage.Fat
