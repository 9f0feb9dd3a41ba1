import BootImage.Fat.Error

/-!
# The geometry of a volume

How an image is divided: some reserved sectors, then the copies of the cluster table, then the
clusters, numbered from 2. `Division.ofSize` sizes the tables for an image of a given length, and
refuses every length at which the result would not be a FAT32 volume.

## Main definitions

* `Division`: how many sectors each part of a volume has.
* `Division.clusterCount`, `Division.tableOffset`, `Division.clusterOffset`: what follows from that.
* `Division.settle`: the size of the tables, from one guess to the next.
* `Division.ofSize`: the division of an image of a given length.
* `Geometry`: a division with the size of its sectors, as the boot sector records it.
* `Geometry.ofSize`: the geometry for an image of a given length.

## Main results

* `Geometry.clusterSize_eq`, `Geometry.tableOffset_eq`: sizes and places are those of the division.
-/

namespace BootImage.Fat

/-- How the sectors of a volume are divided up. -/
structure Division where
  totalSectors : Nat
  tableSectors : Nat
  sectorsPerCluster : Nat
  reservedSectors : Nat
  tableCount : Nat
  rootCluster : Nat
  deriving DecidableEq, Repr, Inhabited

namespace Division

/-- The first sector of the data region. -/
def dataStart (d : Division) : Nat :=
  d.reservedSectors + d.tableCount * d.tableSectors

/-- The count of clusters, rounded down; negative when a boot sector has its data region start past
the end. -/
def clusterCount (d : Division) : Int :=
  ((d.totalSectors : Int) - d.dataStart) / d.sectorsPerCluster

/-- The bytes in one cluster, for sectors of `bps` bytes. -/
def clusterSize (d : Division) (bps : Int) : Int :=
  d.sectorsPerCluster * bps

/-- Where the copy of the table with the given number starts. -/
def tableOffset (d : Division) (bps : Int) (copy : Nat) : Int :=
  (d.reservedSectors + copy * d.tableSectors : Nat) * bps

/-- Where a cluster starts. Clusters are numbered from 2; the rule holds below that too. -/
def clusterOffset (d : Division) (bps cluster : Int) : Int :=
  (d.dataStart + (cluster - 2) * d.sectorsPerCluster) * bps

/-- The sectors before the first table of a new volume. -/
def newReserved : Nat := 32

/-- The copies of the table in a new volume. -/
def newTableCount : Nat := 2

/-- The root directory's cluster in a new volume. -/
def newRoot : Nat := 2

/-- The sectors that a table takes for the clusters that are left beside tables of `tableSectors`
sectors. Four bytes hold an entry, and the entries 0 and 1 stand for no cluster. -/
def neededSectors (total spc bps tableSectors : Int) : Int :=
  let clusters := (total - newReserved - newTableCount * tableSectors) / spc
  ((clusters + 2) * 4 + (bps - 1)) / bps

/-- The sectors of one table: guesses are made, the first one given, until the table that is needed
beside tables of the guessed size is no larger than that. -/
def settle (bytes total spc bps guess : Int) : Except Error Int :=
  if total - newReserved - newTableCount * guess ≤ 0 then .error (.noDataRegion bytes)
  else if neededSectors total spc bps guess ≤ guess then .ok guess
  else settle bytes total spc bps (neededSectors total spc bps guess)
termination_by (total - newReserved - newTableCount * guess).toNat
decreasing_by
  simp only [newReserved, newTableCount] at *
  omega

/-- The division of an image of `bytes` bytes. A negative count of bytes is divided into sectors of
a negative size; only the quotient counts. -/
def ofSize (bytes spc bps : Int) : Except Error Division := do
  unless spc ∈ [1, 2, 4, 8, 16, 32, 64, 128] do throw (.clusterSize spc)
  if bps = 0 then throw .emptySector
  unless bytes % bps = 0 do throw (.partialSector bytes bps)
  let total := bytes / bps
  if total > 0xFFFFFFFF then throw (.tooManySectors total)
  let tableSectors ← settle bytes total spc bps 1
  let d : Division :=
    { totalSectors := total.toNat, tableSectors := tableSectors.toNat,
      sectorsPerCluster := spc.toNat, reservedSectors := newReserved,
      tableCount := newTableCount, rootCluster := newRoot }
  if d.clusterCount < Error.minClusters then throw (.tooFewClusters bytes spc d.clusterCount)
  if d.clusterCount > Error.maxClusters then throw (.tooManyClusters d.clusterCount)
  return d

end Division

/-- The numbers that describe a volume. -/
structure Geometry extends Division where
  bytesPerSector : Nat
  deriving DecidableEq, Repr, Inhabited

namespace Geometry

/-- The bytes in one cluster. -/
def clusterSize (g : Geometry) : Nat :=
  g.sectorsPerCluster * g.bytesPerSector

/-- Where the copy of the table with the given number starts. -/
def tableOffset (g : Geometry) (copy : Nat) : Nat :=
  (g.reservedSectors + copy * g.tableSectors) * g.bytesPerSector

/-- Where a cluster starts. -/
def clusterOffset (g : Geometry) (cluster : Int) : Int :=
  g.toDivision.clusterOffset g.bytesPerSector cluster

/-- The geometry for an image of `bytes` bytes in sectors of `bps` bytes. -/
def ofSize (bytes spc : Int) (bps : Nat) : Except Error Geometry := do
  return { ← Division.ofSize bytes spc bps with bytesPerSector := bps }

theorem clusterSize_eq (g : Geometry) :
    (g.clusterSize : Int) = g.toDivision.clusterSize g.bytesPerSector := by
  simp [clusterSize, Division.clusterSize]

theorem tableOffset_eq (g : Geometry) (copy : Nat) :
    (g.tableOffset copy : Int) = g.toDivision.tableOffset g.bytesPerSector copy := by
  simp [tableOffset, Division.tableOffset]

end Geometry

end BootImage.Fat
