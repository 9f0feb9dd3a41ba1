import BootImage.Bytes.Content
import BootImage.Fat.ClusterTable
import BootImage.Fat.Directory

/-!
# Open volumes

A volume that is open keeps its cluster table in memory, with the count of free clusters and the
place where the next search for a free one starts. Clusters and slots are in the image at once; the
table is written back when the volume is flushed or closed.

## Main definitions

* `Volume`: an open volume.
* `Disk`: an open volume with the image it was opened on.
* `Volume.ofContent`: the volume in an image.
* `Volume.chain`: the clusters of a chain.
* `Volume.allocate`, `Volume.release`: take clusters and give them back.
* `Disk.flush`, `Disk.close`: write the table back.
* `formatImage`: an image made into an empty volume.
-/

namespace BootImage.Fat

/-- An open volume. -/
structure Volume where
  /-- The image's path, for messages. -/
  image : String
  geometry : Geometry
  table : ClusterTable
  /-- The count of free clusters. -/
  free : Nat
  /-- Where the next search for a free cluster starts. -/
  hint : Nat
  readOnly : Bool
  closed : Bool
  deriving Inhabited

namespace Volume

/-- The count of clusters. -/
def clusters (v : Volume) : Nat :=
  v.geometry.clusterCount.toNat

/-- The highest cluster number. -/
def last (v : Volume) : Nat :=
  v.clusters + 1

/-- Whether a number is that of a cluster. -/
def inRange (v : Volume) (cluster : Nat) : Bool :=
  2 ≤ cluster && cluster ≤ v.last

/-- The count of clusters among `count` ones from 2 on whose entries are free. -/
def countFree (table : ClusterTable) (count : Nat) : Nat :=
  (List.range' 2 count).countP fun cluster => table.link cluster == ClusterTable.free

/-- Opens the image with the given content. -/
def ofContent (image : String) (content : Content) (readOnly : Bool) : Except Error Volume := do
  let geometry ← Geometry.ofBootSector (content.read 0 512) image
  if geometry.tableSectors * geometry.bytesPerSector > Bytes.maxHeld then throw .beyondMemory
  let table := ClusterTable.ofBytes
    (content.read (geometry.tableOffset 0) (geometry.tableSectors * geometry.bytesPerSector))
  unless 0 ≤ geometry.clusterCount ∧ 8 + 4 * geometry.clusterCount ≤ table.size do
    throw .tableTooShort
  let free := countFree table geometry.clusterCount.toNat
  return { image, geometry, table, free, hint := 2, readOnly, closed := false }

/-! ### Chains -/

/-- The clusters reached from `cluster` on behind those in `seen`, the last one first; no result if
more than `limit` are reached. -/
def chainFrom (v : Volume) (seen : List Nat) : (limit cluster : Nat) → Option (List Nat)
  | 0, cluster => if v.inRange cluster then none else some seen.reverse
  | limit + 1, cluster =>
    if v.inRange cluster then v.chainFrom (cluster :: seen) limit (v.table.link cluster)
    else some seen.reverse

/-- The clusters of the chain that starts with the given one. A number that is not that of a cluster
starts an empty chain. A chain that has more clusters than there are runs in a circle. -/
def chain (v : Volume) (start : Int) : Except Error (List Nat) :=
  match v.chainFrom [] v.clusters start.toNat with
  | some clusters => .ok clusters
  | none => .error (.chainLoop v.image start)

/-! ### Allocation -/

/-- The cluster after the given one, the first one following the last. -/
def next (v : Volume) (cluster : Nat) : Nat :=
  if cluster < v.last then cluster + 1 else 2

/-- The first `needed` free clusters from `cluster` on, behind those in `found`, the last one first,
and the cluster after them. -/
def findFree (v : Volume) (found : List Nat) : (limit needed cluster : Nat) → List Nat × Nat
  | 0, _, cluster => (found.reverse, cluster)
  | _ + 1, 0, cluster => (found.reverse, cluster)
  | limit + 1, needed + 1, cluster =>
    if v.table.link cluster = ClusterTable.free then
      v.findFree (cluster :: found) limit needed (v.next cluster)
    else v.findFree found limit (needed + 1) (v.next cluster)

/-- The table in which each of the clusters leads to the one after it and the last one ends. -/
def linkUp (table : ClusterTable) : List Nat → ClusterTable
  | [] => table
  | [cluster] => table.set cluster ClusterTable.endOfChain
  | cluster :: follower :: rest => linkUp (table.set cluster follower) (follower :: rest)

/-- Takes free clusters and makes them a chain. The search goes round once for each of them at
most. -/
def allocate (v : Volume) (count : Int) : Except Error (List Nat × Volume) := do
  if count = 0 then return ([], v)
  if count > v.free then throw (.noClusters v.image count v.free)
  if count < 0 then throw .noLastCluster
  let (found, hint) := v.findFree [] (count.toNat * v.clusters) count.toNat v.hint
  return (found, { v with table := linkUp v.table found, free := v.free - count.toNat, hint })

/-- Sets the entries of the given clusters free. -/
def freeAll (table : ClusterTable) (clusters : List Nat) : ClusterTable :=
  clusters.foldl (fun t cluster => t.set cluster ClusterTable.free) table

/-- Gives the clusters of a chain back. -/
def release (v : Volume) (start : Int) : Except Error Volume := do
  let clusters ← v.chain start
  return { v with table := freeAll v.table clusters, free := v.free + clusters.length }

/-- Whether the volume can be changed. -/
def checkOpen (v : Volume) : Except Error Unit := do
  if v.closed then throw (.sealed v.image)
  if v.readOnly then throw (.readOnly v.image)

end Volume

/-! ### Volumes with their image -/

/-- An open volume and the content of its image. -/
structure Disk where
  volume : Volume
  content : Content
  deriving Inhabited

namespace Disk

/-- Where a cluster starts in the image. -/
def offset (d : Disk) (cluster : Nat) : Nat :=
  (d.volume.geometry.clusterOffset cluster).toNat

/-- The bytes of a cluster, as far as the image goes. -/
def readCluster (d : Disk) (cluster : Nat) : Bytes :=
  d.content.read (d.offset cluster) d.volume.geometry.clusterSize

/-- The image with the bytes of a cluster replaced; what they leave of it is filled with zeros. -/
def writeCluster (d : Disk) (cluster : Nat) (bs : Bytes) : Disk :=
  { d with
    content := d.content.write (d.offset cluster)
      (bs ++ Bytes.zeros (d.volume.geometry.clusterSize - bs.length)) }

/-- The bytes of the clusters of a chain one after the other. -/
def readChain (d : Disk) (clusters : List Nat) : Except Error Bytes :=
  if d.volume.closed ∧ clusters ≠ [] then .error .closed
  else .ok (clusters.flatMap d.readCluster)

/-- The image with the table and the FSInfo sectors of a volume written to it. -/
def flushed (v : Volume) (content : Content) : Content :=
  let g := v.geometry
  let stored := v.table.toBytes
  let info := fsInfo v.free v.hint g.bytesPerSector
  let withTables := (List.range g.tableCount).foldl
    (fun c copy => c.write (g.tableOffset copy) stored) content
  (withTables.write g.bytesPerSector info).write (7 * g.bytesPerSector) info

/-- Writes the table back to the image, in every copy, and FSInfo in both of its sectors. -/
def flush (d : Disk) : Except Error Disk := do
  d.volume.checkOpen
  return { d with content := flushed d.volume d.content }

/-- Closes the volume. One that is not read-only is flushed first; one that is closed stays as it
is. -/
def close (d : Disk) : Disk :=
  if d.volume.closed then d
  else
    { volume := { d.volume with closed := true }
      content := if d.volume.readOnly then d.content else flushed d.volume d.content }

end Disk

/-! ### Formatting -/

/-- The first entries of a new table: the medium, an end mark, and the end of the root directory. -/
def newTableStart : Bytes :=
  Bytes.ofNat 4 0x0FFFFFF8 ++ Bytes.ofNat 4 ClusterTable.endOfChain ++
    Bytes.ofNat 4 ClusterTable.endOfChain

/-- The image with an empty volume of the given geometry. Only the reserved sectors, the tables and
the root directory are written. -/
def formattedWith (g : Geometry) (label : Bytes) (volumeId : Int) (content : Content) : Content :=
  let bps := g.bytesPerSector
  let boot := bootSector g label volumeId
  let info := fsInfo (g.clusterCount.toNat - 1) (g.rootCluster + 1) bps
  let reserved := (((content.clear 0 (g.reservedSectors * bps)).write 0 boot).write bps info
    |>.write (6 * bps) boot).write (7 * bps) info
  let withTables := (List.range g.tableCount).foldl
    (fun c copy =>
      (c.clear (g.tableOffset copy) (g.tableSectors * bps)).write (g.tableOffset copy)
        newTableStart)
    reserved
  withTables.clear (g.clusterOffset g.rootCluster).toNat g.clusterSize

/-- Makes an image an empty volume. -/
def formatImage (content : Content) (sectorsPerCluster : Int) (label : String) (volumeId : Int) :
    Except Error (Geometry × Content) := do
  let g ← Geometry.ofSize content.size sectorsPerCluster 512
  let label ← labelText label
  return (g, formattedWith g (asciiBytes label) volumeId content)

/-- The label of a volume that was given none. -/
def defaultLabel : String := "NO NAME"

/-- The number of a volume that was given none. -/
def defaultVolumeId : Int := 0x1A2B3C4D

end BootImage.Fat
