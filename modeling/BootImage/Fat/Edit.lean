import BootImage.Fat.Tree

/-!
# Changes of a volume

Making directories and writing files, by path. A change that fails can leave what it did before in
place; `Edit` therefore gives the disk back in either case.

Before anything is changed the clusters that are needed are counted: those of the file or directory
itself, and those by which its parent has to grow to take the name.

## Main definitions

* `Edit`: changes of a disk.
* `Edit.neededGrowth`: the clusters that a name needs.
* `Edit.makeDirectory`, `Edit.writeFile`: the two changes.
* `Edit.writePoints`: a file written to a path that is given as code points.
-/

namespace BootImage.Fat

/-- A change of a disk, which may fail after it has changed something. -/
abbrev Edit := ExceptT Error (StateM Disk)

namespace Edit

/-- Something read from the disk. -/
def query {α : Type} (f : Disk → Except Error α) : Edit α := do
  liftExcept (f (← get))
where
  /-- A result without a change. -/
  liftExcept {α : Type} (r : Except Error α) : Edit α := ExceptT.mk (pure r)

/-- A change of the volume alone. -/
def onVolume {α : Type} (f : Volume → Except Error (α × Volume)) : Edit α := do
  let (a, v) ← query fun d => f d.volume
  modify fun d => { d with volume := v }
  return a

/-- Takes clusters. -/
def allocate (count : Int) : Edit (List Nat) :=
  onVolume (·.allocate count)

/-- Gives the clusters of a chain back. -/
def release (start : Int) : Edit Unit :=
  onVolume fun v => do return ((), ← v.release start)

/-- Replaces one entry of the table. -/
def link (cluster value : Nat) : Edit Unit :=
  modify fun d => { d with volume := { d.volume with table := d.volume.table.set cluster value } }

/-- Writes one slot of the directory with the given clusters. -/
def writeSlot (clusters : List Nat) (number : Nat) (bs : Bytes) : Edit Unit :=
  modify fun d =>
    let perCluster := d.volume.geometry.clusterSize / slotSize
    let start := d.offset (clusters.getD (number / perCluster) 0) + number % perCluster * slotSize
    { d with content := d.content.write start bs }

/-- Writes slots one after the other. -/
def writeSlots (clusters : List Nat) : (number : Nat) → List Bytes → Edit Unit
  | _, [] => pure ()
  | number, slot :: rest => do
    writeSlot clusters number slot
    writeSlots clusters (number + 1) rest

/-- Finds a place for `count` slots in a directory, which grows by clusters until there is one. -/
def findPlace (count : Nat) : (limit : Nat) → (clusters : List Nat) → (data : Bytes) →
    Edit (List Nat × Nat)
  | 0, clusters, data => pure (clusters, (freeRun data count).getD 0)
  | limit + 1, clusters, data =>
    match freeRun data count with
    | some start => pure (clusters, start)
    | none => do
      let added ← allocate 1
      match clusters.getLast?, added with
      | some lastCluster, cluster :: _ =>
        link lastCluster cluster
        modify (·.writeCluster cluster [])
        let size := (← get).volume.geometry.clusterSize
        findPlace count limit (clusters ++ [cluster]) (data ++ Bytes.zeros size)
      | _, _ => throw .noLastCluster

/-- Adds an entry to a directory. -/
def addEntry (directory : Nat) (name : String) (attributes : UInt8) (cluster : Nat) (size : Int) :
    Edit Unit := do
  let (clusters, data) ← query (·.directory directory)
  let taken := shortNames (parse data)
  let slots ← query fun _ => encodeEntry name taken.contains attributes.toNat cluster size
  let (clusters, start) ← findPlace slots.length slots.length clusters data
  writeSlots clusters start slots

/-- The bytes of a directory with the slots of an entry marked as deleted. -/
def withoutEntry (data : Bytes) (e : DirEntry) : Bytes :=
  e.slots.foldl (fun bs number => bs.overlay (number * slotSize) [deletedMark]) data

/-- The clusters by which a directory has to grow to take a name in the place of an entry. -/
def neededGrowth (directory : Nat) (name : String) (attributes : UInt8)
    (replaced : Option DirEntry) : Edit Nat := do
  let (_, data) ← query (·.directory directory)
  let data := replaced.elim data (withoutEntry data)
  let taken := shortNames (parse data)
  let slots ← query fun _ => encodeEntry name taken.contains attributes.toNat 0 0
  return growth data (← get).volume.geometry.clusterSize slots.length

/-- Removes an entry from a directory and gives its clusters back. -/
def removeEntry (directory : Nat) (e : DirEntry) : Edit Unit := do
  let clusters ← query (·.volume.chain directory)
  for number in e.slots do
    writeSlot clusters number [deletedMark]
  if e.cluster ≠ 0 then release e.cluster

/-- The first cluster of a new directory: its entries for itself and for its parent. -/
def newDirectory (cluster parent : Nat) : Bytes :=
  shortSlot dotName directoryAttribute cluster 0 0 ++
    shortSlot dotDotName directoryAttribute parent 0 0

/-- Makes one directory in another. `path` are the names that lead to it. -/
def makeChild (parent : Nat) (path : List String) (name : String) : Edit Nat := do
  let needed := 1 + (← neededGrowth parent name directoryAttribute none)
  let d ← get
  if needed > d.volume.free then
    throw (.noRoomForDirectory d.volume.image path needed d.volume.free)
  let cluster := (← allocate 1).headD 0
  let up := if parent = d.volume.geometry.rootCluster then 0 else parent
  modify (·.writeCluster cluster (newDirectory cluster up))
  addEntry parent name directoryAttribute cluster 0
  return cluster

/-- Makes the directories with the given names, each in the one before it, where they are missing.
`done` are the names that lead to `cluster`. -/
def makeFrom (done : List String) (cluster : Nat) : List String → Edit Nat
  | [] => pure cluster
  | name :: rest => do
    let done := done ++ [name]
    match ← query (·.lookup cluster name) with
    | some e =>
      let d ← get
      if e.isDirectory then makeFrom done (d.target e) rest
      else throw (.notDirectory d.volume.image (Disk.pathText done))
    | none => do
      makeFrom done (← makeChild cluster done name) rest

/-- Makes the directory at a path and what is missing of the way to it. The result is its first
cluster. -/
def makeDirectory (path : String) : Edit Nat := do
  query (·.volume.checkOpen)
  makeFrom [] (← get).volume.geometry.rootCluster (splitPath path)

/-- The largest file. -/
def maxFileSize : Int := 0xFFFFFFFF

/-- The least quotient of two sizes that is too large: a quotient is rounded to 53 binary digits,
and this one would then have 1025 digits in all. -/
def maxQuotient : Int := Int.pow 2 1024 - Int.pow 2 970

/-- Copies from `position` of a source to clusters, `remaining` bytes in all. -/
def copyClusters (path : String) (source : Content) :
    (position remaining : Nat) → List Nat → Edit Unit
  | _, _, [] => pure ()
  | position, remaining, cluster :: rest => do
    let wanted := min (← get).volume.geometry.clusterSize remaining
    let chunk := source.read position wanted
    if chunk.length ≠ wanted then throw (.shortSource path (remaining - chunk.length))
    modify (·.writeCluster cluster chunk)
    copyClusters path source (position + wanted) (remaining - wanted) rest

/-- Writes the first `size` bytes of a source to the file at a path. A file that is there already is
replaced. -/
def writeFile (path : String) (source : Content) (size : Int) : Edit Unit := do
  query (·.volume.checkOpen)
  let names := splitPath path
  let image := (← get).volume.image
  let some name := names.getLast? | throw (.isDirectory image "")
  if size > maxFileSize then throw (.fileTooLarge path size)
  let parent ← query (·.resolve names.dropLast)
  let clusterSize := (← get).volume.geometry.clusterSize
  if size ≤ -(maxQuotient * clusterSize) then throw .beyondSize
  let needed : Int := (size + (clusterSize - 1)) / clusterSize
  let old ← query (·.lookup parent name)
  let mut reclaimed := 0
  if let some e := old then
    if e.isDirectory then throw (.isDirectory image (Disk.pathText names))
    if e.cluster ≠ 0 then reclaimed := (← query (·.volume.chain e.cluster)).length
  let grow ← neededGrowth parent name archiveAttribute old
  let free := (← get).volume.free + reclaimed
  if needed + grow > free then
    throw (.noRoomForFile path ((needed + grow) * clusterSize) (free * clusterSize))
  if let some e := old then removeEntry parent e
  let clusters ← allocate needed
  copyClusters path source 0 size.toNat clusters
  addEntry parent name archiveAttribute (clusters.headD 0) size

/-- Writes a source to the file at a path that is given as code points. A path that is no text leads
nowhere: either a directory on the way is not found, or the name of the file cannot be encoded. -/
def writePoints (path : List Text.CodePoint) (source : Content) : Edit Unit :=
  match Text.ofPoints? path with
  | some path => writeFile path source source.size
  | none => do
    query (·.volume.checkOpen)
    if source.size > maxFileSize then throw (.fileTooLarge (Text.shownPoints path) source.size)
    let names := splitPoints path
    let parent ← query (·.resolvePoints names.dropLast)
    let _ ← query (·.lookupPoints parent (names.getLastD []))
    throw .notEncodable

theorem writePoints_points (path : String) (source : Content) :
    writePoints (Text.points path) source = writeFile path source source.size := by
  rw [writePoints, Text.ofPoints?_points]

end Edit

end BootImage.Fat
