import BootImage.Fat.Volume

/-!
# The tree of a volume

Finding, listing and reading what a volume holds, by path. Names are found whatever their case, and
also by their short name.

## Main definitions

* `Disk.entries`, `Disk.lookup`, `Disk.resolve`: the entries of a directory, one of them, and the
  directory at the end of a path.
* `Disk.lookupPoints`, `Disk.resolvePoints`: the same for names that are given as code points.
* `Disk.list`, `Disk.stat`, `Disk.read`, `Disk.walk`: what is at a path.
-/

namespace BootImage.Fat

namespace Disk

/-! ### Finding -/

/-- The clusters of a directory and their bytes. -/
def directory (d : Disk) (cluster : Nat) : Except Error (List Nat × Bytes) := do
  let clusters ← d.volume.chain cluster
  return (clusters, ← d.readChain clusters)

/-- The entries of a directory, without those for itself and its parent. -/
def entries (d : Disk) (cluster : Nat) : Except Error (List DirEntry) := do
  let (_, data) ← d.directory cluster
  return (parse data).filter fun e => !e.isDot

/-- Whether an entry answers to a name given in its folded form. -/
def answersTo (folded : List Char) (e : DirEntry) : Bool :=
  Text.fold e.name.toList == folded || Text.fold (shortDisplay e.short 0).toList == folded

/-- The first entry of a directory that answers to a name. -/
def lookup (d : Disk) (cluster : Nat) (name : String) : Except Error (Option DirEntry) := do
  return (← d.entries cluster).find? (answersTo (Text.fold name.toList))

/-- The first cluster of the directory that an entry is for. Zero stands for the root. -/
def target (d : Disk) (e : DirEntry) : Nat :=
  if e.cluster = 0 then d.volume.geometry.rootCluster else e.cluster

/-- The names of a path put together. -/
def pathText (names : List String) : String :=
  "/".intercalate names

/-- The directory reached from `cluster`, itself reached by the names in `done`, by more names. -/
def resolveFrom (d : Disk) (done : List String) (cluster : Nat) :
    List String → Except Error Nat
  | [] => .ok cluster
  | name :: rest => do
    let done := done ++ [name]
    match ← d.lookup cluster name with
    | none => throw (.notFound d.volume.image (pathText done))
    | some e =>
      if e.isDirectory then d.resolveFrom done (d.target e) rest
      else throw (.notDirectory d.volume.image (pathText done))

/-- The first cluster of the directory at the end of a path. -/
def resolve (d : Disk) (names : List String) : Except Error Nat :=
  d.resolveFrom [] d.volume.geometry.rootCluster names

/-- The first entry of a directory that answers to a name given as code points. What is read of an
entry is text, and no entry answers to a name that is none. -/
def lookupPoints (d : Disk) (cluster : Nat) (name : List Text.CodePoint) :
    Except Error (Option DirEntry) :=
  match Text.ofPoints? name with
  | some name => d.lookup cluster name
  | none => do
    let _ ← d.entries cluster
    return none

/-- The directory reached from `cluster`, itself reached by the names in `done`, by more names given
as code points. -/
def resolvePointsFrom (d : Disk) (done : List String) (cluster : Nat) :
    List (List Text.CodePoint) → Except Error Nat
  | [] => .ok cluster
  | name :: rest => do
    let done := done ++ [Text.shownPoints name]
    match ← d.lookupPoints cluster name with
    | none => throw (.notFound d.volume.image (pathText done))
    | some e =>
      if e.isDirectory then d.resolvePointsFrom done (d.target e) rest
      else throw (.notDirectory d.volume.image (pathText done))

/-- The first cluster of the directory at the end of a path given as code points. -/
def resolvePoints (d : Disk) (names : List (List Text.CodePoint)) : Except Error Nat :=
  d.resolvePointsFrom [] d.volume.geometry.rootCluster names

/-! ### Reading -/

/-- The entries of the directory at a path. -/
def list (d : Disk) (path : String) : Except Error (List DirEntry) := do
  d.entries (← d.resolve (splitPath path))

/-- The entry at a path. The root has none, and neither has a path through something that is missing
or no directory. -/
def stat (d : Disk) (path : String) : Except Error (Option DirEntry) :=
  let names := splitPath path
  match names.getLast? with
  | none => .ok none
  | some name =>
    match d.resolve names.dropLast with
    | .ok parent => d.lookup parent name
    | .error (.notFound _ _) | .error (.notDirectory _ _) => .ok none
    | .error e => .error e

/-- A path without the slashes it starts with. -/
def withoutLeadingSlashes (path : String) : String :=
  String.ofList (path.toList.dropWhile (· = '/'))

/-- The bytes of the file at a path. -/
def read (d : Disk) (path : String) : Except Error Bytes := do
  match ← d.stat path with
  | none => throw (.notFound d.volume.image (withoutLeadingSlashes path))
  | some e =>
    if e.isDirectory then throw (.isDirectory d.volume.image (withoutLeadingSlashes path))
    if e.cluster = 0 then return []
    return (← d.readChain (← d.volume.chain e.cluster)).take e.size

/-- How deep directories may lie inside each other. Only an image whose directories run in a circle
goes deeper. -/
def maxDepth : Nat := 985

/-- A path with one more name. -/
def childPath (path name : String) : String :=
  String.ofList ((path.toList.reverse.dropWhile (· = '/')).reverse ++ '/' :: name.toList)

/-- The entries below the directory that `path` leads to, each with its path, a directory before
what it holds. `done` are the names in the path, `cluster` is where they lead. -/
def walkFrom (d : Disk) : (depth : Nat) → (path : String) → (done : List String) →
    (cluster : Nat) → Except Error (List (String × DirEntry))
  | 0, _, _, _ => .error .tooDeep
  | depth + 1, path, done, cluster => do
    let below ← (← d.entries cluster).mapM fun e => do
      let child := childPath path e.name
      if e.isDirectory then
        let names := splitPath e.name
        let inside ← d.resolveFrom done cluster names
        return (child, e) :: (← d.walkFrom depth child (done ++ names) inside)
      else return [(child, e)]
    return below.flatten

/-- The entries below the directory at a path. -/
def walk (d : Disk) (path : String) : Except Error (List (String × DirEntry)) := do
  let names := splitPath path
  d.walkFrom maxDepth path names (← d.resolve names)

end Disk

end BootImage.Fat
