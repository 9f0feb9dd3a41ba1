import BootImage.Bytes.Content
import BootImage.Host.Path

/-!
# The file tree

The files and directories that the tool works on, by the names that lead to them from the root. The
operations are those of a file system: each looks its path up name by name, and fails as the system
would when something is missing or in the way.

There are no links in a tree. Two names are always two files, and what is written at a path is
written to the file of its last name. Where a file system has a link there, reading and writing a
file goes through it to another one, and renaming and removing does not.

## Main definitions

* `FileTree`: the tree, and the directory in which relative paths are read.
* `Fault`: why an operation on the tree fails.
* `FileTree.locate`: where a path leads.
* `FileTree.find?`, `FileTree.probe`: what is there.
* `FileTree.read`, `FileTree.write`, `FileTree.create`, `FileTree.rename`, `FileTree.remove`,
  `FileTree.removeTree`, `FileTree.makeDirectories`, `FileTree.copyFile`: the operations.
* `FileTree.childrenAt`, `FileTree.filesIn`: the names in a directory.

## Main results

* `FileTree.content?_put_self`, `FileTree.content?_put_of_ne`: what is found after a file was
  stored.
-/

namespace BootImage.Host

/-- Why an operation on the tree fails. -/
inductive Fault
  | notFound
  | notDirectory
  | isDirectory
  | exists
  | permission
  | nameTooLong
  /-- A path to be replaced ends in dots. -/
  | busy
  /-- A name holds a zero character. -/
  | zeroInName
  /-- A file was to be copied onto itself. -/
  | sameFile
  /-- A path without a last name was to get another one. -/
  | noName
  /-- More directories were to be made at once than can be. -/
  | tooManyMissing
  deriving DecidableEq, Repr, Inhabited

/-- The system's explanation of a fault. The faults that arise before the system is asked have
none. -/
def Fault.text : Fault → Option String
  | .notFound => "No such file or directory"
  | .notDirectory => "Not a directory"
  | .isDirectory => "Is a directory"
  | .exists => "File exists"
  | .permission => "Permission denied"
  | .nameTooLong => "File name too long"
  | .busy => "Device or resource busy"
  | .zeroInName | .sameFile | .noName | .tooManyMissing => none

/-- What a path can lead to. -/
inductive Node
  | directory
  | file (content : Content) (executable : Bool)
  deriving Inhabited

/-- A tree of files. `current` are the names of the current directory. -/
structure FileTree where
  current : List String
  nodes : Std.TreeMap (List String) Node

namespace FileTree

/-- The tree in which the current directory is empty and nothing else exists. -/
def empty (current : List String) : FileTree where
  current := current
  nodes := (List.range (current.length + 1)).foldl
    (fun nodes n => nodes.insert (current.take n) .directory) ∅

instance : Inhabited FileTree := ⟨empty []⟩

/-! ### Looking up -/

/-- What is at a place. -/
def node? (t : FileTree) (place : List String) : Option Node :=
  t.nodes[place]?

/-- The content of the file at a place. -/
def content? (t : FileTree) (place : List String) : Option Content :=
  match t.node? place with
  | some (.file content _) => some content
  | _ => none

/-- The longest name, in bytes. -/
def maxNameSize : Nat := 255

/-- The longest text of a path, in bytes. -/
def maxPathSize : Nat := 4095

/-- The place that names lead to from another place. All but the last one have to be directories;
the last one need not exist. -/
def locateFrom (t : FileTree) (here : List String) : List String → Except Fault (List String)
  | [] => .ok here
  | name :: rest =>
    match t.node? here with
    | none => .error .notFound
    | some (.file _ _) => .error .notDirectory
    | some .directory =>
      if name = ".." then t.locateFrom here.dropLast rest
      else if name.utf8ByteSize > maxNameSize then .error .nameTooLong
      else t.locateFrom (here ++ [name]) rest

/-- The place that a path starts from. -/
def start (t : FileTree) (p : Path) : List String :=
  if p.root = "" then t.current else []

/-- The place that a path leads to. Its text is looked at before the names in it. -/
def locate (t : FileTree) (p : Path) : Except Fault (List String) :=
  if p.names.any (·.toList.contains '\x00') then .error .zeroInName
  else if (toString p).utf8ByteSize > maxPathSize then .error .nameTooLong
  else t.locateFrom (t.start p) p.names

/-- What is at the end of a path. -/
def find? (t : FileTree) (p : Path) : Option Node :=
  match t.locate p with
  | .ok place => t.node? place
  | .error _ => none

/-- What is at the end of a path, if it leads anywhere. A path that is too long for any file, or
that has a name too long, is refused. -/
def probe (t : FileTree) (p : Path) : Except Fault (Option Node) :=
  match t.locate p with
  | .ok place => .ok (t.node? place)
  | .error .nameTooLong => .error .nameTooLong
  | .error _ => .ok none

/-- The path from the root, for a path that is read in the current directory. -/
def resolve (t : FileTree) (p : Path) : Except Fault Path :=
  if p.names.any (·.toList.contains '\x00') then .error .zeroInName
  else .ok (p.absolute t.current)

/-- Whether a path leads to a file that may be started. -/
def isExecutable (t : FileTree) (p : Path) : Bool :=
  match t.find? p with
  | some (.file _ executable) => executable
  | _ => false

/-- Whether a path leads to anything. -/
def has (t : FileTree) (p : Path) : Bool :=
  (t.find? p).isSome

/-- The content of the file at the end of a path. -/
def read (t : FileTree) (p : Path) : Except Fault Content := do
  match t.node? (← t.locate p) with
  | none => throw .notFound
  | some .directory => throw .isDirectory
  | some (.file content _) => return content

/-- The names in the directory at a place, in ascending order. -/
def childrenAt (t : FileTree) (place : List String) : List String :=
  t.nodes.toList.filterMap fun (other, _) =>
    if other.dropLast = place then other.getLast? else none

/-- Whether a path leads to a file. -/
def isFile (t : FileTree) (p : Path) : Except Fault Bool := do
  match ← t.probe p with
  | some (.file _ _) => return true
  | _ => return false

/-- The names of the files in a directory, in ascending order; none if there is no directory. -/
def filesIn (t : FileTree) (p : Path) : Except Fault (List String) :=
  match t.locate p with
  | .ok place => (t.childrenAt place).filterM fun name => t.isFile (p.join ⟨"", [name]⟩)
  | .error _ => .ok []

/-! ### Changing -/

/-- The tree with a node at a place. -/
def putNode (t : FileTree) (place : List String) (node : Node) : FileTree :=
  { t with nodes := t.nodes.insert place node }

/-- The tree with a file of the given content at a place. A file that is there keeps its right to be
started. -/
def put (t : FileTree) (place : List String) (content : Content) : FileTree :=
  let executable := match t.node? place with
    | some (.file _ executable) => executable
    | _ => false
  t.putNode place (.file content executable)

/-- Stores a file, in the place of the file that is there. -/
def write (t : FileTree) (p : Path) (content : Content) : Except Fault FileTree := do
  let place ← t.locate p
  match t.node? place with
  | some .directory => throw .isDirectory
  | _ => return t.put place content

/-- The names in a path from the first one on that leads nowhere. -/
def missingFrom (t : FileTree) (here : List String) : List String → List String
  | [] => []
  | name :: rest =>
    let place := if name = ".." then here.dropLast else here ++ [name]
    if (t.node? place).isSome then t.missingFrom place rest else name :: rest

/-- The most directories that are made at once. -/
def maxMissing : Nat := 986

/-- Makes the directories with the given names, each in the one before it, where they are missing.
The first one is made in the directory at a place. -/
def makeFrom (t : FileTree) (here : List String) : List String → Except Fault Unit × FileTree
  | [] => (.ok (), t)
  | name :: rest =>
    if name = ".." then t.makeFrom here.dropLast rest
    else if name.utf8ByteSize > maxNameSize then (.error .nameTooLong, t)
    else
      match t.node? (here ++ [name]) with
      | some .directory => t.makeFrom (here ++ [name]) rest
      | some (.file _ _) => (.error .exists, t)
      | none => (t.putNode (here ++ [name]) .directory).makeFrom (here ++ [name]) rest

/-- Makes a directory and the ones above it where they are missing. Some may have been made when it
fails; if there are too many, none is. -/
def makeDirectories (t : FileTree) (p : Path) : Except Fault Unit × FileTree :=
  match t.locate p with
  | .ok place =>
    match t.node? place with
    | some .directory => (.ok (), t)
    | some (.file _ _) => (.error .exists, t)
    | none => (.ok (), t.putNode place .directory)
  | .error .notFound =>
    if maxMissing < (t.missingFrom (t.start p) p.names).length then (.error .tooManyMissing, t)
    else t.makeFrom (t.start p) p.names
  | .error fault => (.error fault, t)

/-- Makes an empty file at a path that leads nowhere so far. -/
def create (t : FileTree) (p : Path) : Except Fault FileTree := do
  let place ← t.locate p
  if (t.node? place).isSome then throw .exists
  return t.putNode place (.file Content.empty false)

/-- Gives a file another path, in the place of the file that is there. -/
def rename (t : FileTree) (source dest : Path) : Except Fault FileTree := do
  let start ← t.locate source
  if dest.names = [] ∨ dest.name = ".." then throw .busy
  let place ← t.locate dest
  match t.node? start, t.node? place with
  | none, _ => throw .notFound
  | some (.file _ _), some .directory => throw .isDirectory
  | some node, _ => return { t with nodes := (t.nodes.erase start).insert place node }

/-- Removes a file. -/
def remove (t : FileTree) (p : Path) : Except Fault FileTree := do
  let place ← t.locate p
  match t.node? place with
  | none => throw .notFound
  | some .directory => throw .isDirectory
  | some (.file _ _) => return { t with nodes := t.nodes.erase place }

/-- Removes a directory with all that is in it. -/
def removeTree (t : FileTree) (p : Path) : Except Fault FileTree := do
  let place ← t.locate p
  match t.node? place with
  | none => throw .notFound
  | some (.file _ _) => throw .notDirectory
  | some .directory =>
    return { t with nodes := t.nodes.filter fun other _ => !place.isPrefixOf other }

/-- Copies the content of a file to another one. -/
def copyFile (t : FileTree) (source dest : Path) : Except Fault FileTree := do
  if let (.ok a, .ok b) := (t.locate source, t.locate dest) then
    if a = b ∧ (t.node? a).isSome then throw .sameFile
  t.write dest (← t.read source)

theorem node?_putNode (t : FileTree) (place other : List String) (node : Node) :
    (t.putNode place node).node? other = if place = other then some node else t.node? other := by
  simp [node?, putNode, Std.TreeMap.getElem?_insert]

/-- A file that was stored is found. -/
theorem content?_put_self (t : FileTree) (place : List String) (content : Content) :
    (t.put place content).content? place = some content := by
  simp [content?, put, node?_putNode]

/-- Storing a file changes no other one. -/
theorem content?_put_of_ne (t : FileTree) {place other : List String} (content : Content)
    (h : place ≠ other) : (t.put place content).content? other = t.content? other := by
  simp [content?, put, node?_putNode, h]

end FileTree

end BootImage.Host
