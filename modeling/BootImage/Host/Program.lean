import BootImage.Host.FileTree

/-!
# Programs of the host

The tool starts other programs: a compiler, a converter, an emulator. What such a program does is
not up to the tool; how it answers is given from outside, one answer for each start.

## Main definitions

* `Call`: how a program was started.
* `Answer`: what came of it.
* `FileTree.plant`, `FileTree.apply`: the files that a program leaves behind.
-/

namespace BootImage.Host

/-- How a program was started: the command, and where they were given, the directory and the
variables `PATH` and `LOG` of its environment. -/
structure Call where
  command : List String
  directory : Option String
  environment : Option (String × Option String)
  deriving Repr, Inhabited

/-- Where a program writes. -/
inductive Output
  | path (p : Path)
  /-- To the path that is the last word of the command. -/
  | lastWord
  deriving Repr, Inhabited

/-- What came of starting a program. -/
inductive Answer
  /-- It ended with a code, after it had printed and written something. -/
  | ended (code : Int) (printed errors : String) (files : List (Output × Node))
  /-- It was not started. `missing` tells that there is no such program, `label` is the system's
  word for the fault and `text` its explanation. -/
  | notStarted (missing : Bool) (label text : String)
  deriving Inhabited

/-- The answer of a program that does nothing. -/
def Answer.silent : Answer :=
  .ended 0 "" "" []

/-- Stores a file and the right to start it, in the place of the file that is there. A right that is
there is kept. -/
def FileTree.install (t : FileTree) (p : Path) (content : Content) (executable : Bool) :
    Except Fault FileTree := do
  let place ← t.locate p
  match t.node? place with
  | some .directory => throw .isDirectory
  | some (.file _ before) => return t.putNode place (.file content (executable || before))
  | none => return t.putNode place (.file content executable)

/-- Stores a node at a path, with directories on the way to it. They stay when the node cannot be
stored. -/
def FileTree.plant (t : FileTree) (p : Path) : Node → Except Fault Unit × FileTree
  | .directory => t.makeDirectories p
  | .file content executable =>
    match t.makeDirectories p.parent with
    | (.error fault, t) => (.error fault, t)
    | (.ok (), t) =>
      match t.install p content executable with
      | .ok t => (.ok (), t)
      | .error fault => (.error fault, t)

/-- The path that a program started by a command writes to. -/
def Output.target (command : List String) : Output → Path
  | .path p => p
  | .lastWord => Path.ofString (command.getLast?.getD "")

/-- Stores what a program started by a command left behind, up to the first file that cannot be. -/
def FileTree.apply (t : FileTree) (command : List String) :
    List (Output × Node) → Except Fault Unit × FileTree
  | [] => (.ok (), t)
  | (output, node) :: rest =>
    match t.plant (output.target command) node with
    | (.ok (), t) => t.apply command rest
    | failed => failed

end BootImage.Host
