import BootImage.Session
import BootImage.Settings.Store

/-!
# The toolchain

Which programs compile the kernel and extract its binary, and where they are found: first in the
directory of the toolchain, then on the search path. A program that is found nowhere is started by
its bare name, so that the system reports it.

## Main definitions

* `Toolchain`: the configuration.
* `Toolchain.find?`: where a program is.
* `Toolchain.tool`: the word that starts a program.
* `Toolchain.environment`: the environment that programs are started with.
-/

namespace BootImage

open Host (Path FileTree Fault)

/-- The configuration of the toolchain. -/
structure Toolchain where
  binDir : Option Path := none
  /-- The compiler; without one nothing can be compiled. -/
  cargo : Option String := some "cargo"
  /-- The converter; without one the binary is extracted without help. -/
  objcopy : Option String := none
  logLevel : Option String := none
  deriving Repr, Inhabited

namespace Toolchain

/-- The directory of the toolchain: the one that is asked for, or the one of the settings. -/
def chooseBinDir (asked : Option Path) (settings : Settings.Values) : Option Path :=
  match asked, settings.lookup "TOOLCHAIN_DIR" with
  | some p, _ => some p
  | none, some (c :: rest) => some (Path.ofString (String.ofList (c :: rest)))
  | none, _ => none

/-- The path of a program in the directory of the toolchain. -/
def inBinDir? (tree : FileTree) (binDir : Option Path) (name : String) :
    Except Fault (Option String) := do
  let some dir := binDir | return none
  match ← tree.probe (dir / name) with
  | some (.file _ true) => return some (toString (dir / name))
  | _ => return none

/-- Whether a text is the path of a program. The system reads it as it is: a text that ends with a
slash or a single dot leads to a directory, and all of it counts for its length. -/
def isProgram (tree : FileTree) (text : String) : Bool :=
  ((Text.pieces (· = '/') text.toList).getLast?.getD [] ∉ [[], ['.']]) &&
    text.utf8ByteSize ≤ FileTree.maxPathSize && tree.isExecutable (Path.ofString text)

/-- The path of a program by the search path. A name with a slash is a path itself. -/
def onSearchPath? (tree : FileTree) (searchPath name : String) : Option String :=
  if name.toList.contains '/' then
    if isProgram tree name then some name else none
  else
    let directories := (Text.pieces (· = ':') searchPath.toList).map String.ofList
    (directories.map fun directory => if directory = "" then name else s!"{directory}/{name}").find?
      (isProgram tree)

/-- The path of the first of several programs that is found. -/
def find? (tree : FileTree) (searchPath : String) (binDir : Option Path) (names : List String) :
    Except Fault (Option String) :=
  names.findSomeM? fun name => do
    return (← inBinDir? tree binDir name) <|> onSearchPath? tree searchPath name

/-- The word that starts a program. -/
def tool (t : Toolchain) (tree : FileTree) (searchPath name : String) : Except Fault String := do
  return (← find? tree searchPath t.binDir [name]).getD name

/-- The environment for a program: the toolchain's directory in front of the search path, and the
log level. -/
def environment (t : Toolchain) (searchPath : String) : String × Option String :=
  (match t.binDir with
    | some p => s!"{p}:{searchPath}"
    | none => searchPath,
   t.logLevel.filter (· ≠ ""))

end Toolchain

end BootImage
