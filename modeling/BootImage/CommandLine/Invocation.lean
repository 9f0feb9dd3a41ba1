import BootImage.CommandLine.Grammar
import BootImage.Emulator.Machine
import BootImage.Target
import BootImage.Text.Number

/-!
# Invocations

The commands of the program with their options, as they are read off a command line.

## Main definitions

* `Command`, `Invocation`: a command with its options, and the project it is for.
* `Invocation.ofWords`: the invocation that a command line asks for.
-/

namespace BootImage.CommandLine

open Host (Path)

/-- The options about the image. Those that have a usual value are none if they were given without
one, here and in the structures below. -/
structure ImageOptions where
  mode : Option String
  image : Option Path
  suiteDir : Option Path
  blockSize : Option Int
  blockCount : Option Int
  sectorsPerCluster : Option Int
  deriving Repr, Inhabited

/-- The options of a build. -/
structure BuildOptions where
  architecture : Option String
  board : Option String
  features : List String
  toolchainDir : Option Path
  cargo : Option String
  objcopy : Option String
  logLevel : Option String
  deploys : Bool
  makesImage : Bool
  image : ImageOptions
  deriving Repr, Inhabited

/-- The options of a run. -/
structure RunOptions where
  board : Option String
  kernel : Option Path
  image : Option Path
  bootloader : Option Path
  emulator : Option String
  deriving Repr, Inhabited

/-- The options of a setup. -/
structure SetupOptions where
  toolchainDir : Option Path
  suiteDir : Option Path
  assignments : List (Option String)
  deriving Repr, Inhabited

/-- A command with its options. -/
inductive Command
  | build (options : BuildOptions)
  | image (architecture : Option String) (options : ImageOptions)
  | run (options : RunOptions)
  | clean
  | setup (options : SetupOptions)
  | inspect (image : Path)
  deriving Repr, Inhabited

/-- A command and the root of the project that it is for. -/
structure Invocation where
  root : Option Path
  command : Command
  deriving Repr, Inhabited

/-! ### Grammars -/

/-- Whether a text is a whole number. -/
def isInt (s : String) : Bool :=
  (Text.parseInt? s).isSome

/-- The options about the image. -/
def imageRules : List Rule :=
  [{ name := "--mode", accepts := modes.contains },
   { name := "--image" },
   { name := "--testsuite-dir" },
   { name := "--block-size", accepts := isInt },
   { name := "--block-count", accepts := isInt },
   { name := "--sectors-per-cluster", accepts := isInt }]

/-- The option for the architecture. -/
def architectureRule : Rule :=
  { name := "--arch", required := true
    accepts := (Registry.standard.architectures.map (·.1)).contains }

/-- The options of each command. -/
def commandGrammars : List (String × Grammar) :=
  [("build",
    { options :=
        [architectureRule,
         { name := "--board", required := true
           accepts := (Registry.standard.boards.map (·.1)).contains },
         { name := "--features", arity := .many },
         { name := "--toolchain-dir" },
         { name := "--cargo" },
         { name := "--objcopy" },
         { name := "--log" },
         { name := "--no-deploy", arity := .none },
         { name := "--no-fs", arity := .none }] ++ imageRules }),
   ("fs", { options := architectureRule :: imageRules }),
   ("run",
    { options :=
        [{ name := "--board", required := true, accepts := (Machine.all.map (·.1)).contains },
         { name := "--kernel" },
         { name := "--image" },
         { name := "--bootloader" },
         { name := "--qemu" }] }),
   ("clean", { options := [] }),
   ("setup",
    { options :=
        [{ name := "--toolchain-dir" }, { name := "--testsuite-dir" }, { name := "--set" }] }),
   ("inspect", { options := [], operands := 1 })]

/-- The options before the command. -/
def mainGrammar : Grammar where
  options := [{ name := "--root" }]
  hasCommand := true

/-! ### Reading options -/

/-- The path that an option gives. -/
def pathOption (p : Parsed) (name : String) : Option Path :=
  (p.value? name).map Path.ofString

/-- The number that an option with a usual one gives. -/
def intOption (p : Parsed) (name : String) (usual : Int) : Option Int :=
  p.valueOr name usual Text.parseInt?

/-- The options about the image. -/
def ImageOptions.ofParsed (p : Parsed) : ImageOptions where
  mode := p.valueOr "--mode" "release" some
  image := pathOption p "--image"
  suiteDir := pathOption p "--testsuite-dir"
  blockSize := intOption p "--block-size" 512
  blockCount := intOption p "--block-count" 131072
  sectorsPerCluster := intOption p "--sectors-per-cluster" 1

/-- The command of a name with the options that were given. -/
def Command.ofParsed (name : String) (p : Parsed) : Command :=
  match name with
  | "build" => .build
    { architecture := p.value? "--arch", board := p.value? "--board"
      features := p.values "--features", toolchainDir := pathOption p "--toolchain-dir"
      cargo := p.valueOr "--cargo" "cargo" some
      objcopy := p.value? "--objcopy", logLevel := p.value? "--log"
      deploys := !p.has "--no-deploy", makesImage := !p.has "--no-fs"
      image := .ofParsed p }
  | "fs" => .image (p.value? "--arch") (.ofParsed p)
  | "run" => .run
    { board := p.value? "--board", kernel := pathOption p "--kernel"
      image := pathOption p "--image"
      bootloader := pathOption p "--bootloader", emulator := p.value? "--qemu" }
  | "setup" => .setup
    { toolchainDir := pathOption p "--toolchain-dir", suiteDir := pathOption p "--testsuite-dir"
      assignments := (p.occurrences "--set").map List.head? }
  | "inspect" => .inspect (Path.ofString (p.operands.headD ""))
  | _ => .clean

/-- The invocation that a command line asks for. -/
def Invocation.ofWords (words : List String) : Except Exit Invocation := do
  let main ← mainGrammar.parse words
  let some (name :: words) := main.rest | throw .usage
  let some grammar := commandGrammars.lookup name | throw .usage
  let p ← grammar.parse words
  if main.extras ∨ p.extras then throw .usage
  let root := main.valueOr "--root" ⟨"", []⟩ fun text => some (Path.ofString text)
  return { root, command := .ofParsed name p }

end BootImage.CommandLine
