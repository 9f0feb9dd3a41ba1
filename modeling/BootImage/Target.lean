import BootImage.Session

/-!
# Build targets

A target names what to build: an architecture, a board, a mode and features. It resolves to the
parameters of the build if the board is known, is of that architecture, and has a linker script.

Each architecture has one linker script in force. Resolving a target puts the board's script in
place.

## Main definitions

* `Target`: what to build.
* `Architecture`, `Board`, `Registry`: what is known of architectures and boards.
* `Resolved`: the parameters of a build.
* `Registry.resolve`: the parameters for a target.
* `Resolved.activate`: puts the board's linker script in force.
-/

namespace BootImage

open Host (Path)

/-- What to build. -/
structure Target where
  architecture : String
  board : String
  mode : String := "release"
  features : List String := []
  deriving DecidableEq, Repr, Inhabited

/-- A target in messages. -/
protected def Target.toString (t : Target) : String :=
  s!"{t.architecture}/{t.board}/{t.mode}" ++
    if t.features = [] then "" else "+" ++ ",".intercalate t.features

instance : ToString Target := ⟨Target.toString⟩

/-- The modes of a build. -/
def modes : List String := ["debug", "release"]

/-- What is known of an architecture: the compiler's name for it, the feature that selects it, and
the directory of its linker scripts. -/
structure Architecture where
  triple : String
  feature : String
  linkerDir : String
  deriving DecidableEq, Repr, Inhabited

/-- What is known of a board. -/
structure Board where
  architecture : String
  linkerScript : String
  deriving DecidableEq, Repr, Inhabited

/-- The architectures and boards that can be built for. -/
structure Registry where
  architectures : List (String × Architecture)
  boards : List (String × Board)
  deriving Repr, Inhabited

/-- The architectures and boards that the tool knows. -/
def Registry.standard : Registry where
  architectures :=
    [("riscv64", ⟨"riscv64gc-unknown-none-elf", "riscv", "src/hal/arch/riscv"⟩),
     ("loongarch64", ⟨"loongarch64-unknown-none", "loongarch", "src/hal/arch/loongarch"⟩)]
  boards :=
    [("rvqemu", ⟨"riscv64", "linker-rvqemu.ld"⟩),
     ("laqemu", ⟨"loongarch64", "linker-laqemu.ld"⟩),
     ("la2k1000", ⟨"loongarch64", "linker-la2k1000.ld"⟩)]

/-- The names of entries, in ascending order. -/
def sortedNames {α : Type} (entries : List (String × α)) : List String :=
  (entries.map (·.1)).mergeSort fun a b => decide (a ≤ b)

/-- The parameters of a build. -/
structure Resolved where
  target : Target
  triple : String
  linkerScript : Path
  activeScript : Path
  executable : Path
  rawBinary : Path
  features : List String
  deriving Repr, Inhabited

/-- The features of a build: those of the architecture and the board and those asked for, each once,
where it comes first. -/
def featureList (architecture : Architecture) (target : Target) : List String :=
  (architecture.feature :: s!"board_{target.board}" :: target.features).foldl
    (fun done feature => if done.contains feature then done else done ++ [feature]) []

/-- The architecture and the board of a target. -/
def Registry.check (registry : Registry) (target : Target) :
    Except Cause (Architecture × Board) := do
  let some board := registry.boards.lookup target.board
    | throw (.unknownBoard target.board (sortedNames registry.boards))
  unless board.architecture = target.architecture do
    throw (.otherArchitecture target.board board.architecture target.architecture)
  unless target.mode ∈ modes do throw (.badMode target.mode)
  let some architecture := registry.architectures.lookup target.architecture
    | throw (.unknownArchitecture "resolve" target.architecture)
  return (architecture, board)

/-- The parameters of a build in a kernel directory. -/
def resolvedFor (kernelDir : Path) (target : Target) (architecture : Architecture) (board : Board) :
    Resolved :=
  let linkerDir := kernelDir / architecture.linkerDir
  let outputDir := kernelDir / "target" / architecture.triple / target.mode
  { target
    triple := architecture.triple
    linkerScript := linkerDir / board.linkerScript
    activeScript := linkerDir / "linker.ld"
    executable := outputDir / "os"
    rawBinary := outputDir / "os.bin"
    features := featureList architecture target }

/-- Puts the board's linker script in force. -/
def Resolved.activate (r : Resolved) : Build Unit := do
  Build.change (·.copyFile r.linkerScript r.activeScript)
  Build.log s!"[OK]    {r.linkerScript.name} → {r.activeScript.name}"

/-- The parameters for a target, whose linker script has to exist. It is put in force if `activate`
asks for it. -/
def Registry.resolve (registry : Registry) (kernelDir : Path) (target : Target) (activate : Bool) :
    Build Resolved := do
  let fail {α : Type} (cause : Cause) : Build α := Build.failFor (toString target) cause
  let (architecture, board) ← match registry.check target with
    | .ok found => pure found
    | .error cause => fail cause
  let resolved := resolvedFor kernelDir target architecture board
  unless ← Build.isFile resolved.linkerScript do
    fail (.noLinkerScript (toString resolved.linkerScript))
  if activate then resolved.activate
  return resolved

end BootImage
