import BootImage.Host.Size
import BootImage.Target
import BootImage.Toolchain

/-!
# Building the kernel

The kernel is compiled for a target, its raw binary is extracted from the executable, and the binary
is put where the boot loader finds it.

## Main definitions

* `Builder`: what is used to build.
* `Artifact`: an executable with its raw binary.
* `Builder.compile`, `Builder.extract`, `Builder.build`: the steps.
* `Artifact.deploy`: hands the binary to the boot loader.
-/

namespace BootImage

open Host (Path)

/-- What is used to build a kernel. -/
structure Builder where
  registry : Registry
  kernelDir : Path
  toolchain : Toolchain
  deriving Inhabited

/-- An executable and the raw binary that was extracted from it. -/
structure Artifact where
  executable : Path
  rawBinary : Path
  size : Nat
  deriving Repr, Inhabited

namespace Builder

/-- The word that starts a program of the toolchain. -/
def tool (b : Builder) (name : String) : Build String := do
  let searchPath := (← get).searchPath
  Build.query fun tree => b.toolchain.tool tree searchPath name

/-- Tells that the kernel is compiled for a target. -/
def announce (target : Target) : Build Unit :=
  Build.log s!"=== COMPILING KERNEL ({target}) ==="

/-- Compiles the kernel for a target. The result is the path of the executable. -/
def compile (b : Builder) (target : Target) : Build Path := do
  announce target
  let resolved ← b.registry.resolve b.kernelDir target true
  let some cargo := b.toolchain.cargo | Build.fail .noValue
  let mode := if target.mode = "release" then ["--release"] else []
  let command := [← b.tool cargo, "build"] ++ mode ++
    ["--target", resolved.triple, "--features", " ".intercalate resolved.features]
  Build.runProgram "compile" (toString target)
    { command, directory := toString b.kernelDir
      environment := b.toolchain.environment (← get).searchPath }
  unless ← Build.isFile resolved.executable do
    Build.failFor (toString target) (.nothingProduced (toString resolved.executable))
  let size := (← Build.query (·.read resolved.executable)).size
  Build.log s!"[OK]    {resolved.executable.name} — {size} bytes"
  return resolved.executable

/-- The content of an executable that has to be there. -/
def readExecutable (executable : Path) : Build Content := do
  unless ← Build.isFile executable do
    Build.fail (.executable (toString executable) .missing)
  Build.query (·.read executable)

/-- Extracts the raw binary with the converter. The executable is checked before. -/
def convert (b : Builder) (converter : String) (executable output : Path) : Build Unit := do
  let content ← readExecutable executable
  let _ ← Build.ofExcept (.executable (toString executable)) (Elf.segments content)
  Build.replaceFile output fun temporary => do
    let command := [← b.tool converter, toString executable, "--strip-all", "-O", "binary",
      toString temporary]
    Build.runProgram "extract" none { command, directory := none, environment := none }

/-- Extracts the raw binary of an executable, to a path of its own or to one beside it. -/
def extract (b : Builder) (executable : Path) (output : Option Path) : Build Artifact := do
  let output ← match output, executable.withName? (executable.name ++ ".bin") with
    | some p, _ => pure p
    | none, some p => pure p
    | none, none => Build.fail (.host .noName)
  Build.log s!"=== EXTRACTING RAW BINARY ({executable.name}) ==="
  match b.toolchain.objcopy.filter (· ≠ "") with
  | some converter => b.convert converter executable output
  | none =>
    let content ← readExecutable executable
    let flat ← Build.ofExcept (.executable (toString executable)) (Elf.flatten content)
    Build.writeAtomically output flat
  let size := (← Build.query (·.read output)).size
  Build.log s!"[OK]    {output.name} — {size} bytes → {Host.sectorCount size} sectors"
  return { executable, rawBinary := output, size }

/-- Compiles the kernel for a target and extracts its raw binary. -/
def build (b : Builder) (target : Target) : Build Artifact := do
  b.extract (← b.compile target) none

end Builder

/-- Copies the raw binary to where the boot loader finds it. -/
def Artifact.deploy (a : Artifact) (dest : Path) : Build Path := do
  Build.replaceFile dest fun temporary => do
    Build.change (·.write temporary (← Build.query (·.read a.rawBinary)))
  Build.log s!"[OK]    {a.rawBinary.name} → {dest}"
  return dest

end BootImage
