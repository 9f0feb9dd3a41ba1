import BootImage.Assembly.Assembler
import BootImage.CommandLine.Invocation
import BootImage.Inspect.Description
import BootImage.Kernel
import BootImage.Layout
import BootImage.Settings.File

/-!
# Running commands

What each command does in a session, and what a command line comes to: an exit code, or a failure
that no command deals with.

## Main definitions

* `Command.perform`: what a command does.
* `Outcome`, `execute`: what a command line comes to.
* `Outcome.code`: the code that the program then ends with.
-/

namespace BootImage.CommandLine

open Host (Path)

/-! ### Banners -/

/-- Prints what the program is. -/
def printBanner : Build Unit := do
  for line in
    ["",
     "╔══════════════════════════════════════════════════════╗",
     "║         IMGFORGE — kernel + FAT32 image builder      ║",
     "╚══════════════════════════════════════════════════════╝",
     ""] do
    Build.print line

/-- The lines about a kernel that was built. -/
def artifactLines (a : Artifact) (deployed : Option Path) : List String :=
  [s!"║  ✓ ELF   {a.executable}", s!"║  ✓ BIN   {a.rawBinary}  ({a.size} bytes)"] ++
    (deployed.map fun p => s!"║  ✓ BOOT  {p}").toList

/-- The lines about an image that was assembled. -/
def reportLines (r : Report) (size : Nat) : List String :=
  s!"║  ✓ FS    {r.image}  ({Host.sizeText size})" :: r.summary.map fun line => s!"║    {line}"

/-- Prints what a command has built. -/
def printSummary (l : Layout) (artifact : Option Artifact) (report : Option Report) :
    Build Unit := do
  for line in
    ["",
     "╔══════════════════════════════════════════════════════════════════════╗",
     "║                          BUILD ARTIFACTS                             ║",
     "╠══════════════════════════════════════════════════════════════════════╣"] do
    Build.print line
  if let some a := artifact then
    let deployed ← Build.has l.deployed
    for line in artifactLines a (if deployed then some l.deployed else none) do
      Build.print line
  if let some r := report then
    let size := (← Build.query (·.read r.image)).size
    for line in reportLines r size do
      Build.print line
  Build.print "╚══════════════════════════════════════════════════════════════════════╝"
  Build.print ""

/-! ### Commands -/

/-- Starts a new log file, if there is to be one. -/
def resetLog : Build Unit := do
  if let some file := (← get).logFile then
    Build.makeDirectories file.parent
    if ← Build.has file then Build.change (·.remove file)

/-- The value of a setting that is not empty. -/
def setting? (settings : Settings.Values) (name : String) : Option String :=
  (settings.lookup name).bind fun value => if value = [] then none else some (String.ofList value)

/-- Assembles an image of which the size of the clusters, or of the image itself, was given without
a value. This fails at the step that needs it. -/
def assembleUnsized (image : Path) (o : ImageOptions) : Build Report := do
  Assembly.announce
  let some blockSize := o.blockSize | Build.fail .noValue
  let some blockCount := o.blockCount
    | Build.fail (if blockSize ≤ 0 then .noBlockCount blockSize else .noValue)
  Assembly.on { image, blockSize, blockCount } Assembly.createImage
  Build.fail .noClusterSize

/-- Assembles an image of binaries, with the sizes that options give. -/
def assembleSized (image : Path) (o : ImageOptions) (binaries : Binaries) : Build Report :=
  match o.blockSize, o.blockCount, o.sectorsPerCluster with
  | some blockSize, some blockCount, some sectorsPerCluster =>
    Assembly.on { image, blockSize, blockCount, sectorsPerCluster }
      (Assembly.assemble binaries.own binaries.suite binaries.missing)
  | _, _, _ => assembleUnsized image o

/-- Assembles the image of a project. -/
def assembleFor (l : Layout) (settings : Settings.Values) (architecture : Option String)
    (o : ImageOptions) : Build Report := do
  let (some architecture, some mode) := (architecture, o.mode) | Build.fail .noValue
  let some known := Registry.standard.architectures.lookup architecture
    | Build.fail (.unknownArchitecture "fs" architecture)
  let suiteDir := match o.suiteDir, setting? settings "TESTSUITE_DIR" with
    | some p, _ => p / architecture
    | none, some base => Path.ofString base / architecture
    | none, none => l.suiteDir architecture
  let binaries ←
    Binaries.discover (l.userOutput known.triple mode) l.userSources suiteDir sourceSuffixes
  assembleSized (o.image.getD l.image) o binaries

/-- The target that options name. What was given without a value is shown as such. -/
def BuildOptions.target (o : BuildOptions) : Target where
  architecture := o.architecture.getD Cause.noValueText
  board := o.board.getD Cause.noValueText
  mode := o.image.mode.getD Cause.noValueText
  features := o.features

/-- Refuses options that give no value to the board or the mode. The board is looked at first, then
its architecture, then the mode. -/
def BuildOptions.checkTarget (o : BuildOptions) : Except Cause Unit := do
  if o.board.isNone then throw .noValue
  if o.image.mode.isNone then
    let _ ← Registry.standard.check { o.target with mode := "release" }
    throw .noMode

/-- Builds the kernel for the target that options name. -/
def buildTarget (builder : Builder) (o : BuildOptions) : Build Artifact := do
  match o.checkTarget with
  | .ok () => builder.build o.target
  | .error cause => do
    Builder.announce o.target
    Build.failFor (toString o.target) cause

/-- Builds the kernel and the image. -/
def buildProject (l : Layout) (o : BuildOptions) : Build Unit := do
  resetLog
  printBanner
  let settings ← Settings.load l.settings
  let builder : Builder :=
    { registry := .standard, kernelDir := l.kernelDir
      toolchain :=
        { binDir := Toolchain.chooseBinDir o.toolchainDir settings, cargo := o.cargo
          objcopy := o.objcopy, logLevel := o.logLevel } }
  let (artifact, report) ←
    try
      let artifact ← buildTarget builder o
      if o.deploys then
        let _ ← artifact.deploy l.deployed
      let report ← if o.makesImage then
          some <$> assembleFor l settings o.architecture o.image
        else pure none
      pure (artifact, report)
    catch failure => throw (failure.about (toString o.target))
  printSummary l (some artifact) report

/-- Assembles the image alone. -/
def buildImage (l : Layout) (architecture : Option String) (o : ImageOptions) : Build Unit := do
  resetLog
  let settings ← Settings.load l.settings
  let report ← assembleFor l settings architecture o
  printSummary l none (some report)

/-- Runs what was built. -/
def runBoard (l : Layout) (o : RunOptions) : Build Int := do
  let kernel := o.kernel.getD l.deployed
  let image := o.image.getD l.image
  let shown := o.board.getD Cause.noValueText
  for p in [kernel, image] do
    unless ← Build.has p do
      Build.failFor shown (.notBuilt (toString p))
  let usual := l.bootloaderDir / s!"{shown}.bin"
  let bootloader ← match o.bootloader with
    | some p => pure (some p)
    | none => do
      if ← Build.has usual then pure (some usual) else pure none
  let some board := o.board | Build.fail .noValue
  launch board { kernel, image, bootloader } o.emulator []

/-- Removes what was built. -/
def cleanProject (l : Layout) : Build Unit := do
  Build.log "=== CLEANING ==="
  for p in [l.buildDir, l.image.parent, l.kernelDir / "target", l.userDir / "target"] do
    if ← Build.has p then
      Build.change (·.removeTree p)
      Build.log s!"[OK]    removed {p}"
  if ← Build.has l.deployed then
    Build.change (·.remove l.deployed)
    Build.log s!"[OK]    removed {l.deployed}"
  Build.log "[OK]    Clean complete"

/-- The values that a setup asks for. -/
def setupValues (tree : Host.FileTree) (o : SetupOptions) : Except Cause Settings.Values := do
  let located (name : String) (p : Option Path) : Except Cause (List (String × List Char)) := do
    let p ← (p.mapM tree.resolve).mapError Cause.host
    return (p.map fun p => (name, (toString p).toList)).toList
  let toolchain ← located "TOOLCHAIN_DIR" o.toolchainDir
  let suite ← located "TESTSUITE_DIR" o.suiteDir
  let assigned ← o.assignments.mapM fun item => do
    let some item := item | throw .noAssignment
    match item.toList.dropWhile (· ≠ '=') with
    | [] => throw (.badAssignment item)
    | _ :: value => return (String.ofList (item.toList.takeWhile (· ≠ '=')), value)
  return Settings.ofPairs (toolchain ++ suite ++ assigned)

/-- Stores settings. -/
def storeSettings (l : Layout) (o : SetupOptions) : Build Unit := do
  let values ← Build.ofExcept id (setupValues (← get).tree o)
  if values = [] then Build.fail .nothingToSet
  Build.log s!"=== UPDATING {l.settings.name} ==="
  let changed ← Settings.apply l.settings values
  Build.log s!"[OK]    {changed.length} setting(s) changed"

/-- Prints what an image is. -/
def printDescription (image : Path) : Build Unit := do
  for line in ← Inspect.describe image do
    Build.print line

/-- What a command does. The result is the exit code. -/
def Command.perform (l : Layout) : Command → Build Int
  | .build o => do buildProject l o; return 0
  | .image architecture o => do buildImage l architecture o; return 0
  | .run o => runBoard l o
  | .clean => do cleanProject l; return 0
  | .setup o => do storeSettings l o; return 0
  | .inspect p => do printDescription p; return 0

/-- Whether a command keeps a log file. -/
def Command.isLogged : Command → Bool
  | .build _ | .image _ _ => true
  | _ => false

/-- What a command line comes to. -/
inductive Outcome
  /-- A command ended with a code. -/
  | ended (code : Int)
  /-- No command was run. -/
  | exited (exit : Exit)
  /-- A failure that is none of the build. -/
  | failed (failure : Failure)
  deriving Repr

/-- The code that the program ends with. -/
def Outcome.code : Outcome → Nat
  | ended code => (code % 256).toNat
  | exited exit => exit.code
  | failed _ => 1

/-- What is said about an outcome that no command has told of. -/
def Outcome.message : Outcome → Option String
  | ended _ | exited .help => none
  | exited .usage => some "the command line is wrong"
  | failed failure => some (failure.message.getD "the system refused an operation")

/-- Runs a command. A failure of the build is logged. -/
def perform (invocation : Invocation) : Build Int := do
  let some root := invocation.root | Build.fail .noValue
  let l ← Build.query fun tree => Layout.ofRoot tree root
  modify fun s =>
    { s with logFile := if invocation.command.isLogged then some l.buildLog else none }
  try
    invocation.command.perform l
  catch failure =>
    if failure.isOfBuild then
      Build.log ("[ERROR] " ++ failure.message.getD "")
      return 1
    else throw failure

/-- Runs a command line. -/
def execute (words : List String) (s : Session) : Outcome × Session :=
  match Invocation.ofWords words with
  | .error exit => (.exited exit, s)
  | .ok invocation =>
    match (perform invocation).run.run s with
    | (.ok code, s) => (.ended code, s)
    | (.error failure, s) => (.failed failure, s)

end BootImage.CommandLine
