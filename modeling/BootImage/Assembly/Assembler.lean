import BootImage.Assembly.Discovery
import BootImage.Fat.Edit
import BootImage.Session

/-!
# Assembling an image

An assembler makes an image of zeros, formats it, makes directories, copies binaries and seals the
image. The volume is opened when it is first needed and stays open until the image is sealed.

## Main definitions

* `Assembler`: the state of an assembly.
* `Assembly`: what runs on it, in a session.
* `Assembly.createImage`, `Assembly.format`, `Assembly.makeDirectory`, `Assembly.copyFile`,
  `Assembly.sealImage`: the steps.
* `Assembly.copyPoints`: a copy to a path that is given as code points.
* `Assembly.assemble`: all of them.
* `Assembly.on`: runs an assembly on a new assembler.
* `Binaries`, `Binaries.discover`: what an image is made of.
* `assembleImage`: discovers the binaries and assembles an image of them.
* `formatFile`: formats the image at a path.
-/

namespace BootImage

open Host (Path)

/-- The state of an assembly: the parameters of the image, whether it is formatted and sealed, what
was done so far, and the volume while it is open. -/
structure Assembler where
  image : Path
  blockSize : Int := 512
  blockCount : Int := 131072
  sectorsPerCluster : Int := 1
  directories : List String := ["bin"]
  formatted : Bool := false
  sealed : Bool := false
  report : Report := { image }
  volume : Option Fat.Volume := none
  deriving Inhabited

/-- The bytes of the image. -/
def Assembler.capacity (a : Assembler) : Int :=
  a.blockSize * a.blockCount

/-- An assembler in a session. -/
structure Assembly.State where
  assembler : Assembler
  session : Session
  deriving Inhabited

/-- What runs on an assembler and can fail. -/
abbrev Assembly := ExceptT Failure (StateM Assembly.State)

/-- Formats the image at a path. -/
def formatFile (image : Path) (sectorsPerCluster : Int) (label : String) (volumeId : Int) :
    Build Fat.Geometry := do
  unless ← Build.isFile image do
    Build.fail (.image (.noImage (toString image)))
  let content ← Build.query (·.read image)
  let (geometry, content) ←
    Build.ofExcept .image (Fat.formatImage content sectorsPerCluster label volumeId)
  Build.change (·.write image content)
  return geometry

namespace Assembly

/-- A step of the session alone. -/
def session {α : Type} (b : Build α) : Assembly α := do
  let s ← get
  let (result, session) := b.run.run s.session
  set { s with session }
  liftExcept result
where
  /-- A result without a change. -/
  liftExcept (r : Except Failure α) : Assembly α := ExceptT.mk (pure r)

/-- A change of the assembler alone. -/
def update (f : Assembler → Assembler) : Assembly Unit :=
  modify fun s => { s with assembler := f s.assembler }

/-- The assembler. -/
def assembler : Assembly Assembler := do
  return (← get).assembler

/-- A change of the open volume and of the image that it is stored in. -/
def edit {α : Type} (volume : Fat.Volume) (change : Fat.Edit α) : Assembly α := do
  let image := (← assembler).image
  let content ← session (Build.query (·.read image))
  let (result, disk) := change.run.run { volume, content }
  session (Build.change (·.write image disk.content))
  update fun a => { a with volume := disk.volume }
  session (Build.ofExcept .image result)

/-- Makes the image a file of zeros. It is a new one, with nothing reported so far. -/
def createImage : Assembly Unit := do
  let a ← assembler
  if a.blockSize ≤ 0 ∨ a.blockCount ≤ 0 then
    session (Build.fail (.imageSize a.blockCount a.blockSize))
  session do
    Build.makeDirectories a.image.parent
    Build.change (·.write a.image (Content.zeros a.capacity.toNat))
    Build.log s!"[OK]    {a.image.name} — {a.blockCount} × {a.blockSize} = {a.capacity} bytes"
  update fun a => { a with formatted := false, sealed := false, report := { image := a.image } }

/-- Formats the image. -/
def format : Assembly Fat.Geometry := do
  let a ← assembler
  let g ← session
    (formatFile a.image a.sectorsPerCluster Fat.defaultLabel Fat.defaultVolumeId)
  update fun a => { a with formatted := true, report := { a.report with geometry := g } }
  session (Build.log (s!"[OK]    FAT32 — {g.clusterCount} clusters × {g.clusterSize} bytes, " ++
    s!"FAT {g.tableSectors} sectors × {g.tableCount}"))
  return g

/-- The volume, opened if it is not open. -/
def openVolume : Assembly Fat.Volume := do
  let a ← assembler
  let image := toString a.image
  if a.sealed then session (Build.fail (.image (.sealed image)))
  match a.volume with
  | some volume => return volume
  | none =>
    let content ← session (Build.query (·.read a.image))
    let volume ← session (Build.ofExcept .image (Fat.Volume.ofContent image content false))
    update fun a => { a with volume }
    return volume

/-- A path without the slashes at either end. -/
def withoutOuterSlashes (path : String) : String :=
  let start := path.toList.dropWhile (· = '/')
  String.ofList (start.reverse.dropWhile (· = '/')).reverse

/-- Makes a directory in the image. -/
def makeDirectory (path : String) : Assembly Unit := do
  let _ ← edit (← openVolume) (Fat.Edit.makeDirectory path)
  session (Build.log s!"  ✓ ::/{withoutOuterSlashes path}/")

/-- Records that a file was not copied. -/
def recordMissing (m : MissingEntry) : Assembly Unit :=
  update fun a => { a with report := { a.report with missing := a.report.missing ++ [m] } }

/-- The last name in a path of the image, slashes at its end aside. -/
def lastName (path : String) : String :=
  let shown := path.toList.reverse.dropWhile (· = '/')
  String.ofList (shown.takeWhile (· ≠ '/')).reverse

/-- The last name in a path that is given as code points. -/
def lastPoints (path : List Text.CodePoint) : List Text.CodePoint :=
  let shown := path.reverse.dropWhile (· = .char '/')
  (shown.takeWhile (· ≠ .char '/')).reverse

/-- Copies a file of the host into the image, to a path that is given as code points. A file that is
missing, or whose name the image cannot have, is recorded, with the path as it is shown. The result
tells whether it was copied. -/
def copyPoints (source : Path) (path : List Text.CodePoint) : Assembly Bool := do
  let dest := Text.shownPoints path
  let volume ← openVolume
  unless ← session (Build.isFile source) do
    recordMissing (.ofPath source dest "not found")
    session (Build.log s!"[WARN]  {source.name} not found in {source.parent}")
    return false
  unless ← session (Build.ofExcept .image (Fat.checkName (lastPoints path))) do
    recordMissing (.ofPath source dest "name not representable on FAT")
    session (Build.log s!"[WARN]  {source.name} — name not representable on FAT, skipped")
    return false
  let content ← session (Build.query (·.read source))
  edit volume (Fat.Edit.writePoints path content)
  update fun a =>
    { a with report := { a.report with copied := a.report.copied ++ [⟨source, dest⟩] } }
  session (Build.log s!"  ✓ {source.name} → ::{dest}")
  return true

/-- Copies a file of the host into the image. -/
def copyFile (source : Path) (dest : String) : Assembly Bool :=
  copyPoints source (Text.points dest)

theorem lastPoints_points (path : String) :
    lastPoints (Text.points path) = Text.points (lastName path) := by
  simp [lastPoints, lastName, Text.points, ← List.map_reverse, List.dropWhile_map,
    List.takeWhile_map, Function.comp_def]

theorem session_ofExcept_ok {ε α : Type} (f : ε → Cause) (a : α) :
    session (Build.ofExcept f (.ok a)) = pure a := rfl

/-- How a file is copied to a path that is text. -/
theorem copyFile_eq (source : Path) (dest : String) : copyFile source dest = do
    let volume ← openVolume
    unless ← session (Build.isFile source) do
      recordMissing (.ofPath source dest "not found")
      session (Build.log s!"[WARN]  {source.name} not found in {source.parent}")
      return false
    unless Fat.isValidName (lastName dest) do
      recordMissing (.ofPath source dest "name not representable on FAT")
      session (Build.log s!"[WARN]  {source.name} — name not representable on FAT, skipped")
      return false
    let content ← session (Build.query (·.read source))
    edit volume (Fat.Edit.writeFile dest content content.size)
    update fun a =>
      { a with report := { a.report with copied := a.report.copied ++ [⟨source, dest⟩] } }
    session (Build.log s!"  ✓ {source.name} → ::{dest}")
    return true := by
  simp only [copyFile, copyPoints, Text.shownPoints_points, lastPoints_points, Fat.checkName_points,
    Fat.Edit.writePoints_points, session_ofExcept_ok, pure_bind]

/-- Closes the volume, if it is open. From then on the image takes no more changes. -/
def sealImage : Assembly Unit := do
  let a ← assembler
  if let some volume := a.volume then
    let content ← session (Build.query (·.read a.image))
    let disk := Fat.Disk.close { volume, content }
    session (Build.change (·.write a.image disk.content))
  update fun a => { a with volume := none, sealed := true }

/-- Tells that an image is assembled. -/
def announce : Build Unit :=
  Build.log "=== ASSEMBLING FILESYSTEM IMAGE ==="

/-- Builds the image anew: directories, then local binaries, then those of the test suite. It is
sealed in the end, also when something failed on the way. -/
def assemble (own suite : List BinaryEntry) (missing : List MissingEntry) : Assembly Report := do
  session announce
  createImage
  let _ ← format
  update fun a =>
    { a with report := { a.report with missing := a.report.missing ++ missing } }
  try
    for directory in (← assembler).directories do
      makeDirectory directory
    for entry in own ++ suite do
      let _ ← copyFile entry.source entry.dest
  catch failure =>
    sealImage
    throw failure
  sealImage
  let a ← assembler
  session (Build.log (s!"[OK]    {a.image.name} — {a.report.copied.length} files, " ++
    s!"{a.report.missing.length} skipped"))
  return a.report

/-- Runs an assembly on a new assembler. -/
def on {α : Type} (assembler : Assembler) (assembly : Assembly α) : Build α := do
  let (result, state) := assembly.run.run { assembler, session := ← get }
  set state.session
  ExceptT.mk (pure result)

end Assembly

/-- What an image is made of: local binaries, those of the test suite, and records of those that
there are none of. -/
structure Binaries where
  own : List BinaryEntry
  suite : List BinaryEntry
  missing : List MissingEntry
  deriving Repr, Inhabited

/-- The binaries that are discovered for an image. Those that are missing are logged. -/
def Binaries.discover (outputDir sourcesDir suiteDir : Path) (suffixes : List String) :
    Build Binaries := do
  let sources ← Build.query fun tree => sourceNames tree sourcesDir
  let (own, missing) ← Build.query fun tree => discoverLocal tree outputDir sources suffixes "/"
  let (suite, suiteMissing) ← Build.query fun tree => discoverSuite tree suiteDir "/"
  for m in missing ++ suiteMissing do
    Build.log s!"[WARN]  {m.text}"
  return { own, suite, missing := missing ++ suiteMissing }

/-- Assembles the image of a new assembler from the binaries that are discovered. -/
def assembleImage (assembler : Assembler) (outputDir sourcesDir suiteDir : Path)
    (suffixes : List String) : Build Report := do
  let binaries ← Binaries.discover outputDir sourcesDir suiteDir suffixes
  Assembly.on assembler (Assembly.assemble binaries.own binaries.suite binaries.missing)

end BootImage
