import BootImage.Fat.Tree
import BootImage.Inspect.Hexdump
import BootImage.Session

/-!
# Descriptions of an image

What an image is, read back from it: its boot sector, its geometry, and all that is in it.

## Main definitions

* `describe`: the lines of a description.
-/

namespace BootImage.Inspect

open Host (Path)

/-- The line about the mark at the end of a boot sector. -/
def signatureLine (boot : Bytes) : String :=
  let mark := boot.slice 510 2
  if mark = [0x55, 0xAA] then "✓ boot signature 0x55AA"
  else
    let digits := mark.flatMap fun b => Text.hexDigits 2 b.toNat
    s!"✗ bad boot signature: {String.ofList digits}"

/-- The lines about the geometry of a volume. -/
def geometryLines (g : Fat.Geometry) : List String :=
  ["",
   s!"sectors      {g.totalSectors} × {g.bytesPerSector}",
   s!"cluster      {g.sectorsPerCluster} sectors ({g.clusterSize} bytes)",
   s!"FATs         {g.tableCount} × {g.tableSectors} sectors",
   s!"data start   LBA {g.dataStart}",
   s!"clusters     {g.clusterCount}",
   ""]

/-- The line about an entry of a volume. -/
def entryLine (path : String) (e : Fat.DirEntry) : String :=
  if e.isDirectory then s!"  {path}/"
  else
    String.ofList ("  ".toList ++ Text.padRight 40 path.toList ++ ' ' ::
      Text.padLeft 10 (toString e.size).toList)

/-- The lines about the content of an image. -/
def describeContent (image : String) (content : Content) : Except Fat.Error (List String) := do
  let boot := content.read 0 512
  let geometry ← Fat.Geometry.ofBootSector boot image
  let volume ← Fat.Volume.ofContent image content true
  let entries ← Fat.Disk.walk { volume, content } "/"
  return [s!"{image}  ({content.size} bytes)", "", "Boot sector:"] ++ hexdump boot 0 96 ++
    [signatureLine boot] ++ geometryLines geometry ++
    [s!"free         {volume.free} clusters", ""] ++
    entries.map fun (path, e) => entryLine path e

/-- The lines about the image at a path. -/
def describe (image : Path) : Build (List String) := do
  unless ← Build.isFile image do Build.fail (.noImage (toString image))
  let content ← Build.query (·.read image)
  Build.ofExcept .image (describeContent (toString image) content)

end BootImage.Inspect
