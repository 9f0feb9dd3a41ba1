import BootImage.Fat.Geometry
import BootImage.Host.Path

/-!
# Reports of an assembly

An assembly copies binaries of the host into an image. A binary that cannot be copied is no failure:
it is recorded, with the reason, and the assembly goes on.

## Main definitions

* `BinaryEntry`: a file of the host and where it goes in the image.
* `MissingEntry`: one that was not copied.
* `Report`: what an assembly copied and what not.
* `Report.summary`: the lines that sum it up.
-/

namespace BootImage

open Host (Path)

/-- A file of the host and its path in the image. -/
structure BinaryEntry where
  source : Path
  dest : String
  deriving DecidableEq, Repr, Inhabited

/-- A file that was not copied. `spelling` is the text that its path was given by. -/
structure MissingEntry where
  spelling : String
  dest : Option String
  reason : String := "not found"
  deriving Repr, Inhabited

/-- The record for a path. -/
def MissingEntry.ofPath (source : Path) (dest : Option String) (reason : String) : MissingEntry :=
  { spelling := toString source, dest, reason }

/-- The file. -/
def MissingEntry.source (m : MissingEntry) : Path :=
  Path.ofString m.spelling

/-- The message, which shows the path as it was given. -/
def MissingEntry.text (m : MissingEntry) : String :=
  s!"{m.spelling}: {m.reason}"

/-- Records are equal if they are about the same path, however it is spelled. -/
instance : BEq MissingEntry where
  beq a b := a.source == b.source && a.dest == b.dest && a.reason == b.reason

/-- What an assembly did. -/
structure Report where
  image : Path
  geometry : Option Fat.Geometry := none
  copied : List BinaryEntry := []
  missing : List MissingEntry := []
  deriving Inhabited

namespace Report

/-- Whether nothing was left out. -/
def isComplete (r : Report) : Bool :=
  r.missing.isEmpty

/-- The line about a file that was not copied. -/
def missingLine (m : MissingEntry) : String :=
  let dest := match m.dest with
    | none | some "" => ""
    | some dest => s!" → ::{dest}"
  s!"  ✗ {m.source}{dest}  ({m.reason})"

/-- The lines that sum an assembly up. -/
def summary (r : Report) : List String :=
  s!"{r.image}: {r.copied.length} copied, {r.missing.length} skipped" :: r.missing.map missingLine

end Report

end BootImage
