import BootImage.Assembly.Report
import BootImage.Host.FileTree

/-!
# Discovery of binaries

Which binaries go into an image: for each source of a user program the binary that was built of it,
and every file of the test suite.

## Main definitions

* `sourceNames`: the names of the sources.
* `discoverLocal`: the binaries built of sources, and the sources without one.
* `discoverSuite`: the files of the test suite.
-/

namespace BootImage

open Host (Path FileTree Fault)

/-- The path of a name in a directory of the image. -/
def imagePath (directory name : String) : String :=
  String.ofList ((directory.toList.reverse.dropWhile (· = '/')).reverse ++ '/' :: name.toList)

/-- The names of the sources in a directory. -/
def sourceNames (tree : FileTree) (directory : Path) : Except Fault (List String) := do
  let _ ← tree.probe directory
  tree.filesIn directory

/-- The name without the first suffix that it ends with. The empty suffix takes all of it. -/
def withoutSuffix (name : String) (suffixes : List String) : String :=
  match suffixes.find? fun suffix => suffix.toList.isSuffixOf name.toList with
  | none => name
  | some "" => ""
  | some suffix => String.ofList (name.toList.take (name.length - suffix.length))

/-- The endings of sources. -/
def sourceSuffixes : List String := [".rs"]

/-- The binary built of a source, or the record that there is none. -/
def binaryOf (tree : FileTree) (outputDir : Path) (suffixes : List String)
    (directory source : String) : Except Fault (BinaryEntry ⊕ MissingEntry) := do
  let name := withoutSuffix source suffixes
  let artifact := outputDir / name
  let dest := imagePath directory name
  match ← tree.probe artifact with
  | some (.file _ _) => return .inl ⟨artifact, dest⟩
  | _ => return .inr (.ofPath artifact dest s!"no artifact for {source}")

/-- The binaries built of sources, and a record for each source that has none. -/
def discoverLocal (tree : FileTree) (outputDir : Path) (sources suffixes : List String)
    (directory : String) : Except Fault (List BinaryEntry × List MissingEntry) := do
  let found ← sources.mapM (binaryOf tree outputDir suffixes directory)
  return (found.filterMap Sum.getLeft?, found.filterMap Sum.getRight?)

/-- The files of the test suite, by name, or a record that there is none. -/
def discoverSuite (tree : FileTree) (suiteDir : Path) (directory : String) :
    Except Fault (List BinaryEntry × List MissingEntry) := do
  match ← tree.probe suiteDir with
  | some .directory =>
    return ((← tree.filesIn suiteDir).map fun name =>
      ⟨suiteDir.join ⟨"", [name]⟩, imagePath directory name⟩, [])
  | _ => return ([], [.ofPath suiteDir none "test suite directory not found"])

end BootImage
