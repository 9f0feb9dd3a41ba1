import BootImage.Host.FileTree

/-!
# The layout of a project

Where a project keeps its sources and what is built of them. Every path hangs off the project's
root, which is made absolute first.

## Main definitions

* `Layout`: a project, by its root.
* `Layout.ofRoot`: the layout for a root as it was given.
-/

namespace BootImage

open Host (Path FileTree Fault)

/-- A project with an absolute root. -/
structure Layout where
  root : Path
  deriving Repr, Inhabited

namespace Layout

/-- The layout for a root that is read in the current directory. -/
def ofRoot (tree : FileTree) (root : Path) : Except Fault Layout := do
  return ⟨← tree.resolve root⟩

/-- The sources of the kernel. -/
def kernelDir (l : Layout) : Path := l.root / "os"

/-- The sources of the user programs and what is built of them. -/
def userDir (l : Layout) : Path := l.root / "user"

/-- The sources of the user programs. -/
def userSources (l : Layout) : Path := l.userDir / "src" / "bin"

/-- Where the user programs are built. -/
def userOutput (l : Layout) (triple mode : String) : Path := l.userDir / "target" / triple / mode

/-- The binaries of the test suite. -/
def suiteDir (l : Layout) (architecture : String) : Path :=
  l.root / "test" / "testsuits-for-oskernel" / "riscv-syscalls-testing" / "user" / architecture

/-- The image of the file system. -/
def image (l : Layout) : Path := l.root / "fs-img" / "fs.img"

/-- Where the boot loader finds the kernel. -/
def deployed (l : Layout) : Path := l.root / "kernel-qemu"

/-- The boot loaders. -/
def bootloaderDir (l : Layout) : Path := l.root / "bootloader"

/-- The directory for logs. -/
def buildDir (l : Layout) : Path := l.root / "build"

/-- The log of a build. -/
def buildLog (l : Layout) : Path := l.buildDir / "logs" / "build.log"

/-- The settings file. -/
def settings (l : Layout) : Path := l.root / ".imgforge.env"

end Layout

end BootImage
