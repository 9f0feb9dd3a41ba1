import BootImage.Host.Program
import BootImage.Text.Quoted

/-!
# Listings of a file tree

A listing is a file tree as lines of text. A line `directory PATH`, `file PATH` or `program PATH`
names something in the tree, a program being a file that may be started. The lines after a file tell
its content: `size N`, and `bytes N DIGITS` for the bytes from position `N` on, in hexadecimal. What
no line tells is zero, so the listing of a large and empty image is short.

## Main definitions

* `ListingLine`, `ListingLine.ofString?`: what a line tells.
* `FileTree.ofListing?`: the tree that lines list.
* `FileTree.listing`: the lines that list a tree.
-/

namespace BootImage.Host

/-- What a line of a listing tells. -/
inductive ListingLine
  | directory (path : String)
  | file (path : String) (executable : Bool)
  | size (size : Nat)
  | bytes (start : Nat) (bs : Bytes)
  deriving DecidableEq, Repr

/-! ### Reading -/

/-- The value of a hexadecimal digit. -/
def hexValue? (c : Char) : Option Nat :=
  if c.isDigit then some (c.toNat - '0'.toNat)
  else if 'a' ≤ c ∧ c ≤ 'f' then some (c.toNat - 'a'.toNat + 10)
  else none

/-- The bytes that pairs of hexadecimal digits spell. -/
def hexBytes? : List Char → Option Bytes
  | [] => some []
  | high :: low :: rest => do
    let b := 16 * (← hexValue? high) + (← hexValue? low)
    return UInt8.ofNat b :: (← hexBytes? rest)
  | [_] => none

/-- What a line tells. -/
def ListingLine.ofString? (line : String) : Option ListingLine :=
  let word := line.toList.takeWhile (· ≠ ' ')
  let rest := (line.toList.dropWhile (· ≠ ' ')).drop 1
  match String.ofList word with
  | "directory" => some (.directory (String.ofList rest))
  | "file" => some (.file (String.ofList rest) false)
  | "program" => some (.file (String.ofList rest) true)
  | "size" => (String.ofList rest).toNat?.map .size
  | "bytes" => do
    let start ← (String.ofList (rest.takeWhile (· ≠ ' '))).toNat?
    return .bytes start (← hexBytes? ((rest.dropWhile (· ≠ ' ')).drop 1))
  | _ => none

/-- A file that is being listed: its path and what is known of it. -/
structure ListedFile where
  path : Path
  content : Content
  executable : Bool

/-- The tree with a file that was listed. -/
def FileTree.plantListed (t : FileTree) : Option ListedFile → FileTree
  | some f => (t.plant f.path (.file f.content f.executable)).2
  | none => t

/-- The tree that more lines list, after `last` was begun. -/
def FileTree.addListing (t : FileTree) (last : Option ListedFile) :
    List ListingLine → Option FileTree
  | [] => some (t.plantListed last)
  | .directory path :: rest =>
    ((t.plantListed last).plant (Path.ofString path) .directory).2.addListing none rest
  | .file path executable :: rest =>
    (t.plantListed last).addListing
      (some { path := Path.ofString path, content := Content.empty, executable }) rest
  | .size size :: rest => do
    let f ← last
    t.addListing (some { f with content := Content.zeros size }) rest
  | .bytes start bs :: rest => do
    let f ← last
    t.addListing (some { f with content := f.content.write start bs }) rest

/-- The tree that lines list, its current directory being the root. -/
def FileTree.ofListing? (lines : List String) : Option FileTree := do
  (FileTree.empty []).addListing none (← lines.mapM ListingLine.ofString?)

/-! ### Writing -/

/-- A line of a listing. -/
protected def ListingLine.toString : ListingLine → String
  | .directory path => s!"directory {path}"
  | .file path false => s!"file {path}"
  | .file path true => s!"program {path}"
  | .size n => s!"size {n}"
  | .bytes start bs =>
    s!"bytes {start} " ++ String.ofList (bs.flatMap fun b => Text.hexDigits 2 b.toNat)

/-- The lines about the content of a file. -/
def contentLines (c : Content) : List ListingLine :=
  .size c.size :: (c.blocks.toList.filter fun (_, block) => block.any (· ≠ 0)).map
    fun (number, block) => .bytes (number * blockSize) block

/-- The lines about what is at a place. -/
def Node.listing (place : List String) : Node → List ListingLine
  | .directory => if place = [] then [] else [.directory ("/".intercalate place)]
  | .file content executable =>
    .file ("/".intercalate place) executable :: contentLines content

/-- The lines that list a tree. -/
def FileTree.listing (t : FileTree) : List String :=
  (t.nodes.toList.flatMap fun (place, node) => node.listing place).map ListingLine.toString

end BootImage.Host
