import BootImage.Fat.DirEntry
import Std.Data.HashSet

/-!
# Directories

A directory is a sequence of slots. A slot whose first byte is zero ends it; the slots of deleted
entries are left in place, to be used again.

## Main definitions

* `slotsOf`: the slots of a directory's bytes.
* `parse`: the entries of a directory.
* `shortNames`: the short names of entries.
* `freeRun`: the first place with room for so many slots.
* `growth`: the clusters by which a directory has to grow for so many slots.
* `splitPath`, `splitPoints`: the names in a path.
-/

namespace BootImage.Fat

/-- The slots of a directory; bytes that fill no slot are left out. -/
def slotsOf (data : Bytes) : List Bytes :=
  data.pieces (slotSize - 1)

/-! ### Entries -/

/-- What is known of an entry before its short name is reached: the parts of its long name and their
slots, the last one read first, and the checksum, if the part that comes first was seen. -/
structure Pending where
  parts : List (List Char)
  slots : List Nat
  sum : Option UInt8

/-- Nothing is pending. -/
def Pending.none : Pending := ⟨[], [], .none⟩

/-- The entry of a short slot. The pending long name is its own if the checksum fits. -/
def entryOf (pending : Pending) (number : Nat) (slot : Bytes) : DirEntry :=
  let short := slot.take 11
  let owned := pending.parts ≠ [] ∧ pending.sum = some (checksum short)
  { name :=
      if owned then String.ofList pending.parts.flatten
      else shortDisplay short (slot.getD 12 0).toNat
    short
    attributes := slot.getD 11 0
    cluster := numberAt slot 20 2 * 0x10000 + numberAt slot 26 2
    size := numberAt slot 28 4
    slots := if owned then pending.slots.reverse ++ [number] else [number] }

/-- The entries in the slots from the given number on. -/
def parseFrom (pending : Pending) (number : Nat) : List Bytes → List DirEntry
  | [] => []
  | slot :: rest =>
    let first := slot.getD 0 0
    let attributes := slot.getD 11 0
    if first = 0 then []
    else if first = deletedMark then parseFrom .none (number + 1) rest
    else if attributes = longNameMark then
      let before := if first &&& lastPartMark ≠ 0 then ⟨[], [], some (slot.getD 13 0)⟩ else pending
      parseFrom
        { before with parts := slotText slot :: before.parts, slots := number :: before.slots }
        (number + 1) rest
    else if attributes &&& labelAttribute ≠ 0 then parseFrom .none (number + 1) rest
    else entryOf pending number slot :: parseFrom .none (number + 1) rest

/-- The entries of a directory, in the order in which they are stored. -/
def parse (data : Bytes) : List DirEntry :=
  parseFrom .none 0 (slotsOf data)

/-- The short names of entries. -/
def shortNames (entries : List DirEntry) : Std.HashSet Bytes :=
  .ofList (entries.map (·.short))

theorem contains_shortNames (entries : List DirEntry) (short : Bytes) :
    (shortNames entries).contains short = (entries.map (·.short)).contains short := by
  simp [shortNames]

/-! ### Free slots -/

/-- The first run of `count` free slots from slot `number` on, where `run` slots before it are free
and `total` is the count of all slots. -/
def freeRunFrom (count total run number : Nat) : List Bytes → Option Nat
  | [] => none
  | slot :: rest =>
    let first := slot.getD 0 0
    if first = 0 then if count ≤ total - (number - run) then some (number - run) else none
    else if first = deletedMark then
      if count ≤ run + 1 then some (number - run)
      else freeRunFrom count total (run + 1) (number + 1) rest
    else freeRunFrom count total 0 (number + 1) rest

/-- The first place in a directory with room for `count` slots one after the other: deleted ones, or
any from the end of the directory on. -/
def freeRun (data : Bytes) (count : Nat) : Option Nat :=
  let slots := slotsOf data
  freeRunFrom count slots.length 0 0 slots

/-- The clusters by which a directory has to grow to take `count` more slots. A cluster holds at
least one slot, so `count` clusters are always enough. -/
def growth (data : Bytes) (clusterSize count : Nat) : Nat :=
  ((List.range count).find? fun n =>
    (freeRun (data ++ Bytes.zeros (n * clusterSize)) count).isSome).getD count

/-! ### Paths -/

/-- The names in a path. Slashes and backslashes separate them; empty names and single dots are
left out. -/
def splitPath (path : String) : List String :=
  ((Text.pieces (fun c => c = '/' || c = '\\') path.toList).map String.ofList).filter
    fun name => name ≠ "" && name ≠ "."

/-- The names in a path that is given as code points. -/
def splitPoints (path : List Text.CodePoint) : List (List Text.CodePoint) :=
  (Text.pieces (fun p => p = .char '/' || p = .char '\\') path).filter
    fun name => name ≠ [] && name ≠ Text.points "."

end BootImage.Fat
