import BootImage.Text.Quoted

/-!
# Faults of a FAT32 image

Everything that can go wrong when an image is formatted, opened or changed, as one type of causes.
The wording is in `Error.text`; what a caller does about a fault is decided by its `Error.kind`.

## Main definitions

* `Error`: the causes.
* `Error.Kind`: what sort of failure a cause is.
* `Error.text`: the message.
-/

namespace BootImage.Fat

/-- Why an operation on an image failed. `image` is the image's path, `path` a path inside it. -/
inductive Error
  /-- The cluster size is not 1, 2, 4, …, 128 sectors. -/
  | clusterSize (sectors : Int)
  /-- The image is not a whole number of sectors. -/
  | partialSector (bytes sector : Int)
  /-- The sectors are so small that there are none. -/
  | emptySector
  | tooManySectors (sectors : Int)
  /-- The reserved sectors and the tables leave nothing for data. -/
  | noDataRegion (bytes : Int)
  | tooFewClusters (bytes sectorsPerCluster clusters : Int)
  | tooManyClusters (clusters : Int)
  | badLabel (label : String)
  /-- There is no file to format. -/
  | noImage (image : String)
  | noSignature (image : String)
  | notFat32 (image : String)
  | corruptParameters (image : String)
  /-- The links from `start` lead round in a circle. -/
  | chainLoop (image : String) (start : Int)
  /-- The table has fewer entries than the boot sector has clusters. -/
  | tableTooShort
  /-- More clusters were asked for than are free. -/
  | noClusters (image : String) (needed free : Int)
  /-- A directory and the growth of its parent do not fit. -/
  | noRoomForDirectory (image : String) (path : List String) (needed free : Nat)
  /-- A file and the growth of its directory do not fit. -/
  | noRoomForFile (path : String) (needed free : Int)
  | fileTooLarge (path : String) (size : Int)
  /-- Every numbered short name is taken. -/
  | noAlias (name : String)
  | badName (name : String)
  /-- A name has half of a surrogate pair in it, which has no code. -/
  | notEncodable
  /-- The volume was closed before. -/
  | sealed (image : String)
  | readOnly (image : String)
  /-- A cluster of a closed volume was asked for. -/
  | closed
  | notFound (image : String) (path : String)
  | notDirectory (image : String) (path : String)
  | isDirectory (image : String) (path : String)
  /-- The source of a file ended before its size was reached. -/
  | shortSource (path : String) (missing : Nat)
  /-- A directory has no cluster to be extended from, or a count of clusters is negative. -/
  | noLastCluster
  /-- A field of a slot cannot hold its value. -/
  | fieldRange
  /-- A byte of a slot cannot hold its value. -/
  | byteRange
  /-- Directories lie inside each other without end. -/
  | tooDeep
  /-- A number is none that a size or a place can have. -/
  | beyondSize
  /-- More bytes are asked for than a memory holds. -/
  | beyondMemory
  deriving DecidableEq, Repr, Inhabited

namespace Error

/-- The sorts of failure. `format` and `capacity` are failures of the build; the others are misuse
or follow from an image that no formatter wrote. -/
inductive Kind
  | format
  | capacity
  | misuse
  | encoding
  | notFound
  | notDirectory
  | isDirectory
  | shortSource
  | field
  | index
  | division
  | depth
  | size
  | memory
  deriving DecidableEq, Repr

/-- What sort of failure a cause is. -/
def kind : Error → Kind
  | clusterSize _ | partialSector _ _ | tooManySectors _ | noDataRegion _ | tooFewClusters _ _ _
  | tooManyClusters _ | badLabel _ | noImage _ | noSignature _ | notFat32 _ | corruptParameters _
  | chainLoop _ _ => .format
  | noClusters _ _ _ | noRoomForDirectory _ _ _ _ | noRoomForFile _ _ _ | fileTooLarge _ _
  | noAlias _ => .capacity
  | badName _ | sealed _ | readOnly _ | closed | byteRange => .misuse
  | notEncodable => .encoding
  | notFound _ _ => .notFound
  | notDirectory _ _ => .notDirectory
  | isDirectory _ _ => .isDirectory
  | shortSource _ _ => .shortSource
  | tableTooShort | fieldRange => .field
  | noLastCluster => .index
  | emptySector => .division
  | tooDeep => .depth
  | beyondSize => .size
  | beyondMemory => .memory

/-- The step of the build that the failure belongs to. -/
def step : Error → Option String
  | clusterSize _ | partialSector _ _ | tooManySectors _ | noDataRegion _ | tooFewClusters _ _ _
  | tooManyClusters _ | badLabel _ | noImage _ => some "format"
  | noSignature _ | notFat32 _ | corruptParameters _ | chainLoop _ _ => some "open"
  | noClusters _ _ _ | noRoomForFile _ _ _ | fileTooLarge _ _ | noAlias _ => some "copy"
  | noRoomForDirectory _ _ _ _ => some "mkdir"
  | _ => none

/-- The fewest clusters of a FAT32 volume. With fewer the volume would be read as FAT16. -/
def minClusters : Nat := 65525

/-- The most clusters of a FAT32 volume. The numbers past them are marks. -/
def maxClusters : Nat := 0x0FFFFFF5

/-- The message, if the failure has one of its own. -/
def text : Error → Option String
  | clusterSize n => s!"sectors per cluster must be a power of two ≤ 128, got {n}"
  | partialSector bytes sector => s!"image size {bytes} is not a multiple of {sector}"
  | tooManySectors n => s!"{n} sectors do not fit a 32-bit sector count"
  | noDataRegion bytes => s!"image of {bytes} bytes has no room for a data region"
  | tooFewClusters bytes spc n =>
    s!"{bytes} bytes at {spc} sectors/cluster gives {n} clusters; FAT32 requires at least " ++
      s!"{minClusters}"
  | tooManyClusters n => s!"{n} clusters exceeds the FAT32 maximum of {maxClusters}"
  | badLabel label => s!"invalid volume label {Text.quoted label}"
  | noImage image => s!"{image}: image does not exist"
  | noSignature image => s!"{image}: missing boot signature"
  | notFat32 image => s!"{image}: not a FAT32 volume"
  | corruptParameters image => s!"{image}: corrupt BPB"
  | chainLoop image start => s!"{image}: cluster chain loop at {start}"
  | noClusters image needed free => s!"{image}: need {needed} clusters, only {free} free"
  | noRoomForDirectory image path needed free =>
    s!"{image}::/" ++ "/".intercalate path ++ s!": need {needed} clusters, only {free} free"
  | noRoomForFile path needed free => s!"{path}: needs {needed} bytes, {free} free"
  | fileTooLarge path size => s!"{path}: {size} bytes exceeds the FAT32 file size limit"
  | noAlias name => s!"no short alias left for {Text.quoted name}"
  | badName name => s!"invalid FAT file name {Text.quoted name}"
  | sealed image => s!"{image}: image is sealed"
  | readOnly image => s!"{image}: opened read-only"
  | notFound image path | notDirectory image path | isDirectory image path => s!"{image}::/{path}"
  | shortSource path missing => s!"{path}: source ended {missing} bytes early"
  | notEncodable | closed | byteRange | tableTooShort | fieldRange | noLastCluster | emptySector
  | tooDeep | beyondSize | beyondMemory => none

end Error

end BootImage.Fat
