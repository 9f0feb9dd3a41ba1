import BootImage.Elf.Segments
import BootImage.Fat.Error
import BootImage.Host.FileTree
import BootImage.Settings.Store

/-!
# Failures

What can stop a command, whichever part of the tool it comes from. Failures of the build are
reported with the step that failed and the target that was built; all others, misuse of a volume and
faults of the file system, pass through.

## Main definitions

* `Cause`: why something failed.
* `Failure`: a cause and the target it is about.
* `Failure.kind`: what sort of failure it is.
* `Failure.message`: its message.

## Main results

* `located_none`: without step and target a message is its text.
-/

namespace BootImage

/-- Why something failed. -/
inductive Cause
  /-- An image cannot be formatted, opened or changed. -/
  | image (e : Fat.Error)
  /-- An executable cannot be laid out. -/
  | executable (path : String) (e : Elf.Error)
  /-- The file system refused something. -/
  | host (fault : Host.Fault)
  /-- A text file is not UTF-8. -/
  | notText
  /-- There is no image to inspect. -/
  | noImage (path : String)
  | unknownBoard (board : String) (known : List String)
  | otherArchitecture (board boardArchitecture architecture : String)
  | badMode (mode : String)
  | unknownArchitecture (step architecture : String)
  | noLinkerScript (path : String)
  /-- The mode was given without a value. -/
  | noMode
  /-- A program could not be started, or ended with an error. -/
  | program (step reason : String)
  /-- The build ended well but left no executable. -/
  | nothingProduced (path : String)
  | settings (e : Settings.Error)
  | imageSize (blocks blockSize : Int)
  /-- The count of blocks was given without a value, and the blocks have no bytes. -/
  | noBlockCount (blockSize : Int)
  /-- The size of clusters was given without a value. -/
  | noClusterSize
  | noMachine (board : String)
  | needsBootloader (board : String)
  | emulatorMissing (name : String)
  /-- What is to be run was not built. -/
  | notBuilt (path : String)
  | badAssignment (item : String)
  | nothingToSet
  /-- An assignment has no text at all. -/
  | noAssignment
  /-- An option that is needed was given without a value. -/
  | noValue
  /-- The system refused to start a program; `label` is its own word for why. -/
  | notStarted (label : String)
  deriving Repr, Inhabited

/-- A cause and, where one is known, the target it is about. -/
structure Failure where
  cause : Cause
  target : Option String := none
  deriving Repr, Inhabited

/-- The sorts of failure. -/
inductive Failure.Kind
  | configuration
  | toolchain
  | extraction
  /-- A count of bytes is too large for a size. -/
  | size
  /-- There is not enough memory. -/
  | memory
  | image (kind : Fat.Error.Kind)
  | host (fault : Host.Fault)
  | notText
  | noAssignment
  | noValue
  | notStarted (label : String)
  deriving DecidableEq, Repr

/-- A text with the step and the target that it is about. -/
def located (step target : Option String) (text : String) : String :=
  let place := match step.getD "", target with
    | step, none => step
    | "", some target => s!"({target})"
    | step, some target => s!"{step} ({target})"
  if place = "" then text else s!"{place}: {text}"

@[simp] theorem located_none (text : String) : located none none text = text := rfl

namespace Cause

/-- What sort of failure a cause is. -/
def kind : Cause → Failure.Kind
  | image e => .image e.kind
  | noImage _ | noClusterSize => .image .format
  | executable _ e =>
    match e.kind with
    | .file => .extraction
    | .index => .image .index
    | .field => .image .field
    | .size => .size
    | .memory => .memory
  | host fault => .host fault
  | notText => .notText
  | noAssignment => .noAssignment
  | noValue => .noValue
  | notStarted label => .notStarted label
  | program _ _ | nothingProduced _ => .toolchain
  | unknownBoard _ _ | otherArchitecture _ _ _ | badMode _ | unknownArchitecture _ _
  | noLinkerScript _ | noMode | settings _ | imageSize _ _ | noBlockCount _ | noMachine _
  | needsBootloader _ | emulatorMissing _ | notBuilt _ | badAssignment _ | nothingToSet =>
    .configuration

/-- The step that failed. -/
def step : Cause → Option String
  | image e => e.step
  | noImage _ => "diagnose"
  | executable _ _ => "extract"
  | unknownBoard _ _ | otherArchitecture _ _ _ | badMode _ | noLinkerScript _ | noMode => "resolve"
  | unknownArchitecture name _ | program name _ => name
  | nothingProduced _ => "compile"
  | settings _ | badAssignment _ | nothingToSet => "setup"
  | imageSize _ _ | noBlockCount _ => "create"
  | noClusterSize => "format"
  | noMachine _ | needsBootloader _ | emulatorMissing _ | notBuilt _ => "run"
  | host _ | notText | noAssignment | noValue | notStarted _ => none

/-- How messages show an option that was given without a value. -/
def noValueText : String := "[]"

/-- What failed, if the tool has words of its own for it. -/
def text : Cause → Option String
  | image e => e.text
  | noImage path => s!"{path} does not exist"
  | executable path e => e.text.map fun text => s!"{path}: {text}"
  | unknownBoard board known =>
    s!"unknown board {Text.quoted board} (known: " ++ ", ".intercalate known ++ ")"
  | otherArchitecture board own architecture =>
    s!"board {Text.quoted board} is a {own} board, not {architecture}"
  | badMode mode => s!"mode must be one of debug, release, got {Text.quoted mode}"
  | noMode => s!"mode must be one of debug, release, got {noValueText}"
  | unknownArchitecture _ architecture => s!"unknown architecture {Text.quoted architecture}"
  | noLinkerScript path => s!"linker script {path} does not exist"
  | program _ reason => reason
  | nothingProduced path => s!"build finished but {path} was not produced"
  | settings (.badName name) => s!"invalid setting name {Text.quoted name}"
  | settings (.newlineInValue name) => s!"value for {name} spans multiple lines"
  | imageSize blocks blockSize => s!"image size must be positive, got {blocks} × {blockSize}"
  | noBlockCount blockSize => s!"image size must be positive, got {noValueText} × {blockSize}"
  | noClusterSize => s!"sectors per cluster must be a power of two ≤ 128, got {noValueText}"
  | noMachine board => s!"no emulator profile for board {Text.quoted board}"
  | needsBootloader board => s!"board {Text.quoted board} needs a bootloader image"
  | emulatorMissing name => s!"{name} not found"
  | notBuilt path => s!"{path} not found — run `imgforge build` first"
  | badAssignment item => s!"expected KEY=VALUE, got {Text.quoted item}"
  | nothingToSet => "nothing to set"
  | host _ | notText | noAssignment | noValue | notStarted _ => none

end Cause

namespace Failure

/-- What sort of failure it is. -/
def kind (f : Failure) : Kind :=
  f.cause.kind

/-- Whether a failure is one of the build, to be reported with its step and target. -/
def isOfBuild (f : Failure) : Bool :=
  match f.kind with
  | .configuration | .toolchain | .extraction | .image .format | .image .capacity => true
  | _ => false

/-- The message, if the tool has words of its own for the failure. -/
def message (f : Failure) : Option String :=
  f.cause.text.map fun text => if f.isOfBuild then located f.cause.step f.target text else text

/-- The system's explanation, if it was the system that refused something. -/
def refusal? (f : Failure) : Option String :=
  match f.cause with
  | .host fault => fault.text
  | _ => none

/-- The failure with a target, if it is one of the build that has none. -/
def about (f : Failure) (target : String) : Failure :=
  if f.isOfBuild ∧ f.target = none then { f with target } else f

end Failure

end BootImage
