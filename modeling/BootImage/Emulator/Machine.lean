import BootImage.Session

/-!
# Emulated machines

For each board the emulator that runs it and the arguments that it is started with.

## Main definitions

* `Machine`: an emulator and its arguments.
* `Machine.all`: the machines by board.
* `emulatorCommand`: the command for a board, a kernel and an image.
* `launch`: starts the emulator.
-/

namespace BootImage

open Host (Path)

/-- A part of an argument: a text, or one of the files of a launch. -/
inductive Piece
  | text (s : String)
  | kernel
  | image
  | bootloader
  deriving DecidableEq, Repr

/-- An emulator with the arguments for a board. -/
structure Machine where
  emulator : String
  /-- The arguments before the boot loader. -/
  before : List (List Piece)
  /-- The arguments for a boot loader, left out when there is none. -/
  firmware : List (List Piece)
  /-- The arguments after it. -/
  after : List (List Piece)
  needsBootloader : Bool := false
  deriving Repr

/-- The files of a launch. -/
structure Launch where
  kernel : Path
  image : Path
  bootloader : Option Path := none
  deriving Repr, Inhabited

/-- Arguments that are fixed. -/
def fixed (arguments : List String) : List (List Piece) :=
  arguments.map fun s => [.text s]

/-- The machines by board. -/
def Machine.all : List (String × Machine) :=
  [("rvqemu",
    { emulator := "qemu-system-riscv64"
      before := fixed ["-machine", "virt", "-nographic", "-m", "128M"]
      firmware := [[.text "-bios"], [.bootloader]]
      after := [[.text "-kernel"], [.kernel], [.text "-drive"],
          [.text "file=", .image, .text ",if=none,format=raw,id=x0"]] ++
        fixed ["-device", "virtio-blk-device,drive=x0,bus=virtio-mmio-bus.0"] }),
   ("laqemu",
    { emulator := "qemu-system-loongarch64"
      before := fixed ["-M", "virt", "-m", "1G", "-nographic", "-smp", "1"]
      firmware := [[.text "-bios"], [.bootloader]]
      after := [[.text "-kernel"], [.kernel], [.text "-drive"],
          [.text "file=", .image, .text ",if=none,format=raw,id=x0"]] ++
        fixed ["-device", "virtio-blk-pci,drive=x0", "-no-reboot"] }),
   ("la2k1000",
    { emulator := "qemu-system-loongarch64"
      before := fixed ["-M", "ls2k", "-m", "1024", "-serial", "stdio", "-serial", "vc"]
      firmware := [[.text "-drive"], [.text "if=pflash,file=", .bootloader]]
      after := fixed ["-device", "usb-kbd,bus=usb-bus.0", "-device", "usb-tablet,bus=usb-bus.0",
          "-device", "usb-storage,drive=udisk"] ++
        [[.text "-drive"], [.text "if=none,id=udisk,format=raw,file=", .kernel]] ++
        fixed ["-net", "nic", "-net", "user,net=10.0.2.0/24"] ++ [[.text "-hda"], [.image]]
      needsBootloader := true })]

/-- The text of a part of an argument. -/
def Launch.pieceText (l : Launch) : Piece → String
  | .text s => s
  | .kernel => toString l.kernel
  | .image => toString l.image
  | .bootloader => (l.bootloader.map toString).getD ""

/-- The arguments of a machine for a launch. -/
def Machine.arguments (m : Machine) (l : Launch) : List String :=
  (m.before ++ (if l.bootloader.isSome then m.firmware else []) ++ m.after).map fun argument =>
    String.join (argument.map l.pieceText)

/-- The command that runs a board. Another emulator than the board's own can be given. -/
def emulatorCommand (board : String) (l : Launch) (emulator : Option String) :
    Except Cause (List String) := do
  let some m := Machine.all.lookup board | throw (.noMachine board)
  if m.needsBootloader ∧ l.bootloader.isNone then throw (.needsBootloader board)
  return (emulator.filter (· ≠ "")).getD m.emulator :: m.arguments l

/-- Runs a board and gives the exit code of the emulator. -/
def launch (board : String) (l : Launch) (emulator : Option String) (extra : List String) :
    Build Int := do
  let command ← match emulatorCommand board l emulator with
    | .ok command => pure (command ++ extra)
    | .error cause => Build.failFor board cause
  let name := command.headD ""
  Build.log s!"=== RUNNING {name} ({board}) ==="
  Build.log ("  > " ++ " ".intercalate command)
  match ← Build.start { command, directory := none, environment := none } with
  | .ended code _ _ _ => return code
  | .notStarted true _ _ => Build.failFor board (.emulatorMissing name)
  | .notStarted false label _ => Build.fail (.notStarted label)

end BootImage
