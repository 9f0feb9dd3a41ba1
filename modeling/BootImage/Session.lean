import BootImage.Failure
import BootImage.Host.Program
import BootImage.Text.Blank

/-!
# Sessions

A command works in a session: on the file tree, with lines that are printed and kept in a log file,
and with programs that it starts. A command that fails has changed the session nonetheless, so a
`Build` gives the session back with a failure too.

## Main definitions

* `Session`: the state.
* `Build`: what runs in a session.
* `Build.log`: prints a line and appends it to the log file.
* `Build.start`: starts a program.
* `Build.runProgram`: starts a program that has to end well.
* `Build.replaceFile`: makes a new file beside the old one and puts it in its place.
-/

namespace BootImage

open Host (Path FileTree Fault Node)

/-- The state that a command works on. -/
structure Session where
  tree : FileTree
  /-- The time of day, as log lines have it. -/
  clock : String
  /-- The directories that programs are searched in, with colons between them. -/
  searchPath : String
  /-- What was printed. -/
  printed : Array String := #[]
  logFile : Option Path := none
  /-- How the programs to be started will answer. -/
  answers : List Host.Answer := []
  /-- The programs that were started. -/
  calls : Array Host.Call := #[]
  deriving Inhabited

/-- A number with two digits at least. -/
def twoDigits (n : Nat) : String :=
  if n < 10 then s!"0{n}" else toString n

/-- The time of day as log lines have it, so many milliseconds after midnight. -/
def clockText (milliseconds : Nat) : String :=
  let rest := milliseconds % 1000
  let seconds := milliseconds / 1000
  ":".intercalate ([seconds / 3600 % 24, seconds / 60 % 60, seconds % 60].map twoDigits) ++
    (if rest < 100 then ".0" else ".") ++ twoDigits rest

/-- What runs in a session and can fail. -/
abbrev Build := ExceptT Failure (StateM Session)

namespace Build

/-- Fails. -/
def fail {α : Type} (cause : Cause) : Build α :=
  throw { cause }

/-- Fails on a target. -/
def failFor {α : Type} (target : String) (cause : Cause) : Build α :=
  throw { cause, target }

/-- A result, or the failure that the error means. -/
def ofExcept {ε α : Type} (cause : ε → Cause) : Except ε α → Build α
  | .ok a => pure a
  | .error e => fail (cause e)

/-! ### Files -/

/-- Something looked up in the tree. -/
def ask {α : Type} (f : FileTree → α) : Build α := do
  return f (← get).tree

/-- Something read from the tree. -/
def query {α : Type} (f : FileTree → Except Fault α) : Build α := do
  ofExcept .host (f (← get).tree)

/-- Whether a path leads to anything. -/
def has (p : Path) : Build Bool :=
  Option.isSome <$> query (·.probe p)

/-- Whether a path leads to a file. -/
def isFile (p : Path) : Build Bool :=
  query (·.isFile p)

/-- A change of the tree. -/
def change (f : FileTree → Except Fault FileTree) : Build Unit := do
  let tree ← query f
  modify fun s => { s with tree }

/-- Makes a directory and those above it where they are missing. -/
def makeDirectories (p : Path) : Build Unit := do
  let (result, tree) := (← get).tree.makeDirectories p
  modify fun s => { s with tree }
  ofExcept .host result

/-- The text of a file. -/
def readText (p : Path) : Build (List Char) := do
  let content ← query (·.read p)
  match String.fromUTF8? (ByteArray.mk content.toBytes.toArray) with
  | some text => return text.toList
  | none => fail .notText

/-- The bytes of a text. -/
def textBytes (s : String) : Bytes :=
  s.toUTF8.data.toList

/-! ### Lines -/

/-- Prints a line. -/
def print (line : String) : Build Unit :=
  modify fun s => { s with printed := s.printed.push line }

/-- Prints a line with the time of day, and appends it to the log file, if there is one. -/
def log (message : String) : Build Unit := do
  let s ← get
  let line := s!"[{s.clock}] {message}"
  print line
  match s.logFile with
  | none => pure ()
  | some file =>
    makeDirectories file.parent
    change fun t => do
      let old := match t.find? file with
        | some (.file content _) => content
        | _ => Content.empty
      t.write file (old.append (textBytes (line ++ "\n")))

/-! ### Replacing files -/

/-- The path of the temporary file that is made beside a file. The ending `TMP` stands for eight
characters that are drawn at random, and drawn again as long as the name is taken. So a name can be
five bytes longer here until that of its temporary file is too long, and what is left at this one
path is in the way. -/
def temporaryPath (dest : Path) (current : List String) : Path :=
  dest.parent.absolute current / (⟨"", ["." ++ dest.name ++ ".TMP"]⟩ : Path)

/-- Makes a file in a temporary one beside it, which takes its place when it is complete. When
something fails the old file stays, and the temporary one goes. -/
def replaceFile (dest : Path) (fill : Path → Build Unit) : Build Unit := do
  makeDirectories dest.parent
  let temporary := temporaryPath dest (← get).tree.current
  change (·.create temporary)
  try
    fill temporary
    change (·.rename temporary dest)
  catch failure =>
    if ← ask (·.has temporary) then change (·.remove temporary)
    throw failure

/-- Stores a file through a temporary one. -/
def writeAtomically (dest : Path) (content : Content) : Build Unit :=
  replaceFile dest fun temporary => change (·.write temporary content)

/-! ### Programs -/

/-- Starts a program. The result is its answer; the files that it wrote are in the tree. It fails
when one of them could not be written. -/
def start (call : Host.Call) : Build Host.Answer := do
  let s ← get
  let answer := s.answers.headD .silent
  set { s with answers := s.answers.tail, calls := s.calls.push call }
  if let .ended _ _ _ files := answer then
    let (result, tree) := s.tree.apply call.command files
    modify fun s => { s with tree }
    ofExcept .host result
  return answer

/-- Starts a program. One that the system kept from writing its files counts as not started. -/
def attempt (call : Host.Call) : Build Host.Answer :=
  tryCatch (start call) fun failure =>
    match failure.refusal? with
    | some text => return .notStarted false "" text
    | none => throw failure

/-- A text without the blanks at its ends. -/
def trimmed (s : String) : String :=
  String.ofList (Text.trim s.toList)

/-- Starts a program that has to end well, for a step of the build. What it printed about its errors
is the message of the failure. -/
def runProgram (step : String) (target : Option String) (call : Host.Call) : Build Unit := do
  let name := call.command.headD ""
  log ("  > " ++ " ".intercalate call.command)
  match ← attempt call with
  | .notStarted _ _ text =>
    log s!"[ERROR] {name}: {text}"
    throw { cause := .program step s!"{name}: {text}", target }
  | .ended code printed errors _ =>
    if code ≠ 0 then
      log s!"[ERROR] Failed with exit code {code}"
      let text := if trimmed errors ≠ "" then trimmed errors
        else if trimmed printed ≠ "" then trimmed printed
        else s!"{name} exited with code {code}"
      throw { cause := .program step text, target }

end Build

end BootImage
