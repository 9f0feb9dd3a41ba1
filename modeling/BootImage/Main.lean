import BootImage.CommandLine.Commands
import BootImage.Host.Listing

/-!
# The program

Runs a command line on the files that are listed on the standard input. What the command prints goes
to the standard error, and the files as it leaves them are listed on the standard output. Programs
that the command starts do nothing.
-/

namespace BootImage

/-- The lines of a stream, behind those that were read already. -/
partial def readLines (input : IO.FS.Stream) (lines : Array String) : IO (Array String) := do
  let line ← input.getLine
  if line.isEmpty then return lines
  readLines input (lines.push (line.dropEndWhile (· = '\n')).copy)

/-- Runs a command line in a session. The result is the exit code. -/
def runSession (words : List String) (s : Session) : IO UInt32 := do
  let (outcome, s) := CommandLine.execute words s
  for line in s.printed do
    IO.eprintln line
  if let some message := outcome.message then IO.eprintln message
  for line in s.tree.listing do
    IO.println line
  return UInt32.ofNat outcome.code

end BootImage

/-- Runs a command line on the files that are listed on the standard input. -/
def main (words : List String) : IO UInt32 := do
  let lines ← BootImage.readLines (← IO.getStdin) #[]
  let some tree := BootImage.Host.FileTree.ofListing? lines.toList
    | do
      IO.eprintln "the standard input is no listing of files"
      return 2
  let clock := BootImage.clockText (← IO.monoMsNow)
  BootImage.runSession words { tree, clock, searchPath := (← IO.getEnv "PATH").getD "" }
