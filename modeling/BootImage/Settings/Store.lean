import BootImage.Settings.Line
import BootImage.Text.Lines

/-!
# Settings files

A settings file is read line by line; of several lines for one name the last one counts. An update
changes the first line of each name whose value there is another one, adds lines for the names that
have none, and keeps every other line as it is.

## Main definitions

* `Values`: names with their values, each name once, in order of first appearance.
* `values`: the settings of a file.
* `update`: the lines of a file after an update, and what was done for each name.
* `Change.name?`: the names that an update changed.
-/

namespace BootImage.Settings

/-- Names with their values, each name once. -/
abbrev Values := List (String × List Char)

/-- The values with one more: a name that is there keeps its place. -/
def insert (vs : Values) (name : String) (value : List Char) : Values :=
  if vs.any (·.1 = name) then vs.map fun v => if v.1 = name then (name, value) else v
  else vs ++ [(name, value)]

/-- The values of pairs that may repeat a name. -/
def ofPairs (pairs : List (String × List Char)) : Values :=
  pairs.foldl (fun vs (name, value) => insert vs name value) []

/-- The settings of a file. -/
def values (text : List Char) : Values :=
  ofPairs ((Text.splitLines text).filterMap assignment?)

/-- What an update did for a name. -/
inductive Change
  | updated (name : String)
  | kept (name : String)
  | added (name : String)
  deriving DecidableEq, Repr

/-- The name, if its value in the file is another one than before. -/
def Change.name? : Change → Option String
  | updated name | added name => some name
  | kept _ => none

/-- The message about what was done for a name. -/
def Change.text : Change → String
  | updated name => s!"[OK]    Updated: {name}"
  | kept name => s!"[--]    Exists:  {name}"
  | added name => s!"[OK]    Added:   {name}"

/-- The lines of a file after an update, with what was done for each name that has a line, and the
values of the names that have none. -/
def updateLines (pending : Values) :
    List (List Char) → List (List Char) × List Change × Values
  | [] => ([], [], pending)
  | old :: rest =>
    match assignment? old with
    | none =>
      let (lines, changes, left) := updateLines pending rest
      (old :: lines, changes, left)
    | some (name, value) =>
      match pending.lookup name with
      | none =>
        let (lines, changes, left) := updateLines pending rest
        (old :: lines, changes, left)
      | some new =>
        let (lines, changes, left) := updateLines (pending.filter (·.1 ≠ name)) rest
        if value = new then (old :: lines, .kept name :: changes, left)
        else (line name new :: lines, .updated name :: changes, left)

/-- The lines of a file after an update, and what was done for each name: first those that have a
line, in the order of the lines, then the others. -/
def update (new : Values) (text : List Char) : List (List Char) × List Change :=
  let (lines, changes, left) := updateLines new (Text.splitLines text)
  (lines ++ left.map fun (name, value) => line name value,
    changes ++ left.map fun (name, _) => .added name)

/-- Why values cannot be stored. -/
inductive Error
  | badName (name : String)
  | newlineInValue (name : String)
  deriving DecidableEq, Repr

/-- The first reason why values cannot be stored. -/
def check (new : Values) : Option Error :=
  new.findSome? fun (name, value) =>
    if !isName name then some (.badName name)
    else if '\n' ∈ value then some (.newlineInValue name)
    else none

end BootImage.Settings
