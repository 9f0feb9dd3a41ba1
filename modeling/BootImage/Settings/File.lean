import BootImage.Session
import BootImage.Settings.Store

/-!
# The settings file of a project

Reading and updating the settings file in a session. A file that is missing has no settings, and an
update that changes nothing does not touch it.

## Main definitions

* `load`: the settings of a file.
* `apply`: the update of a file.
-/

namespace BootImage.Settings

open Host (Path)

/-- The settings in the file at a path. -/
def load (p : Path) : Build Values := do
  if ← Build.has p then return values (← Build.readText p) else return []

/-- Stores values in the file at a path. The result are the names whose value changed. -/
def apply (p : Path) (new : Values) : Build (List String) := do
  if let some e := check new then Build.fail (.settings e)
  let text ← if ← Build.has p then Build.readText p else pure []
  let (lines, changes) := update new text
  for change in changes do
    Build.log change.text
  let changed := changes.filterMap Change.name?
  if changed ≠ [] then
    Build.writeAtomically p
      (Content.ofBytes (Build.textBytes (String.ofList (Text.joinLines lines))))
  return changed

end BootImage.Settings
