import BootImage.Text.Pieces

/-!
# Paths of the host

A path is a root, if it has one, and names. Doubled slashes and single dots mean nothing and are
left out when a path is read; two dots are kept, since only the file tree can tell where they lead.

## Main definitions

* `Path`: a path.
* `Path.ofString`, `Path.toString`: a path and its text.
* `Path.join`, `Path.parent`, `Path.name`, `Path.withName?`: paths made of others.
* `Path.absolute`: the path from the root, with two dots taken as a step back.

## Main results

* `Path.join_of_root`: a path with a root stands for itself wherever it is joined to.
-/

namespace BootImage.Host

/-- A path: its root, `""` for a path that starts at the current directory, and its names. -/
structure Path where
  root : String
  names : List String
  deriving DecidableEq, Repr, Inhabited

namespace Path

/-- The names in a text, without empty ones and single dots. -/
def namesIn (s : List Char) : List String :=
  ((Text.pieces (· = '/') s).map String.ofList).filter fun name => name ≠ "" && name ≠ "."

/-- The root that a text starts with: two slashes are a root of their own, any other count of them
is the same as one. -/
def rootIn (s : List Char) : String :=
  match (s.takeWhile (· = '/')).length with
  | 0 => ""
  | 2 => "//"
  | _ => "/"

/-- The path that a text spells. -/
def ofString (s : String) : Path :=
  ⟨rootIn s.toList, namesIn s.toList⟩

/-- The text of a path; a path of nothing is a dot. -/
protected def toString (p : Path) : String :=
  if p.root = "" ∧ p.names = [] then "." else p.root ++ "/".intercalate p.names

instance : ToString Path := ⟨Path.toString⟩

/-- A path followed by another, which stands for itself if it has a root. -/
def join (p q : Path) : Path :=
  if q.root = "" then ⟨p.root, p.names ++ q.names⟩ else q

instance : HDiv Path Path Path := ⟨join⟩

instance : HDiv Path String Path := ⟨fun p s => p.join (ofString s)⟩

/-- The last name of a path, empty if it has none. -/
def name (p : Path) : String :=
  p.names.getLast?.getD ""

/-- The path without its last name. -/
def parent (p : Path) : Path :=
  ⟨p.root, p.names.dropLast⟩

/-- The path with another last name; a path that has none has none to replace. -/
def withName? (p : Path) (name : String) : Option Path :=
  if p.name = "" then none else some ⟨p.root, p.names.dropLast ++ [name]⟩

/-- Names with each pair of dots, and the name before it, taken away; a pair at the start goes
alone. -/
def collapse (names : List String) : List String :=
  names.foldl (fun done name => if name = ".." then done.dropLast else done ++ [name]) []

/-- The path from the root, for a path that is read in the directory with the given names. -/
def absolute (p : Path) (directory : List String) : Path :=
  ⟨"/", collapse (if p.root = "" then directory ++ p.names else p.names)⟩

theorem join_of_root {q : Path} (p : Path) (h : q.root ≠ "") : p.join q = q := by
  simp [join, h]

@[simp] theorem names_join_of_relative {q : Path} (p : Path) (h : q.root = "") :
    (p.join q).names = p.names ++ q.names := by
  simp [join, h]

end Path

end BootImage.Host
