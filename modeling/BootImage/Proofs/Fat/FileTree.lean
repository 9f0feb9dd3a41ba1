import BootImage.Proofs.Fat.Runs
import Mathlib.Data.Set.Finite.Basic

/-!
# File trees whose names have no case

What a volume is to its users: a tree in which names are found whatever their case. A place in the
tree is told by the folded names that lead to it, and at a place there is a node, which keeps how
its name is spelled. This says nothing of clusters and slots, and so what a call does to a tree can
be written down in a line.

## Main definitions

* `key`, `keys`: a name and a path in the form in which they are compared.
* `FileTree`: a finite tree of directories and files.
* `addFolders`: a tree with what is missing of a path.
* `FileTree.Step`: what a call does to a tree.
-/

namespace BootImage.Fat

/-- The form in which a name is compared. -/
abbrev Key := List Char

/-- The form in which a name is compared. -/
def key (name : String) : Key :=
  Text.fold name.toList

/-- The names in a path in the form in which they are compared. -/
def keys (path : String) : List Key :=
  (splitPath path).map key

theorem keys_eq_concat {path name : String} (h : (splitPath path).getLast? = some name) :
    keys path = (splitPath path).dropLast.map key ++ [key name] := by
  rw [keys, ← List.map_singleton, ← List.map_append, List.dropLast_append_getLast? _ h]

/-- What is at a place of a tree: how its name is spelled, and the bytes if it is a file. -/
structure Node where
  spelling : String
  bytes : Option Bytes
  deriving DecidableEq

/-- The nodes of a tree, by the keys that lead to them. -/
abbrev Nodes := List Key → Option Node

/-- A place is that of a directory. The root is one, and has no node. -/
def Nodes.IsFolder (nodes : Nodes) (place : List Key) : Prop :=
  place = [] ∨ ∃ spelling, nodes place = some ⟨spelling, none⟩

/-- The nodes with one of them in the place of what was there. -/
def Nodes.put (nodes : Nodes) (place : List Key) (node : Option Node) : Nodes :=
  Function.update nodes place node

/-- The nodes with directories for names, each in the one before it, where they are missing. -/
def Nodes.addFolders (nodes : Nodes) : (place : List Key) → List String → Nodes
  | _, [] => nodes
  | place, name :: rest =>
    let here := place ++ [key name]
    if (nodes here).isSome then nodes.addFolders here rest
    else (nodes.put here (some ⟨name, none⟩)).addFolders here rest

namespace Nodes

variable {nodes : Nodes}

theorem finite_put (h : {place | (nodes place).isSome}.Finite) (here : List Key)
    (node : Option Node) : {place | (nodes.put here node place).isSome}.Finite := by
  refine (h.insert here).subset fun place hplace => ?_
  by_cases heq : place = here
  · exact .inl heq
  · rw [Set.mem_ofPred_eq, put, Function.update_of_ne heq] at hplace
    exact .inr hplace

theorem finite_addFolders (h : {place | (nodes place).isSome}.Finite) (here : List Key)
    (names : List String) : {place | (nodes.addFolders here names place).isSome}.Finite := by
  induction names generalizing nodes here with
  | nil => exact h
  | cons name names ih =>
    rw [addFolders]
    split
    · exact ih h _
    · exact ih (finite_put h _ _) _

end Nodes

/-- A tree: finitely many nodes, each but the root in a directory. -/
structure FileTree where
  nodes : Nodes
  root : nodes [] = none
  inside : ∀ place k, (nodes (place ++ [k])).isSome → nodes.IsFolder place
  finite : {place | (nodes place).isSome}.Finite

namespace FileTree

/-- The tree of the root directory alone. -/
def empty : FileTree where
  nodes _ := none
  root := rfl
  inside _ _ h := by cases h
  finite := by simp

/-- A place is that of a directory. -/
def IsFolder (t : FileTree) (place : List Key) : Prop :=
  t.nodes.IsFolder place

/-- What a call that gives a result does to a tree. Making directories makes those that are missing,
or those before the name at which it stops. Writing a file puts the first bytes of the source, as
many as are asked for, in the place of what was there, which is no directory. -/
inductive Step (t : FileTree) : Call → Except Error Unit → FileTree → Prop
  | made {path : String} {t' : FileTree}
      (hnodes : t'.nodes = t.nodes.addFolders [] (splitPath path))
      (hfolder : t'.IsFolder (keys path)) : Step t (.makeDirectory path) (.ok ()) t'
  | stopped {path name : String} {done rest : List String} {e : Error} {t' : FileTree}
      (hpath : splitPath path = done ++ name :: rest)
      (hnodes : t'.nodes = t.nodes.addFolders [] done) (hfolder : t'.IsFolder (done.map key))
      (hname : ¬ t'.IsFolder (done.map key ++ [key name])) :
      Step t (.makeDirectory path) (.error e) t'
  | written {path name : String} {names : List String} {source : Content} {size : Int}
      {t' : FileTree} (hpath : splitPath path = names ++ [name])
      (hfolder : t.IsFolder (names.map key)) (hname : ¬ t.IsFolder (keys path))
      (hnodes : t'.nodes =
        t.nodes.put (keys path) (some ⟨name, some (source.read 0 size.toNat)⟩)) :
      Step t (.writeFile path source size) (.ok ()) t'
  | refused {path : String} {source : Content} {size : Int} {e : Error} :
      Step t (.writeFile path source size) (.error e) t
  | flushed : Step t .flush (.ok ()) t

end FileTree

end BootImage.Fat
