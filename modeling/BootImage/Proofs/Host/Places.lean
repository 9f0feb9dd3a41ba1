import BootImage.Host.Program
import BootImage.Proofs.Host.Growth

/-!
# Places that are guarded

Where a path leads is settled by its names alone, and by the current directory if it has no root:
the tree only decides whether it leads there. So two paths with different last names never lead to
one place, whatever is in the tree, and a change that is made at the end of one path is none at the
end of the other. That is how a file is told to have been left alone by steps that cannot be
followed in detail.

## Main definitions

* `Path.place`: the place that a path leads to, if it leads anywhere.
* `Path.Avoids`: a path never leads to a place.
* `FileTree.fileAt?`: the content of the file that a path names.
* `FileTree.Guards`: the file at a place is the one that was there, or has one of some contents.

## Main results

* `FileTree.place_of_locate`: a path leads nowhere else.
* `Path.avoids_of_getLast?`: paths with different last names.
* `FileTree.guards_write`, `FileTree.guards_makeDirectories`, `FileTree.guards_apply`: what changes
  do to a place.
-/

namespace BootImage.Host

/-! ### Where paths lead -/

namespace Path

/-- The place that names lead to from another place, if they lead anywhere. -/
def placeFrom (here names : List String) : List String :=
  names.foldl (fun place name => if name = ".." then place.dropLast else place ++ [name]) here

/-- The place that a path leads to, if it leads anywhere. A path without a root is read in the
directory with the given names. -/
def place (p : Path) (current : List String) : List String :=
  placeFrom (if p.root = "" then current else []) p.names

/-- A path never leads to a place, whichever directory it is read in. -/
def Avoids (p : Path) (place : List String) : Prop :=
  ∀ current, p.place current ≠ place

variable {p q : Path} {name name' : String} {place : List String}

theorem placeFrom_concat (here names : List String) (hname : name ≠ "..") :
    placeFrom here (names ++ [name]) = placeFrom here names ++ [name] := by
  simp [placeFrom, hname]

/-- The last name of a path is the last one of the place. -/
theorem getLast?_place (h : p.names.getLast? = some name) (hname : name ≠ "..")
    (current : List String) : (p.place current).getLast? = some name := by
  obtain ⟨names, hnames⟩ := List.getLast?_eq_some_iff.1 h
  rw [Path.place, hnames, placeFrom_concat _ _ hname, List.getLast?_concat]

/-- A path with another last name than a place does not lead there. -/
theorem avoids_of_getLast? (h : p.names.getLast? = some name) (hname : name ≠ "..")
    (hplace : place.getLast? ≠ some name) : p.Avoids place := by
  rintro current rfl
  exact hplace (getLast?_place h hname current)

/-- Paths with different last names do not lead to one place. -/
theorem avoids_place (h : p.names.getLast? = some name) (hname : name ≠ "..")
    (h' : q.names.getLast? = some name') (hname' : name' ≠ "..") (hne : name ≠ name')
    (current : List String) : p.Avoids (q.place current) := by
  refine avoids_of_getLast? h hname ?_
  rw [getLast?_place h' hname']
  simpa using hne.symm

end Path

namespace FileTree

variable {t t' t'' : FileTree} {p source dest : Path} {place here names : List String}
  {c : Content} {new new' : Set Content}

theorem place_of_locateFrom (h : t.locateFrom here names = .ok place) :
    place = Path.placeFrom here names := by
  induction names generalizing here with
  | nil =>
    cases h
    rfl
  | cons name names ih =>
    rw [locateFrom] at h
    split at h
    · cases h
    · cases h
    · rw [Path.placeFrom, List.foldl_cons]
      split at h
      · rename_i hup
        rw [if_pos hup]
        exact ih h
      · rename_i hdown
        rw [if_neg hdown]
        split at h
        · cases h
        · exact ih h

/-- A path that leads somewhere leads where its names say. -/
theorem place_of_locate (h : t.locate p = .ok place) : place = p.place t.current := by
  rw [locate] at h
  split at h
  · cases h
  · split at h
    · cases h
    · exact place_of_locateFrom h

/-- The content of the file that a path names, if there is one. -/
def fileAt? (t : FileTree) (p : Path) : Option Content :=
  t.content? (p.place t.current)

theorem fileAt?_of_read (h : t.read p = .ok c) : t.fileAt? p = some c := by
  obtain ⟨place, hplace, hc⟩ := read_eq_ok.1 h
  rw [fileAt?, ← place_of_locate hplace]
  exact hc

/-! ### Guarded places -/

/-- A tree has become another one in which the file at a place is the one that was there, or has one
of the contents `new`. -/
structure Guards (place : List String) (new : Set Content) (t t' : FileTree) : Prop where
  current : t'.current = t.current
  content : t'.content? place = t.content? place ∨ ∃ c ∈ new, t'.content? place = some c

theorem Guards.refl (place : List String) (new : Set Content) (t : FileTree) :
    t.Guards place new t :=
  ⟨rfl, .inl rfl⟩

theorem Guards.trans (h : t.Guards place new t') (h' : t'.Guards place new t'') :
    t.Guards place new t'' := by
  refine ⟨h'.current.trans h.current, ?_⟩
  rcases h'.content with hsame | hnew
  · rw [hsame]
    exact h.content
  · exact .inr hnew

theorem Guards.mono (h : t.Guards place new t') (hnew : new ⊆ new') : t.Guards place new' t' :=
  ⟨h.current, h.content.imp_right fun ⟨c, hc, hplace⟩ => ⟨c, hnew hc, hplace⟩⟩

theorem Guards.content?_eq (h : t.Guards place ∅ t') : t'.content? place = t.content? place :=
  h.content.resolve_right fun ⟨_, hc, _⟩ => hc

/-- What a path names is guarded as its place is. -/
theorem Guards.fileAt? (h : t.Guards (p.place t.current) new t') :
    t'.fileAt? p = t.fileAt? p ∨ ∃ c ∈ new, t'.fileAt? p = some c := by
  rw [FileTree.fileAt?, FileTree.fileAt?, h.current]
  exact h.content

theorem Guards.fileAt?_eq (h : t.Guards (p.place t.current) ∅ t') : t'.fileAt? p = t.fileAt? p :=
  h.fileAt?.resolve_right fun ⟨_, hc, _⟩ => hc

/-! ### Changes -/

/-- A node that is stored elsewhere, or a directory that is made where no file was. -/
theorem guards_putNode {other : List String} {node : Node}
    (h : other = place → t.node? place = none ∧ node = .directory) :
    t.Guards place new (t.putNode other node) := by
  refine ⟨rfl, .inl ?_⟩
  by_cases heq : other = place
  · obtain ⟨hnone, rfl⟩ := h heq
    rw [content?, content?, node?_putNode, if_pos heq, hnone]
  · rw [content?, content?, node?_putNode, if_neg heq]

theorem guards_makeFrom (place : List String) (new : Set Content) (t : FileTree)
    (here names : List String) : t.Guards place new (t.makeFrom here names).2 := by
  induction names generalizing t here with
  | nil => exact .refl ..
  | cons name names ih =>
    rw [makeFrom]
    split
    · exact ih ..
    · split
      · exact .refl ..
      · split
        · exact ih ..
        · exact .refl ..
        · rename_i hnone
          exact (guards_putNode fun heq => ⟨heq ▸ hnone, rfl⟩).trans (ih ..)

/-- Making directories changes no file. -/
theorem guards_makeDirectories (place : List String) (new : Set Content) (t : FileTree) (p : Path) :
    t.Guards place new (t.makeDirectories p).2 := by
  rw [makeDirectories]
  split
  · split
    · exact .refl ..
    · exact .refl ..
    · rename_i hnone
      exact guards_putNode fun heq => ⟨heq ▸ hnone, rfl⟩
  · split
    · exact .refl ..
    · exact guards_makeFrom ..
  · exact .refl ..

/-- A file is written elsewhere, or with one of the contents that may come. -/
theorem guards_write (hwrite : t.write p c = .ok t') (h : p.place t.current ≠ place ∨ c ∈ new) :
    t.Guards place new t' := by
  obtain ⟨other, hother, -, rfl⟩ := write_eq_ok.1 hwrite
  refine ⟨rfl, ?_⟩
  by_cases heq : other = place
  · subst heq
    exact .inr ⟨c, h.resolve_left fun hne => hne (place_of_locate hother).symm,
      content?_put_self ..⟩
  · exact .inl (content?_put_of_ne t c heq)

theorem guards_create (hcreate : t.create p = .ok t') (h : p.place t.current ≠ place) :
    t.Guards place new t' := by
  obtain ⟨other, hother, -, rfl⟩ := create_eq_ok.1 hcreate
  exact guards_putNode fun heq => absurd (place_of_locate hother ▸ heq) h

theorem guards_remove (hremove : t.remove p = .ok t') (h : p.place t.current ≠ place) :
    t.Guards place new t' := by
  obtain ⟨other, hother, -, hcurrent, hnodes⟩ := of_remove hremove
  have hne : other ≠ place := place_of_locate hother ▸ h
  refine ⟨hcurrent, .inl ?_⟩
  rw [content?, content?, hnodes, if_neg hne]

theorem guards_copyFile (hcopy : t.copyFile source dest = .ok t')
    (h : dest.place t.current ≠ place) : t.Guards place new t' := by
  have hwrite : ∃ c, t.write dest c = .ok t' := by
    rw [copyFile] at hcopy
    cases hread : t.read source with
    | error fault =>
      rw [hread] at hcopy
      split at hcopy
      · split at hcopy <;> cases hcopy
      · cases hcopy
    | ok c =>
      refine ⟨c, ?_⟩
      rw [hread] at hcopy
      split at hcopy
      · split at hcopy
        · cases hcopy
        · exact hcopy
      · exact hcopy
  obtain ⟨c, hwrite⟩ := hwrite
  exact guards_write hwrite (.inl h)

/-- What installing a file leaves. -/
theorem install_eq_ok {executable : Bool} (h : t.install p c executable = .ok t') :
    ∃ place executable', t.locate p = .ok place ∧ t.node? place ≠ some .directory ∧
      t' = t.putNode place (.file c executable') := by
  rw [install, locate_bind_eq_ok] at h
  obtain ⟨place, hplace, h⟩ := h
  split at h
  · cases h
  · rename_i hnode
    cases h
    exact ⟨place, _, hplace, by simp [hnode], rfl⟩
  · rename_i hnode
    cases h
    exact ⟨place, _, hplace, by simp [hnode], rfl⟩

theorem guards_install {executable : Bool} (hinstall : t.install p c executable = .ok t')
    (h : p.place t.current ≠ place) : t.Guards place new t' := by
  obtain ⟨other, _, hother, -, rfl⟩ := install_eq_ok hinstall
  exact guards_putNode fun heq => absurd (place_of_locate hother ▸ heq) h

/-- What a program leaves at a path changes nothing elsewhere. -/
theorem guards_plant (t : FileTree) (node : Node) (h : p.place t.current ≠ place) :
    t.Guards place new (t.plant p node).2 := by
  cases node with
  | directory => exact guards_makeDirectories ..
  | file content executable =>
    have hmake := guards_makeDirectories place new t p.parent
    rw [plant]
    split
    · rename_i hdirectories
      rw [hdirectories] at hmake
      exact hmake
    · rename_i tree hdirectories
      rw [hdirectories] at hmake
      split
      · rename_i hinstall
        exact hmake.trans (guards_install hinstall (hmake.current ▸ h))
      · exact hmake

/-- What a program leaves behind changes nothing at a place that none of its files is at. -/
theorem guards_apply (t : FileTree) (command : List String) (files : List (Output × Node))
    (h : ∀ file ∈ files, (file.1.target command).place t.current ≠ place) :
    t.Guards place new (t.apply command files).2 := by
  induction files generalizing t with
  | nil => exact .refl ..
  | cons file files ih =>
    rw [List.forall_mem_cons] at h
    have hplant : t.Guards place new (t.plant (file.1.target command) file.2).2 :=
      guards_plant t file.2 h.1
    rw [apply]
    split
    · rename_i tree hfile
      rw [hfile] at hplant
      exact hplant.trans (ih tree (hplant.current ▸ h.2))
    · exact hplant

end FileTree

end BootImage.Host
