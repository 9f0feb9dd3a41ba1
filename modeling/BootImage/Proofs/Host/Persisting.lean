import BootImage.Proofs.Host.Places

/-!
# What a program of the host leaves

A program of the host writes files one after the other, each over what was there, and takes nothing
away. So what a path led to is still there, though a file may hold something else, and what is found
at a place in the end is what the last of the files there holds.

## Main definitions

* `FileTree.Persists`: directories and files are still there.
* `written`: what the last of some files at a place holds.

## Main results

* `FileTree.persists_apply`: a program takes nothing away.
* `FileTree.content?_apply`: what is at a place after a program.
-/

namespace BootImage.Host

namespace FileTree

variable {t t' t'' : FileTree} {p : Path} {place : List String} {c : Content}

/-- Directories are still directories, and where a file was there is one, whatever it holds. -/
structure Persists (t t' : FileTree) : Prop where
  current : t'.current = t.current
  directory : ∀ place, t.node? place = some .directory → t'.node? place = some .directory
  file : ∀ place c, t.content? place = some c → ∃ c', t'.content? place = some c'

theorem Persists.refl (t : FileTree) : t.Persists t :=
  ⟨rfl, fun _ => id, fun _ c hc => ⟨c, hc⟩⟩

theorem Persists.trans (h : t.Persists t') (h' : t'.Persists t'') : t.Persists t'' := by
  refine ⟨h'.current.trans h.current, fun place hd => h'.directory place (h.directory place hd),
    fun place c hc => ?_⟩
  obtain ⟨c', hc'⟩ := h.file place c hc
  exact h'.file place c' hc'

theorem Persists.grows (h : t.Persists t') : t.Grows Set.univ none t' :=
  ⟨h.current, h.directory, fun _ hplace => absurd (Set.mem_univ _) hplace⟩

/-- A file that can be read can be read on. -/
theorem Persists.read (h : t.Persists t') (hread : t.read p = .ok c) :
    ∃ c', t'.read p = .ok c' := by
  obtain ⟨place, hplace, hc⟩ := read_eq_ok.1 hread
  obtain ⟨c', hc'⟩ := h.file place c hc
  exact ⟨c', read_eq_ok.2 ⟨place, h.grows.locate hplace, hc'⟩⟩

/-- A file is put where no directory is, or a directory where nothing is. -/
theorem persists_putNode {node : Node} (hplace : t.node? place ≠ some .directory)
    (hnode : node = .directory → t.node? place = none) : t.Persists (t.putNode place node) := by
  refine ⟨rfl, fun other hd => ?_, fun other c hc => ?_⟩
  · rw [node?_putNode, if_neg fun heq => hplace (by rw [heq]; exact hd)]
    exact hd
  · by_cases heq : place = other
    · subst heq
      cases node with
      | directory =>
        obtain ⟨executable, hfile⟩ := content?_eq_some.1 hc
        cases (hnode rfl).symm.trans hfile
      | file content executable =>
        exact ⟨content, content?_eq_some.2 ⟨executable, by rw [node?_putNode, if_pos rfl]⟩⟩
    · rw [content?, node?_putNode, if_neg heq]
      exact ⟨c, hc⟩

theorem persists_makeDirectories (t : FileTree) (p : Path) :
    t.Persists (t.makeDirectories p).2 := by
  have hgrows := grows_makeDirectories ∅ none t p
  exact ⟨hgrows.current, hgrows.directory, (retains_makeDirectories t p).file⟩

theorem persists_write (hwrite : t.write p c = .ok t') : t.Persists t' := by
  obtain ⟨place, -, hnode, rfl⟩ := write_eq_ok.1 hwrite
  exact persists_putNode hnode nofun

theorem persists_create (hcreate : t.create p = .ok t') : t.Persists t' := by
  obtain ⟨place, -, hnone, rfl⟩ := create_eq_ok.1 hcreate
  exact persists_putNode (by simp [hnone]) nofun

/-- A file that was made at a path is empty. -/
theorem read_of_create (hcreate : t.create p = .ok t') : t'.read p = .ok Content.empty := by
  obtain ⟨place, hplace, hnone, rfl⟩ := create_eq_ok.1 hcreate
  refine read_eq_ok.2 ⟨place, (grows_putNode ∅ none hnone _).locate hplace, ?_⟩
  rw [content?, node?_putNode, if_pos rfl]

/-! ### Programs -/

theorem persists_plant (t : FileTree) (p : Path) (node : Node) : t.Persists (t.plant p node).2 := by
  cases node with
  | directory => exact persists_makeDirectories t p
  | file content executable =>
    have hmake := persists_makeDirectories t p.parent
    rw [plant]
    split
    · rename_i hdirectories
      rwa [hdirectories] at hmake
    · rename_i tree hdirectories
      rw [hdirectories] at hmake
      split
      · rename_i hinstall
        obtain ⟨place, _, -, hnode, rfl⟩ := install_eq_ok hinstall
        exact hmake.trans (persists_putNode hnode fun hd => by cases hd)
      · exact hmake

/-- A program takes nothing away, also if some of its files cannot be stored. -/
theorem persists_apply (t : FileTree) (command : List String) (files : List (Output × Node)) :
    t.Persists (t.apply command files).2 := by
  induction files generalizing t with
  | nil => exact .refl t
  | cons file files ih =>
    have hplant := persists_plant t (file.1.target command) file.2
    rw [apply]
    split
    · rename_i tree hfile
      rw [hfile] at hplant
      exact hplant.trans (ih tree)
    · exact hplant

end FileTree

/-- What a file that a program writes holds, if it is at a place. -/
def writtenAt (current command place : List String) : Output × Node → Option Content
  | (output, .file c _) => if (output.target command).place current = place then some c else none
  | (_, .directory) => none

/-- What the last of the files at a place holds that a program writes. -/
def written (current command place : List String) (files : List (Output × Node)) : Option Content :=
  (files.filterMap (writtenAt current command place)).getLast?

theorem written_cons (current command place : List String) (file : Output × Node)
    (files : List (Output × Node)) : written current command place (file :: files) =
      (written current command place files).or (writtenAt current command place file) := by
  rw [written, written, List.filterMap_cons]
  cases writtenAt current command place file with
  | none => simp
  | some c => simp only [List.getLast?_cons, Option.or_some]

/-- A program is told where to write by the last word of its command. -/
theorem Output.target_append (output : Output) (words : List String) (word : String) :
    output.target (words ++ [word]) = output.target [word] := by
  cases output with
  | path p => rfl
  | lastWord => rw [target, target, List.getLast?_concat, List.getLast?_singleton]

/-- Where a program is told by the last word of its command, the others make no difference. -/
theorem written_append (current words place : List String) (word : String)
    (files : List (Output × Node)) :
    written current (words ++ [word]) place files = written current [word] place files := by
  have hfile : ∀ file, writtenAt current (words ++ [word]) place file =
      writtenAt current [word] place file := by
    rintro ⟨output, node⟩
    cases node with
    | directory => rfl
    | file c executable => rw [writtenAt, writtenAt, Output.target_append]
  rw [written, written, funext hfile]

namespace FileTree

variable {t t' : FileTree} {place : List String}

/-- What is at a place after a node was left at a path. -/
theorem content?_plant {command : List String} {file : Output × Node}
    (h : t.plant (file.1.target command) file.2 = (.ok (), t')) :
    t'.content? place = (writtenAt t.current command place file).or (t.content? place) := by
  obtain ⟨output, node⟩ := file
  cases node with
  | directory =>
    have hguards := guards_makeDirectories place ∅ t (output.target command)
    rw [show (t.makeDirectories (output.target command)).2 = t' from congrArg Prod.snd h] at hguards
    exact hguards.content?_eq
  | file content executable =>
    by_cases haway : (output.target command).place t.current = place
    · rw [writtenAt, if_pos haway, Option.some_or]
      rw [plant] at h
      have hmake := guards_makeDirectories place ∅ t (output.target command).parent
      split at h
      · cases h
      · rename_i tree hdirectories
        rw [hdirectories] at hmake
        split at h
        · rename_i hinstall
          cases h
          obtain ⟨other, _, hother, -, rfl⟩ := install_eq_ok hinstall
          have hplace : other = place :=
            (place_of_locate hother).trans (hmake.current ▸ haway)
          rw [content?, node?_putNode, if_pos hplace]
        · cases h
    · rw [writtenAt, if_neg haway, Option.none_or]
      have hguards : t.Guards place ∅ (t.plant _ (.file content executable)).2 :=
        guards_plant t _ haway
      rw [h] at hguards
      exact hguards.content?_eq

/-- What is at a place after a program is what the last of its files there holds, or what was there
before. -/
theorem content?_apply {command : List String} {files : List (Output × Node)}
    (h : (t.apply command files).1 = .ok ()) :
    (t.apply command files).2.content? place =
      (written t.current command place files).or (t.content? place) := by
  induction files generalizing t with
  | nil => rfl
  | cons file files ih =>
    have hcurrent := (persists_plant t (file.1.target command) file.2).current
    rw [apply] at h ⊢
    cases hplant : t.plant (file.1.target command) file.2 with
    | mk result tree =>
      rw [hplant] at hcurrent
      simp only [hplant] at h ⊢
      cases result with
      | error fault => cases h
      | ok _ =>
        rw [ih h, content?_plant hplant, hcurrent, written_cons, Option.or_assoc]

end FileTree

end BootImage.Host
