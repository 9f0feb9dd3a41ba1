import BootImage.Proofs.Assembly.Logging

/-!
# Files that are stored where directories are

A step that makes no directory and takes none away changes files only, so every path leads where it
led, and no further: what cannot be reached before cannot be reached after it. Unlike a tree that
grows, the new one can be told from the old one in both directions.

Where a file can be at all is settled by the tree as it was. The trees that a file system has are
rooted: each thing is in a directory. There a path to something that is no directory ends in a name,
since from a directory two dots lead to a directory.

## Main definitions

* `FileTree.Rooted`: each thing is in a directory, and so is the current one.
* `FileTree.Alters`: two trees with the same directories, and the same files but at some places.

## Main results

* `FileTree.Rooted.getLast?_of_locate`: the last name of a path is that of the file.
* `FileTree.Alters.locate_iff`, `FileTree.Alters.read_iff`: paths lead where they led.
* `FileTree.alters_put`: a file is stored.
* `Session.CanLog.exists_alters_log`: logging stores the log file.
-/

namespace BootImage

open Host (Path FileTree Node)

namespace Host.FileTree

variable {t t' t'' : FileTree} {places places' : Set (List String)} {p : Path}
  {place here : List String} {c : Content}

/-! ### Trees of a file system -/

/-- The root is a directory, and so is the current directory, and whatever there is is in one. -/
structure Rooted (t : FileTree) : Prop where
  root : t.node? [] = some .directory
  current : t.node? t.current = some .directory
  above : ∀ place name, t.node? (place ++ [name]) ≠ none → t.node? place = some .directory

/-- A directory is in a directory, or is the root. -/
theorem Rooted.dropLast (h : t.Rooted) (hplace : t.node? place = some .directory) :
    t.node? place.dropLast = some .directory := by
  rcases List.eq_nil_or_concat place with rfl | ⟨above, name, rfl⟩
  · exact h.root
  · rw [List.concat_eq_append] at hplace ⊢
    rw [List.dropLast_concat]
    exact h.above above name (by rw [hplace]; exact Option.some_ne_none _)

/-- Names that lead to something else than a directory end in its name. -/
theorem Rooted.getLast?_of_locateFrom (h : t.Rooted) {names : List String}
    (hhere : t.node? here = some .directory) (hplace : t.locateFrom here names = .ok place)
    (hnode : t.node? place ≠ some .directory) :
    ∃ name, names.getLast? = some name ∧ name ≠ ".." := by
  rcases List.eq_nil_or_concat names with rfl | ⟨before, name, rfl⟩
  · cases hplace
    exact absurd hhere hnode
  · rw [List.concat_eq_append] at hplace ⊢
    refine ⟨name, List.getLast?_concat, ?_⟩
    rintro rfl
    obtain ⟨above, habove, hdirectory⟩ := exists_directory_of_locateFrom hplace
    have hup : place = above.dropLast := by
      rw [place_of_locateFrom hplace, place_of_locateFrom habove, Path.placeFrom, Path.placeFrom,
        List.foldl_concat, if_pos rfl]
    exact hnode (hup ▸ h.dropLast hdirectory)

/-- A path to something else than a directory ends in its name. -/
theorem Rooted.getLast?_of_locate (h : t.Rooted) (hplace : t.locate p = .ok place)
    (hnode : t.node? place ≠ some .directory) : place.getLast? = some p.name := by
  have hstart : t.node? (t.start p) = some .directory := by
    rw [start]
    split
    · exact h.current
    · exact h.root
  have hfrom : t.locateFrom (t.start p) p.names = .ok place := by
    rw [locate] at hplace
    split at hplace
    · cases hplace
    · split at hplace
      · cases hplace
      · exact hplace
  obtain ⟨name, hlast, hup⟩ := h.getLast?_of_locateFrom hstart hfrom hnode
  rw [place_of_locate hplace, Path.getLast?_place hlast hup, Path.name, hlast]
  rfl

/-- Something is put where nothing but a file was, in a directory. -/
theorem Rooted.putNode (h : t.Rooted) (place : List String) {name : String}
    (hplace : t.node? place = some .directory)
    (hfree : t.node? (place ++ [name]) ≠ some .directory) (node : Node) :
    (t.putNode (place ++ [name]) node).Rooted := by
  have hkept : ∀ other, t.node? other = some .directory →
      (t.putNode (place ++ [name]) node).node? other = some .directory := by
    intro other hother
    rw [node?_putNode, if_neg fun heq => hfree (by rw [heq]; exact hother)]
    exact hother
  refine ⟨hkept _ h.root, hkept _ h.current, fun above other hnode => ?_⟩
  rw [node?_putNode] at hnode
  split at hnode
  · rename_i heq
    obtain ⟨rfl, -⟩ := List.append_inj' heq rfl
    exact hkept _ hplace
  · exact hkept _ (h.above above other hnode)

/-! ### Files that are stored -/

theorem not_directory_of_content? (hc : t.content? place = some c) :
    t.node? place ≠ some .directory := by
  obtain ⟨executable, hnode⟩ := content?_eq_some.1 hc
  simp [hnode]

/-- Two trees with the same directories, in which the same is at each place but some. -/
structure Alters (places : Set (List String)) (t t' : FileTree) : Prop where
  current : t'.current = t.current
  directory : ∀ place, t'.node? place = some .directory ↔ t.node? place = some .directory
  node : ∀ place ∉ places, t'.node? place = t.node? place

theorem Alters.refl (places : Set (List String)) (t : FileTree) : t.Alters places t :=
  ⟨rfl, fun _ => Iff.rfl, fun _ _ => rfl⟩

theorem Alters.symm (h : t.Alters places t') : t'.Alters places t :=
  ⟨h.current.symm, fun place => (h.directory place).symm, fun place hplace =>
    (h.node place hplace).symm⟩

theorem Alters.trans (h : t.Alters places t') (h' : t'.Alters places t'') : t.Alters places t'' :=
  ⟨h'.current.trans h.current, fun place => (h'.directory place).trans (h.directory place),
    fun place hplace => (h'.node place hplace).trans (h.node place hplace)⟩

theorem Alters.mono (h : t.Alters places t') (hplaces : places ⊆ places') : t.Alters places' t' :=
  ⟨h.current, h.directory, fun place hplace => h.node place fun hmem => hplace (hplaces hmem)⟩

theorem Alters.content? (h : t.Alters places t') (hplace : place ∉ places) :
    t'.content? place = t.content? place := by
  rw [FileTree.content?, FileTree.content?, h.node place hplace]

theorem Alters.grows (h : t.Alters places t') : t.Grows places none t' :=
  ⟨h.current, fun place => (h.directory place).2, fun _ hplace c hc =>
    ⟨c, (h.content? hplace).trans hc, .refl c, fun _ => rfl⟩⟩

/-- A path leads where it led, and nowhere else. -/
theorem Alters.locate_iff (h : t.Alters places t') :
    t'.locate p = .ok place ↔ t.locate p = .ok place :=
  ⟨h.symm.grows.locate, h.grows.locate⟩

/-- What a path leads to is what it led to, if no file was stored there. -/
theorem Alters.read_iff (h : t.Alters places t') (hp : ∀ place, t.locate p = .ok place →
    t.node? place ≠ some .directory → place ∉ places) : t'.read p = .ok c ↔ t.read p = .ok c := by
  rw [read_eq_ok, read_eq_ok]
  constructor
  · rintro ⟨place, hplace, hc⟩
    have hplace := h.locate_iff.1 hplace
    have hkept := hp place hplace fun hd => not_directory_of_content? hc ((h.directory place).2 hd)
    exact ⟨place, hplace, h.content? hkept ▸ hc⟩
  · rintro ⟨place, hplace, hc⟩
    have hkept := hp place hplace (not_directory_of_content? hc)
    exact ⟨place, h.locate_iff.2 hplace, (h.content? hkept).trans hc⟩

/-- A file is stored where no directory is. -/
theorem alters_put (hnode : t.node? place ≠ some .directory) (c : Content) :
    t.Alters {place} (t.put place c) := by
  refine ⟨rfl, fun other => ?_, fun other hother => ?_⟩
  · rw [put, node?_putNode]
    split
    · rename_i heq
      subst heq
      simp [hnode]
    · exact Iff.rfl
  · rw [put, node?_putNode, if_neg fun heq => hother heq.symm]

/-- A file is copied to another place than its own, where no directory is. -/
theorem copyFile_eq_ok {source dest : Path} : t.copyFile source dest = .ok t' ↔
    ∃ c place, t.read source = .ok c ∧ t.locate dest = .ok place ∧ t.locate source ≠ .ok place ∧
      t.node? place ≠ some .directory ∧ t' = t.put place c := by
  cases hread : t.read source with
  | error fault =>
    refine ⟨fun hcopy => ?_, fun ⟨_, _, hc, _⟩ => nomatch hc⟩
    rw [copyFile, hread] at hcopy
    split at hcopy
    · split at hcopy <;> cases hcopy
    · cases hcopy
  | ok c =>
    obtain ⟨start, hstart, hc⟩ := read_eq_ok.1 hread
    obtain ⟨executable, hnode⟩ := content?_eq_some.1 hc
    have hwrite : t.copyFile source dest =
        if t.locate dest = .ok start then .error .sameFile else t.write dest c := by
      rw [copyFile, hread, hstart]
      cases hplace : t.locate dest with
      | error fault => rfl
      | ok place =>
        by_cases heq : start = place
        · subst heq
          simp [hnode]
          rfl
        · simp [heq, Ne.symm heq]
          rfl
    rw [hwrite]
    by_cases hsame : t.locate dest = .ok start
    · rw [if_pos hsame, hsame, hstart]
      constructor
      · rintro ⟨⟩
      · rintro ⟨_, _, -, ⟨⟩, hne, -⟩
        exact absurd rfl hne
    · rw [if_neg hsame, write_eq_ok]
      constructor
      · rintro ⟨place, hplace, hfree, rfl⟩
        exact ⟨c, place, rfl, hplace, fun heq => hsame (hplace.trans (heq ▸ hstart)), hfree, rfl⟩
      · rintro ⟨_, place, ⟨⟩, hplace, -, hfree, rfl⟩
        exact ⟨place, hplace, hfree, rfl⟩

end Host.FileTree

/-! ### Logging -/

/-- The log file is where it was. -/
theorem Session.logPlaces_of_alters {s s' : Session} {places : Set (List String)}
    (h : s.tree.Alters places s'.tree) (hlog : s'.logFile = s.logFile) :
    s'.logPlaces = s.logPlaces := by
  simp only [Session.logPlaces, hlog, h.locate_iff]

open Host.FileTree in
/-- If the log file is there, a line can be logged, which stores the log file. -/
theorem Session.CanLog.exists_alters_log {s : Session} (h : s.CanLog) (message : String) :
    ∃ s', Yields (Build.log message) s () s' ∧ s.tree.Alters s.logPlaces s'.tree ∧
      s'.logFile = s.logFile ∧ s'.CanLog := by
  obtain ⟨s', hlog, -⟩ := h.exists_log message
  obtain ⟨hfile, hstored⟩ := Build.log_cases hlog
  refine ⟨s', hlog, ?_, hfile, Build.canLog_of_log hlog⟩
  cases hnone : s.logFile with
  | none =>
    obtain ⟨s₁, hlog₁, htree, -⟩ := Build.log_yields hnone message
    cases hlog.symm.trans hlog₁
    rw [htree]
    exact .refl ..
  | some file =>
    obtain ⟨tree, c, hmake, hwrite⟩ := hstored file hnone
    rw [makeDirectories_of_find? (h file hnone).1] at hmake
    cases hmake
    obtain ⟨place, hplace, hnode, hput⟩ := write_eq_ok.1 hwrite
    rw [hput]
    exact (alters_put hnode c).mono (Set.singleton_subset_iff.2 ⟨file, hnone, hplace⟩)

end BootImage
