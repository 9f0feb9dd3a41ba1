import BootImage.Proofs.Host.Places
import BootImage.Proofs.Session.Running

/-!
# Files that are replaced

A file is replaced by way of a temporary one beside it, which is renamed when it is complete. The
path still leads where it led, since neither of the two places held a directory, and what is found
there is what was written. At the place of the temporary file there was nothing before, and there is
nothing after it.

## Main results

* `FileTree.of_rename`: what renaming a file leaves.
* `Build.of_writeAtomically`: what is done to store a file through a temporary one.
* `Build.read_of_writeAtomically`: the file is read back.
* `Build.grows_writeAtomically`: all else stays.
-/

namespace BootImage

open Host (Path FileTree Fault Node)

namespace Host.FileTree

variable {t t' : FileTree} {p source dest : Path} {c : Content}

/-- A file is renamed to where no directory is; all else stays where it is. -/
theorem of_rename (hrename : t.rename source dest = .ok t') (hread : t.read source = .ok c) :
    ∃ start place executable, t.locate source = .ok start ∧
      t.node? start = some (.file c executable) ∧
      t.locate dest = .ok place ∧ t.node? place ≠ some .directory ∧ t'.current = t.current ∧
      ∀ other, t'.node? other = if place = other then some (.file c executable)
        else if start = other then none else t.node? other := by
  obtain ⟨start, hstart, hc⟩ := read_eq_ok.1 hread
  obtain ⟨executable, hnode⟩ := content?_eq_some.1 hc
  rw [rename, hstart] at hrename
  simp only [bind, Except.bind] at hrename
  split at hrename
  · cases hrename
  cases hplace : t.locate dest with
  | error e =>
    rw [hplace] at hrename
    cases hrename
  | ok place =>
    rw [hplace] at hrename
    simp only [hnode] at hrename
    split at hrename
    · cases hrename
    · cases hrename
    · rename_i moved target hmoved hfree
      obtain rfl := Option.some.inj hmoved
      cases hrename
      refine ⟨start, place, executable, hstart, hnode, rfl,
        fun hd => hfree c executable hd rfl, rfl, fun other => ?_⟩
      simp [node?, Std.TreeMap.getElem?_insert, Std.TreeMap.getElem?_erase]

/-- A file that takes another path is lost at its own, and replaces what was at the other one. -/
theorem grows_of_moved {start place : List String} {executable : Bool}
    (hcurrent : t'.current = t.current) (hnode : t.node? start = some (.file c executable))
    (hfree : t.node? place ≠ some .directory)
    (hmoved : ∀ other, t'.node? other = if place = other then some (.file c executable)
      else if start = other then none else t.node? other) : t.Grows {start, place} none t' := by
  refine ⟨hcurrent, fun other hd => ?_, fun other hother old hold => ⟨old, ?_, .refl old,
    fun _ => rfl⟩⟩
  · have hne : place ≠ other := fun heq => hfree (heq ▸ hd)
    have hne' : start ≠ other := by
      rintro rfl
      rw [hnode] at hd
      cases hd
    rw [hmoved, if_neg hne, if_neg hne', hd]
  · simp only [Set.mem_insert_iff, Set.mem_singleton_iff, not_or] at hother
    rw [content?, hmoved, if_neg (Ne.symm hother.2), if_neg (Ne.symm hother.1)]
    exact hold

/-- A file that was renamed is read at its new path. -/
theorem read_of_rename (hrename : t.rename source dest = .ok t') (hread : t.read source = .ok c) :
    t'.read dest = .ok c := by
  obtain ⟨start, place, executable, -, hnode, hplace, hfree, hcurrent, hmoved⟩ :=
    of_rename hrename hread
  have hgrows := grows_of_moved hcurrent hnode hfree hmoved
  refine read_eq_ok.2 ⟨place, hgrows.locate hplace, content?_eq_some.2 ⟨executable, ?_⟩⟩
  rw [hmoved, if_pos rfl]

theorem read_of_write (hwrite : t.write p c = .ok t') : t'.read p = .ok c := by
  obtain ⟨place, hplace, hnode, rfl⟩ := write_eq_ok.1 hwrite
  have hgrows : t.Grows {place} none (t.put place c) :=
    grows_put hnode fun haway => absurd rfl haway
  exact read_eq_ok.2 ⟨place, hgrows.locate hplace, content?_put_self t place c⟩

/-- A file is made at a path that led nowhere, written and renamed: only what the other path leads
to is another file now. -/
theorem grows_of_rename {made written : FileTree} (hcreate : t.create source = .ok made)
    (hwrite : made.write source c = .ok written) (hrename : written.rename source dest = .ok t') :
    t.Grows {dest.place t.current} none t' := by
  obtain ⟨start, hstart, hnone, rfl⟩ := create_eq_ok.1 hcreate
  have hmade : t.Grows ∅ none (t.putNode start (.file Content.empty false)) :=
    grows_putNode ∅ none hnone _
  obtain ⟨start', hstart', hfree, rfl⟩ := write_eq_ok.1 hwrite
  obtain rfl : start = start' := Except.ok.inj ((hmade.locate hstart).symm.trans hstart')
  have hwritten : (t.putNode start (.file Content.empty false)).Grows {start} none
      ((t.putNode start (.file Content.empty false)).put start c) :=
    grows_put hfree fun haway => absurd rfl haway
  -- What the temporary file is not was not touched before it was renamed.
  have hsame : ∀ other, start ≠ other → ((t.putNode start (.file Content.empty false)).put
      start c).node? other = t.node? other := by
    intro other hne
    rw [put, node?_putNode, if_neg hne, node?_putNode, if_neg hne]
  obtain ⟨start', place, executable, hstart', -, hplace, hdest, hcurrent, hmoved⟩ :=
    of_rename hrename (read_of_write hwrite)
  obtain rfl : start = start' :=
    Except.ok.inj ((hwritten.locate (hmade.locate hstart)).symm.trans hstart')
  have haway : place = dest.place t.current := (place_of_locate hplace).trans rfl
  have hkept : ∀ other, place ≠ other → t.node? other ≠ none → t'.node? other = t.node? other := by
    intro other hne hsome
    have hstart : start ≠ other := fun heq => hsome (heq ▸ hnone)
    rw [hmoved, if_neg hne, if_neg hstart, hsame other hstart]
  refine ⟨hcurrent, fun other hd => ?_, fun other hother old hold => ⟨old, ?_, .refl old,
    fun _ => rfl⟩⟩
  · have hsome : t.node? other ≠ none := by simp [hd]
    have hstart : start ≠ other := fun heq => hsome (heq ▸ hnone)
    rw [hkept other (fun heq => hdest ?_) hsome, hd]
    rw [heq, hsame other hstart, hd]
  · obtain ⟨executable, hfile⟩ := content?_eq_some.1 hold
    have hne : place ≠ other := fun heq => hother (heq ▸ haway ▸ rfl)
    rw [content?, hkept other hne (by simp [hfile])]
    exact hold

end Host.FileTree

namespace Build

variable {s s' : Session} {u : Unit} {dest : Path} {c : Content}

/-- A file that was stored through a temporary one beside it: the directories above it were made,
and the temporary file was made, written and renamed. -/
theorem of_writeAtomically (h : Yields (writeAtomically dest c) s u s') :
    ∃ above temporary made written, s.tree.makeDirectories dest.parent = (.ok (), above) ∧
      above.create temporary = .ok made ∧ made.write temporary c = .ok written ∧
      written.rename temporary dest = .ok s'.tree ∧ s'.logFile = s.logFile := by
  rw [writeAtomically, replaceFile, yields_bind] at h
  obtain ⟨_, s₁, hmake, h⟩ := h
  obtain ⟨hmade, rfl⟩ := yields_makeDirectories.1 hmake
  obtain ⟨_, s₂, hget, h⟩ := yields_bind.1 h
  obtain ⟨rfl, rfl⟩ := yields_get.1 hget
  obtain ⟨_, s₃, hcreate, h⟩ := yields_bind.1 h
  obtain ⟨made, hnew, rfl⟩ := yields_change.1 hcreate
  rw [yields_tryCatch, yields_bind] at h
  · obtain ⟨_, s₄, hfill, hrename⟩ := h
    obtain ⟨written, hwrite, rfl⟩ := yields_change.1 hfill
    obtain ⟨tree, hmove, rfl⟩ := yields_change.1 hrename
    exact ⟨_, _, made, written, Prod.ext hmade rfl, hnew, hwrite, hmove, rfl⟩
  · -- What is done after a failure ends in the failure.
    intro failure s₄ hhandler
    obtain ⟨_, s₅, -, hhandler⟩ := yields_bind.1 hhandler
    split at hhandler
    · obtain ⟨_, s₆, -, hthrow⟩ := yields_bind.1 hhandler
      exact not_yields_throw hthrow
    · exact not_yields_throw hhandler

/-- A file that was stored through a temporary one is read back. -/
theorem read_of_writeAtomically (h : Yields (writeAtomically dest c) s u s') :
    s'.tree.read dest = .ok c := by
  obtain ⟨_, _, _, _, -, -, hwrite, hrename, -⟩ := of_writeAtomically h
  exact FileTree.read_of_rename hrename (FileTree.read_of_write hwrite)

/-- When a file is stored through a temporary one, all else stays. -/
theorem grows_writeAtomically (h : Yields (writeAtomically dest c) s u s') :
    s'.logFile = s.logFile ∧ s.tree.Grows {dest.place s.tree.current} none s'.tree := by
  obtain ⟨above, temporary, made, written, hmake, hcreate, hwrite, hrename, hlog⟩ :=
    of_writeAtomically h
  have hmade := FileTree.grows_makeDirectories {dest.place s.tree.current} none s.tree dest.parent
  rw [hmake] at hmade
  have hreplaced := FileTree.grows_of_rename hcreate hwrite hrename
  rw [hmade.current] at hreplaced
  exact ⟨hlog, hmade.trans hreplaced⟩

end Build

end BootImage
