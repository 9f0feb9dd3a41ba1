import BootImage.Host.FileTree
import BootImage.Proofs.Bytes.Extending
import Mathlib.Data.Set.Insert

/-!
# File trees that grow

What a build does to the tree while it fills an image: directories are made, lines are appended to
the log file, and the image is written again and again. Nothing is ever removed, so a path that
leads somewhere goes on leading there, and all files but the image keep their bytes, apart from the
log, which goes on.

## Main definitions

* `FileTree.Grows`: one tree has become another in that way.

## Main results

* `FileTree.Grows.locate`: paths lead where they led.
* `FileTree.grows_put`, `FileTree.grows_makeDirectories`: the changes that are of this kind.
-/

namespace BootImage.Host.FileTree

/-- A tree has become another one: directories are still there, and so are files, with the bytes
that they had, but for the places `away`. The file that the path `log` leads to may have got
longer. -/
structure Grows (away : Set (List String)) (log : Option Path) (t t' : FileTree) : Prop where
  current : t'.current = t.current
  directory : ∀ place, t.node? place = some .directory → t'.node? place = some .directory
  content : ∀ place ∉ away, ∀ c, t.content? place = some c → ∃ c', t'.content? place = some c' ∧
    c.Extends c' ∧ ((∀ p ∈ log, t'.locate p ≠ .ok place) → c' = c)

variable {away : Set (List String)} {log : Option Path} {t t' t'' : FileTree} {place : List String}
  {p : Path} {c : Content}

/-! ### Where paths lead -/

theorem Grows.locateFrom (h : t.Grows away log t') {here : List String} {names : List String}
    (hplace : t.locateFrom here names = .ok place) : t'.locateFrom here names = .ok place := by
  induction names generalizing here with
  | nil => exact hplace
  | cons name names ih =>
    rw [FileTree.locateFrom] at hplace ⊢
    cases hnode : t.node? here with
    | none =>
      rw [hnode] at hplace
      cases hplace
    | some node =>
      rw [hnode] at hplace
      cases node with
      | file =>
        cases hplace
      | directory =>
        rw [h.directory here hnode]
        simp only at hplace ⊢
        split at hplace
        · rename_i hup
          rw [if_pos hup]
          exact ih hplace
        · rename_i hdown
          rw [if_neg hdown]
          split at hplace
          · cases hplace
          · rename_i hshort
            rw [if_neg hshort]
            exact ih hplace

/-- A path leads where it led. -/
theorem Grows.locate (h : t.Grows away log t') (hplace : t.locate p = .ok place) :
    t'.locate p = .ok place := by
  have hstart : t'.start p = t.start p := by rw [start, start, h.current]
  rw [FileTree.locate] at hplace ⊢
  rw [hstart]
  split at hplace
  · cases hplace
  · rename_i hzero
    rw [if_neg hzero]
    split at hplace
    · cases hplace
    · rename_i hshort
      rw [if_neg hshort]
      exact h.locateFrom hplace

theorem Grows.refl (away : Set (List String)) (log : Option Path) (t : FileTree) :
    t.Grows away log t :=
  ⟨rfl, fun _ h => h, fun _ _ c hc => ⟨c, hc, .refl c, fun _ => rfl⟩⟩

theorem Grows.trans (h : t.Grows away log t') (h' : t'.Grows away log t'') :
    t.Grows away log t'' := by
  refine ⟨h'.current.trans h.current, fun place hd => h'.directory _ (h.directory _ hd), ?_⟩
  intro place haway c hc
  obtain ⟨c', hc', hextends, hsame⟩ := h.content place haway c hc
  obtain ⟨c'', hc'', hextends', hsame'⟩ := h'.content place haway c' hc'
  refine ⟨c'', hc'', hextends.trans hextends', fun hlog => ?_⟩
  rw [hsame' hlog, hsame fun p hp hplace => hlog p hp (h'.locate hplace)]

theorem Grows.mono {away' : Set (List String)} (h : t.Grows away log t') (haway : away ⊆ away') :
    t.Grows away' log t' :=
  ⟨h.current, h.directory, fun place hplace => h.content place fun hmem => hplace (haway hmem)⟩

/-! ### Changes -/

theorem content?_eq_some : t.content? place = some c ↔
    ∃ executable, t.node? place = some (.file c executable) := by
  rw [content?]
  cases t.node? place with
  | none => simp
  | some node => cases node <;> simp

/-- What is done at the place of a path is done if the path leads to one. -/
theorem locate_bind_eq_ok {α : Type} {f : List String → Except Fault α} {a : α} :
    (t.locate p >>= f) = .ok a ↔ ∃ place, t.locate p = .ok place ∧ f place = .ok a := by
  cases t.locate p with
  | error e => simp [bind, Except.bind]
  | ok place => simp [bind, Except.bind]

theorem read_eq_ok :
    t.read p = .ok c ↔ ∃ place, t.locate p = .ok place ∧ t.content? place = some c := by
  rw [read, locate_bind_eq_ok]
  refine exists_congr fun place => and_congr_right fun _ => ?_
  rw [content?]
  cases t.node? place with
  | none => simp [throw, throwThe, MonadExceptOf.throw]
  | some node => cases node <;> simp [throw, throwThe, MonadExceptOf.throw, pure, Except.pure]

/-- Where only a place may change at which nothing was, the files are read as before. -/
theorem Grows.read_of_vacant (h : t.Grows {place} none t') (hvacant : t.node? place = none)
    (hread : t.read p = .ok c) : t'.read p = .ok c := by
  obtain ⟨other, hother, hc⟩ := read_eq_ok.1 hread
  have hne : other ∉ ({place} : Set (List String)) := by
    rintro rfl
    rw [content?, hvacant] at hc
    cases hc
  obtain ⟨c', hc', -, hsame⟩ := h.content other hne c hc
  obtain rfl := hsame (by simp)
  exact read_eq_ok.2 ⟨other, h.locate hother, hc'⟩

theorem isFile_of_read (h : t.read p = .ok c) : t.isFile p = .ok true := by
  obtain ⟨place, hplace, hc⟩ := read_eq_ok.1 h
  obtain ⟨executable, hnode⟩ := content?_eq_some.1 hc
  rw [isFile, probe, hplace]
  simp only [bind, Except.bind, hnode]
  rfl

theorem write_eq_ok : t.write p c = .ok t' ↔
    ∃ place, t.locate p = .ok place ∧ t.node? place ≠ some .directory ∧ t' = t.put place c := by
  rw [write, locate_bind_eq_ok]
  refine exists_congr fun place => and_congr_right fun _ => ?_
  cases t.node? place with
  | none => simp [pure, Except.pure, eq_comm]
  | some node =>
    cases node <;> simp [throw, throwThe, MonadExceptOf.throw, pure, Except.pure, eq_comm]

theorem create_eq_ok : t.create p = .ok t' ↔ ∃ place, t.locate p = .ok place ∧
    t.node? place = none ∧ t' = t.putNode place (.file Content.empty false) := by
  rw [create, locate_bind_eq_ok]
  refine exists_congr fun place => and_congr_right fun _ => ?_
  cases t.node? place with
  | none => simp [pure, Except.pure, eq_comm]
  | some node => simp [throw, throwThe, MonadExceptOf.throw]

/-- What removing a file leaves. -/
theorem of_remove (h : t.remove p = .ok t') :
    ∃ place, t.locate p = .ok place ∧ t.node? place ≠ some .directory ∧
      t'.current = t.current ∧
      ∀ other, t'.node? other = if place = other then none else t.node? other := by
  rw [remove, locate_bind_eq_ok] at h
  obtain ⟨place, hplace, h⟩ := h
  split at h
  · cases h
  · cases h
  · rename_i hnode
    cases h
    exact ⟨place, hplace, by simp [hnode], rfl, fun other => by
      simp [node?, Std.TreeMap.getElem?_erase]⟩

/-- Where nothing was, anything may come. -/
theorem grows_putNode (away : Set (List String)) (log : Option Path)
    (hnone : t.node? place = none) (node : Node) : t.Grows away log (t.putNode place node) := by
  refine ⟨rfl, fun other hd => ?_, fun other _ c hc => ⟨c, ?_, .refl c, fun _ => rfl⟩⟩
  · rw [node?_putNode, if_neg, hd]
    rintro rfl
    rw [hnone] at hd
    cases hd
  · obtain ⟨executable, hnode⟩ := content?_eq_some.1 hc
    refine content?_eq_some.2 ⟨executable, ?_⟩
    rw [node?_putNode, if_neg, hnode]
    rintro rfl
    rw [hnone] at hnode
    cases hnode

/-- A file is stored where it may change, or where the log goes on. -/
theorem grows_put (hnode : t.node? place ≠ some .directory)
    (hmay : place ∉ away → (∃ p ∈ log, t.locate p = .ok place) ∧
      ∀ old, t.content? place = some old → old.Extends c) :
    t.Grows away log (t.put place c) := by
  have hdirectory : ∀ other, t.node? other = some .directory →
      (t.put place c).node? other = some .directory := by
    intro other hd
    rw [put, node?_putNode, if_neg, hd]
    rintro rfl
    exact hnode hd
  have haway : t.Grows {place} none (t.put place c) := by
    refine ⟨rfl, hdirectory, fun other hother old hold => ⟨old, ?_, .refl old, fun _ => rfl⟩⟩
    rw [content?_put_of_ne t c fun heq => hother heq.symm, hold]
  refine ⟨rfl, hdirectory, fun other hother old hold => ?_⟩
  by_cases heq : place = other
  · subst heq
    obtain ⟨⟨p, hp, hplace⟩, hextends⟩ := hmay hother
    exact ⟨c, content?_put_self t place c, hextends old hold, fun hlog =>
      absurd (haway.locate hplace) (hlog p hp)⟩
  · exact ⟨old, (content?_put_of_ne t c heq).trans hold, .refl old, fun _ => rfl⟩

theorem grows_makeFrom (away : Set (List String)) (log : Option Path) (t : FileTree)
    (here names : List String) : t.Grows away log (t.makeFrom here names).2 := by
  induction names generalizing t here with
  | nil => exact .refl ..
  | cons name names ih =>
    rw [makeFrom]
    split
    · exact ih ..
    · split
      · exact .refl ..
      · split
        · exact ih ..
        · exact .refl ..
        · rename_i hnone
          exact (grows_putNode away log hnone _).trans (ih ..)

/-- Making directories takes nothing away. -/
theorem grows_makeDirectories (away : Set (List String)) (log : Option Path) (t : FileTree)
    (p : Path) : t.Grows away log (t.makeDirectories p).2 := by
  rw [makeDirectories]
  split
  · split
    · exact .refl ..
    · exact .refl ..
    · rename_i hnone
      exact grows_putNode away log hnone _
  · split
    · exact .refl ..
    · exact grows_makeFrom ..
  · exact .refl ..

/-! ### Files that stay -/

/-- Paths lead where they led, and where a file was there is one, whatever it holds. -/
structure Retains (t t' : FileTree) : Prop where
  locate : ∀ p place, t.locate p = .ok place → t'.locate p = .ok place
  file : ∀ place c, t.content? place = some c → ∃ c', t'.content? place = some c'

theorem Retains.refl (t : FileTree) : t.Retains t :=
  ⟨fun _ _ => id, fun _ c hc => ⟨c, hc⟩⟩

theorem Retains.trans (h : t.Retains t') (h' : t'.Retains t'') : t.Retains t'' := by
  refine ⟨fun p place hplace => h'.locate p place (h.locate p place hplace), fun place c hc => ?_⟩
  obtain ⟨c', hc'⟩ := h.file place c hc
  exact h'.file place c' hc'

/-- A file that can be read can be read on. -/
theorem Retains.read (h : t.Retains t') (hread : t.read p = .ok c) : ∃ c', t'.read p = .ok c' := by
  obtain ⟨place, hplace, hc⟩ := read_eq_ok.1 hread
  obtain ⟨c', hc'⟩ := h.file place c hc
  exact ⟨c', read_eq_ok.2 ⟨place, h.locate p place hplace, hc'⟩⟩

theorem retains_write (hwrite : t.write p c = .ok t') : t.Retains t' := by
  obtain ⟨place, -, hnode, rfl⟩ := write_eq_ok.1 hwrite
  have hgrows : t.Grows {place} none (t.put place c) :=
    grows_put hnode fun haway => absurd rfl haway
  refine ⟨fun p place => hgrows.locate, fun other old hold => ?_⟩
  by_cases heq : place = other
  · subst heq
    exact ⟨c, content?_put_self t place c⟩
  · exact ⟨old, (content?_put_of_ne t c heq).trans hold⟩

theorem retains_makeDirectories (t : FileTree) (p : Path) : t.Retains (t.makeDirectories p).2 := by
  have hgrows := grows_makeDirectories ∅ none t p
  refine ⟨fun p place => hgrows.locate, fun place c hc => ?_⟩
  obtain ⟨c', hc', -⟩ := hgrows.content place (Set.notMem_empty place) c hc
  exact ⟨c', hc'⟩

/-- A file that can be read can be written. -/
theorem write_of_read (hread : t.read p = .ok c) (new : Content) :
    ∃ t', t.write p new = .ok t' := by
  obtain ⟨place, hplace, hc⟩ := read_eq_ok.1 hread
  obtain ⟨executable, hnode⟩ := content?_eq_some.1 hc
  exact ⟨t.put place new, write_eq_ok.2 ⟨place, hplace, by simp [hnode], rfl⟩⟩

end BootImage.Host.FileTree
