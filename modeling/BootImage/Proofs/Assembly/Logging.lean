import BootImage.Proofs.Assembly.Rebuilding
import BootImage.Proofs.Session.Looping
import BootImage.Proofs.Session.Replacing

/-!
# Lines that are logged

A line is appended to the log file, if there is one, and the directories that lead to that file are
made where they are missing. So a line can be refused like anything else that changes the tree. But
only the first one can: once a line was logged, the log file is there, in its directory, and no more
is needed to log another. From then on all that a line changes is the bytes of that file.

## Main definitions

* `Session.CanLog`: the log file is there, if there is to be one.
* `Session.logPlaces`: where the log file is.
* `Session.Logs`: lines were logged, and nothing else was done.

## Main results

* `Build.canLog_of_log`: once a line was logged, the log file is there.
* `Session.CanLog.exists_log`: if it is there, a line can be logged, and changes nothing else.
* `Session.Logs.grows`, `Session.Logs.guards`: what lines that are logged do to the tree.
-/

namespace BootImage

open Host (Path FileTree)

namespace Host.FileTree

variable {t t' : FileTree} {p : Path} {place here : List String}

/-- What has a name in a place is in a directory. -/
theorem exists_directory_of_locateFrom {names : List String} {name : String}
    (h : t.locateFrom here (names ++ [name]) = .ok place) :
    ∃ above, t.locateFrom here names = .ok above ∧ t.node? above = some .directory := by
  induction names generalizing here with
  | nil =>
    refine ⟨here, rfl, ?_⟩
    rw [List.nil_append, locateFrom] at h
    cases hnode : t.node? here with
    | none =>
      rw [hnode] at h
      cases h
    | some node =>
      cases node with
      | directory => rfl
      | file =>
        rw [hnode] at h
        cases h
  | cons first names ih =>
    rw [List.cons_append, locateFrom] at h
    rw [locateFrom]
    cases hnode : t.node? here with
    | none =>
      rw [hnode] at h
      cases h
    | some node =>
      rw [hnode] at h
      cases node with
      | file => cases h
      | directory =>
        simp only at h ⊢
        split at h
        · rename_i hup
          rw [if_pos hup]
          exact ih h
        · rename_i hdown
          rw [if_neg hdown]
          split at h
          · cases h
          · rename_i hshort
            rw [if_neg hshort]
            exact ih h

theorem Grows.find?_directory {away : Set (List String)} {log : Option Path}
    (h : t.Grows away log t') (hfind : t.find? p = some .directory) :
    t'.find? p = some .directory := by
  rw [find?] at hfind ⊢
  cases hplace : t.locate p with
  | error fault =>
    rw [hplace] at hfind
    cases hfind
  | ok place =>
    rw [hplace] at hfind
    rw [h.locate hplace]
    exact h.directory place hfind

theorem makeDirectories_of_find? (h : t.find? p = some .directory) :
    t.makeDirectories p = (.ok (), t) := by
  rw [find?] at h
  rw [makeDirectories]
  cases hplace : t.locate p with
  | error fault =>
    rw [hplace] at h
    cases h
  | ok place =>
    rw [hplace] at h
    simp only at h ⊢
    rw [h]

/-- Once the directories above a file were made, and the file can be written, they are there. -/
theorem find?_parent_of_makeDirectories (hmake : t.makeDirectories p.parent = (.ok (), t'))
    (hplace : t'.locate p = .ok place) : t'.find? p.parent = some .directory := by
  have hgrows := grows_makeDirectories ∅ none t p.parent
  rw [hmake] at hgrows
  rw [makeDirectories] at hmake
  cases habove : t.locate p.parent with
  | ok above =>
    rw [find?, hgrows.locate habove]
    rw [habove] at hmake
    simp only at hmake ⊢
    cases hnode : t.node? above with
    | none =>
      rw [hnode] at hmake
      cases hmake
      rw [node?_putNode, if_pos rfl]
    | some node =>
      rw [hnode] at hmake
      cases node with
      | file => cases hmake
      | directory => exact hgrows.directory above hnode
  | error fault =>
    -- The text of the path was not refused, so it is one that can lead to a place.
    have hpasses : ∀ u : FileTree, fault = .notFound →
        u.locate p.parent = u.locateFrom (u.start p.parent) p.parent.names := by
      rintro u rfl
      rw [locate] at habove ⊢
      split at habove
      · cases habove
      · rename_i hzero
        rw [if_neg hzero]
        split at habove
        · cases habove
        · rename_i hshort
          rw [if_neg hshort]
    rw [habove] at hmake
    cases fault with
    | notFound =>
      have hnames : p.names ≠ [] := by
        intro hnil
        have hstart := hpasses t rfl
        rw [Path.parent, hnil, List.dropLast_nil, locateFrom] at hstart
        rw [Path.parent, hnil, List.dropLast_nil] at habove
        cases habove.symm.trans hstart
      obtain ⟨above, hfrom, hnode⟩ : ∃ above,
          t'.locateFrom (t'.start p) p.names.dropLast = .ok above ∧
            t'.node? above = some .directory := by
        rw [locate] at hplace
        split at hplace
        · cases hplace
        · split at hplace
          · cases hplace
          · rw [← List.dropLast_concat_getLast hnames] at hplace
            exact exists_directory_of_locateFrom hplace
      have hlocate : t'.locate p.parent = .ok above := (hpasses t' rfl).trans hfrom
      rw [find?, hlocate]
      exact hnode
    | _ => cases hmake

end Host.FileTree

/-- The log file is there, if there is to be one, and so is the directory that it is in. -/
def Session.CanLog (t : Session) : Prop :=
  ∀ p ∈ t.logFile, t.tree.find? p.parent = some .directory ∧ ∃ c, t.tree.read p = .ok c

/-- The place of the log file, if there is one. -/
def Session.logPlaces (t : Session) : Set (List String) :=
  {place | ∃ p ∈ t.logFile, t.tree.locate p = .ok place}

variable {t t' : Session} {away : Set (List String)}

theorem Session.Like.refl (away : Set (List String)) (t : Session) : t.Like away t :=
  ⟨.refl _ _, rfl, rfl⟩

theorem Session.Like.trans {t'' : Session} (h : t.Like away t') (h' : t'.Like away t'') :
    t.Like away t'' :=
  ⟨h.tree.trans h'.tree, h.clock.trans h'.clock, h.logFile.trans h'.logFile⟩

/-- The log file is at the same place in sessions that are alike. -/
theorem Session.Like.logPlaces (h : t.Like away t') : t'.logPlaces = t.logPlaces := by
  simp only [Session.logPlaces, h.logFile, h.tree.locate]

theorem Session.Like.canLog (h : t.Like away t') (hlog : t.CanLog) : t'.CanLog := by
  intro p hp
  obtain ⟨hparent, c, hread⟩ := hlog p (h.logFile ▸ hp)
  refine ⟨?_, h.tree.exists_read hread⟩
  have hfind := h.tree.find? p.parent
  rw [hparent] at hfind
  generalize t'.tree.find? p.parent = node at hfind
  cases hfind with
  | directory => rfl

/-- Logging a line stores the log file, if there is to be one, once its directory is there. -/
theorem Build.log_cases {message : String} {u : Unit} (h : Yields (log message) t u t') :
    t'.logFile = t.logFile ∧ ∀ file ∈ t.logFile, ∃ tree c,
      t.tree.makeDirectories file.parent = (.ok (), tree) ∧ tree.write file c = .ok t'.tree := by
  rw [log, yields_bind] at h
  obtain ⟨t₀, t₁, hget, h₁⟩ := h
  obtain ⟨rfl, rfl⟩ := yields_get.1 hget
  obtain ⟨u, t₂, hprint, h₂⟩ := yields_bind.1 h₁
  obtain rfl := yields_modify.1 hprint
  cases hfile : t₁.logFile with
  | none =>
    simp only [hfile] at h₂
    obtain ⟨-, rfl⟩ := yields_pure.1 h₂
    exact ⟨rfl, by rintro file ⟨⟩⟩
  | some file =>
    simp only [hfile] at h₂
    obtain ⟨u, t₃, hmake, hchange⟩ := yields_bind.1 h₂
    obtain ⟨hmade, rfl⟩ := yields_makeDirectories.1 hmake
    obtain ⟨tree, hwrite, rfl⟩ := yields_change.1 hchange
    refine ⟨rfl, ?_⟩
    rintro other ⟨⟩
    exact ⟨_, _, Prod.ext hmade rfl, hwrite⟩

/-- Once a line was logged, the log file is there. -/
theorem Build.canLog_of_log {message : String} {u : Unit} (h : Yields (log message) t u t') :
    t'.CanLog := by
  obtain ⟨hlogFile, hfile⟩ := log_cases h
  intro p hp
  obtain ⟨tree, c, hmake, hwrite⟩ := hfile p (hlogFile ▸ hp)
  refine ⟨?_, c, FileTree.read_of_write hwrite⟩
  obtain ⟨place, hplace, hnode, hput⟩ := FileTree.write_eq_ok.1 hwrite
  have hgrows : tree.Grows {place} none (tree.put place c) :=
    FileTree.grows_put hnode fun haway => absurd rfl haway
  rw [hput]
  exact hgrows.find?_directory (FileTree.find?_parent_of_makeDirectories hmake hplace)

/-- A file that is there can be stored again, and nothing else changes. -/
theorem Build.exists_store {file : Path} {c : Content} {place : List String}
    (hparent : t.tree.find? file.parent = some .directory)
    (hplace : t.tree.locate file = .ok place) (hc : t.tree.content? place = some c)
    (new : FileTree → Content) : ∃ t', Yields (do
      Build.makeDirectories file.parent
      Build.change fun tree => tree.write file (new tree)) t () t' ∧ t.Like {place} t' := by
  obtain ⟨executable, hnode⟩ := FileTree.content?_eq_some.1 hc
  have hwrite : t.tree.write file (new t.tree) = .ok (t.tree.put place (new t.tree)) :=
    FileTree.write_eq_ok.2 ⟨place, hplace, by simp [hnode], rfl⟩
  have hmake : Yields (Build.makeDirectories file.parent) t () t := by
    rw [yields_makeDirectories, FileTree.makeDirectories_of_find? hparent]
    exact ⟨rfl, rfl⟩
  exact hmake.bind ⟨_, yields_change.2 ⟨_, hwrite, rfl⟩, FileTree.like_put hc _, rfl, rfl⟩

/-- A line can be logged if the log file is there, and changes nothing else. -/
theorem Session.CanLog.exists_log (h : t.CanLog) (message : String) :
    ∃ t', Yields (Build.log message) t () t' ∧ t.Like t.logPlaces t' := by
  refine Yields.bind (yields_get.2 ⟨rfl, rfl⟩) (Yields.bind (a := ()) (yields_modify.2 rfl) ?_)
  cases hfile : t.logFile with
  | none => exact ⟨_, yields_pure.2 ⟨rfl, rfl⟩, .refl _ _, rfl, hfile⟩
  | some file =>
    obtain ⟨hparent, c, hread⟩ := h file hfile
    obtain ⟨place, hplace, hc⟩ := FileTree.read_eq_ok.1 hread
    obtain ⟨t', hstore, hlike⟩ := Build.exists_store
      (t := { t with printed := t.printed.push s!"[{t.clock}] {message}", logFile := some file })
      hparent hplace hc _
    exact ⟨t', hstore, hlike.tree.mono (Set.singleton_subset_iff.2 ⟨file, hfile, hplace⟩),
      hlike.clock, hfile.trans hlike.logFile⟩

/-! ### Several lines -/

/-- Lines were logged one after the other, and nothing else was done. -/
def Session.Logs (t t' : Session) : Prop :=
  ∃ messages, Yields (each messages Build.log) t PUnit.unit t'

/-- Logging changes the log file alone. -/
theorem Build.guards_of_log {message : String} {u : Unit} {place : List String}
    (h : Yields (log message) t u t')
    (hfile : ∀ p ∈ t.logFile, p.place t.tree.current ≠ place) :
    t.tree.Guards place ∅ t'.tree := by
  cases hlog : t.logFile with
  | none =>
    obtain ⟨t₁, hlogged, htree, -⟩ := log_yields hlog message
    cases h.symm.trans hlogged
    rw [htree]
    exact .refl ..
  | some file =>
    obtain ⟨-, hstored⟩ := log_cases h
    obtain ⟨tree, c, hmake, hwrite⟩ := hstored file hlog
    have hmade := FileTree.guards_makeDirectories place ∅ t.tree file.parent
    rw [hmake] at hmade
    exact hmade.trans (FileTree.guards_write hwrite (.inl (hmade.current ▸ hfile file hlog)))

theorem Session.Logs.logFile (h : t.Logs t') : t'.logFile = t.logFile := by
  obtain ⟨messages, hlogs⟩ := h
  exact Yields.each (fun _ u => u.logFile = t.logFile) hlogs
    (fun _ _ _ _ _ _ hlog hinv => (Build.log_cases hlog).1.trans hinv) rfl

/-- Lines that are logged make the tree grow. -/
theorem Session.Logs.grows (h : t.Logs t') : t.tree.Grows ∅ t.logFile t'.tree := by
  obtain ⟨messages, hlogs⟩ := h
  refine (Yields.each (fun _ u => t.tree.Grows ∅ t.logFile u.tree ∧ u.logFile = t.logFile) hlogs
    (fun _ _ _ u u' _ hlog hinv => ?_) ⟨.refl .., rfl⟩).1
  obtain ⟨hgrows, hfile⟩ := Build.grows_log hlog
  rw [hinv.2] at hgrows hfile
  exact ⟨hinv.1.trans hgrows, hfile⟩

/-- Lines that are logged change the log file alone. -/
theorem Session.Logs.guards {place : List String} (h : t.Logs t')
    (hfile : ∀ p ∈ t.logFile, p.place t.tree.current ≠ place) :
    t.tree.Guards place ∅ t'.tree := by
  obtain ⟨messages, hlogs⟩ := h
  refine (Yields.each (fun _ u => t.tree.Guards place ∅ u.tree ∧ u.logFile = t.logFile) hlogs
    (fun _ _ _ u u' _ hlog hinv => ?_) ⟨.refl .., rfl⟩).1
  obtain ⟨hguards, hsame⟩ := hinv
  refine ⟨hguards.trans (Build.guards_of_log hlog ?_), (Build.log_cases hlog).1.trans hsame⟩
  rw [hsame, hguards.current]
  exact hfile

/-- If the log file is there, any lines can be logged. -/
theorem Session.CanLog.exists_each (h : t.CanLog) (messages : List String) :
    ∃ t', Yields (each messages Build.log) t PUnit.unit t' := by
  induction messages generalizing t with
  | nil => exact ⟨t, yields_pure.2 ⟨rfl, rfl⟩⟩
  | cons message messages ih =>
    obtain ⟨t₁, hlog, -⟩ := h.exists_log message
    obtain ⟨t', hrest⟩ := ih (Build.canLog_of_log hlog)
    exact ⟨t', by rw [each_cons, yields_bind]; exact ⟨(), t₁, hlog, hrest⟩⟩

/-- Once some lines were logged, the log file is there. -/
theorem Build.canLog_of_each {messages : List String} {u : PUnit}
    (h : Yields (each messages log) t u t') (hmessages : messages ≠ []) : t'.CanLog :=
  Yields.each (fun done u => done ≠ [] → u.CanLog) h
    (fun _ _ _ _ _ _ hlog _ _ => canLog_of_log hlog) (fun hnil => absurd rfl hnil) hmessages

/-- The log file is still there when other files were lost. -/
theorem Session.CanLog.of_grows (h : t.CanLog) (hlog : t'.logFile = t.logFile)
    (hgrows : t.tree.Grows away none t'.tree)
    (haway : ∀ p ∈ t.logFile, p.place t.tree.current ∉ away) : t'.CanLog := by
  intro p hp
  rw [hlog] at hp
  obtain ⟨hparent, c, hread⟩ := h p hp
  refine ⟨hgrows.find?_directory hparent, ?_⟩
  obtain ⟨place, hplace, hc⟩ := FileTree.read_eq_ok.1 hread
  have hkept : place ∉ away := FileTree.place_of_locate hplace ▸ haway p hp
  obtain ⟨c', hc', -⟩ := hgrows.content place hkept c hc
  exact ⟨c', FileTree.read_eq_ok.2 ⟨place, hgrows.locate hplace, hc'⟩⟩

end BootImage
