import BootImage.Proofs.Assembly.Logging
import BootImage.Proofs.Host.Persisting
import BootImage.Proofs.Session.Guarding

/-!
# Files that are exchanged

What is filled in a temporary file is the file in the end, or nothing of it is. For this the path of
the temporary file has to lead there as long as it is filled, by whatever program: then it can be
renamed or removed. So the temporary file is gone either way, and if it was not renamed, the file
that was to be replaced is the one that was there.

Directories that were made on the way to the file stay. If the path steps back from one of them, it
may lead to one of them now, while it led nowhere before; but no file is there.

## Main definitions

* `Session.Persists`: what is in the tree is still there.
* `Session.Exchanges`: a file was exchanged for another one, or not touched.

## Main results

* `Build.persists_runProgram`: programs take nothing away.
* `Build.of_runProgram`: what is at a place after a program.
* `Build.replaceFile_cases`: the steps of a replacement, up to the one that fails.
* `Build.fills_runProgram`: a program fills a temporary file that it is told of.
* `Build.exchanges_replaceFile`: a replacement exchanges a file.
-/

namespace BootImage

open Host (Path FileTree Fault)

variable {s s' s'' t : Session}

/-! ### What stays -/

/-- What is in the tree is still there, and the log file is to be where it was. -/
structure Session.Persists (s s' : Session) : Prop where
  logFile : s'.logFile = s.logFile
  tree : s.tree.Persists s'.tree

instance : Std.Refl Session.Persists :=
  ⟨fun _ => ⟨rfl, .refl _⟩⟩

instance : IsTrans Session Session.Persists :=
  ⟨fun _ _ _ h h' => ⟨h'.logFile.trans h.logFile, h.tree.trans h'.tree⟩⟩

/-- A log file that is there is still there. -/
theorem Session.CanLog.of_persists (h : s.CanLog) (hs : s.Persists s') : s'.CanLog := by
  intro p hp
  obtain ⟨hparent, c, hread⟩ := h p (hs.logFile ▸ hp)
  exact ⟨hs.tree.grows.find?_directory hparent, hs.tree.read hread⟩

namespace Build

variable {α : Type} {p : Path}

theorem persists_change {f : FileTree → Except Fault FileTree}
    (h : ∀ t t', f t = .ok t' → t.Persists t') : Within Session.Persists (change f) := by
  intro s
  rw [run_change]
  split
  · rename_i hf
    exact ⟨rfl, h _ _ hf⟩
  · exact Std.Refl.refl s

theorem persists_makeDirectories (p : Path) : Within Session.Persists (makeDirectories p) := by
  intro s
  rw [run_makeDirectories]
  exact ⟨rfl, FileTree.persists_makeDirectories ..⟩

theorem persists_log (message : String) : Within Session.Persists (log message) := by
  intro s
  rw [log]
  refine run_bind_elim (fun _ _ hget => by cases hget) fun s₀ s₁ hget => ?_
  obtain ⟨rfl, rfl⟩ := yields_get.1 hget
  have hprint : Within Session.Persists (print s!"[{s₁.clock}] {message}") :=
    fun _ => ⟨rfl, .refl _⟩
  refine hprint.bind (fun _ => ?_) s₁
  cases s₁.logFile with
  | none => exact within_pure _
  | some file =>
    exact (persists_makeDirectories _).bind fun _ =>
      persists_change fun _ _ hwrite => FileTree.persists_write hwrite

theorem persists_start (call : Host.Call) : Within Session.Persists (start call) := by
  intro s
  rw [state_start]
  exact ⟨rfl, FileTree.persists_apply ..⟩

theorem persists_attempt (call : Host.Call) : Within Session.Persists (attempt call) := by
  refine (persists_start call).tryCatch fun failure => ?_
  cases failure.refusal? with
  | some text => exact within_pure _
  | none => exact within_throw _

/-- A program that has to end well takes nothing away, whether or not it does. -/
theorem persists_runProgram (step : String) (target : Option String) (call : Host.Call) :
    Within Session.Persists (runProgram step target call) := by
  refine (persists_log _).bind fun _ => (persists_attempt call).bind fun answer => ?_
  cases answer with
  | notStarted missing label text => exact (persists_log _).bind fun _ => within_throw _
  | ended code printed errors files =>
    simp only
    split
    · exact (persists_log _).bind fun _ => within_throw _
    · exact within_pure _

/-! ### What a program leaves -/

/-- What is known of a program that was started. -/
theorem of_start {call : Host.Call} {answer : Host.Answer} (h : Yields (start call) s answer s') :
    s.answers.headD .silent = answer ∧ (s.tree.apply call.command answer.files).1 = .ok () ∧
      s'.tree = (s.tree.apply call.command answer.files).2 := by
  have hstate := state_start call s
  have hrun : (start call).run.run s = (.ok answer, s') := h
  rw [hrun] at hstate
  have hanswer : s.answers.headD .silent = answer ∧
      (s.tree.apply call.command answer.files).1 = .ok () := by
    rw [start, run_bind_ok _ (rfl : (get : Build Session).run.run s = (.ok s, s))] at hrun
    cases hhead : s.answers.headD .silent with
    | notStarted missing label text =>
      rw [hhead] at hrun
      cases hrun
      exact ⟨rfl, rfl⟩
    | ended code printed errors files =>
      simp only [hhead] at hrun
      cases happly : s.tree.apply call.command files with
      | mk result tree =>
        rw [happly] at hrun
        cases result with
        | error fault => cases hrun
        | ok _ =>
          cases hrun
          exact ⟨rfl, congrArg Prod.fst happly⟩
  obtain ⟨rfl, happly⟩ := hanswer
  exact ⟨rfl, happly, congrArg Session.tree hstate⟩

/-- A program that has ended was started. -/
theorem start_of_attempt {call : Host.Call} {code : Int} {printed errors : String}
    {files : List (Host.Output × Host.Node)}
    (h : Yields (attempt call) s (.ended code printed errors files) s') :
    Yields (start call) s (.ended code printed errors files) s' := by
  rw [attempt] at h
  refine (yields_tryCatch fun failure s₁ hhandler => ?_).1 h
  split at hhandler
  · obtain ⟨hanswer, -⟩ := yields_pure.1 hhandler
    cases hanswer
  · exact not_yields_throw hhandler

/-- A program that has ended well leaves at a place what the last of its files there holds, or what
was there before. -/
theorem of_runProgram {step : String} {target : Option String} {call : Host.Call} {u : Unit}
    {place : List String} (havoids : s.LogAvoids place)
    (h : Yields (runProgram step target call) s u s') :
    ∃ printed errors files, s.answers.headD .silent = .ended 0 printed errors files ∧
      s'.tree.content? place =
        (Host.written s.tree.current call.command place files).or (s.tree.content? place) := by
  obtain ⟨_, s₁, hlog, h⟩ := yields_bind.1 h
  obtain ⟨answer, s₂, hattempt, h⟩ := yields_bind.1 h
  have hguards : s.Guards place ∅ s₁ := (guards_log _).of_run hlog
  obtain ⟨-, hanswers, htree⟩ := hguards havoids
  cases answer with
  | notStarted missing label text =>
    obtain ⟨_, _, -, hthrow⟩ := yields_bind.1 h
    exact absurd hthrow not_yields_throw
  | ended code printed errors files =>
    obtain ⟨hanswer, happly, hstate⟩ := of_start (start_of_attempt hattempt)
    simp only at h
    split at h
    · obtain ⟨_, _, -, hthrow⟩ := yields_bind.1 h
      exact absurd hthrow not_yields_throw
    · rename_i hcode
      obtain ⟨-, rfl⟩ := yields_pure.1 h
      rw [not_not] at hcode
      refine ⟨printed, errors, files, by rw [← hanswers, hanswer, hcode], ?_⟩
      rw [hstate, FileTree.content?_apply happly, htree.current,
        htree.content?_eq]
      rfl

/-! ### The steps of a replacement -/

variable {dest : Path} {fill : Path → Build Unit} {result : Except Failure Unit}

/-- After a failure a temporary file is removed if it is there, and the failure remains. -/
theorem discard_cases {temporary : Path} {failure : Failure}
    (hrun : (do
      if ← ask (·.has temporary) then change (·.remove temporary)
      throw failure : Build Unit).run.run s = (result, t)) :
    ∃ e, result = .error e ∧ ((s.tree.has temporary = false ∧ t = s) ∨
      (∃ fault, s.tree.remove temporary = .error fault ∧ t = s) ∨
      ∃ tree, s.tree.remove temporary = .ok tree ∧ t = { s with tree }) := by
  have hask : (ask (·.has temporary)).run.run s = (.ok (s.tree.has temporary), s) := rfl
  rw [run_bind_ok _ hask] at hrun
  cases hhas : s.tree.has temporary with
  | false =>
    rw [hhas] at hrun
    cases hrun
    exact ⟨_, rfl, .inl ⟨rfl, rfl⟩⟩
  | true =>
    rw [hhas] at hrun
    simp only [if_true] at hrun
    rw [run_change_bind] at hrun
    cases hremove : s.tree.remove temporary with
    | error fault =>
      rw [hremove] at hrun
      cases hrun
      exact ⟨_, rfl, .inr (.inl ⟨fault, rfl, rfl⟩)⟩
    | ok tree =>
      rw [hremove] at hrun
      cases hrun
      exact ⟨_, rfl, .inr (.inr ⟨tree, rfl, rfl⟩)⟩

/-- A replacement fails before there is a temporary file, and has made directories then, or fills
one. If that goes well and the file can be renamed, it is. If not, it is removed if it is there. -/
theorem replaceFile_cases {temporary : Path}
    (htemporary : temporary = temporaryPath dest s.tree.current)
    (hrun : (replaceFile dest fill).run.run s = (result, t)) :
    (∃ e, result = .error e ∧ t = { s with tree := (s.tree.makeDirectories dest.parent).2 }) ∨
      ∃ above made filled s', s.tree.makeDirectories dest.parent = (.ok (), above) ∧
        above.create temporary = .ok made ∧
        (fill temporary).run.run { s with tree := made } = (filled, s') ∧
        ((filled = .ok () ∧ result = .ok () ∧
            ∃ tree, s'.tree.rename temporary dest = .ok tree ∧ t = { s' with tree }) ∨
          ∃ e, result = .error e ∧ ((s'.tree.has temporary = false ∧ t = s') ∨
            (∃ fault, s'.tree.remove temporary = .error fault ∧ t = s') ∨
            ∃ tree, s'.tree.remove temporary = .ok tree ∧ t = { s' with tree })) := by
  have hmake := run_makeDirectories dest.parent s
  have hcurrent := (FileTree.persists_makeDirectories s.tree dest.parent).current
  rw [replaceFile] at hrun
  cases habove : s.tree.makeDirectories dest.parent with
  | mk outcome above =>
    rw [habove] at hmake hcurrent
    cases outcome with
    | error fault =>
      rw [run_bind_error _ hmake] at hrun
      cases hrun
      exact .inl ⟨_, rfl, rfl⟩
    | ok _ =>
      have hget : ∀ u : Session, (get : Build Session).run.run u = (.ok u, u) := fun _ => rfl
      have hpath : temporaryPath dest above.current = temporary :=
        htemporary ▸ congrArg (temporaryPath dest) hcurrent
      rw [run_bind_ok _ hmake, run_bind_ok _ (hget _)] at hrun
      simp only [hpath] at hrun
      rw [run_change_bind] at hrun
      cases hcreate : above.create temporary with
      | error fault =>
        simp only [hcreate] at hrun
        cases hrun
        exact .inl ⟨_, rfl, rfl⟩
      | ok made =>
        simp only [hcreate] at hrun
        cases hfill : (fill temporary).run.run { s with tree := made } with
        | mk filled s' =>
          refine .inr ⟨above, made, filled, s', rfl, hcreate, hfill, ?_⟩
          cases filled with
          | error failure =>
            rw [run_tryCatch_error _ (run_bind_error _ hfill)] at hrun
            exact .inr (discard_cases hrun)
          | ok _ =>
            have hrename := (run_bind_ok (fun _ => change (·.rename temporary dest)) hfill).trans
              (run_change _ s')
            cases hmoved : s'.tree.rename temporary dest with
            | error fault =>
              rw [hmoved] at hrename
              rw [run_tryCatch_error _ hrename] at hrun
              exact .inr (discard_cases hrun)
            | ok tree =>
              rw [hmoved] at hrename
              rw [run_tryCatch_ok _ hrename] at hrun
              cases hrun
              exact .inl ⟨rfl, rfl, tree, rfl, rfl⟩

end Build

/-! ### What a replacement leaves -/

namespace Host.FileTree

variable {t t' : FileTree} {p source dest : Path} {c : Content}

theorem has_of_read (hread : t.read p = .ok c) : t.has p = true := by
  obtain ⟨place, hplace, hc⟩ := read_eq_ok.1 hread
  obtain ⟨executable, hnode⟩ := content?_eq_some.1 hc
  rw [has, find?, hplace]
  simp only [hnode, Option.isSome_some]

/-- A file that can be read can be removed. -/
theorem exists_remove_of_read (hread : t.read p = .ok c) : ∃ t', t.remove p = .ok t' := by
  obtain ⟨place, hplace, hc⟩ := read_eq_ok.1 hread
  obtain ⟨executable, hnode⟩ := content?_eq_some.1 hc
  rw [remove, hplace]
  simp only [bind, Except.bind, hnode]
  exact ⟨_, rfl⟩

/-- A path that a file can be given ends in a name. -/
theorem exists_getLast?_of_rename (hrename : t.rename source dest = .ok t') :
    ∃ name, dest.names.getLast? = some name ∧ name ≠ ".." := by
  have hname : ¬ (dest.names = [] ∨ dest.name = "..") := by
    intro hbusy
    rw [rename, locate_bind_eq_ok] at hrename
    obtain ⟨start, -, hrename⟩ := hrename
    rw [if_pos hbusy] at hrename
    cases hrename
  rw [not_or] at hname
  cases hlast : dest.names.getLast? with
  | none => exact absurd (List.getLast?_eq_none_iff.1 hlast) hname.1
  | some name =>
    refine ⟨name, rfl, fun hup => hname.2 ?_⟩
    rw [Path.name, hlast, hup]
    rfl

end Host.FileTree

/-- The place of the temporary file that is made for another one. -/
def temporaryPlace (dest : Path) (current : List String) : List String :=
  (Build.temporaryPath dest current).place current

/-- A file was exchanged for one of the contents `new`, or was not touched. The temporary file is
gone either way, and at the places `spared` nothing has changed. Directories are still there, and a
log file that is neither of the two is. -/
structure Session.Exchanges {α : Type} (dest : Path) (new : Set Content)
    (spared : Set (List String)) (s : Session) (result : Except Failure α) (t : Session) :
    Prop where
  current : t.tree.current = s.tree.current
  directory : ∀ place, s.tree.node? place = some .directory → t.tree.node? place = some .directory
  temporary : t.tree.content? (temporaryPlace dest s.tree.current) =
    s.tree.content? (temporaryPlace dest s.tree.current)
  other : ∀ place ∈ spared, place ≠ dest.place s.tree.current →
    t.tree.content? place = s.tree.content? place
  stored : ∀ a, result = .ok a → ∃ c ∈ new, t.tree.read dest = .ok c
  kept : ∀ e, result = .error e → t.tree.fileAt? dest = s.tree.fileAt? dest
  logFile : t.logFile = s.logFile
  canLog : s.CanLog → (∀ p ∈ s.logFile, p.place s.tree.current ≠ dest.place s.tree.current ∧
    p.place s.tree.current ≠ temporaryPlace dest s.tree.current) → t.CanLog

/-- What is done to fill a temporary file takes nothing away, changes nothing at the places `spared`
but the temporary file, and leaves one of the contents `new` there if it goes well. -/
structure Session.Fills {α : Type} (temporary : Path) (new : Set Content)
    (spared : Set (List String)) (s : Session) (filled : Except Failure α) (s' : Session) :
    Prop where
  persists : s.Persists s'
  other : ∀ place ∈ spared, place ≠ temporary.place s.tree.current →
    s'.tree.content? place = s.tree.content? place
  stored : ∀ a, filled = .ok a → ∃ c ∈ new, s'.tree.read temporary = .ok c

/-! ### Filling a temporary file -/

section

variable {α : Type} {temporary : Path} {new : Set Content} {spared : Set (List String)}

/-- A failure that has filled nothing. -/
theorem Session.Fills.of_error (e : Failure) :
    s.Fills temporary new spared (.error e : Except Failure α) s :=
  ⟨Std.Refl.refl s, fun _ _ _ => rfl, nofun⟩

/-- A temporary file that is written is filled. -/
theorem Build.fills_write {c : Content} {filled : Except Failure Unit}
    (hc : c ∈ new) (hrun : (Build.change (·.write temporary c)).run.run s = (filled, s')) :
    s.Fills temporary new spared filled s' := by
  rw [Build.run_change] at hrun
  cases hwrite : s.tree.write temporary c with
  | error fault =>
    rw [hwrite] at hrun
    cases hrun
    exact .of_error _
  | ok tree =>
    rw [hwrite] at hrun
    cases hrun
    refine ⟨⟨rfl, FileTree.persists_write hwrite⟩, fun place _ hne => ?_, fun _ _ =>
      ⟨c, hc, FileTree.read_of_write hwrite⟩⟩
    have hguards : s.tree.Guards place ∅ tree := FileTree.guards_write hwrite (.inl hne.symm)
    exact hguards.content?_eq

theorem Session.nextSpares_append {words place : List String} {word : String} :
    s.NextSpares (words ++ [word]) place ↔ s.NextSpares [word] place := by
  simp only [NextSpares, Host.Output.target_append]

/-- An empty temporary file is filled by a program that is told of it by the last word of its
command, if the program ends well. -/
theorem Build.fills_runProgram {step word : String} (words : List String)
    {call : Host.Call} {filled : Except Failure Unit} (hcommand : call.command = words ++ [word])
    (hempty : s.tree.read temporary = .ok Content.empty)
    (htemporary : s.LogAvoids (temporary.place s.tree.current))
    (hspared : ∀ place ∈ spared, s.LogAvoids place ∧ s.NextSpares [word] place)
    (hnew : ∀ printed errors files, s.answers.headD .silent = .ended 0 printed errors files →
      (Host.written s.tree.current [word] (temporary.place s.tree.current) files).getD
        Content.empty ∈ new)
    (hrun : (Build.runProgram step none call).run.run s = (filled, s')) :
    s.Fills temporary new spared filled s' := by
  have hpersists : s.Persists s' := (Build.persists_runProgram step none call).of_run hrun
  refine ⟨hpersists, fun place hplace _ => ?_, fun _ hfilled => ?_⟩
  · obtain ⟨havoids, hnext⟩ := hspared place hplace
    have hleaves : s.Leaves place ∅ ((Build.runProgram step none call).run.run s).2 :=
      Build.leaves_runProgram havoids (hcommand ▸ Session.nextSpares_append.2 hnext)
    rw [hrun] at hleaves
    exact hleaves.tree.content?_eq
  · subst hfilled
    obtain ⟨printed, errors, files, hanswer, hcontent⟩ := Build.of_runProgram htemporary hrun
    obtain ⟨c, hread⟩ := hpersists.tree.read hempty
    have hbefore := FileTree.fileAt?_of_read hempty
    have hafter := FileTree.fileAt?_of_read hread
    rw [FileTree.fileAt?] at hbefore hafter
    rw [hpersists.tree.current, hcontent, hbefore, hcommand, Host.written_append] at hafter
    refine ⟨c, ?_, hread⟩
    have hc : (Host.written s.tree.current [word] (temporary.place s.tree.current) files).getD
        Content.empty = c := by
      cases hwritten : Host.written s.tree.current [word] (temporary.place s.tree.current) files <;>
        simpa [hwritten] using hafter
    exact hc ▸ hnew printed errors files hanswer

end

/-! ### What a replacement exchanges -/

namespace Build

variable {dest : Path} {fill : Path → Build Unit} {result : Except Failure Unit}
  {new : Set Content} {spared : Set (List String)} {tree : FileTree} {c : Content}

/-- A temporary file that was filled has become the file. -/
theorem exchanges_of_rename (hpersists : s.Persists s')
    (hempty : s.tree.content? (temporaryPlace dest s.tree.current) = none)
    (hkept : ∀ place ∈ spared, place ≠ temporaryPlace dest s.tree.current →
      s'.tree.content? place = s.tree.content? place)
    (hread : s'.tree.read (temporaryPath dest s.tree.current) = .ok c) (hc : c ∈ new)
    (hrename : s'.tree.rename (temporaryPath dest s.tree.current) dest = .ok tree) :
    s.Exchanges dest new spared (.ok () : Except Failure Unit) { s' with tree } := by
  have hcurrent := hpersists.tree.current
  obtain ⟨start, goal, executable, hstart, hnode, hgoal, hfree, hsame, hmoved⟩ :=
    FileTree.of_rename hrename hread
  have hgrows := FileTree.grows_of_moved hsame hnode hfree hmoved
  have hstart : start = temporaryPlace dest s.tree.current := by
    rw [FileTree.place_of_locate hstart, hcurrent, temporaryPlace]
  have hgoal : goal = dest.place s.tree.current := by
    rw [FileTree.place_of_locate hgoal, hcurrent]
  subst hstart hgoal
  obtain ⟨name, hname, hup⟩ := FileTree.exists_getLast?_of_rename hrename
  have hapart : dest.place s.tree.current ≠ temporaryPlace dest s.tree.current :=
    (avoids_temporaryPath (getLast?_place_ne hname hup _) _ _).symm
  have hgone : tree.content? (temporaryPlace dest s.tree.current) = none := by
    rw [FileTree.content?, hmoved, if_neg hapart, if_pos rfl]
  refine ⟨hsame.trans hcurrent, fun place hd => hgrows.directory place
    (hpersists.tree.directory place hd), hgone.trans hempty.symm, fun place hspared hne => ?_,
    fun _ _ => ⟨c, hc, FileTree.read_of_rename hrename hread⟩, by rintro _ ⟨⟩, hpersists.logFile,
    fun hcan haway => ?_⟩
  · by_cases htemporary : place = temporaryPlace dest s.tree.current
    · rw [htemporary, hgone, hempty]
    · rw [FileTree.content?, hmoved, if_neg hne.symm, if_neg (Ne.symm htemporary)]
      exact hkept place hspared htemporary
  · refine (hcan.of_persists hpersists).of_grows rfl hgrows fun p hp => ?_
    obtain ⟨hdest, htemporary⟩ := haway p (hpersists.logFile ▸ hp)
    rw [hcurrent, Set.mem_insert_iff, Set.mem_singleton_iff, not_or]
    exact ⟨htemporary, hdest⟩

/-- A temporary file was removed. -/
theorem exchanges_of_remove (hpersists : s.Persists s') (hdest : dest.place s.tree.current ∈ spared)
    (hempty : s.tree.content? (temporaryPlace dest s.tree.current) = none)
    (hkept : ∀ place ∈ spared, place ≠ temporaryPlace dest s.tree.current →
      s'.tree.content? place = s.tree.content? place)
    (hremove : s'.tree.remove (temporaryPath dest s.tree.current) = .ok tree) (e : Failure) :
    s.Exchanges dest new spared (.error e : Except Failure Unit) { s' with tree } := by
  have hcurrent := hpersists.tree.current
  obtain ⟨start, hstart, hfree, hsame, hremoved⟩ := FileTree.of_remove hremove
  have hstart : start = temporaryPlace dest s.tree.current := by
    rw [FileTree.place_of_locate hstart, hcurrent, temporaryPlace]
  subst hstart
  have hgone : tree.content? (temporaryPlace dest s.tree.current) = none := by
    rw [FileTree.content?, hremoved, if_pos rfl]
  have hcontent : ∀ place ∈ spared, tree.content? place = s.tree.content? place := by
    intro place hspared
    by_cases htemporary : place = temporaryPlace dest s.tree.current
    · rw [htemporary, hgone, hempty]
    · rw [FileTree.content?, hremoved, if_neg (Ne.symm htemporary)]
      exact hkept place hspared htemporary
  have hgrows : s'.tree.Grows {temporaryPlace dest s.tree.current} none tree := by
    refine ⟨hsame, fun other hd => ?_, fun other hother old hold => ⟨old, ?_, .refl old,
      fun _ => rfl⟩⟩
    · rw [hremoved, if_neg fun heq => hfree (by rw [heq]; exact hd)]
      exact hd
    · rw [FileTree.content?, hremoved, if_neg fun heq => hother heq.symm]
      exact hold
  refine ⟨hsame.trans hcurrent, fun place hd => hgrows.directory place
    (hpersists.tree.directory place hd), hgone.trans hempty.symm, fun place hspared _ =>
    hcontent place hspared, by rintro _ ⟨⟩, fun _ _ => ?_, hpersists.logFile,
    fun hcan haway => ?_⟩
  · rw [FileTree.fileAt?, FileTree.fileAt?, hsame.trans hcurrent]
    exact hcontent _ hdest
  · refine (hcan.of_persists hpersists).of_grows rfl hgrows fun p hp => ?_
    rw [hcurrent]
    exact (haway p (hpersists.logFile ▸ hp)).2

/-- If its temporary file is filled as it should be, a file is exchanged. -/
theorem exchanges_replaceFile (hdest : dest.place s.tree.current ∈ spared)
    (hfill : ∀ made filled s', made.current = s.tree.current →
      (∀ place, place ≠ temporaryPlace dest s.tree.current →
        made.content? place = s.tree.content? place) →
      made.read (temporaryPath dest s.tree.current) = .ok Content.empty →
      (fill (temporaryPath dest s.tree.current)).run.run { s with tree := made } = (filled, s') →
      Session.Fills (temporaryPath dest s.tree.current) new spared { s with tree := made } filled
        s')
    (hrun : (replaceFile dest fill).run.run s = (result, t)) :
    s.Exchanges dest new spared result t := by
  have hsame := fun place =>
    (FileTree.guards_makeDirectories place ∅ s.tree dest.parent).content?_eq
  have hpersists := FileTree.persists_makeDirectories s.tree dest.parent
  rcases replaceFile_cases rfl hrun with ⟨e, rfl, rfl⟩ |
    ⟨above, made, filled, s', habove, hcreate, hfilling, hended⟩
  · refine ⟨hpersists.current, hpersists.directory, hsame _, fun place _ _ => hsame place,
      by rintro _ ⟨⟩, fun _ _ => ?_, rfl,
      fun hcan _ => hcan.of_persists ⟨rfl, hpersists⟩⟩
    rw [FileTree.fileAt?, FileTree.fileAt?, hpersists.current]
    exact hsame _
  rw [habove] at hsame hpersists
  have hpersists := hpersists.trans (FileTree.persists_create hcreate)
  obtain ⟨start, hstart, hnone, hput⟩ := FileTree.create_eq_ok.1 hcreate
  have hplace : start = temporaryPlace dest s.tree.current := by
    rw [FileTree.place_of_locate hstart, temporaryPlace, ← hpersists.current, hput]
    rfl
  subst hplace
  have hempty : s.tree.content? (temporaryPlace dest s.tree.current) = none := by
    rw [← hsame, FileTree.content?, hnone]
  have hmade : ∀ place, place ≠ temporaryPlace dest s.tree.current →
      made.content? place = s.tree.content? place := by
    intro place hne
    rw [hput, FileTree.content?, FileTree.node?_putNode, if_neg hne.symm, ← hsame,
      FileTree.content?]
  have hfills := hfill made filled s' hpersists.current hmade (FileTree.read_of_create hcreate)
    hfilling
  have hpersists' : s.Persists s' :=
    ⟨hfills.persists.logFile, hpersists.trans hfills.persists.tree⟩
  have hkept : ∀ place ∈ spared, place ≠ temporaryPlace dest s.tree.current →
      s'.tree.content? place = s.tree.content? place := fun place hspared hne =>
    (hfills.other place hspared (hpersists.current.symm ▸ hne)).trans (hmade place hne)
  rcases hended with ⟨rfl, rfl, tree, hrename, rfl⟩ | ⟨e, rfl, hended⟩
  · obtain ⟨c, hc, hread⟩ := hfills.stored () rfl
    exact exchanges_of_rename hpersists' hempty hkept hread hc hrename
  · -- The temporary file is there and can be removed.
    obtain ⟨c, hread⟩ := hfills.persists.tree.read (FileTree.read_of_create hcreate)
    obtain ⟨tree, hremove⟩ := FileTree.exists_remove_of_read hread
    rcases hended with ⟨hnot, -⟩ | ⟨fault, hnot, -⟩ | ⟨tree', hremove', rfl⟩
    · cases (FileTree.has_of_read hread).symm.trans hnot
    · cases hremove.symm.trans hnot
    · exact exchanges_of_remove hpersists' hdest hempty hkept hremove' e

end Build

end BootImage
