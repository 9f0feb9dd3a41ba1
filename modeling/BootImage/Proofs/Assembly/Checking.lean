import BootImage.Proofs.Assembly.Accounting
import BootImage.Proofs.Assembly.Guarding
import BootImage.Proofs.Fat.Blaming
import BootImage.Proofs.Fat.Walking
import Mathlib.Data.List.TakeWhile

/-!
# Names that are checked before they are written

The last name of a path is checked before a file is copied, and a file with a name that the image
cannot have is skipped. The check and the write take the path apart in different ways. One leaves
out the slashes at the end and goes back to the last one that is left; the other cuts at slashes and
backslashes, and drops empty names and dots. A name that is valid has none of these, so it is the
same name in the end, and the path is not blamed any more once the check is passed.

The check itself can fail. It encodes the name to measure it, and a name with half of a surrogate
pair in it, as a host has it for a name that is not UTF-8, has no code. Such a name is not skipped:
the copy ends there, and nothing is recorded. So paths are given as code points here. A half on the
way to a valid name does no harm of this kind, since no directory is called so.

## Main definitions

* `Failure.BlamesPath`: a failure that says that a path has no name that can be written.
* `Assembly.State.Skips`: a file was recorded, and nothing was done to the volume.

## Main results

* `Assembly.splitPoints_lastPoints`: a valid last name is the name that is written.
* `Assembly.copyPoints_checked`: what the check of a name is good for, and where it fails.
-/

namespace BootImage

open Host (Path FileTree)
open Fat (Edit)
open Text (CodePoint)

/-- The failure says that a path of the image has no name that can be written. -/
def Failure.BlamesPath (failure : Failure) : Prop :=
  ∃ e : Fat.Error, failure.cause = .image e ∧ e.BlamesPath

theorem Failure.IsFault.not_blamesPath {failure : Failure} (h : failure.IsFault) :
    ¬ failure.BlamesPath := by
  obtain ⟨fault, hfault⟩ := h
  rintro ⟨e, he, -⟩
  cases hfault.symm.trans he

namespace Assembly

/-! ### The last name of a path -/

/-- A path is its last name with slashes behind it, and nothing or a slash in front. -/
theorem exists_eq_lastPoints (path : List CodePoint) : ∃ before slashes : List CodePoint,
    path = before ++ lastPoints path ++ slashes ∧ (∀ p ∈ slashes, p = .char '/') ∧
      (before = [] ∨ ∃ above, before = above ++ [.char '/']) := by
  rw [lastPoints]
  generalize hshown : path.reverse.dropWhile (· = .char '/') = shown
  refine ⟨(shown.dropWhile (· ≠ .char '/')).reverse,
    (path.reverse.takeWhile (· = .char '/')).reverse, ?_, fun p hp => ?_, ?_⟩
  · rw [← List.reverse_append, List.takeWhile_append_dropWhile, ← List.reverse_append,
      ← hshown, List.takeWhile_append_dropWhile, List.reverse_reverse]
  · simpa using List.mem_takeWhile_imp (List.mem_reverse.1 hp)
  · cases hrest : shown.dropWhile (· ≠ .char '/') with
    | nil => exact .inl rfl
    | cons p rest =>
      have hp := List.head?_dropWhile_not (fun x : CodePoint => decide (x ≠ .char '/')) shown
      rw [hrest] at hp
      obtain rfl : p = .char '/' := by simpa using hp
      exact .inr ⟨rest.reverse, by rw [List.reverse_cons]⟩

/-- There is no name in slashes. -/
theorem splitPoints_slashes {slashes : List CodePoint} (h : ∀ p ∈ slashes, p = .char '/') :
    Fat.splitPoints slashes = [] := by
  induction slashes with
  | nil => rfl
  | cons p slashes ih =>
    rw [List.forall_mem_cons] at h
    rw [h.1, ← List.nil_append (.char '/' :: slashes), Fat.splitPoints_append, ih h.2]
    rfl

/-- A valid last name is the last of the names that a path is split into. -/
theorem splitPoints_lastPoints {path : List CodePoint} {name : String}
    (hlast : lastPoints path = Text.points name) (h : Fat.isValidName name = true) :
    (Fat.splitPoints path).getLast? = some (Text.points name) := by
  obtain ⟨before, slashes, hpath, hslashes, hbefore⟩ := exists_eq_lastPoints path
  rw [hlast] at hpath
  have hname : Fat.splitPoints (Text.points name) = [Text.points name] := by
    rw [Fat.splitPoints_points, Fat.splitPath_name (Fat.isPathName_of_isValidName h),
      List.map_singleton]
  have hend : Fat.splitPoints (Text.points name ++ slashes) = [Text.points name] := by
    cases slashes with
    | nil => rw [List.append_nil, hname]
    | cons p slashes =>
      rw [List.forall_mem_cons] at hslashes
      rw [hslashes.1, Fat.splitPoints_append, hname, splitPoints_slashes hslashes.2]
      rfl
  rw [hpath, List.append_assoc]
  rcases hbefore with rfl | ⟨above, rfl⟩
  · rw [List.nil_append, hend]
    rfl
  · rw [List.append_assoc, List.singleton_append, Fat.splitPoints_append, hend,
      List.getLast?_append_of_ne_nil _ (List.cons_ne_nil _ _)]
    rfl

/-! ### Copying a file -/

/-- A step of the session alone that fails only by faults does not blame a path. -/
theorem failsAs_session {α : Type} {b : Build α} (hb : FailsAs Failure.IsFault b) :
    FailsAs (fun failure => ¬ failure.BlamesPath) (session b) :=
  fun s => (hb.mono fun _ => Failure.IsFault.not_blamesPath) s.session

/-- A change of the image blames a path only if the change of the volume does. -/
theorem failsAs_edit {α : Type} (v : Fat.Volume) {change : Edit α} (h : Edit.SparesPath change) :
    FailsAs (fun failure => ¬ failure.BlamesPath) (edit v change) := by
  intro s
  rw [run_edit]
  split
  · rintro ⟨e, ⟨⟩, -⟩
  · split
    · rintro ⟨e, ⟨⟩, -⟩
    · rename_i content _ _ _ _
      have hspares : Ends _ _ (change.on ⟨v, content⟩).1 := h ⟨v, content⟩
      revert hspares
      cases (change.on ⟨v, content⟩).1 with
      | ok a => exact fun _ => trivial
      | error e =>
        rintro hspares ⟨_, ⟨⟩, hblames⟩
        exact hspares hblames

/-- A file was recorded as missing, and a line was logged. Nothing was done to the volume, and no
file was written but that of the log. -/
structure State.Skips (s : State) (m : MissingEntry) (outcome : Except Failure Bool × State) :
    Prop where
  assembler : outcome.2.assembler = { s.assembler with
    report := { s.assembler.report with missing := s.assembler.report.missing ++ [m] } }
  logged : ∃ message, outcome.1 = ((Build.log message).run.run s.session).1.map fun _ => false
  kept : ∀ place, s.session.LogAvoids place →
    outcome.2.session.tree.content? place = s.session.tree.content? place

theorem skips_of_run (s : State) (m : MissingEntry) (message : String) : s.Skips m ((do
      recordMissing m
      session (Build.log message)
      return false : Assembly Bool).run.run s) := by
  have hrun : ∀ result t, (Build.log message).run.run s.session = (result, t) → (do
      recordMissing m
      session (Build.log message)
      return false : Assembly Bool).run.run s = (result.map fun _ => false, { s with
        assembler := { s.assembler with report :=
          { s.assembler.report with missing := s.assembler.report.missing ++ [m] } }
        session := t }) := by
    intro result t hlog
    refine (run_bind_ok _ rfl).trans ?_
    have hsession := run_session (Build.log message) { s with assembler := { s.assembler with
      report := { s.assembler.report with missing := s.assembler.report.missing ++ [m] } } }
    rw [hlog] at hsession
    cases result with
    | error e => exact run_bind_error _ hsession
    | ok u => exact run_bind_ok _ hsession
  rw [hrun _ _ rfl]
  exact ⟨rfl, ⟨message, rfl⟩, fun place havoids =>
    (Build.guards_log message s.session havoids).2.2.content?_eq⟩

/-- The volume that is asked for is open then, and nothing else is different. -/
theorem assembler_of_openVolume {s s₁ : State} {v : Fat.Volume} (h : Yields openVolume s v s₁) :
    s₁.assembler = { s.assembler with volume := some v } := by
  have hrun := run_openVolume s
  rw [h] at hrun
  split at hrun
  · cases hrun
  · split at hrun
    · rename_i hvolume
      cases hrun
      rw [← hvolume]
    · split at hrun
      · cases hrun
      · split at hrun
        · cases hrun
        · cases hrun
          rfl

theorem failsAs_skipped (m : MissingEntry) (message : String) :
    FailsAs (fun failure => ¬ failure.BlamesPath) (do
      recordMissing m
      session (Build.log message)
      return false) :=
  FailsAs.bind (failsAs_modify _) fun _ => (failsAs_session (Build.failsAs_log _)).bind fun _ =>
    failsAs_pure _

/-- A file whose last name is valid is written, and the path is not blamed. -/
theorem failsAs_written {source : Path} {path : List CodePoint} {name : String}
    (hlast : lastPoints path = Text.points name) (hname : Fat.isValidName name = true)
    (v : Fat.Volume) (dest : String) :
    FailsAs (fun failure => ¬ failure.BlamesPath) (do
      let content ← session (Build.query (·.read source))
      edit v (Edit.writePoints path content)
      update fun a =>
        { a with report := { a.report with copied := a.report.copied ++ [⟨source, dest⟩] } }
      session (Build.log s!"  ✓ {source.name} → ::{dest}")
      return true) := by
  have hsplit := splitPoints_lastPoints hlast hname
  refine (failsAs_session (Build.failsAs_query _)).bind fun content => ?_
  refine (failsAs_edit v (Edit.sparesPath_writePoints hsplit hname content)).bind fun _ => ?_
  refine FailsAs.bind (failsAs_modify _) fun _ => ?_
  exact (failsAs_session (Build.failsAs_log _)).bind fun _ => failsAs_pure _

/-- A name with half of a surrogate pair in it cannot be checked. -/
theorem checkName_of_half {name : List CodePoint} {distance : Fin 0x800}
    (h : .half distance ∈ name) : Fat.checkName name = .error .notEncodable := by
  have hnone := Text.ofPoints?_eq_none_iff.2 ⟨distance, h⟩
  rw [Fat.checkName, hnone, if_neg]
  intro hdots
  obtain ⟨dots, -, rfl⟩ := List.mem_map.1 hdots
  cases hnone.symm.trans (Text.ofPoints?_points dots)

/-- A file that is there is copied to a path that need not be text. If there is half of a surrogate
pair in the last name, the copy fails, and nothing is recorded or done to the volume. If there is
none, the path is not blamed, and the file is recorded as one that the image cannot have, or the
name that was checked is the one that is written and can be encoded. -/
theorem copyPoints_checked {s s₁ : State} {v : Fat.Volume} {source : Path} (path : List CodePoint)
    (hopen : Yields openVolume s v s₁) (hfile : s.session.tree.isFile source = .ok true) :
    s₁.assembler = { s.assembler with volume := some v } ∧ s₁.session = s.session ∧
      ((∃ distance, .half distance ∈ lastPoints path) →
        (copyPoints source path).run.run s = (.error ⟨.image .notEncodable, none⟩, s₁)) ∧
      ∀ name, lastPoints path = Text.points name →
        (∀ failure s', (copyPoints source path).run.run s = (.error failure, s') →
          ¬ failure.BlamesPath) ∧
        ((Fat.isValidName name = false ∧
            s₁.Skips (.ofPath source (Text.shownPoints path) "name not representable on FAT")
              ((copyPoints source path).run.run s)) ∨
          (Fat.isValidName name = true ∧
            (Fat.splitPoints path).getLast? = some (Text.points name) ∧
            (∀ dest, path = Text.points dest → (Fat.splitPath dest).getLast? = some name) ∧
            ∀ taken attributes cluster size,
              Ends (Fat.Error.LacksRoom name) (fun _ => True)
                (Fat.encodeEntry name taken attributes cluster size))) := by
  have hsession := session_openVolume hopen
  have hquery : (session (Build.isFile source)).run.run s₁ = (.ok true, s₁) := by
    have hrun := run_query (·.isFile source) s₁
    rw [hsession, hfile] at hrun
    exact hrun
  rw [copyPoints, run_bind_ok _ hopen, run_bind_ok _ hquery]
  refine ⟨assembler_of_openVolume hopen, hsession, ?_, fun name hlast => ?_⟩
  · rintro ⟨distance, hhalf⟩
    rw [checkName_of_half hhalf]
    rfl
  · rw [hlast, Fat.checkName_points, session_ofExcept_ok, pure_bind]
    cases hname : Fat.isValidName name with
    | false =>
      have hskips := skips_of_run s₁
        (.ofPath source (Text.shownPoints path) "name not representable on FAT")
        s!"[WARN]  {source.name} — name not representable on FAT, skipped"
      exact ⟨fun failure s' hrun => (failsAs_skipped _ _).of_run hrun, .inl ⟨rfl, hskips⟩⟩
    | true =>
      have hsplit := splitPoints_lastPoints hlast hname
      refine ⟨fun failure s' hrun => (failsAs_written hlast hname v _).of_run hrun,
        .inr ⟨rfl, hsplit, ?_, fun taken attributes cluster size =>
          Fat.ends_encodeEntry hname taken attributes cluster size⟩⟩
      rintro dest rfl
      rw [Fat.splitPoints_points, List.getLast?_map, Option.map_eq_some_iff] at hsplit
      obtain ⟨last, hend, hsame⟩ := hsplit
      rw [hend, Text.points_inj.1 hsame]

/-- Slashes at the end are left out, and a backslash is not. A name that ends in a byte which is not
UTF-8 is not skipped. -/
theorem exists_copyPoints_checked : ∃ (s : State) (v : Fat.Volume) (source : Path),
    Yields openVolume s v s ∧ s.session.tree.isFile source = .ok true ∧
    (Fat.splitPath "bin//sh//").getLast? = some "sh" ∧
    s.Skips (.ofPath source "bin\\sh" "name not representable on FAT")
      ((copyPoints source (Text.points "bin\\sh")).run.run s) ∧
    (copyPoints source (Text.points "/caf" ++ [.half 0x4E9])).run.run s =
      (.error ⟨.image .notEncodable, none⟩, s) := by
  obtain ⟨s, hvolume, hsealed, htree⟩ : ∃ s : State,
      s.assembler.volume = some { Fat.Disk.circleVolume with readOnly := false } ∧
      s.assembler.sealed = false ∧
      s.session.tree = (FileTree.empty []).put ["sh"] .empty :=
    ⟨{ assembler := { image := ⟨"", ["fs.img"]⟩
                      volume := some { Fat.Disk.circleVolume with readOnly := false } }
       session := { tree := (FileTree.empty []).put ["sh"] .empty
                    clock := ""
                    searchPath := "" } },
      rfl, rfl, rfl⟩
  have hopen : Yields openVolume s { Fat.Disk.circleVolume with readOnly := false } s := by
    rw [Yields, run_openVolume, hsealed, hvolume]
    rfl
  have hfile : s.session.tree.isFile ⟨"", ["sh"]⟩ = .ok true := by
    rw [htree]
    rfl
  have hlast : ∀ path, lastPoints (Text.points path) = Text.points (lastName path) :=
    lastPoints_points
  obtain ⟨-, -, -, hwritten⟩ := copyPoints_checked (Text.points "bin//sh//") hopen hfile
  obtain ⟨-, -, -, hskipped⟩ := copyPoints_checked (Text.points "bin\\sh") hopen hfile
  obtain ⟨-, -, hhalf, -⟩ :=
    copyPoints_checked (Text.points "/caf" ++ [.half 0x4E9]) hopen hfile
  have hname : Fat.isValidName (lastName "bin//sh//") = true := by decide
  have hbad : Fat.isValidName (lastName "bin\\sh") = false := by decide
  rcases (hwritten _ (hlast _)).2 with ⟨hinvalid, -⟩ | ⟨-, -, hlastName, -⟩
  · cases hname.symm.trans hinvalid
  rcases (hskipped _ (hlast _)).2 with ⟨-, hskips⟩ | ⟨hvalid, -⟩
  · rw [Text.shownPoints_points] at hskips
    exact ⟨s, _, _, hopen, hfile, hlastName _ rfl, hskips, hhalf ⟨0x4E9, by decide⟩⟩
  · cases hbad.symm.trans hvalid

end Assembly

end BootImage
