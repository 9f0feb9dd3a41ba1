import BootImage.Proofs.Assembly.Accounting
import BootImage.Proofs.Assembly.Logging
import BootImage.Proofs.Fat.Leaving

/-!
# Assemblies and the volumes they fill

Once an image is formatted, all that an assembly does is decided by the calls that it makes on the
volume. A directory that is made is one call, and so is a file that is copied; a file that is
skipped is none. Nothing else matters: what is logged goes to a file of its own, and the files of
the host are what they were, for only the image and the log file are ever written.

So an assembly is followed by the disk that its volume and its image make up. A step gives what its
call gives on that disk, the failure if it is one, and the disk after the step is the one after the
call. This is an equation for each step, and it is read in both directions: from a run to the calls
that it made, and from calls that succeed to a run that makes them.

It takes that the log file is another file than the image. If it is the image, every line is put at
its end; the volume is sound all the same, which is why the disk that is followed is kept in any
case.

## Main definitions

* `BinaryEntry.call`: the call that copies a file.
* `Assembly.State.Tracks`: an assembly that is followed by a disk.
* `Assembly.State.Filled`: directories that were made and files that were copied.

## Main results

* `Assembly.State.Tracks.makeDirectory`, `Assembly.State.Tracks.copyFile`: single steps.
* `Assembly.State.Filled.directories`, `Assembly.State.Filled.copies`: from runs to calls.
* `Assembly.State.Tracks.exists_directories`, `Assembly.State.Tracks.exists_copies`: from calls to
  runs.
-/

namespace BootImage

open Host (Path FileTree)
open Fat (Disk Edit)

/-! ### Calls -/

/-- The call that copies a file of the host. -/
def BinaryEntry.call (tree : FileTree) (e : BinaryEntry) : Fat.Call :=
  match tree.read e.source with
  | .ok content => .writeFile e.dest content content.size
  | .error _ => .writeFile e.dest .empty 0

/-- A file is at none of some places. -/
def BinaryEntry.Avoids (tree : FileTree) (away : Set (List String)) (e : BinaryEntry) : Prop :=
  ∀ place ∈ away, tree.locate e.source ≠ .ok place

namespace BinaryEntry

variable {tree tree' : FileTree} {away : Set (List String)} {e : BinaryEntry} {content : Content}

theorem call_of_read (h : tree.read e.source = .ok content) :
    e.call tree = .writeFile e.dest content content.size := by
  rw [call, h]

theorem supplied_call (tree : FileTree) (e : BinaryEntry) : (e.call tree).Supplied := by
  rw [call]
  split
  · rw [Fat.Call.supplied_iff]
    omega
  · rw [Fat.Call.supplied_iff]
    simp

theorem call_congr (h : tree.Like away tree') (havoids : e.Avoids tree away) :
    e.call tree = e.call tree' := by
  rw [call, call, h.read havoids]

theorem isFile_of_canCopy (h : e.canCopy tree = true) : tree.isFile e.source = .ok true :=
  of_decide_eq_true ((Bool.and_eq_true _ _).mp h).1

theorem canCopy_congr (h : tree.Like away tree') (e : BinaryEntry) :
    e.canCopy tree = e.canCopy tree' := by
  rw [canCopy, canCopy, isThere, isThere, h.isFile]

end BinaryEntry

namespace Assembly

/-- An assembly that is followed by a disk, in a session that is alike the one in which it was
formatted: only the image and the log file have been written since. -/
structure State.Tracks (s : State) (t : Session) (place : List String) (d : Disk) : Prop where
  carries : s.Carries place d
  live : d.Live
  like : t.Like (insert place t.logPlaces) s.session
  canLog : s.session.CanLog

namespace State.Tracks

variable {α : Type} {s s' : State} {t : Session} {place : List String} {d d' : Disk} {u : Unit}

/-! ### Steps -/

/-- A change of the assembler that leaves the image and the volume alone. -/
theorem of_report (h : s.Tracks t place d) (hsession : s'.session = s.session)
    (hassembler : s'.assembler = { s.assembler with
      report := s'.assembler.report, directories := s'.assembler.directories }) :
    s'.Tracks t place d := by
  refine ⟨h.carries.of_report (by rw [hsession]) hassembler, h.live, ?_, ?_⟩
  · rw [hsession]
    exact h.like
  · rw [hsession]
    exact h.canLog

/-- Logging a line always succeeds. It may let the image go on, if that is where lines go. -/
theorem log (h : s.Tracks t place d) (message : String) : ∃ s' d',
    Yields (Assembly.session (Build.log message)) s () s' ∧ s'.assembler = s.assembler ∧
      s'.Tracks t place d' ∧ (place ∉ t.logPlaces → d' = d) := by
  obtain ⟨session', hlog, hlike⟩ := h.canLog.exists_log message
  have hyields : Yields (Assembly.session (Build.log message)) s ()
      { s with session := session' } := yields_session.2 ⟨session', hlog, rfl⟩
  obtain ⟨G, K, hholds⟩ := h.live.holds
  obtain ⟨content, hextends, hcarries⟩ := h.carries.log hholds.sound h.live.openable hyields
  have hplaces := h.like.logPlaces
  have hlike' := h.like.trans (hlike.mono (hplaces ▸ Set.subset_insert place t.logPlaces))
  refine ⟨_, ⟨d.volume, content⟩, hyields, rfl,
    ⟨hcarries, h.live.extend hextends, hlike', hlike.canLog h.canLog⟩, fun haside => ?_⟩
  have hsame := hlike.tree.content? (hplaces ▸ haside)
  rw [h.carries.content] at hsame
  obtain rfl : d.content = content := Option.some.inj (hsame.trans hcarries.content)
  rfl

theorem openVolume (h : s.Tracks t place d) : ∃ s', Yields Assembly.openVolume s d.volume s' ∧
    s'.assembler = { s.assembler with volume := some d.volume } ∧ s'.session = s.session ∧
      s'.Tracks t place d := by
  obtain ⟨s', hopen, -⟩ := h.carries.exists_openVolume
  obtain ⟨-, rfl⟩ := h.carries.openVolume hopen
  exact ⟨_, hopen, rfl, rfl, h.carries.opened, h.live, h.like, h.canLog⟩

/-- A change of the volume gives what it gives on the disk. -/
theorem edit {change : Edit α} {result : Except Fat.Error α} (h : s.Tracks t place d)
    (hchange : change.on d = (result, d')) (hlive : d'.Live)
    (himage : d'.volume.image = d.volume.image) : ∃ s',
      (Assembly.edit d.volume change).run.run s = (result.mapError fun e => ⟨.image e, none⟩, s') ∧
        s'.assembler = { s.assembler with volume := some d'.volume } ∧ s'.Tracks t place d' := by
  have hrun := run_edit d.volume change s
  rw [h.carries.read_eq] at hrun
  simp only [hchange, h.carries.write_eq] at hrun
  have hlike : s.session.Like {place} (s.withTree (s.session.tree.put place d'.content)).session :=
    ⟨FileTree.like_put h.carries.content _, rfl, rfl⟩
  refine ⟨_, hrun, rfl, ⟨h.carries.unsealed, ?_, ?_, himage.trans h.carries.image, .inl rfl⟩, hlive,
    h.like.trans (hlike.mono (Set.singleton_subset_iff.2 (Set.mem_insert place _))),
    hlike.canLog h.canLog⟩
  · exact (hlike.tree.locate _).symm.trans h.carries.located
  · exact FileTree.content?_put_self ..

/-- Making a directory gives what its call gives on the disk. -/
theorem makeDirectory (h : s.Tracks t place d) (path : String) : ∃ s' d',
    (Assembly.makeDirectory path).run.run s =
        (((Fat.Call.makeDirectory path).on d).1.mapError fun e => ⟨.image e, none⟩, s') ∧
      s'.Tracks t place d' ∧
      (place ∉ t.logPlaces → d' = ((Fat.Call.makeDirectory path).on d).2) ∧
      ∃ v, s'.assembler = { s.assembler with volume := some v } := by
  have hlive : ((Fat.Call.makeDirectory path).on d).2.Live := h.live.on trivial
  have himage := h.live.image_on (.makeDirectory path)
  obtain ⟨s₁, hopen, hassembler₁, -, h₁⟩ := h.openVolume
  cases hchange : (Edit.makeDirectory path).on d with
  | mk result d₂ =>
    rw [Fat.Call.on_makeDirectory hchange] at hlive himage ⊢
    obtain ⟨s₂, hedit, hassembler₂, h₂⟩ := h₁.edit hchange hlive himage
    rw [hassembler₁] at hassembler₂
    rw [Assembly.makeDirectory, run_bind_ok _ hopen]
    cases result with
    | error e => exact ⟨s₂, d₂, run_bind_error _ hedit, h₂, fun _ => rfl, _, hassembler₂⟩
    | ok c =>
      obtain ⟨s₃, d₃, hlog, hassembler₃, h₃, hsame⟩ :=
        h₂.log s!"  ✓ ::/{withoutOuterSlashes path}/"
      exact ⟨s₃, d₃, (run_bind_ok _ hedit).trans hlog, h₃, hsame, _,
        hassembler₃.trans hassembler₂⟩

/-- A file that is skipped is recorded and logged. -/
theorem skip (h : s.Tracks t place d) (m : MissingEntry) (message : String) : ∃ s' d',
    Yields (do
      recordMissing m
      Assembly.session (Build.log message)
      return false) s false s' ∧
      (∃ report, s'.assembler = { s.assembler with report }) ∧
      s'.Tracks t place d' ∧ (place ∉ t.logPlaces → d' = d) := by
  have hrecord : Yields (recordMissing m) s () _ := yields_update.2 rfl
  have hrecorded : State.Tracks { s with assembler := { s.assembler with
      report := { s.assembler.report with missing := s.assembler.report.missing ++ [m] } } } t place
        d := h.of_report rfl rfl
  obtain ⟨s', d', hlog, hassembler, h', hsame⟩ := hrecorded.log message
  exact ⟨s', d', yields_bind.2 ⟨_, _, hrecord, yields_bind.2 ⟨_, _, hlog,
    yields_pure.2 ⟨rfl, rfl⟩⟩⟩, ⟨_, hassembler⟩, h', hsame⟩

/-- A file that is read is written to the volume as its call does it on the disk. -/
theorem write {e : BinaryEntry} {content : Content} (h : s.Tracks t place d)
    (hread : s.session.tree.read e.source = .ok content) : ∃ s' d',
    (do
      let content ← Assembly.session (Build.query (·.read e.source))
      Assembly.edit d.volume (Edit.writeFile e.dest content content.size)
      update fun a =>
        { a with report := { a.report with copied := a.report.copied ++ [⟨e.source, e.dest⟩] } }
      Assembly.session (Build.log s!"  ✓ {e.source.name} → ::{e.dest}")
      return true : Assembly Bool).run.run s = ((((e.call s.session.tree).on d).1.map
          fun _ => true).mapError fun e => ⟨.image e, none⟩, s') ∧
      s'.Tracks t place d' ∧
      (place ∉ t.logPlaces → d' = ((e.call s.session.tree).on d).2) ∧
      (∃ v report, s'.assembler = { s.assembler with volume := some v, report }) ∧
      ∀ error, ((e.call s.session.tree).on d).1 = .error error →
        s'.assembler.report = s.assembler.report := by
  have hlive := h.live.on (e.supplied_call s.session.tree)
  have himage := h.live.image_on (e.call s.session.tree)
  have hquery := run_query (·.read e.source) s
  rw [hread] at hquery
  rw [BinaryEntry.call_of_read hread] at hlive himage ⊢
  rw [run_bind_ok _ hquery]
  cases hchange : (Fat.Call.writeFile e.dest content content.size).on d with
  | mk result d₁ =>
    rw [hchange] at hlive himage
    obtain ⟨s₁, hedit, hassembler₁, h₁⟩ := h.edit hchange hlive himage
    cases result with
    | error error =>
      refine ⟨s₁, d₁, run_bind_error _ hedit, h₁, fun _ => rfl, ⟨_, _, hassembler₁⟩, fun _ _ => ?_⟩
      rw [hassembler₁]
    | ok u =>
      obtain ⟨s₂, hs₂⟩ : ∃ s₂ : State, s₂ = { s₁ with assembler := { s₁.assembler with
        report := { s₁.assembler.report with
          copied := s₁.assembler.report.copied ++ [⟨e.source, e.dest⟩] } } } := ⟨_, rfl⟩
      have h₂ : s₂.Tracks t place d₁ := h₁.of_report (by rw [hs₂]) (by rw [hs₂])
      obtain ⟨s₃, d₃, hlog, hassembler₃, h₃, hsame⟩ :=
        h₂.log s!"  ✓ {e.source.name} → ::{e.dest}"
      have hassembler₂ : s₂.assembler =
          { s.assembler with volume := some d₁.volume, report := s₂.assembler.report } := by
        rw [hs₂, hassembler₁]
      refine ⟨s₃, d₃, (run_bind_ok _ hedit).trans ((run_bind_ok (a := ()) _ ?_).trans
        (run_bind_ok _ hlog)), h₃, hsame, ⟨_, _, hassembler₃.trans hassembler₂⟩, by rintro _ ⟨⟩⟩
      rw [hs₂]
      rfl

end State.Tracks

/-- What copying a file gives and leaves, for an assembly that is followed by a disk. A file that
can be copied is copied as its call does it. Any other is skipped, or cannot even be asked for, and
is no call. -/
structure State.Copying (s : State) (t : Session) (place : List String) (d : Disk)
    (e : BinaryEntry) (result : Except Failure Bool) (s' : State) (d' : Disk) : Prop where
  tracks : s'.Tracks t place d'
  assembler : ∃ v report, s'.assembler = { s.assembler with volume := some v, report }
  failed : ∀ failure, result = .error failure → s'.assembler.report = s.assembler.report
  skipped : e.canCopy s.session.tree = false →
    (∀ isFile, s.session.tree.isFile e.source = .ok isFile → result = .ok false) ∧
      (place ∉ t.logPlaces → d' = d)
  copied : e.canCopy s.session.tree = true →
    result = (((e.call s.session.tree).on d).1.map fun _ => true).mapError
        (fun e => ⟨.image e, none⟩) ∧
      (place ∉ t.logPlaces → d' = ((e.call s.session.tree).on d).2)

namespace State.Tracks

variable {s s' : State} {t : Session} {place : List String} {d d' : Disk} {u : Unit}

theorem copyFile (h : s.Tracks t place d) (e : BinaryEntry) : ∃ result s' d',
    (Assembly.copyFile e.source e.dest).run.run s = (result, s') ∧
      s.Copying t place d e result s' d' := by
  obtain ⟨s₁, hopen, hassembler₁, hsession₁, h₁⟩ := h.openVolume
  have hquery : (Assembly.session (Build.isFile e.source)).run.run s₁ = _ := run_query _ s₁
  -- However a file is skipped, it is no call.
  have hskip : ∀ (m : MissingEntry) (message : String), e.canCopy s.session.tree = false →
      ∃ result s' d', (do
        recordMissing m
        Assembly.session (Build.log message)
        return false : Assembly Bool).run.run s₁ = (result, s') ∧
      s.Copying t place d e result s' d' := by
    intro m message hcan
    obtain ⟨s', d', hyields, ⟨report, hassembler⟩, h', hsame⟩ := h₁.skip m message
    rw [hassembler₁] at hassembler
    exact ⟨_, s', d', hyields, h', ⟨d.volume, report, hassembler⟩, by rintro _ ⟨⟩,
      fun _ => ⟨fun _ _ => rfl, hsame⟩, fun hcan' => by cases hcan.symm.trans hcan'⟩
  rw [copyFile_eq, run_bind_ok _ hopen]
  rw [hsession₁] at hquery
  cases hfile : s.session.tree.isFile e.source with
  | error fault =>
    have hcan : e.canCopy s.session.tree = false := by
      simp [BinaryEntry.canCopy, BinaryEntry.isThere, hfile]
    rw [hfile] at hquery
    refine ⟨_, s₁, d, run_bind_error _ hquery, h₁, ⟨d.volume, s.assembler.report, hassembler₁⟩,
      fun _ _ => ?_, fun _ => ⟨fun isFile hisFile => ?_, fun _ => rfl⟩,
      fun hcan' => by cases hcan.symm.trans hcan'⟩
    · rw [hassembler₁]
    · cases hfile.symm.trans hisFile
  | ok isFile =>
    rw [hfile] at hquery
    rw [run_bind_ok _ hquery]
    cases isFile with
    | false => exact hskip _ _ (by simp [BinaryEntry.canCopy, BinaryEntry.isThere, hfile])
    | true =>
      simp only [if_true]
      cases hname : Fat.isValidName (lastName e.dest) with
      | false => exact hskip _ _ (by simp [BinaryEntry.canCopy, hname])
      | true =>
        have hcan : e.canCopy s.session.tree = true := by
          simp [BinaryEntry.canCopy, BinaryEntry.isThere, hfile, hname]
        obtain ⟨content, hread⟩ := FileTree.isFile_eq_true_iff.1 hfile
        obtain ⟨s', d', hrun, h', hsame, ⟨v, report, hassembler⟩, hreport⟩ :=
          h₁.write (hsession₁.symm ▸ hread)
        rw [hassembler₁] at hassembler
        rw [hsession₁] at hrun hsame hreport
        refine ⟨_, s', d', hrun, h', ⟨v, report, hassembler⟩, fun failure hfailure => ?_,
          fun hcan' => (by cases hcan.symm.trans hcan'), fun _ => ⟨rfl, hsame⟩⟩
        rw [hassembler₁] at hreport
        cases hresult : ((e.call s.session.tree).on d).1 with
        | error error => exact hreport error hresult
        | ok u =>
          rw [hresult] at hfailure
          cases hfailure

/-- A file that is copied is not the image, which is longer than any file in it. -/
theorem avoids_image {e : BinaryEntry} (h : s.Tracks t place d)
    (hcan : e.canCopy s.session.tree = true)
    (hok : ((e.call s.session.tree).on d).1 = .ok ()) : e.Avoids t.tree {place} := by
  rintro _ rfl hplace
  obtain ⟨content, hread⟩ := FileTree.isFile_eq_true_iff.1 (BinaryEntry.isFile_of_canCopy hcan)
  obtain ⟨place', hplace', hc⟩ := FileTree.read_eq_ok.1 hread
  cases hplace.symm.trans ((h.like.tree.locate _).trans hplace')
  obtain rfl : d.content = content := Option.some.inj (h.carries.content.symm.trans hc)
  rw [BinaryEntry.call_of_read hread] at hok
  exact absurd (h.live.size_lt (Prod.ext hok rfl)) (Nat.lt_irrefl _)

end State.Tracks

/-! ### From runs to calls -/

/-- What is left when directories were made and files were copied: the disk after the calls for
them. -/
structure State.Filled (s : State) (t : Session) (place : List String) (d : Disk)
    (paths : List String) (copied : List BinaryEntry) (s' : State) (d' : Disk) : Prop where
  tracks : s'.Tracks t place d'
  assembler : ∃ volume report, s'.assembler = { s.assembler with volume, report }
  opened : paths ≠ [] → s'.assembler.volume ≠ none
  reported : s'.assembler.report.copied = s.assembler.report.copied ++ copied
  can : ∀ e ∈ copied, e.canCopy t.tree = true
  avoids : ∀ e ∈ copied, e.Avoids t.tree {place}
  does : place ∉ t.logPlaces → (∀ e ∈ copied, e.Avoids t.tree t.logPlaces) →
    d.Does (paths.map .makeDirectory ++ copied.map (·.call t.tree)) d'

namespace State.Filled

variable {s s' s₁ s₂ : State} {t : Session} {place : List String} {d d₁ d' : Disk} {u : Unit}
  {paths : List String} {copied entries : List BinaryEntry}

theorem refl (h : s.Tracks t place d) : s.Filled t place d [] [] s d :=
  ⟨h, ⟨s.assembler.volume, s.assembler.report, rfl⟩, fun hne => absurd rfl hne,
    (List.append_nil _).symm, by simp, by simp, fun _ _ => rfl⟩

theorem image (h : s.Filled t place d paths copied s' d') :
    s'.assembler.image = s.assembler.image := by
  obtain ⟨volume, report, hassembler⟩ := h.assembler
  rw [hassembler]

/-- One more directory is one more call. -/
theorem makeDirectory {path : String} (h : s.Filled t place d paths [] s₁ d₁)
    (hmake : Yields (Assembly.makeDirectory path) s₁ u s₂) :
    ∃ d₂, s.Filled t place d (paths ++ [path]) [] s₂ d₂ := by
  obtain ⟨volume, report, hassembler⟩ := h.assembler
  obtain ⟨s₂', d₂, hrun, h₂, hsame, v, hassembler₂⟩ := h.tracks.makeDirectory path
  obtain ⟨hok, rfl⟩ := Prod.mk.inj (hrun.symm.trans hmake)
  refine ⟨d₂, h₂, ⟨some v, report, ?_⟩, fun _ => by simp [hassembler₂], ?_, h.can, h.avoids,
    fun haside hapart => ?_⟩
  · rw [hassembler₂, hassembler]
  · rw [hassembler₂]
    exact h.reported
  · have hdoes := h.does haside hapart
    rw [List.map_nil, List.append_nil] at hdoes ⊢
    rw [List.map_append, List.map_singleton, Disk.does_append]
    refine ⟨d₁, hdoes, Disk.does_singleton.2 (Prod.ext ?_ (hsame haside).symm)⟩
    cases hresult : ((Fat.Call.makeDirectory path).on d₁).1 with
    | ok u => rfl
    | error e =>
      rw [hresult] at hok
      cases hok

/-- One more file is one more call, if it can be copied. -/
theorem copyFile {e : BinaryEntry} {isCopied : Bool} (h : s.Filled t place d paths copied s₁ d₁)
    (hcopy : Yields (Assembly.copyFile e.source e.dest) s₁ isCopied s₂) :
    ∃ d₂, s.Filled t place d paths (copied ++ [e].filter (·.canCopy t.tree)) s₂ d₂ := by
  obtain ⟨volume, report, hassembler⟩ := h.assembler
  have hreport := report_copyFile hcopy
  obtain ⟨result, s₂', d₂, hrun, h₂, ⟨v, report', hassembler₂⟩, -, hskipped, hcall⟩ :=
    h.tracks.copyFile e
  obtain ⟨rfl, rfl⟩ := Prod.mk.inj (hrun.symm.trans hcopy)
  have hcan := BinaryEntry.canCopy_congr h.tracks.like.tree e
  rw [hassembler] at hassembler₂
  have hopened : s₂'.assembler.volume ≠ none := by simp [hassembler₂]
  rw [Report.account, ← hcan] at hreport
  rw [List.filter_singleton]
  cases hcase : e.canCopy t.tree with
  | false =>
    rw [hcase] at hreport
    rw [cond_false, List.append_nil]
    refine ⟨d₂, h₂, ⟨some v, report', hassembler₂⟩, fun _ => hopened, ?_, h.can, h.avoids,
      fun haside hapart => ?_⟩
    · rw [hreport]
      exact h.reported
    · rw [(hskipped (hcan.symm.trans hcase)).2 haside]
      exact h.does haside hapart
  | true =>
    rw [hcase] at hreport
    rw [cond_true]
    obtain ⟨hresult, hsame⟩ := hcall (hcan.symm.trans hcase)
    have hok : ((e.call s₁.session.tree).on d₁).1 = .ok () := by
      cases hon : ((e.call s₁.session.tree).on d₁).1 with
      | ok u => rfl
      | error error =>
        rw [hon] at hresult
        cases hresult
    have himage := h.tracks.avoids_image (hcan.symm.trans hcase) hok
    refine ⟨d₂, h₂, ⟨some v, report', hassembler₂⟩, fun _ => hopened, ?_, ?_, ?_,
      fun haside hapart => ?_⟩
    · rw [hreport]
      exact (congrArg (· ++ [e]) h.reported).trans (List.append_assoc ..)
    · exact List.forall_mem_append.2 ⟨h.can, List.forall_mem_singleton.2 hcase⟩
    · exact List.forall_mem_append.2 ⟨h.avoids, List.forall_mem_singleton.2 himage⟩
    · rw [List.forall_mem_append, List.forall_mem_singleton] at hapart
      rw [List.map_append, ← List.append_assoc, List.map_singleton, Disk.does_append]
      refine ⟨d₁, h.does haside hapart.1, Disk.does_singleton.2 ?_⟩
      have hpaths : e.Avoids t.tree (insert place t.logPlaces) :=
        Set.forall_mem_insert.2 ⟨himage place rfl, hapart.2⟩
      rw [BinaryEntry.call_congr h.tracks.like.tree hpaths]
      exact Prod.ext hok (hsame haside).symm

/-- A run that makes directories makes the calls for them. -/
theorem directories (h : s.Tracks t place d)
    (hmake : Yields (each paths Assembly.makeDirectory) s u s') :
    ∃ d', s.Filled t place d paths [] s' d' :=
  Yields.each (fun done s₁ => ∃ d₁, s.Filled t place d done [] s₁ d₁) hmake
    (fun _ _ _ _ _ _ hpath ⟨_, hdone⟩ => hdone.makeDirectory hpath) ⟨d, .refl h⟩

/-- A run that copies files makes the calls for those that can be copied. -/
theorem copies (h : s.Filled t place d paths copied s₁ d₁)
    (hcopy : Yields (each entries fun e => Assembly.copyFile e.source e.dest) s₁ u s') :
    ∃ d', s.Filled t place d paths (copied ++ entries.filter (·.canCopy t.tree)) s' d' := by
  refine Yields.each (fun done s₂ => ∃ d₂,
    s.Filled t place d paths (copied ++ done.filter (·.canCopy t.tree)) s₂ d₂) hcopy ?_
    ⟨d₁, by rwa [List.filter_nil, List.append_nil]⟩
  rintro done e - s₂ s₃ isCopied hyields ⟨d₂, hdone⟩
  rw [List.filter_append, ← List.append_assoc]
  exact hdone.copyFile hyields

end State.Filled

namespace State.Tracks

variable {s s' : State} {t : Session} {place : List String} {d d' : Disk}

/-! ### From calls to runs -/

/-- Directories are made where the calls for them succeed. -/
theorem exists_directories {paths : List String} (h : s.Tracks t place d)
    (haside : place ∉ t.logPlaces) (hdoes : d.Does (paths.map .makeDirectory) d') :
    ∃ s', Yields (each paths Assembly.makeDirectory) s PUnit.unit s' ∧ s'.Tracks t place d' := by
  induction paths generalizing s d with
  | nil =>
    obtain rfl := hdoes
    exact ⟨s, yields_pure.2 ⟨rfl, rfl⟩, h⟩
  | cons path paths ih =>
    obtain ⟨d₁, hcall, hdoes⟩ := hdoes
    obtain ⟨s₁, d₁', hrun, h₁, hsame, -⟩ := h.makeDirectory path
    rw [hcall] at hrun hsame
    obtain rfl := hsame haside
    rw [each_cons]
    exact Yields.bind hrun (ih h₁ hdoes)

/-- Files are copied or skipped where they can be asked for, and the calls for those that can be
copied succeed. -/
theorem exists_copies {entries : List BinaryEntry} (h : s.Tracks t place d)
    (haside : place ∉ t.logPlaces)
    (hasked : ∀ e ∈ entries, ∃ isFile, t.tree.isFile e.source = .ok isFile)
    (havoids : ∀ e ∈ entries.filter (·.canCopy t.tree),
      e.Avoids t.tree (insert place t.logPlaces))
    (hdoes : d.Does ((entries.filter (·.canCopy t.tree)).map (·.call t.tree)) d') :
    ∃ s', Yields (each entries fun e => Assembly.copyFile e.source e.dest) s PUnit.unit s' ∧
      s'.Tracks t place d' := by
  induction entries generalizing s d with
  | nil =>
    obtain rfl := hdoes
    exact ⟨s, yields_pure.2 ⟨rfl, rfl⟩, h⟩
  | cons e entries ih =>
    rw [List.forall_mem_cons] at hasked
    obtain ⟨⟨isFile, hisFile⟩, hasked⟩ := hasked
    obtain ⟨result, s₁, d₁', hrun, h₁, -, -, hskipped, hcopied⟩ := h.copyFile e
    rw [← BinaryEntry.canCopy_congr h.like.tree] at hskipped hcopied
    rw [each_cons]
    cases hcan : e.canCopy t.tree with
    | false =>
      rw [List.filter_cons_of_neg (by simp [hcan])] at havoids hdoes
      rw [← h.like.tree.isFile] at hskipped
      obtain ⟨hresult, hsame⟩ := hskipped hcan
      obtain rfl := hresult isFile hisFile
      obtain rfl := hsame haside
      exact Yields.bind hrun (ih h₁ hasked havoids hdoes)
    | true =>
      rw [List.filter_cons_of_pos hcan] at havoids hdoes
      rw [List.forall_mem_cons] at havoids
      obtain ⟨d₁, hcall, hdoes⟩ := hdoes
      rw [← BinaryEntry.call_congr h.like.tree havoids.1, hcall] at hcopied
      obtain ⟨rfl, hsame⟩ := hcopied hcan
      obtain rfl := hsame haside
      exact Yields.bind hrun (ih h₁ hasked havoids.2 hdoes)

end State.Tracks

end Assembly

end BootImage
