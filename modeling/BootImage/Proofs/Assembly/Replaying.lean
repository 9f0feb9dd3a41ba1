import BootImage.Proofs.Assembly.Tracking

/-!
# Assemblies that are repeated

An assembly is done in three parts. The image is made and formatted; directories are made in it and
files are copied; it is sealed. The first part does not look at the directories that are to be made,
nor at the files, so it is the same in every assembly with the same image. The second part comes to
a disk, which is told by the calls that it made, and the third one leaves the image of that disk.
This is so whether or not the second part fails.

So an assembly can be repeated by its calls: whatever directories and files it is given the second
time, if they come to the same disk they come to the same image.

## Main definitions

* `Assembly.formatNew`: the part until the image is formatted.
* `Assembly.State.sealedContent`: the image once the volume is closed.
* `Assembly.State.Ends`: what is left when an assembly has sealed its image.
* `Assembly.Formats`: a new image that was formatted.

## Main results

* `Assembly.State.Tracks.run_complete`: how an assembly ends, whether or not it fails.
* `Assembly.State.Tracks.reads`: what is read of the image that is left.
* `Assembly.Formats.exists_assembled`: an assembly is repeated by its calls.
* `Assembly.Formats.exists_replayed`: what an assembly has done is done again.
-/

namespace BootImage

open Host (Path FileTree)
open Fat (Disk)

/-! ### Log files that are apart -/

/-- The log file, if there is one, is at none of some paths. -/
def Session.LogsAside (t : Session) (paths : List Path) : Prop :=
  ∀ p ∈ t.logFile, ∀ q ∈ paths, t.tree.locate p ≠ t.tree.locate q

namespace Session.LogsAside

variable {t t' : Session} {away : Set (List String)} {paths : List Path} {q : Path}
  {place : List String} {entries : List BinaryEntry}

theorem of_like (h : t'.LogsAside paths) (hlike : t.Like away t') : t.LogsAside paths := by
  intro p hp q hq
  rw [hlike.tree.locate, hlike.tree.locate]
  exact h p (hlike.logFile ▸ hp) q hq

theorem notMem_logPlaces (h : t.LogsAside paths) (hq : q ∈ paths)
    (hplace : t.tree.locate q = .ok place) : place ∉ t.logPlaces := by
  rintro ⟨p, hp, hlocated⟩
  exact h p hp q hq (hlocated.trans hplace.symm)

theorem avoids (h : t.LogsAside paths) {e : BinaryEntry} (he : e.source ∈ paths) :
    e.Avoids t.tree t.logPlaces := by
  rintro place hlog hplace
  exact h.notMem_logPlaces he hplace hlog

end Session.LogsAside

namespace Assembly

variable {α : Type} {s s' s₁ : State} {t : Session} {place : List String} {d d' : Disk}
  {own suite : List BinaryEntry} {u : Unit} {content : Content}

/-! ### How an assembly ends -/

/-- The image of an assembly once the volume is closed. One that was never opened leaves the image
as it is. -/
def State.sealedContent (s : State) (d : Disk) : Content :=
  match s.assembler.volume with
  | none => d.content
  | some _ => Disk.flushed d.volume d.content

theorem State.sealedContent_of_opened (h : s.assembler.volume ≠ none) :
    s.sealedContent d = Disk.flushed d.volume d.content := by
  rw [State.sealedContent]
  split
  · rename_i hnone
    exact absurd hnone h
  · rfl

/-- What is left when an assembly has sealed its image. A line that tells so may be put at the end
of the image, if that is where lines go. -/
structure State.Ends (s : State) (t : Session) (place : List String) (d : Disk) (content : Content)
    (s' : State) : Prop where
  assembler : s'.assembler = { s.assembler with volume := none, sealed := true }
  read : s'.session.tree.read s.assembler.image = .ok content
  grown : (s.sealedContent d).Extends content
  same : place ∉ t.logPlaces → content = s.sealedContent d
  like : t.Like (insert place t.logPlaces) s'.session

/-- Once a line was logged, it can be told what was done. -/
theorem exists_tell (h : s.session.CanLog) : ∃ session' message,
    Yields tell s s.assembler.report { s with session := session' } ∧
      Yields (Build.log message) s.session () session' ∧
      s.session.Like s.session.logPlaces session' := by
  obtain ⟨session', hlog, hlike⟩ := h.exists_log
    (s!"[OK]    {s.assembler.image.name} — {s.assembler.report.copied.length} files, " ++
      s!"{s.assembler.report.missing.length} skipped")
  refine ⟨session', _, ?_, hlog, hlike⟩
  exact yields_bind.2 ⟨_, s, yields_assembler.2 ⟨rfl, rfl⟩, yields_bind.2 ⟨(), _,
    yields_session.2 ⟨session', hlog, rfl⟩, yields_pure.2 ⟨rfl, rfl⟩⟩⟩

namespace State.Tracks

/-- An assembly that is followed can seal its image. -/
theorem exists_sealed (h : s.Tracks t place d) : ∃ s', Yields sealImage s () s' ∧
    s.Ends t place d (s.sealedContent d) s' ∧ s'.session.CanLog ∧
      s'.session.tree.locate s.assembler.image = .ok place ∧
      s'.session.tree.content? place = some (s.sealedContent d) := by
  have hrun := run_sealImage s
  cases hvolume : s.assembler.volume with
  | none =>
    rw [hvolume] at hrun
    have hsealed : s.sealedContent d = d.content := by
      rw [State.sealedContent, hvolume]
    rw [hsealed]
    exact ⟨_, hrun, ⟨rfl, h.carries.read_eq, hsealed ▸ .refl _, fun _ => hsealed.symm, h.like⟩,
      h.canLog, h.carries.located, h.carries.content⟩
  | some v =>
    obtain rfl : v = d.volume := by
      rcases h.carries.volume with hsome | ⟨hnone, -⟩
      · exact Option.some.inj (hvolume.symm.trans hsome)
      · cases hvolume.symm.trans hnone
    have hsealed : s.sealedContent d = Disk.flushed d.volume d.content := by
      rw [State.sealedContent, hvolume]
    rw [hvolume, h.carries.read_eq] at hrun
    simp only [h.carries.write_eq, h.live.writable.close_eq] at hrun
    have hlike : s.session.Like {place}
        (s.withTree (s.session.tree.put place (Disk.flushed d.volume d.content))).session :=
      ⟨FileTree.like_put h.carries.content _, rfl, rfl⟩
    have hlocated := (hlike.tree.locate _).symm.trans h.carries.located
    have hcontent := FileTree.content?_put_self s.session.tree place
      (Disk.flushed d.volume d.content)
    rw [hsealed]
    refine ⟨_, hrun, ⟨rfl, FileTree.read_eq_ok.2 ⟨place, hlocated, hcontent⟩, hsealed ▸ .refl _,
      fun _ => hsealed.symm, h.like.trans (hlike.mono (Set.singleton_subset_iff.2
        (Set.mem_insert place _)))⟩, hlike.canLog h.canLog, hlocated, hcontent⟩

/-- An assembly ends with its image sealed, whatever became of the directories and the files. It
gives the report then, or the failure. -/
theorem run_complete {result : Except Failure Unit} (h : s₁.Tracks t place d)
    (hfill : (fill own suite).run.run s = (result, s₁)) : ∃ s' content,
      (complete own suite).run.run s = (result.map fun _ => s₁.assembler.report, s') ∧
        s₁.Ends t place d content s' := by
  obtain ⟨s₂, hseal, hends, hcanLog, hlocated, hcontent⟩ := h.exists_sealed
  rw [run_complete_of_fill hfill hseal]
  cases result with
  | error failure => exact ⟨s₂, _, rfl, hends⟩
  | ok u =>
    obtain ⟨session', message, htell, hlog, hlike⟩ := exists_tell hcanLog
    have hplaces := hends.like.logPlaces
    obtain ⟨hgrows, -⟩ := Build.grows_log hlog
    obtain ⟨content, hcontent', hextends, -⟩ :=
      hgrows.content place (Set.notMem_empty _) _ hcontent
    refine ⟨{ s₂ with session := session' }, content, ?_, hends.assembler, ?_, hextends,
      fun haside => ?_, ?_⟩
    · rw [htell, hends.assembler]
      rfl
    · exact FileTree.read_eq_ok.2 ⟨place, hgrows.locate hlocated, hcontent'⟩
    · have hsame := hlike.tree.content? (hplaces ▸ haside)
      exact Option.some.inj (hcontent'.symm.trans (hsame.symm.trans hcontent))
    · exact hends.like.trans (hlike.mono (hplaces ▸ Set.subset_insert place t.logPlaces))

/-- What is read of the image that is left is what was read of the disk. -/
theorem reads (h : s.Tracks t place d) (hextends : (s.sealedContent d).Extends content)
    (readOnly : Bool) : ∃ v,
      Fat.Volume.ofContent (toString s.assembler.image) content readOnly = .ok v ∧
        d.ReadsAlike ⟨v, content⟩ := by
  rw [← h.carries.image]
  obtain ⟨G, K, hholds⟩ := h.live.holds
  rw [State.sealedContent] at hextends
  cases hvolume : s.assembler.volume with
  | some v =>
    rw [hvolume] at hextends
    exact (h.live.exists_whole hextends).1 readOnly
  | none =>
    rw [hvolume] at hextends
    rcases h.carries.volume with hsome | ⟨-, hopen⟩
    · cases hvolume.symm.trans hsome
    · rw [← h.live.openable.ofContent_extends hholds.sound hextends false] at hopen
      obtain ⟨v, hv, halike⟩ := Disk.exists_ofContent hopen readOnly
      exact ⟨v, hv, (hholds.sound.readsAlike_extend hextends).trans halike⟩

end State.Tracks

/-! ### Directories and files -/

theorem fill_eq (own suite : List BinaryEntry) : fill own suite = (do
    let x ← assembler
    each x.directories Assembly.makeDirectory
    each (own ++ suite) fun e => Assembly.copyFile e.source e.dest) := by
  refine congrArg (assembler >>= ·) (funext fun x => congrArg (_ >>= ·) (funext fun _ => ?_))
  exact bind_pure _

theorem yields_fill : Yields (fill own suite) s u s' ↔
    ∃ s₁, Yields (each s.assembler.directories Assembly.makeDirectory) s PUnit.unit s₁ ∧
      Yields (each (own ++ suite) fun e => Assembly.copyFile e.source e.dest) s₁ u s' := by
  rw [fill_eq, yields_bind]
  constructor
  · rintro ⟨x, s₀, hx, h⟩
    obtain ⟨rfl, rfl⟩ := yields_assembler.1 hx
    obtain ⟨_, s₁, hmake, hcopy⟩ := yields_bind.1 h
    exact ⟨s₁, hmake, hcopy⟩
  · rintro ⟨s₁, hmake, hcopy⟩
    exact ⟨_, s, yields_assembler.2 ⟨rfl, rfl⟩, yields_bind.2 ⟨_, s₁, hmake, hcopy⟩⟩

/-- What directories and files come to: the calls for them, without the files that are skipped. -/
theorem State.Tracks.filled {paths : List String} {entries : List BinaryEntry}
    (h : s.Tracks t place d) (hmake : Yields (each paths Assembly.makeDirectory) s PUnit.unit s₁)
    (hcopy : Yields (each entries fun e => Assembly.copyFile e.source e.dest) s₁ PUnit.unit s') :
    ∃ d', s.Filled t place d paths (entries.filter (·.canCopy t.tree)) s' d' := by
  obtain ⟨d₁, hdirectories⟩ := State.Filled.directories h hmake
  have hfilled := hdirectories.copies hcopy
  rwa [List.nil_append] at hfilled

/-! ### New images -/

/-- What is done until the image is formatted. -/
def formatNew : Assembly Fat.Geometry := do
  session announce
  createImage
  format

/-- The state with more records of what is missing. -/
def State.withMissing (s : State) (missing : List MissingEntry) : State :=
  { s with assembler := { s.assembler with
    report := { s.assembler.report with missing := s.assembler.report.missing ++ missing } } }

@[simp] theorem State.withMissing_image (s : State) (missing : List MissingEntry) :
    (s.withMissing missing).assembler.image = s.assembler.image :=
  rfl

@[simp] theorem State.withMissing_directories (s : State) (missing : List MissingEntry) :
    (s.withMissing missing).assembler.directories = s.assembler.directories :=
  rfl

@[simp] theorem State.withMissing_copied (s : State) (missing : List MissingEntry) :
    (s.withMissing missing).assembler.report.copied = s.assembler.report.copied :=
  rfl

/-- Once the image is formatted, records of what is missing are put into the report, and then it is
filled and sealed. -/
theorem run_assemble {g : Fat.Geometry} (hnew : Yields formatNew s g s')
    (own suite : List BinaryEntry) (missing : List MissingEntry) :
    (assemble own suite missing).run.run s =
      (complete own suite).run.run (s'.withMissing missing) := by
  obtain ⟨_, s₁, hannounce, h₁⟩ := yields_bind.1 hnew
  obtain ⟨_, s₂, hcreate, hformat⟩ := yields_bind.1 h₁
  rw [assemble_eq, run_bind_ok _ hannounce, run_bind_ok _ hcreate, run_bind_ok _ hformat]
  exact run_bind_ok (a := ()) _ (yields_update.2 rfl)

/-- An assembly that gives a report has formatted its image and filled it. -/
theorem exists_filled_of_assemble {missing : List MissingEntry} {report : Report}
    (h : Yields (assemble own suite missing) s report s') :
    ∃ g s₀ s₁, Yields formatNew s g s₀ ∧
      Yields (fill own suite) (s₀.withMissing missing) () s₁ := by
  rw [assemble_eq] at h
  obtain ⟨_, s₂, hannounce, h₂⟩ := yields_bind.1 h
  obtain ⟨_, s₃, hcreate, h₃⟩ := yields_bind.1 h₂
  obtain ⟨g, s₄, hformat, h₄⟩ := yields_bind.1 h₃
  obtain ⟨_, s₅, hupdate, hcomplete⟩ := yields_bind.1 h₄
  obtain rfl := yields_update.1 hupdate
  refine ⟨g, s₄, ?_⟩
  rw [complete, yields_bind] at hcomplete
  obtain ⟨_, s₁, htry, -⟩ := hcomplete
  rw [yields_tryCatch] at htry
  · exact ⟨s₁, yields_bind.2 ⟨_, s₂, hannounce, yields_bind.2 ⟨_, s₃, hcreate, hformat⟩⟩, htry⟩
  · -- What is done after a failure ends in the failure.
    intro failure s₆ hhandler
    obtain ⟨_, s₇, -, hthrow⟩ := yields_bind.1 hhandler
    exact not_yields_throw hthrow

/-- Until the image is formatted, nothing looks at the directories that are to be made. -/
theorem maps_formatNew (directories : List String) :
    Respects (State.Maps fun x => { x with directories }) formatNew := by
  have hprepare : Respects (State.Maps fun x => { x with directories })
      (do session announce; createImage : Assembly Unit) := by
    rintro s _ rfl
    have hrun := run_prepare s
    have hrun' := run_prepare { s with assembler := { s.assembler with directories } }
    have hsame : prepare { s.assembler with directories } = prepare s.assembler := rfl
    rw [hsame] at hrun'
    cases hprepare : (prepare s.assembler).run.run s.session with
    | mk result t =>
      rw [hprepare] at hrun hrun'
      cases result with
      | error e => exact ⟨_, _, _, hrun, hrun', rfl⟩
      | ok u => exact ⟨_, _, _, hrun, hrun', rfl⟩
  rw [formatNew, ← bind_assoc]
  exact hprepare.bind fun _ => maps_format (fun _ => rfl) (fun _ => rfl) fun _ _ => rfl

theorem canLog_format {g : Fat.Geometry} (h : Yields format s g s') : s'.session.CanLog := by
  rw [format, yields_bind] at h
  obtain ⟨x, s₁, -, h₁⟩ := h
  obtain ⟨g', s₂, -, h₂⟩ := yields_bind.1 h₁
  obtain ⟨_, s₃, -, h₃⟩ := yields_bind.1 h₂
  obtain ⟨_, s₄, hlog, h₄⟩ := yields_bind.1 h₃
  obtain ⟨-, rfl⟩ := yields_pure.1 h₄
  obtain ⟨session', hsession, rfl⟩ := yields_session.1 hlog
  exact Build.canLog_of_log hsession

/-- A new image that was formatted is followed by a disk. -/
theorem tracks_formatNew {x : Assembler} (hx : x.anew = x) {g : Fat.Geometry}
    (h : Yields formatNew ⟨x, t⟩ g s) : (∃ place d, s.Tracks s.session place d) ∧
      s.assembler = { x with
        formatted := true, report := { image := x.image, geometry := g } } := by
  obtain ⟨_, s₁, hannounce, h₁⟩ := yields_bind.1 h
  obtain ⟨_, s₂, hcreate, hformat⟩ := yields_bind.1 h₁
  have hassembler₁ := assembler_session hannounce
  have hassembler₂ := assembler_createImage hcreate
  rw [hassembler₁] at hassembler₂
  have hnew : x.volume = none ∧ x.sealed = false := by
    rw [← hx]
    exact ⟨rfl, rfl⟩
  obtain ⟨place, d, hfills, hassembler⟩ := fills_format (by rw [hassembler₂, hnew.1])
    (by rw [hassembler₂]) hformat
  rw [hassembler₂] at hassembler
  refine ⟨⟨place, d, hfills.carries, ⟨?_, hfills.writable, hfills.openable⟩, .refl _ _,
    canLog_format hformat⟩, ?_⟩
  · obtain ⟨K, hholds⟩ := hfills.holds
    exact ⟨_, K, hholds⟩
  · rw [hassembler, ← hnew.2]

/-- An assembler has formatted a new image, which is followed by a disk from then on. -/
structure Formats (x : Assembler) (t : Session) (g : Fat.Geometry) (s : State)
    (place : List String) (d : Disk) : Prop where
  new : Yields formatNew ⟨x, t⟩ g s
  tracks : s.Tracks s.session place d
  image : s.assembler.image = x.image
  directories : s.assembler.directories = x.directories
  copied : s.assembler.report.copied = []

theorem exists_formats {x : Assembler} (hx : x.anew = x) {g : Fat.Geometry}
    (h : Yields formatNew ⟨x, t⟩ g s) : ∃ place d, Formats x t g s place d := by
  obtain ⟨⟨place, d, htracks⟩, hassembler⟩ := tracks_formatNew hx h
  exact ⟨place, d, h, htracks, by rw [hassembler], by rw [hassembler], by rw [hassembler]⟩

/-- Where an assembler can make and format its image, the new image is followed by a disk. -/
theorem Ready.exists_formats {x : Assembler} (hx : x.anew = x) {g : Fat.Geometry}
    (h : Ready x t place g d) (hlive : d.Live) : ∃ s, Formats x t g s place d ∧
      s.session.logFile = none ∧ t.tree.Grows {place} none s.session.tree := by
  obtain ⟨s₁, s₂, s, hannounce, hcreate, hformat, hfile, hcarries, hdirectories, hcopied, hgrows⟩ :=
    h.exists_format
  have hnew : Yields formatNew ⟨x, t⟩ g s :=
    yields_bind.2 ⟨_, s₁, hannounce, yields_bind.2 ⟨_, s₂, hcreate, hformat⟩⟩
  obtain ⟨-, hassembler⟩ := tracks_formatNew hx hnew
  exact ⟨s, ⟨hnew, ⟨hcarries, hlive, .refl _ _, canLog_format hformat⟩, by rw [hassembler],
    hdirectories, hcopied⟩, hfile, hgrows⟩

/-- A new image is formatted in the current directory of any tree that has nothing at its path. -/
theorem exists_formats_beside (directories : List String) (tree : FileTree)
    (hparent : tree.makeDirectories ⟨"", []⟩ = (.ok (), tree))
    (hlocated : tree.locate ⟨"", ["fs.img"]⟩ = .ok ["fs.img"])
    (hvacant : tree.node? ["fs.img"] = none) : ∃ t g s d,
      Formats { image := ⟨"", ["fs.img"]⟩, directories } t g s ["fs.img"] d ∧ d.Fresh ∧
        t.logFile = none ∧ s.session.logFile = none ∧
        tree.Grows {["fs.img"]} none s.session.tree := by
  obtain ⟨t, ht⟩ : ∃ t : Session, t = { tree, clock := "", searchPath := "" } := ⟨_, rfl⟩
  obtain rfl : tree = t.tree := by rw [ht]
  have hfile₀ : t.logFile = none := by rw [ht]
  obtain ⟨g, d, hready, hfresh⟩ := exists_ready directories hfile₀ hparent hlocated hvacant
  obtain ⟨s, hformats, hfile, hgrows⟩ := hready.exists_formats rfl hfresh.live
  exact ⟨t, g, s, d, hformats, hfresh, hfile₀, hfile, hgrows⟩

/-- A new image that was formatted beside a small file. -/
theorem exists_formats_small (directories : List String) : ∃ t g s d,
    Formats { image := ⟨"", ["fs.img"]⟩, directories } t g s ["fs.img"] d ∧ d.Fresh ∧
      t.logFile = none ∧ s.session.logFile = none ∧
      s.session.tree.read ⟨"", ["sh"]⟩ = .ok (Content.ofBytes [1, 2, 3]) := by
  obtain ⟨t, g, s, d, hformats, hfresh, hfile₀, hfile, hgrows⟩ := exists_formats_beside directories
    ((FileTree.empty []).put ["sh"] (Content.ofBytes [1, 2, 3])) rfl rfl rfl
  exact ⟨t, g, s, d, hformats, hfresh, hfile₀, hfile, hgrows.read_of_vacant rfl rfl⟩

/-! ### Assemblies that are done again -/

namespace Formats

variable {x : Assembler} {g : Fat.Geometry} {paths : List String} {copied : List BinaryEntry}

/-- With records of what is missing, it is followed all the same. -/
theorem withMissing (h : Formats x t g s place d) (missing : List MissingEntry) :
    (s.withMissing missing).Tracks s.session place d :=
  h.tracks.of_report rfl rfl

theorem notMem_logPlaces {paths : List Path} (h : Formats x t g s place d)
    (hlog : s.session.LogsAside (x.image :: paths)) : place ∉ s.session.logPlaces :=
  hlog.notMem_logPlaces (List.mem_cons_self ..) (h.image ▸ h.tracks.carries.located)

/-- An assembly with other directories, but of the same image, comes to the same formatted image. -/
theorem exists_again (h : Formats x t g s place d) (paths : List String)
    (missing : List MissingEntry) :
    ∃ s' : State, (∀ own suite, (assemble own suite missing).run.run
        ⟨{ x with directories := paths }, t⟩ = (complete own suite).run.run s') ∧
      s'.Tracks s.session place d ∧ s'.assembler.directories = paths ∧
      s'.assembler.image = x.image ∧ s'.assembler.report.copied = [] := by
  obtain ⟨result, s₀, _, hs₀, hnew', rfl⟩ := maps_formatNew paths ⟨x, t⟩ _ rfl
  cases hs₀.symm.trans h.new
  exact ⟨State.withMissing
      { s with assembler := { s.assembler with directories := paths } } missing,
    fun own suite => run_assemble hnew' own suite missing, h.tracks.of_report rfl rfl, rfl, h.image,
    h.copied⟩

/-- An assembly is repeated by its calls. Where an image was formatted, directories are made and
files are copied or skipped if the calls for those that can be copied succeed. The image that is
left is that of the disk that they come to. -/
theorem exists_assembled (h : Formats x t g s place d) (haside : place ∉ s.session.logPlaces)
    (hasked : ∀ e ∈ own ++ suite, ∃ isFile, s.session.tree.isFile e.source = .ok isFile)
    (havoids : ∀ e ∈ (own ++ suite).filter (·.canCopy s.session.tree),
      e.Avoids s.session.tree (insert place s.session.logPlaces))
    (hdoes : d.Does (paths.map .makeDirectory ++
      ((own ++ suite).filter (·.canCopy s.session.tree)).map (·.call s.session.tree)) d')
    (missing : List MissingEntry) : ∃ (report : Report) (s' : State) (content : Content),
      Yields (assemble own suite missing) ⟨{ x with directories := paths }, t⟩ report s' ∧
      report.copied = (own ++ suite).filter (·.canCopy s.session.tree) ∧
      s'.session.tree.read x.image = .ok content ∧
      s.session.Like (insert place s.session.logPlaces) s'.session ∧
      (paths ≠ [] → content = Disk.flushed d'.volume d'.content) ∧
      ∀ readOnly, ∃ v, Fat.Volume.ofContent (toString x.image) content readOnly = .ok v ∧
        d'.ReadsAlike ⟨v, content⟩ := by
  obtain ⟨s₂, hrun, h₂, hpaths, himage, hcopied⟩ := h.exists_again paths missing
  obtain ⟨d₁, hmade, hcalled⟩ := Disk.does_append.1 hdoes
  obtain ⟨s₃, hmake, h₃⟩ := h₂.exists_directories haside hmade
  obtain ⟨s₁, hcopy, h₁⟩ := h₃.exists_copies haside hasked havoids hcalled
  obtain ⟨_, hfilled⟩ := h₂.filled hmake hcopy
  have hfill : Yields (fill own suite) s₂ PUnit.unit s₁ :=
    yields_fill.2 ⟨s₃, hpaths.symm ▸ hmake, hcopy⟩
  obtain ⟨s', content, hcomplete, hends⟩ := h₁.run_complete hfill
  have himage₁ : s₁.assembler.image = x.image := hfilled.image.trans himage
  have hreport := hfilled.reported
  rw [hcopied, List.nil_append] at hreport
  refine ⟨_, s', content, (hrun own suite).trans hcomplete, hreport, himage₁ ▸ hends.read,
    hends.like, fun hne => ?_, himage₁ ▸ h₁.reads hends.grown⟩
  rw [hends.same haside, State.sealedContent_of_opened (hfilled.opened hne)]

/-- The same where all the files can be copied. -/
theorem exists_assembled_all (h : Formats x t g s place d) (haside : place ∉ s.session.logPlaces)
    (hcan : ∀ e ∈ own ++ suite, e.canCopy s.session.tree = true)
    (havoids : ∀ e ∈ own ++ suite,
      e.Avoids s.session.tree (insert place s.session.logPlaces))
    (hdoes : d.Does (paths.map .makeDirectory ++ (own ++ suite).map (·.call s.session.tree)) d')
    (missing : List MissingEntry) : ∃ (report : Report) (s' : State) (content : Content),
      Yields (assemble own suite missing) ⟨{ x with directories := paths }, t⟩ report s' ∧
      report.copied = own ++ suite ∧ s'.session.tree.read x.image = .ok content ∧
      s.session.Like (insert place s.session.logPlaces) s'.session ∧
      (paths ≠ [] → content = Disk.flushed d'.volume d'.content) ∧
      ∀ readOnly, ∃ v, Fat.Volume.ofContent (toString x.image) content readOnly = .ok v ∧
        d'.ReadsAlike ⟨v, content⟩ := by
  have hfilter : (own ++ suite).filter (·.canCopy s.session.tree) = own ++ suite :=
    List.filter_eq_self.2 hcan
  have hasked : ∀ e ∈ own ++ suite, ∃ isFile, s.session.tree.isFile e.source = .ok isFile :=
    fun e he => ⟨true, BinaryEntry.isFile_of_canCopy (hcan e he)⟩
  rw [← hfilter] at havoids hdoes
  have hassembled := h.exists_assembled haside hasked havoids hdoes missing
  rwa [hfilter] at hassembled

/-- A directory that cannot be made where the others were made makes an assembly fail. -/
theorem exists_assemble_error {path : String} {error : Fat.Error} (h : Formats x t g s place d)
    (haside : place ∉ s.session.logPlaces) (hdoes : d.Does (paths.map .makeDirectory) d')
    (hcall : ((Fat.Call.makeDirectory path).on d').1 = .error error) (own suite : List BinaryEntry)
    (missing : List MissingEntry) :
    ∃ s', (assemble own suite missing).run.run ⟨{ x with directories := paths ++ [path] }, t⟩ =
      (.error ⟨.image error, none⟩, s') := by
  obtain ⟨s₂, hrun, h₂, hpaths, -⟩ := h.exists_again (paths ++ [path]) missing
  obtain ⟨s₃, hmake, h₃⟩ := h₂.exists_directories haside hdoes
  obtain ⟨s₁, d₁, hlast, h₁, -⟩ := h₃.makeDirectory path
  rw [hcall] at hlast
  have heach : (each (paths ++ [path]) Assembly.makeDirectory).run.run s₂ =
      (.error ⟨.image error, none⟩, s₁) := by
    rw [each_append, run_bind_ok _ hmake, each_cons]
    exact run_bind_error _ hlast
  have hfill : (fill own suite).run.run s₂ = (.error ⟨.image error, none⟩, s₁) := by
    rw [fill_eq, run_assembler_bind, hpaths]
    exact run_bind_error _ heach
  obtain ⟨s', content, hcomplete, -⟩ := h₁.run_complete hfill
  exact ⟨s', (hrun own suite).trans hcomplete⟩

/-- What was done to a new image is done again by an assembly that is given only the directories
that were made and the files that were copied, as long as the log file is apart. -/
theorem exists_replayed {s₀ : State} (h : Formats x t g s place d)
    (hfilled : s₀.Filled s.session place d paths copied s₁ d')
    (hlog : s.session.LogsAside (x.image :: copied.map (·.source)))
    (hlists : own ++ suite = copied) (missing : List MissingEntry) :
    ∃ (report : Report) (s' : State) (content : Content),
      Yields (assemble own suite missing) ⟨{ x with directories := paths }, t⟩ report s' ∧
      report.copied = copied ∧ s'.session.tree.read x.image = .ok content ∧
      (paths ≠ [] → content = Disk.flushed d'.volume d'.content) ∧
      ∀ readOnly, ∃ v, Fat.Volume.ofContent (toString x.image) content readOnly = .ok v ∧
        d'.ReadsAlike ⟨v, content⟩ := by
  subst hlists
  have haside := h.notMem_logPlaces hlog
  have hapart : ∀ e ∈ own ++ suite, e.Avoids s.session.tree s.session.logPlaces := fun e he =>
    hlog.avoids (List.mem_cons_of_mem _ (List.mem_map_of_mem he))
  have havoids : ∀ e ∈ own ++ suite,
      e.Avoids s.session.tree (insert place s.session.logPlaces) := fun e he =>
    Set.forall_mem_insert.2 ⟨hfilled.avoids e he place rfl, hapart e he⟩
  obtain ⟨report, s', content, hyields, hcopied, hread, -, hsame, hreads⟩ :=
    h.exists_assembled_all haside hfilled.can havoids (hfilled.does haside hapart) missing
  exact ⟨report, s', content, hyields, hcopied, hread, hsame, hreads⟩

end Formats

end Assembly

end BootImage
