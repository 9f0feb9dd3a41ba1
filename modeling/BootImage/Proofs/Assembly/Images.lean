import BootImage.Assembly.Assembler
import BootImage.Proofs.Fat.Reopening
import BootImage.Proofs.Fat.Runs
import BootImage.Proofs.Session.Running

/-!
# The image of an assembly

While an image is assembled its volume is in memory, and what is in the image belongs to it; the two
meet in every step that changes the volume, which reads the image and writes it again. Between two
such steps lines are logged, and the log may be the image itself: then the image goes on, which
changes nothing for the volume.

## Main definitions

* `Assembly.State.Carries`: the volume that an assembly works on, with its image.
* `Assembly.State.Fills`: the image can be changed, and holds a catalog.
* `Assembly.State.Onward`: what every step leaves alone.

## Main results

* `Assembly.copyFile_cases`: how copying a file ends.
* `Assembly.State.Carries.log`: logging.
* `Assembly.State.Carries.edit`: a change of the volume.
* `Assembly.fills_format`: an image that is formatted holds the empty root directory.
-/

namespace BootImage.Assembly

open Host (Path)
open Fat (Disk Catalog Edit Owner)

variable {α : Type} {s s' : State} {a : α} {u : Unit}

/-! ### Single steps -/

theorem run_session (b : Build α) (s : State) :
    (session b).run.run s =
      ((b.run.run s.session).1, { s with session := (b.run.run s.session).2 }) :=
  rfl

/-- What follows is run for the assembler there is. -/
theorem run_assembler_bind (f : Assembler → Assembly α) (s : State) :
    (assembler >>= f).run.run s = (f s.assembler).run.run s :=
  rfl

theorem yields_session {b : Build α} : Yields (session b) s a s' ↔
    ∃ session', Yields b s.session a session' ∧ s' = { s with session := session' } := by
  rw [Yields, run_session]
  constructor
  · intro h
    obtain ⟨hok, rfl⟩ := Prod.mk.inj h
    exact ⟨_, Prod.ext hok rfl, rfl⟩
  · rintro ⟨session', h, rfl⟩
    rw [Yields] at h
    rw [h]

theorem yields_update {f : Assembler → Assembler} :
    Yields (update f) s u s' ↔ s' = { s with assembler := f s.assembler } :=
  yields_modify

theorem yields_assembler {x : Assembler} :
    Yields assembler s x s' ↔ x = s.assembler ∧ s' = s := by
  rw [assembler, yields_bind]
  constructor
  · rintro ⟨s₀, s₁, hget, h⟩
    obtain ⟨rfl, rfl⟩ := yields_get.1 hget
    exact yields_pure.1 h
  · rintro ⟨rfl, rfl⟩
    exact ⟨s', s', yields_get.2 ⟨rfl, rfl⟩, yields_pure.2 ⟨rfl, rfl⟩⟩

theorem yields_on {x : Assembler} {assembly : Assembly α} {t t' : Session} :
    Yields (on x assembly) t a t' ↔
      ∃ s', Yields assembly ⟨x, t⟩ a s' ∧ t' = s'.session := by
  have hrun : (on x assembly).run.run t =
      ((assembly.run.run ⟨x, t⟩).1, (assembly.run.run ⟨x, t⟩).2.session) := rfl
  rw [Yields, hrun]
  constructor
  · intro h
    obtain ⟨hok, rfl⟩ := Prod.mk.inj h
    exact ⟨_, Prod.ext hok rfl, rfl⟩
  · rintro ⟨s', h, rfl⟩
    rw [Yields] at h
    rw [h]

theorem yields_query {f : Host.FileTree → Except Host.Fault α} :
    Yields (session (Build.query f)) s a s' ↔ f s.session.tree = .ok a ∧ s' = s := by
  rw [yields_session]
  constructor
  · rintro ⟨session', h, rfl⟩
    obtain ⟨hf, rfl⟩ := Build.yields_query.1 h
    exact ⟨hf, rfl⟩
  · rintro ⟨hf, rfl⟩
    exact ⟨_, Build.yields_query.2 ⟨hf, rfl⟩, rfl⟩

theorem yields_ofExcept {ε : Type} {cause : ε → Cause} {r : Except ε α} :
    Yields (session (Build.ofExcept cause r)) s a s' ↔ r = .ok a ∧ s' = s := by
  rw [yields_session]
  constructor
  · rintro ⟨session', h, rfl⟩
    obtain ⟨hr, rfl⟩ := Build.yields_ofExcept.1 h
    exact ⟨hr, rfl⟩
  · rintro ⟨hr, rfl⟩
    exact ⟨_, Build.yields_ofExcept.2 ⟨hr, rfl⟩, rfl⟩

/-- The state with another tree. -/
def State.withTree (s : State) (tree : Host.FileTree) : State :=
  { s with session := { s.session with tree } }

theorem yields_change {f : Host.FileTree → Except Host.Fault Host.FileTree} :
    Yields (session (Build.change f)) s u s' ↔
      ∃ tree, f s.session.tree = .ok tree ∧ s' = s.withTree tree := by
  rw [yields_session]
  constructor
  · rintro ⟨session', h, rfl⟩
    obtain ⟨tree, hf, rfl⟩ := Build.yields_change.1 h
    exact ⟨tree, hf, rfl⟩
  · rintro ⟨tree, hf, rfl⟩
    exact ⟨_, Build.yields_change.2 ⟨tree, hf, rfl⟩, rfl⟩

/-! ### What a step does to the assembler -/

theorem assembler_session {b : Build α} (h : Yields (session b) s a s') :
    s'.assembler = s.assembler := by
  obtain ⟨session', -, rfl⟩ := yields_session.1 h
  rfl

theorem assembler_openVolume {v : Fat.Volume} (h : Yields openVolume s v s') :
    ∃ volume, s'.assembler = { s.assembler with volume } := by
  rw [openVolume, yields_bind] at h
  obtain ⟨x, s₁, hx, h₁⟩ := h
  obtain ⟨rfl, rfl⟩ := yields_assembler.1 hx
  cases hsealed : s₁.assembler.sealed with
  | true =>
    simp only [hsealed, if_true] at h₁
    obtain ⟨u, s₂, hfail, -⟩ := yields_bind.1 h₁
    obtain ⟨session', hthrow, -⟩ := yields_session.1 hfail
    exact absurd hthrow not_yields_throw
  | false =>
    simp only [hsealed] at h₁
    cases hvolume : s₁.assembler.volume with
    | some v' =>
      simp only [hvolume] at h₁
      obtain ⟨-, rfl⟩ := yields_pure.1 h₁
      exact ⟨_, rfl⟩
    | none =>
      simp only [hvolume] at h₁
      obtain ⟨c, s₂, hread, h₂⟩ := yields_bind.1 h₁
      obtain ⟨-, rfl⟩ := yields_query.1 hread
      obtain ⟨v', s₃, hv, h₃⟩ := yields_bind.1 h₂
      obtain ⟨-, rfl⟩ := yields_ofExcept.1 hv
      obtain ⟨u, s₄, hupdate, h₄⟩ := yields_bind.1 h₃
      obtain rfl := yields_update.1 hupdate
      obtain ⟨-, rfl⟩ := yields_pure.1 h₄
      exact ⟨some v', rfl⟩

theorem assembler_edit {v : Fat.Volume} {change : Edit α} (h : Yields (edit v change) s a s') :
    ∃ volume, s'.assembler = { s.assembler with volume } := by
  rw [edit, yields_bind] at h
  obtain ⟨x, s₁, hx, h₁⟩ := h
  obtain ⟨rfl, rfl⟩ := yields_assembler.1 hx
  obtain ⟨c, s₂, hread, h₂⟩ := yields_bind.1 h₁
  obtain ⟨-, rfl⟩ := yields_query.1 hread
  obtain ⟨u, s₃, hwrite, h₃⟩ := yields_bind.1 h₂
  have hassembler := assembler_session hwrite
  obtain ⟨u, s₄, hupdate, h₄⟩ := yields_bind.1 h₃
  obtain rfl := yields_update.1 hupdate
  rw [assembler_session h₄, hassembler]
  exact ⟨_, rfl⟩

theorem assembler_sealImage (h : Yields sealImage s u s') :
    s'.assembler = { s.assembler with volume := none, sealed := true } := by
  rw [sealImage, yields_bind] at h
  obtain ⟨x, s₁, hx, h₁⟩ := h
  obtain ⟨rfl, rfl⟩ := yields_assembler.1 hx
  cases hvolume : s₁.assembler.volume with
  | none =>
    simp only [hvolume] at h₁
    rw [yields_update.1 h₁]
  | some v =>
    simp only [hvolume] at h₁
    obtain ⟨c, s₂, hread, h₂⟩ := yields_bind.1 h₁
    obtain ⟨-, rfl⟩ := yields_query.1 hread
    obtain ⟨u, s₃, hwrite, h₃⟩ := yields_bind.1 h₂
    rw [yields_update.1 h₃, assembler_session hwrite]

/-! ### How copying a file ends -/

/-- A file that is to be copied is recorded as missing, with the reason, or written to the volume
and recorded as copied. -/
theorem copyFile_cases {source : Path} {dest : String} {copied : Bool}
    (h : Yields (copyFile source dest) s copied s') : ∃ v s₁ s₂ message isFile,
      Yields openVolume s v s₁ ∧ Yields (session (Build.log message)) s₂ () s' ∧
        s₁.session.tree.isFile source = .ok isFile ∧
        copied = (isFile && Fat.isValidName (lastName dest)) ∧
        ((copied = false ∧ Yields (recordMissing (.ofPath source dest
            (if isFile then "name not representable on FAT" else "not found"))) s₁ () s₂) ∨
          copied = true ∧ ∃ content s₃, s₁.session.tree.read source = .ok content ∧
            Yields (edit v (Edit.writeFile dest content content.size)) s₁ () s₃ ∧
            Yields (update fun a => { a with report := { a.report with
              copied := a.report.copied ++ [⟨source, dest⟩] } }) s₃ () s₂) := by
  rw [copyFile_eq, yields_bind] at h
  obtain ⟨v, s₁, hopen, h₁⟩ := h
  obtain ⟨isFile, s₂, hfile, h₂⟩ := yields_bind.1 h₁
  obtain ⟨hfile, rfl⟩ := yields_query.1 hfile
  cases isFile with
  | false =>
    obtain ⟨u, s₃, hmissing, h₃⟩ := yields_bind.1 h₂
    obtain ⟨u, s₄, hlog, h₄⟩ := yields_bind.1 h₃
    obtain ⟨rfl, rfl⟩ := yields_pure.1 h₄
    exact ⟨v, s₂, s₃, _, false, hopen, hlog, hfile, rfl, .inl ⟨rfl, hmissing⟩⟩
  | true =>
    simp only [if_true] at h₂
    cases hname : Fat.isValidName (lastName dest) with
    | false =>
      simp only [hname] at h₂
      obtain ⟨u, s₃, hmissing, h₃⟩ := yields_bind.1 h₂
      obtain ⟨u, s₄, hlog, h₄⟩ := yields_bind.1 h₃
      obtain ⟨rfl, rfl⟩ := yields_pure.1 h₄
      exact ⟨v, s₂, s₃, _, true, hopen, hlog, hfile, rfl, .inl ⟨rfl, hmissing⟩⟩
    | true =>
      simp only [hname, if_true] at h₂
      obtain ⟨content, s₃, hread, h₃⟩ := yields_bind.1 h₂
      obtain ⟨hcontent, rfl⟩ := yields_query.1 hread
      obtain ⟨u, s₄, hedit, h₄⟩ := yields_bind.1 h₃
      obtain ⟨u, s₅, hupdate, h₅⟩ := yields_bind.1 h₄
      obtain ⟨u, s₆, hlog, h₆⟩ := yields_bind.1 h₅
      obtain ⟨rfl, rfl⟩ := yields_pure.1 h₆
      exact ⟨v, s₃, s₅, _, true, hopen, hlog, hfile, rfl,
        .inr ⟨rfl, content, s₄, hcontent, hedit, hupdate⟩⟩

/-- Copying a file records it as copied, or not at all. -/
theorem assembler_copyFile {source : Path} {dest : String} {copied : Bool}
    (h : Yields (copyFile source dest) s copied s') : s'.assembler.image = s.assembler.image ∧
      (s'.assembler.report.copied = s.assembler.report.copied ∨
        s'.assembler.report.copied = s.assembler.report.copied ++ [⟨source, dest⟩]) := by
  obtain ⟨v, s₁, s₂, message, isFile, hopen, hlog, -, -, hcase⟩ := copyFile_cases h
  obtain ⟨volume, hassembler₁⟩ := assembler_openVolume hopen
  rw [assembler_session hlog]
  rcases hcase with ⟨-, hmissing⟩ | ⟨-, content, s₃, -, hedit, hupdate⟩
  · obtain rfl := yields_update.1 hmissing
    rw [hassembler₁]
    exact ⟨rfl, .inl rfl⟩
  · obtain ⟨volume', hassembler₃⟩ := assembler_edit hedit
    obtain rfl := yields_update.1 hupdate
    rw [hassembler₃, hassembler₁]
    exact ⟨rfl, .inr rfl⟩

/-! ### The steps one after the other -/

/-- An image is assembled when each step gives a result: then it was made and formatted, had its
directories and files put into it, and was sealed. -/
theorem yields_assemble {own suite : List BinaryEntry} {missing : List MissingEntry}
    {report : Report} : Yields (assemble own suite missing) s report s' ↔
      ∃ s₁ s₂ g s₃ s₄ s₅ s₆ s₇, Yields (session announce) s () s₁ ∧ Yields createImage s₁ () s₂ ∧
        Yields format s₂ g s₃ ∧
        s₄ = { s₃ with assembler := { s₃.assembler with report := { s₃.assembler.report with
          missing := s₃.assembler.report.missing ++ missing } } } ∧
        Yields (forIn s₄.assembler.directories PUnit.unit fun directory _ => do
          makeDirectory directory
          pure (ForInStep.yield PUnit.unit)) s₄ PUnit.unit s₅ ∧
        Yields (forIn (own ++ suite) PUnit.unit fun entry _ => do
          let _ ← copyFile entry.source entry.dest
          pure (ForInStep.yield PUnit.unit)) s₅ PUnit.unit s₆ ∧
        Yields sealImage s₆ () s₇ ∧
        Yields (session (Build.log
          (s!"[OK]    {s₇.assembler.image.name} — {s₇.assembler.report.copied.length} files, " ++
            s!"{s₇.assembler.report.missing.length} skipped"))) s₇ () s' ∧
        report = s₇.assembler.report := by
  have hhandler : ∀ (e : Failure) (s₁ s₂ : State) (u : Unit), ¬ Yields (do
      sealImage
      throw e) s₁ u s₂ := by
    intro e s₁ s₂ u h
    obtain ⟨u, s₃, -, hthrow⟩ := yields_bind.1 h
    exact not_yields_throw hthrow
  rw [assemble]
  constructor
  · intro h
    obtain ⟨_, s₁, hannounce, h₁⟩ := yields_bind.1 h
    obtain ⟨_, s₂, hcreate, h₂⟩ := yields_bind.1 h₁
    obtain ⟨g, s₃, hformat, h₃⟩ := yields_bind.1 h₂
    obtain ⟨_, s₄, hupdate, h₄⟩ := yields_bind.1 h₃
    obtain ⟨_, s₆, htry, h₆⟩ := yields_bind.1 h₄
    rw [yields_tryCatch fun e s₁ => hhandler e s₁ _ _] at htry
    obtain ⟨_, _, hx, hloops⟩ := yields_bind.1 htry
    obtain ⟨rfl, rfl⟩ := yields_assembler.1 hx
    obtain ⟨_, s₅, hmake, hcopies⟩ := yields_bind.1 hloops
    obtain ⟨_, _, hcopy, hpure⟩ := yields_bind.1 hcopies
    obtain ⟨-, rfl⟩ := yields_pure.1 hpure
    obtain ⟨_, s₇, hseal, h₇⟩ := yields_bind.1 h₆
    obtain ⟨_, _, hx', h₈⟩ := yields_bind.1 h₇
    obtain ⟨rfl, rfl⟩ := yields_assembler.1 hx'
    obtain ⟨_, s₈, hlog, h₉⟩ := yields_bind.1 h₈
    obtain ⟨rfl, rfl⟩ := yields_pure.1 h₉
    exact ⟨s₁, s₂, g, s₃, _, s₅, _, _, hannounce, hcreate, hformat, yields_update.1 hupdate,
      hmake, hcopy, hseal, hlog, rfl⟩
  · rintro ⟨s₁, s₂, g, s₃, s₄, s₅, s₆, s₇, hannounce, hcreate, hformat, hupdate, hmake, hcopy,
      hseal, hlog, rfl⟩
    refine yields_bind.2 ⟨(), s₁, hannounce, yields_bind.2 ⟨(), s₂, hcreate, yields_bind.2 ⟨g, s₃,
      hformat, yields_bind.2 ⟨(), s₄, yields_update.2 hupdate, yields_bind.2 ⟨(), s₆, ?_, ?_⟩⟩⟩⟩⟩
    · rw [yields_tryCatch fun e s₁ => hhandler e s₁ _ _]
      exact yields_bind.2 ⟨_, s₄, yields_assembler.2 ⟨rfl, rfl⟩, yields_bind.2 ⟨_, s₅, hmake,
        yields_bind.2 ⟨_, s₆, hcopy, yields_pure.2 ⟨rfl, rfl⟩⟩⟩⟩
    · exact yields_bind.2 ⟨(), s₇, hseal, yields_bind.2 ⟨_, s₇, yields_assembler.2 ⟨rfl, rfl⟩,
        yields_bind.2 ⟨(), s', hlog, yields_pure.2 ⟨rfl, rfl⟩⟩⟩⟩

/-! ### What every step leaves alone -/

/-- What every step of an assembly leaves alone, once there is an image at a place: the tree has
only grown outside it, and the log file and the image are still at the paths where they were. -/
structure State.Onward (place : List String) (s s' : State) : Prop where
  tree : s.session.tree.Grows {place} s.session.logFile s'.session.tree
  logFile : s'.session.logFile = s.session.logFile
  image : s'.assembler.image = s.assembler.image

theorem State.Onward.trans {place : List String} {s'' : State} (h : s.Onward place s')
    (h' : s'.Onward place s'') : s.Onward place s'' :=
  ⟨h.tree.trans (h.logFile ▸ h'.tree), h'.logFile.trans h.logFile, h'.image.trans h.image⟩

theorem State.Onward.of_update {f : Assembler → Assembler} (place : List String)
    (h : Yields (update f) s u s') (hf : (f s.assembler).image = s.assembler.image) :
    s.Onward place s' := by
  obtain rfl := yields_update.1 h
  exact ⟨.refl .., rfl, hf⟩

theorem onward_log {message : String} (place : List String)
    (h : Yields (session (Build.log message)) s u s') :
    s.Onward place s' ∧ s'.assembler = s.assembler := by
  obtain ⟨session', hlog, rfl⟩ := yields_session.1 h
  obtain ⟨hgrows, hfile⟩ := Build.grows_log hlog
  exact ⟨⟨hgrows.mono (Set.empty_subset _), hfile, rfl⟩, rfl⟩

/-! ### The volume and its image -/

/-- What an assembly works on: a volume, which is open or can be opened, with its image, which is at
a place of the tree. -/
structure State.Carries (s : State) (place : List String) (d : Disk) : Prop where
  unsealed : s.assembler.sealed = false
  located : s.session.tree.locate s.assembler.image = .ok place
  content : s.session.tree.content? place = some d.content
  image : d.volume.image = toString s.assembler.image
  volume : s.assembler.volume = some d.volume ∨ s.assembler.volume = none ∧
    Fat.Volume.ofContent d.volume.image d.content false = .ok d.volume

namespace State.Carries

variable {place : List String} {d : Disk}

/-- What is read at the path of the image is its content. -/
theorem read_image (h : s.Carries place d) {c : Content}
    (hread : s.session.tree.read s.assembler.image = .ok c) : c = d.content := by
  obtain ⟨place', hplace, hc⟩ := Host.FileTree.read_eq_ok.1 hread
  cases h.located.symm.trans hplace
  exact Option.some.inj (hc.symm.trans h.content)

/-- What is written at the path of the image is put in its place. -/
theorem write_image (h : s.Carries place d) {c : Content} {tree : Host.FileTree}
    (hwrite : s.session.tree.write s.assembler.image c = .ok tree) :
    s.Onward place (s.withTree tree) ∧ tree.locate s.assembler.image = .ok place ∧
      tree.content? place = some c := by
  obtain ⟨place', hplace, hnode, rfl⟩ := Host.FileTree.write_eq_ok.1 hwrite
  cases h.located.symm.trans hplace
  have hgrows : s.session.tree.Grows {place} s.session.logFile (s.session.tree.put place c) :=
    Host.FileTree.grows_put hnode fun haway => absurd rfl haway
  exact ⟨⟨hgrows, rfl, rfl⟩, hgrows.locate h.located, Host.FileTree.content?_put_self ..⟩

/-- Logging may let the image go on. -/
theorem log {message : String} (h : s.Carries place d) (hs : d.Sound) (hd : d.Openable)
    (hlog : Yields (Assembly.session (Build.log message)) s u s') :
    ∃ content, d.content.Extends content ∧ s'.Carries place ⟨d.volume, content⟩ := by
  obtain ⟨session', hrun, rfl⟩ := yields_session.1 hlog
  obtain ⟨hgrows, -⟩ := Build.grows_log hrun
  obtain ⟨content, hcontent, hextends, -⟩ :=
    hgrows.content place (Set.notMem_empty _) _ h.content
  refine ⟨content, hextends, h.unsealed, hgrows.locate h.located, hcontent, h.image, ?_⟩
  refine h.volume.imp_right fun ⟨hnone, hopen⟩ => ⟨hnone, ?_⟩
  exact (hd.ofContent_extends hs hextends false).trans hopen

theorem opened (h : s.Carries place d) : State.Carries
    { s with assembler := { s.assembler with volume := some d.volume } } place d :=
  ⟨h.unsealed, h.located, h.content, h.image, .inl rfl⟩

/-- The volume is the one that is carried, whether it was open or not. -/
theorem openVolume {v : Fat.Volume} (h : s.Carries place d) (hopen : Yields openVolume s v s') :
    v = d.volume ∧ s' = { s with assembler := { s.assembler with volume := some d.volume } } := by
  rw [Assembly.openVolume, yields_bind] at hopen
  obtain ⟨x, s₁, hx, hopen⟩ := hopen
  obtain ⟨rfl, rfl⟩ := yields_assembler.1 hx
  simp only [h.unsealed] at hopen
  rcases h.volume with hvolume | ⟨hnone, hvolume⟩
  · simp only [hvolume] at hopen
    obtain ⟨rfl, rfl⟩ := yields_pure.1 hopen
    refine ⟨rfl, ?_⟩
    rw [← hvolume]
  · simp only [hnone] at hopen
    obtain ⟨c, s₂, hread, hopen⟩ := yields_bind.1 hopen
    obtain ⟨hread, rfl⟩ := yields_query.1 hread
    obtain rfl := h.read_image hread
    obtain ⟨v', s₃, hv, hopen⟩ := yields_bind.1 hopen
    obtain ⟨hv, rfl⟩ := yields_ofExcept.1 hv
    rw [← h.image, hvolume] at hv
    cases hv
    obtain ⟨u, s₄, hupdate, hopen⟩ := yields_bind.1 hopen
    obtain rfl := yields_update.1 hupdate
    obtain ⟨rfl, rfl⟩ := yields_pure.1 hopen
    exact ⟨rfl, rfl⟩

/-- A change of the volume gives what it gives on the disk that is carried. -/
theorem edit {change : Edit α} (h : s.Carries place d)
    (hedit : Yields (Assembly.edit d.volume change) s a s') :
    ∃ d', change.on d = (.ok a, d') ∧ s.Onward place s' ∧
      s'.assembler = { s.assembler with volume := some d'.volume } ∧
      (d'.volume.image = d.volume.image → s'.Carries place d') := by
  rw [Assembly.edit, yields_bind] at hedit
  obtain ⟨x, s₁, hx, hedit⟩ := hedit
  obtain ⟨rfl, rfl⟩ := yields_assembler.1 hx
  obtain ⟨c, s₂, hread, hedit⟩ := yields_bind.1 hedit
  obtain ⟨hread, rfl⟩ := yields_query.1 hread
  obtain rfl := h.read_image hread
  obtain ⟨u, s₃, hwrite, hedit⟩ := yields_bind.1 hedit
  obtain ⟨tree, htree, rfl⟩ := yields_change.1 hwrite
  obtain ⟨u, s₄, hupdate, hedit⟩ := yields_bind.1 hedit
  obtain rfl := yields_update.1 hupdate
  obtain ⟨hresult, rfl⟩ := yields_ofExcept.1 hedit
  obtain ⟨honward, hlocated, hcontent⟩ := h.write_image htree
  refine ⟨(change.on d).2, Prod.ext hresult rfl, ⟨honward.tree, rfl, rfl⟩, rfl, fun himage => ?_⟩
  exact ⟨h.unsealed, hlocated, hcontent, himage.trans h.image, .inl rfl⟩

/-- What is reported makes no difference, nor do the directories that are to be made. -/
theorem of_report (h : s.Carries place d) (htree : s'.session.tree = s.session.tree)
    (hassembler : s'.assembler = { s.assembler with
      report := s'.assembler.report, directories := s'.assembler.directories }) :
    s'.Carries place d := by
  constructor
  · rw [hassembler]
    exact h.unsealed
  · rw [htree, hassembler]
    exact h.located
  · rw [htree]
    exact h.content
  · rw [hassembler]
    exact h.image
  · rw [hassembler]
    exact h.volume

/-- Sealing writes the table of an open volume to the image. -/
theorem sealImage (h : s.Carries place d) (hvolume : s.assembler.volume = some d.volume)
    (hw : d.Writable) (hseal : Yields Assembly.sealImage s u s') : s.Onward place s' ∧
      s'.assembler.report = s.assembler.report ∧
      s'.session.tree.locate s.assembler.image = .ok place ∧
      s'.session.tree.content? place = some (Disk.flushed d.volume d.content) := by
  rw [Assembly.sealImage, yields_bind] at hseal
  obtain ⟨x, s₁, hx, h₁⟩ := hseal
  obtain ⟨rfl, rfl⟩ := yields_assembler.1 hx
  simp only [hvolume] at h₁
  obtain ⟨c, s₂, hread, h₂⟩ := yields_bind.1 h₁
  obtain ⟨hread, rfl⟩ := yields_query.1 hread
  obtain rfl := h.read_image hread
  obtain ⟨u, s₃, hwrite, h₃⟩ := yields_bind.1 h₂
  obtain ⟨tree, htree, rfl⟩ := yields_change.1 hwrite
  have hwritten := h.write_image htree
  rw [hw.close_eq] at hwritten
  obtain ⟨honward, hlocated, hcontent⟩ := hwritten
  have hupdate := State.Onward.of_update place h₃ rfl
  obtain rfl := yields_update.1 h₃
  exact ⟨honward.trans hupdate, rfl, hlocated, hcontent⟩

end State.Carries

/-- The image of an assembly can be changed, and holds a catalog. -/
structure State.Fills (s : State) (place : List String) (d : Disk) (G : Catalog) : Prop where
  carries : s.Carries place d
  holds : ∃ K, d.Holds G K []
  writable : d.Writable
  openable : d.Openable

/-- Logging may let the image go on, which holds what it held. -/
theorem State.Fills.log {place : List String} {d : Disk} {G : Catalog} {message : String}
    (h : s.Fills place d G) (hlog : Yields (Assembly.session (Build.log message)) s u s') :
    ∃ content, s'.Fills place ⟨d.volume, content⟩ G := by
  obtain ⟨K, hholds⟩ := h.holds
  obtain ⟨content, hextends, hcarries⟩ := h.carries.log hholds.sound h.openable hlog
  exact ⟨content, hcarries, ⟨K, hholds.extend hextends⟩, h.writable,
    h.openable.extend hholds.sound hextends⟩

/-! ### A new image -/

theorem assembler_createImage (h : Yields createImage s u s') : s'.assembler =
    { s.assembler with formatted := false, sealed := false,
                       report := { image := s.assembler.image } } := by
  rw [createImage, yields_bind] at h
  obtain ⟨x, s₁, hx, hrest⟩ := h
  obtain ⟨rfl, rfl⟩ := yields_assembler.1 hx
  by_cases hsize : s₁.assembler.blockSize ≤ 0 ∨ s₁.assembler.blockCount ≤ 0
  · simp only [hsize, if_true] at hrest
    obtain ⟨u, s₂, hfail, -⟩ := yields_bind.1 hrest
    obtain ⟨session', hthrow, -⟩ := yields_session.1 hfail
    exact absurd hthrow not_yields_throw
  · simp only [hsize, if_false] at hrest
    obtain ⟨u, s₂, hsession, hupdate⟩ := yields_bind.1 hrest
    obtain ⟨session', -, rfl⟩ := yields_session.1 hsession
    rw [yields_update.1 hupdate]

theorem yields_formatFile {session session' : Session} {image : Path} {sectorsPerCluster : Int}
    {label : String} {id : Int} {g : Fat.Geometry} :
    Yields (formatFile image sectorsPerCluster label id) session g session' ↔
      ∃ content content' tree, session.tree.read image = .ok content ∧
        Fat.formatImage content sectorsPerCluster label id = .ok (g, content') ∧
        session.tree.write image content' = .ok tree ∧ session' = { session with tree } := by
  rw [formatFile, yields_bind]
  constructor
  · rintro ⟨isFile, session₁, hfile, h₁⟩
    obtain ⟨-, rfl⟩ := Build.yields_query.1 hfile
    cases isFile with
    | false =>
      obtain ⟨u, session₂, hfail, -⟩ := yields_bind.1 h₁
      exact absurd hfail not_yields_throw
    | true =>
      obtain ⟨content, session₂, hquery, h₂⟩ := yields_bind.1 h₁
      obtain ⟨hread, rfl⟩ := Build.yields_query.1 hquery
      obtain ⟨⟨g', content'⟩, session₃, hexcept, h₃⟩ := yields_bind.1 h₂
      obtain ⟨hformat, rfl⟩ := Build.yields_ofExcept.1 hexcept
      obtain ⟨u, session₄, hchange, h₄⟩ := yields_bind.1 h₃
      obtain ⟨tree, hwrite, rfl⟩ := Build.yields_change.1 hchange
      obtain ⟨rfl, rfl⟩ := yields_pure.1 h₄
      exact ⟨content, content', tree, hread, hformat, hwrite, rfl⟩
  · rintro ⟨content, content', tree, hread, hformat, hwrite, rfl⟩
    refine ⟨true, session, Build.yields_query.2 ⟨Host.FileTree.isFile_of_read hread, rfl⟩, ?_⟩
    refine yields_bind.2 ⟨content, session, Build.yields_query.2 ⟨hread, rfl⟩, ?_⟩
    refine yields_bind.2 ⟨(g, content'), session, Build.yields_ofExcept.2 ⟨hformat, rfl⟩, ?_⟩
    exact yields_bind.2 ⟨(), _, Build.yields_change.2 ⟨tree, hwrite, rfl⟩, yields_pure.2 ⟨rfl, rfl⟩⟩

/-- An image that is formatted holds the empty root directory. -/
theorem fills_format {g : Fat.Geometry} (hvolume : s.assembler.volume = none)
    (hsealed : s.assembler.sealed = false) (h : Yields format s g s') :
    ∃ place d, s'.Fills place d d.newCatalog ∧ s'.assembler =
      { s.assembler with
        formatted := true, report := { s.assembler.report with geometry := g } } := by
  rw [format, yields_bind] at h
  obtain ⟨x, s₁, hx, h₁⟩ := h
  obtain ⟨rfl, rfl⟩ := yields_assembler.1 hx
  obtain ⟨g', s₂, hsession, h₂⟩ := yields_bind.1 h₁
  obtain ⟨session', hfile, rfl⟩ := yields_session.1 hsession
  obtain ⟨content, content', tree, -, hformat, hwrite, rfl⟩ := yields_formatFile.1 hfile
  obtain ⟨place, hplace, hnode, rfl⟩ := Host.FileTree.write_eq_ok.1 hwrite
  obtain ⟨u, s₃, hupdate, h₃⟩ := yields_bind.1 h₂
  obtain rfl := yields_update.1 hupdate
  obtain ⟨u, s₄, hlog, h₄⟩ := yields_bind.1 h₃
  obtain ⟨rfl, rfl⟩ := yields_pure.1 h₄
  obtain ⟨v, hv, hfresh⟩ := Fat.exists_fresh_of_formatImage hformat (toString s₁.assembler.image)
  obtain ⟨-, himage⟩ := Fat.Disk.ofBootSector_of_ofContent hv
  obtain ⟨hopen, hwritable, hholds⟩ := hfresh.holds
  have hgrows : s₁.session.tree.Grows {place} none (s₁.session.tree.put place content') :=
    Host.FileTree.grows_put hnode fun haway => absurd rfl haway
  have hlogged := fun hnew : State.Fills _ place ⟨v, content'⟩ (Disk.newCatalog ⟨v, content'⟩) =>
    hnew.log hlog
  obtain ⟨c, hfills⟩ := hlogged ⟨⟨hsealed, hgrows.locate hplace,
    Host.FileTree.content?_put_self .., himage, .inr ⟨hvolume, himage.symm ▸ hv⟩⟩, ⟨_, hholds⟩,
    ⟨hopen, hwritable⟩, hfresh.openable⟩
  exact ⟨place, _, hfills, (onward_log place hlog).2⟩

end BootImage.Assembly
