import BootImage.Proofs.Assembly.Images

/-!
# When the steps of an assembly give results

Each step of an assembly reads or writes the tree, and logs a line. Without a log file there is
nothing about a line that could fail, and so a step gives a result whenever what it asks of the tree
and of the volume is granted. What state it leaves is known for any step that gives a result.

## Main results

* `Assembly.exists_createImage`, `Assembly.exists_format`: making and formatting an image.
* `Assembly.State.Carries.exists_copyFile`: copying a file.
* `Assembly.State.Carries.exists_sealImage`: sealing the image.
* `Assembly.Ready.exists_assemble`: assembling an image with one file.
-/

namespace BootImage.Assembly

open Host (Path)
open Fat (Disk Edit)

variable {α : Type} {s : State} {place : List String} {d d' : Disk} {tree : Host.FileTree}

theorem exists_log (hfile : s.session.logFile = none) (message : String) :
    ∃ s', Yields (session (Build.log message)) s () s' ∧ s'.session.logFile = none ∧
      s'.session.tree = s.session.tree := by
  obtain ⟨session', hlog, htree, hfile'⟩ := Build.log_yields hfile message
  exact ⟨_, yields_session.2 ⟨session', hlog, rfl⟩, hfile', htree⟩

/-- An image is made where it can be written and the directory that it goes into is there. -/
theorem exists_createImage (hfile : s.session.logFile = none) (hsize : 0 < s.assembler.blockSize)
    (hcount : 0 < s.assembler.blockCount)
    (hparent : s.session.tree.makeDirectories s.assembler.image.parent = (.ok (), s.session.tree))
    (hwrite : s.session.tree.write s.assembler.image
      (Content.zeros s.assembler.capacity.toNat) = .ok tree) :
    ∃ s', Yields createImage s () s' ∧ s'.session.logFile = none ∧ s'.session.tree = tree := by
  obtain ⟨session', hlog, htree, hfile'⟩ :=
    Build.log_yields (s := { s.session with tree }) hfile _
  refine ⟨{ s with
    session := session'
    assembler := { s.assembler with
      formatted := false, sealed := false, report := { image := s.assembler.image } } },
    ?_, hfile', htree⟩
  rw [createImage]
  refine yields_bind.2 ⟨_, s, yields_assembler.2 ⟨rfl, rfl⟩, ?_⟩
  rw [if_neg (by omega)]
  refine yields_bind.2 ⟨(), { s with session := session' }, yields_session.2 ⟨session', ?_, rfl⟩,
    yields_update.2 rfl⟩
  refine yields_bind.2
    ⟨(), s.session, Build.yields_makeDirectories.2 ⟨by rw [hparent], by rw [hparent]⟩, ?_⟩
  exact yields_bind.2 ⟨(), _, Build.yields_change.2 ⟨tree, hwrite, rfl⟩, hlog⟩

/-- An image is formatted where it can be read and written, and has a size that can be formatted. -/
theorem exists_format {content content' : Content} {g : Fat.Geometry}
    (hfile : s.session.logFile = none)
    (hread : s.session.tree.read s.assembler.image = .ok content)
    (hformat : Fat.formatImage content s.assembler.sectorsPerCluster Fat.defaultLabel
      Fat.defaultVolumeId = .ok (g, content'))
    (hwrite : s.session.tree.write s.assembler.image content' = .ok tree) :
    ∃ s', Yields format s g s' ∧ s'.session.logFile = none ∧ s'.session.tree = tree := by
  obtain ⟨s', hlog, hfile', htree⟩ := exists_log (s := { s.withTree tree with assembler :=
    { s.assembler with formatted := true, report := { s.assembler.report with geometry := g } } })
    hfile _
  refine ⟨s', ?_, hfile', htree⟩
  rw [format]
  refine yields_bind.2 ⟨_, s, yields_assembler.2 ⟨rfl, rfl⟩, ?_⟩
  refine yields_bind.2 ⟨g, s.withTree tree, yields_session.2 ⟨_, yields_formatFile.2
    ⟨content, content', tree, hread, hformat, hwrite, rfl⟩, rfl⟩, ?_⟩
  exact yields_bind.2 ⟨(), _, yields_update.2 rfl,
    yields_bind.2 ⟨(), s', hlog, yields_pure.2 ⟨rfl, rfl⟩⟩⟩

namespace State.Carries

theorem read_eq (h : s.Carries place d) : s.session.tree.read s.assembler.image = .ok d.content :=
  Host.FileTree.read_eq_ok.2 ⟨place, h.located, h.content⟩

theorem write_eq (h : s.Carries place d) (c : Content) :
    s.session.tree.write s.assembler.image c = .ok (s.session.tree.put place c) := by
  refine Host.FileTree.write_eq_ok.2 ⟨place, h.located, fun hnode => ?_, rfl⟩
  obtain ⟨executable, hfile⟩ := Host.FileTree.content?_eq_some.1 h.content
  cases hnode.symm.trans hfile

theorem exists_openVolume (h : s.Carries place d) :
    ∃ s', Yields Assembly.openVolume s d.volume s' ∧
      s'.session.logFile = s.session.logFile := by
  rw [Assembly.openVolume]
  refine Yields.bind (yields_assembler.2 ⟨rfl, rfl⟩) ?_
  simp only [h.unsealed]
  rcases h.volume with hvolume | ⟨hnone, hvolume⟩
  · simp only [hvolume]
    exact ⟨s, yields_pure.2 ⟨rfl, rfl⟩, rfl⟩
  · simp only [hnone]
    rw [h.image] at hvolume
    refine Yields.bind (yields_query.2 ⟨h.read_eq, rfl⟩) ?_
    refine Yields.bind (yields_ofExcept.2 ⟨hvolume, rfl⟩) ?_
    exact Yields.bind (a := ()) (yields_update.2 rfl) ⟨_, yields_pure.2 ⟨rfl, rfl⟩, rfl⟩

theorem exists_edit {change : Edit α} {a : α} (h : s.Carries place d)
    (hchange : change.on d = (.ok a, d')) :
    ∃ s', Yields (Assembly.edit d.volume change) s a s' ∧
      s'.session.logFile = s.session.logFile := by
  rw [Assembly.edit]
  refine Yields.bind (yields_assembler.2 ⟨rfl, rfl⟩) ?_
  refine Yields.bind (yields_query.2 ⟨h.read_eq, rfl⟩) ?_
  refine Yields.bind (a := ()) (yields_change.2 ⟨_, h.write_eq _, rfl⟩) ?_
  refine Yields.bind (a := ()) (yields_update.2 rfl) ?_
  exact ⟨_, yields_ofExcept.2 ⟨congrArg Prod.fst hchange, rfl⟩, rfl⟩

/-- A file is copied where it can be read, has a name that the image can have, and can be written to
the volume. -/
theorem exists_copyFile {source : Path} {dest : String} {content : Content}
    (h : s.Carries place d) (hfile : s.session.logFile = none)
    (hread : s.session.tree.read source = .ok content)
    (hname : Fat.isValidName (lastName dest) = true)
    (hchange : (Edit.writeFile dest content content.size).on d = (.ok (), d'))
    (himage : d'.volume.image = d.volume.image) :
    ∃ s', Yields (copyFile source dest) s true s' ∧ s'.session.logFile = none ∧
      s'.assembler.report.copied = s.assembler.report.copied ++ [⟨source, dest⟩] ∧
      s'.Carries place d' := by
  obtain ⟨s₁, hopen, -⟩ := h.exists_openVolume
  obtain ⟨-, rfl⟩ := h.openVolume hopen
  obtain ⟨s₂, hedit, hfile₂⟩ := h.opened.exists_edit hchange
  obtain ⟨_, hchange', -, hassembler, hcarries⟩ := h.opened.edit hedit
  cases hchange.symm.trans hchange'
  obtain ⟨s₃, hlog, hfile₃, htree₃⟩ := exists_log (s := { s₂ with assembler := { s₂.assembler with
    report := { s₂.assembler.report with
      copied := s₂.assembler.report.copied ++ [⟨source, dest⟩] } } }) (hfile₂.trans hfile)
    s!"  ✓ {source.name} → ::{dest}"
  have hassembler₃ := assembler_session hlog
  refine ⟨s₃, ?_, hfile₃, ?_, (hcarries himage).of_report htree₃ (by rw [hassembler₃])⟩
  · rw [copyFile_eq]
    refine yields_bind.2 ⟨_, _, hopen, ?_⟩
    refine yields_bind.2 ⟨true, _, yields_query.2 ⟨Host.FileTree.isFile_of_read hread, rfl⟩, ?_⟩
    simp only [hname, if_true]
    refine yields_bind.2 ⟨content, _, yields_query.2 ⟨hread, rfl⟩, ?_⟩
    refine yields_bind.2 ⟨(), s₂, hedit, ?_⟩
    refine yields_bind.2 ⟨(), _, yields_update.2 rfl, ?_⟩
    exact yields_bind.2 ⟨(), s₃, hlog, yields_pure.2 ⟨rfl, rfl⟩⟩
  · rw [hassembler₃, hassembler]

theorem exists_sealImage (h : s.Carries place d) :
    ∃ s', Yields Assembly.sealImage s () s' ∧ s'.session.logFile = s.session.logFile := by
  rw [Assembly.sealImage]
  refine Yields.bind (yields_assembler.2 ⟨rfl, rfl⟩) ?_
  cases hvolume : s.assembler.volume with
  | none => exact ⟨_, yields_update.2 rfl, rfl⟩
  | some v =>
    refine Yields.bind (yields_query.2 ⟨h.read_eq, rfl⟩) ?_
    exact Yields.bind (a := ()) (yields_change.2 ⟨_, h.write_eq _, rfl⟩)
      ⟨_, yields_update.2 rfl, rfl⟩

end State.Carries

/-! ### Assembling one file -/

/-- A session in which an assembler can make and format its image: there is no log file, the image
goes to a place where nothing is so far, and what is formatted can be opened. -/
structure Ready (x : Assembler) (t : Session) (place : List String) (g : Fat.Geometry) (d : Disk) :
    Prop where
  logFile : t.logFile = none
  blockSize : 0 < x.blockSize
  blockCount : 0 < x.blockCount
  volume : x.volume = none
  parent : t.tree.makeDirectories x.image.parent = (.ok (), t.tree)
  located : t.tree.locate x.image = .ok place
  vacant : t.tree.node? place = none
  formatted : Fat.formatImage (Content.zeros x.capacity.toNat) x.sectorsPerCluster
    Fat.defaultLabel Fat.defaultVolumeId = .ok (g, d.content)
  opened : Fat.Volume.ofContent (toString x.image) d.content false = .ok d.volume

variable {x : Assembler} {t : Session} {g : Fat.Geometry}

/-- Where nothing is so far, an image is made and formatted, and nothing else changes. -/
theorem Ready.exists_format (h : Ready x t place g d) :
    ∃ s₁ s₂ s₃, Yields (session announce) ⟨x, t⟩ () s₁ ∧ Yields createImage s₁ () s₂ ∧
      Yields format s₂ g s₃ ∧ s₃.session.logFile = none ∧ s₃.Carries place d ∧
      s₃.assembler.directories = x.directories ∧ s₃.assembler.report.copied = [] ∧
      t.tree.Grows {place} none s₃.session.tree := by
  obtain ⟨s₁, hannounce, hfile₁, htree₁⟩ := exists_log (s := ⟨x, t⟩) h.logFile
    "=== ASSEMBLING FILESYSTEM IMAGE ==="
  have hassembler₁ : s₁.assembler = x := assembler_session hannounce
  have hput : ∀ c, t.tree.Grows {place} none (t.tree.put place c) := fun c =>
    Host.FileTree.grows_put (by simp [h.vacant]) fun haway => absurd rfl haway
  -- An image of zeros is made.
  obtain ⟨s₂, hcreate, hfile₂, htree₂⟩ := exists_createImage hfile₁ (hassembler₁ ▸ h.blockSize)
    (hassembler₁ ▸ h.blockCount) (by rw [hassembler₁, htree₁, h.parent]) (by
      rw [hassembler₁, htree₁]
      exact Host.FileTree.write_eq_ok.2 ⟨place, h.located, by simp [h.vacant], rfl⟩)
  have hassembler₂ := assembler_createImage hcreate
  rw [hassembler₁] at hassembler₂
  have hcontent₂ := Host.FileTree.content?_put_self t.tree place (Content.zeros x.capacity.toNat)
  rw [← htree₂] at hcontent₂
  have hplace₂ : s₂.session.tree.locate x.image = .ok place :=
    htree₂ ▸ (hput _).locate h.located
  have hnode₂ : s₂.session.tree.node? place ≠ some .directory := by
    obtain ⟨executable, hnode⟩ := Host.FileTree.content?_eq_some.1 hcontent₂
    simp [hnode]
  -- The image is formatted.
  obtain ⟨s₃, hformat, hfile₃, htree₃⟩ := Assembly.exists_format hfile₂
    (by rw [hassembler₂]; exact Host.FileTree.read_eq_ok.2 ⟨place, hplace₂, hcontent₂⟩)
    (by rw [hassembler₂]; exact h.formatted)
    (by rw [hassembler₂]; exact Host.FileTree.write_eq_ok.2 ⟨place, hplace₂, hnode₂, rfl⟩)
  obtain ⟨-, -, -, hassembler₃⟩ := fills_format (by rw [hassembler₂, h.volume])
    (by rw [hassembler₂]) hformat
  rw [hassembler₂] at hassembler₃
  have hgrows : t.tree.Grows {place} none s₃.session.tree := by
    rw [htree₃, htree₂]
    refine (hput _).trans (Host.FileTree.grows_put ?_ fun haway => absurd rfl haway)
    rwa [← htree₂]
  have himage := (Disk.ofBootSector_of_ofContent h.opened).2
  refine ⟨s₁, s₂, s₃, hannounce, hcreate, hformat, hfile₃, ⟨?_, ?_, ?_, ?_, .inr ⟨?_, ?_⟩⟩, ?_, ?_,
    hgrows⟩
  · rw [hassembler₃]
  · rw [hassembler₃]
    exact hgrows.locate h.located
  · rw [htree₃]
    exact Host.FileTree.content?_put_self ..
  · rw [hassembler₃]
    exact himage
  · rw [hassembler₃, h.volume]
  · exact himage ▸ h.opened
  · rw [hassembler₃]
  · rw [hassembler₃]

/-- An assembly without directories copies a file that can be read and written. -/
theorem Ready.exists_assemble {source : Path} {dest : String} {content : Content}
    (h : Ready x t place g d) (hdirectories : x.directories = [])
    (hread : t.tree.read source = .ok content)
    (hname : Fat.isValidName (lastName dest) = true)
    (hchange : (Edit.writeFile dest content content.size).on d = (.ok (), d'))
    (himage : d'.volume.image = d.volume.image) (missing : List MissingEntry) :
    ∃ report s', Yields (assemble [⟨source, dest⟩] [] missing) ⟨x, t⟩ report s' ∧
      s'.session.logFile = none ∧ report.copied = [⟨source, dest⟩] := by
  obtain ⟨s₁, s₂, s₃, hannounce, hcreate, hformat, hfile₃, hcarries₃, hdirectories₃, hcopied₃,
    hgrows⟩ := h.exists_format
  obtain ⟨s₄, hs₄⟩ : ∃ s₄ : State, s₄ = { s₃ with assembler := { s₃.assembler with
    report := { s₃.assembler.report with missing := s₃.assembler.report.missing ++ missing } } } :=
      ⟨_, rfl⟩
  have hcarries₄ : s₄.Carries place d := hcarries₃.of_report (by rw [hs₄]) (by rw [hs₄])
  obtain ⟨s₅, hcopy, hfile₅, hcopied₅, hcarries₅⟩ := hcarries₄.exists_copyFile
    (by rw [hs₄, hfile₃]) (by rw [hs₄, hgrows.read_of_vacant h.vacant hread]) hname hchange
    himage
  obtain ⟨s₆, hseal, hfile₆⟩ := hcarries₅.exists_sealImage
  obtain ⟨s₇, hlog, hfile₇, -⟩ := exists_log (hfile₆.trans hfile₅)
    (s!"[OK]    {s₆.assembler.image.name} — {s₆.assembler.report.copied.length} files, " ++
      s!"{s₆.assembler.report.missing.length} skipped")
  refine ⟨_, s₇, yields_assemble.2 ⟨s₁, s₂, g, s₃, s₄, s₄, s₅, s₆, hannounce, hcreate, hformat, hs₄,
    ?_, ?_, hseal, hlog, rfl⟩, hfile₇, ?_⟩
  · rw [hs₄, hdirectories₃, hdirectories, List.forIn_nil]
    exact yields_pure.2 ⟨rfl, rfl⟩
  · rw [List.append_nil, List.forIn_cons]
    exact yields_bind.2 ⟨_, s₅, yields_bind.2 ⟨true, s₅, hcopy, yields_pure.2 ⟨rfl, rfl⟩⟩,
      yields_pure.2 ⟨rfl, rfl⟩⟩
  · rw [assembler_sealImage hseal, hcopied₅, hs₄, hcopied₃]
    rfl

/-- An image in the current directory can be made and formatted if it has not been there before. -/
theorem exists_ready (directories : List String) (hfile : t.logFile = none)
    (hparent : t.tree.makeDirectories ⟨"", []⟩ = (.ok (), t.tree))
    (hlocated : t.tree.locate ⟨"", ["fs.img"]⟩ = .ok place)
    (hvacant : t.tree.node? place = none) :
    ∃ g d, Ready { image := ⟨"", ["fs.img"]⟩, directories } t place g d ∧ d.Fresh := by
  obtain ⟨g, image, hformat⟩ := Fat.exists_formatImage
  obtain ⟨v, hopen, hfresh⟩ := Fat.exists_fresh_of_formatImage hformat "fs.img"
  have hsize : (0 : Int) < 512 ∧ (0 : Int) < 131072 := by decide
  exact ⟨g, ⟨v, image⟩, ⟨hfile, hsize.1, hsize.2, rfl, hparent, hlocated, hvacant, hformat,
    hopen⟩, hfresh⟩

/-- A small file is copied to the root directory of an image in the current directory, which has not
been there before. -/
theorem exists_assemble_small {source : Path} {dest name : String} {content : Content}
    {spelling : Fat.Spelling} (hfile : t.logFile = none)
    (hparent : t.tree.makeDirectories ⟨"", []⟩ = (.ok (), t.tree))
    (hlocated : t.tree.locate ⟨"", ["fs.img"]⟩ = .ok place) (hvacant : t.tree.node? place = none)
    (hread : t.tree.read source = .ok content) (hname : Fat.isValidName (lastName dest) = true)
    (hpath : Fat.splitPath dest = [name])
    (hspelling : Fat.spellingOf name (fun _ => false) = .ok spelling)
    (hsmall : content.size + (spelling.longPart.length + 1) ≤ Fat.Error.minClusters - 1)
    (missing : List MissingEntry) :
    ∃ report s', Yields (assemble [⟨source, dest⟩] [] missing)
        ⟨{ image := ⟨"", ["fs.img"]⟩, directories := [] }, t⟩ report s' ∧
      s'.session.logFile = none ∧ report.copied = [⟨source, dest⟩] := by
  obtain ⟨g, d, hready, hfresh⟩ := exists_ready [] hfile hparent hlocated hvacant
  have hsupplied : (Fat.Call.writeFile dest content content.size).Supplied := by
    rw [Fat.Call.supplied_iff]
    omega
  obtain ⟨d', _, _, _, _, hchange, halike, -, -⟩ :=
    hfresh.writeFile_on hpath hspelling hsupplied (by omega)
  rw [Fat.Call.on, Fat.Call.edit] at hchange
  exact hready.exists_assemble rfl hread hname hchange halike.image missing

end BootImage.Assembly
