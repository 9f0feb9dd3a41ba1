import BootImage.Proofs.Assembly.Replaying
import BootImage.Proofs.Fat.Filling
import BootImage.Proofs.Fat.Refinement

/-!
# What was copied is in the image

An assembly reports which files it copied, and each of them is to be found in the image in the end.
A later copy to the same destination takes its place, of course. So may one whose destination is
contested: the image makes up aliases without being asked, and one of them may be read like a name
that a directory or a file was given on purpose. Nothing else can happen to a file that was copied,
since a step that fails ends the assembly.

The bytes of the file are those it had when it was copied. No step changes a file of the host apart
from the image, which is too large to have been copied into itself, and the log file, which only
goes on.

## Main definitions

* `BinaryEntry.Lasts`: no later copy can take the place of one.
* `Session.Provides`: a file of the host has the bytes that were copied.
* `Assembly.State.Delivers`: what was copied so far is in the image.

## Main results

* `Assembly.State.Delivers.copyFile`, `Assembly.State.Delivers.makeDirectory`: single steps.
* `Assembly.read_copied`: a whole assembly.
* `Assembly.Formats.exists_copied`: small files are all copied.
-/

namespace BootImage

open Host (Path FileTree)
open Fat (Contested Disk Catalog Edit Usage key keys splitPath)

/-- The names in the paths of directories and in the destinations of copies. -/
def UsedName (directories : List String) (copied : List BinaryEntry) (name : String) : Prop :=
  (∃ path ∈ directories, name ∈ splitPath path) ∨ ∃ e ∈ copied, name ∈ splitPath e.dest

/-- A copy among others that lasts: no later one has the same destination, and from it on no name in
a destination is contested by those that are used. -/
def BinaryEntry.Lasts (used : String → Prop) (e : BinaryEntry) (copied : List BinaryEntry) : Prop :=
  ∃ before after, copied = before ++ e :: after ∧
    (∀ x ∈ e :: after, ∀ name ∈ splitPath x.dest, ¬ Contested used (key name)) ∧
    ∀ x ∈ after, keys x.dest ≠ keys e.dest

variable {used : String → Prop}

theorem BinaryEntry.not_lasts_nil (e : BinaryEntry) : ¬ e.Lasts used [] := by
  rintro ⟨before, after, h, -⟩
  simp at h

/-- A copy that lasts when there is one more is that one, or lasted before. -/
theorem BinaryEntry.Lasts.of_concat {e x : BinaryEntry} {copied : List BinaryEntry}
    (h : e.Lasts used (copied ++ [x])) : (∀ name ∈ splitPath x.dest, ¬ Contested used (key name)) ∧
      (e = x ∨ e.Lasts used copied ∧ keys x.dest ≠ keys e.dest) := by
  obtain ⟨before, after, heq, hfree, hother⟩ := h
  rcases List.eq_nil_or_concat' after with rfl | ⟨after, y, rfl⟩
  · obtain ⟨-, hx⟩ := List.append_inj' heq rfl
    obtain rfl := (List.cons.inj hx).1
    exact ⟨hfree _ List.mem_cons_self, .inl rfl⟩
  · rw [← List.cons_append, ← List.append_assoc] at heq
    obtain ⟨rfl, hx⟩ := List.append_inj' heq rfl
    obtain rfl := (List.cons.inj hx).1
    refine ⟨hfree _ (by simp), .inr ⟨⟨before, after, rfl, fun z hz => hfree z ?_, fun z hz =>
      hother z (List.mem_append_left _ hz)⟩, hother _ (by simp)⟩⟩
    rw [← List.cons_append]
    exact List.mem_append_left _ hz

/-! ### The files of the host -/

/-- A file of the host, which is not the image, has bytes. If it is the log file it may have more by
now. -/
def Session.Provides (s : Session) (image : List String) (source : Path) (bytes : Bytes) : Prop :=
  ∃ place c, s.tree.locate source = .ok place ∧ place ≠ image ∧ s.tree.content? place = some c ∧
    bytes <+: c.toBytes ∧ ((∀ p ∈ s.logFile, s.tree.locate p ≠ .ok place) → bytes = c.toBytes)

theorem Session.Provides.grow {s s' : Session} {image : List String} {source : Path} {bytes : Bytes}
    (h : s.Provides image source bytes) (hgrows : s.tree.Grows {image} s.logFile s'.tree)
    (hlog : s'.logFile = s.logFile) : s'.Provides image source bytes := by
  obtain ⟨place, c, hplace, hne, hc, hprefix, hsame⟩ := h
  obtain ⟨c', hc', hextends, hkept⟩ := hgrows.content place hne c hc
  refine ⟨place, c', hgrows.locate hplace, hne, hc', hprefix.trans hextends.toBytes_prefix, ?_⟩
  intro hother
  rw [hlog] at hother
  rw [hkept hother]
  exact hsame fun p hp hp' => hother p hp (hgrows.locate hp')

/-- Opening the image at a path, without the right to change it, and reading a path of it gives
bytes. -/
def Session.ImageHas (s : Session) (image : Path) (dest : String) (bytes : Bytes) : Prop :=
  ∃ content v, s.tree.read image = .ok content ∧
    Fat.Volume.ofContent (toString image) content true = .ok v ∧
    Disk.read ⟨v, content⟩ dest = .ok bytes

namespace Assembly

variable {U : Usage} {s s' : State} {u : Unit} {place : List String} {d d' : Disk} {G G' : Catalog}

/-! ### Single steps -/

/-- What was copied so far is in the image, as far as it lasts, with the bytes of the files. Nothing
is copied before the volume is opened. -/
structure State.Delivers (s : State) (U : Usage) (place : List String) (d : Disk) (G : Catalog) :
    Prop where
  fills : s.Fills place d G
  named : G.Named U
  aside : ∀ k, ¬ Contested U.used k → U.aside k = false
  opened : s.assembler.volume = none → s.assembler.report.copied = []
  delivered : ∀ e : BinaryEntry, e.Lasts U.used s.assembler.report.copied → ∃ spelling bytes,
    G.nodes U d.volume.geometry.rootCluster (keys e.dest) = some ⟨spelling, some bytes⟩ ∧
      s.session.Provides place e.source bytes

namespace State.Delivers

/-- A step that copies nothing and keeps the catalog. -/
theorem of_onward (h : s.Delivers U place d G) (honward : s.Onward place s')
    (hfills : s'.Fills place d' G) (hroot : d'.volume.geometry = d.volume.geometry)
    (hcopied : s'.assembler.report.copied = s.assembler.report.copied)
    (hopened : s'.assembler.volume = none → s.assembler.volume = none) :
    s'.Delivers U place d' G := by
  refine ⟨hfills, h.named, h.aside, fun hnone => hcopied.trans (h.opened (hopened hnone)),
    fun e he => ?_⟩
  rw [hcopied] at he
  obtain ⟨spelling, bytes, hnode, hprovides⟩ := h.delivered e he
  rw [hroot]
  exact ⟨spelling, bytes, hnode, hprovides.grow honward.tree honward.logFile⟩

theorem log {message : String} (h : s.Delivers U place d G)
    (hlog : Yields (Assembly.session (Build.log message)) s u s') :
    s.Onward place s' ∧ s'.assembler = s.assembler ∧
      ∃ content, s'.Delivers U place ⟨d.volume, content⟩ G := by
  obtain ⟨honward, hassembler⟩ := onward_log place hlog
  obtain ⟨content, hfills⟩ := h.fills.log hlog
  refine ⟨honward, hassembler, content, h.of_onward honward hfills rfl ?_ fun hnone => ?_⟩
  · rw [hassembler]
  · rwa [hassembler] at hnone

theorem openVolume {v : Fat.Volume} (h : s.Delivers U place d G)
    (hopen : Yields Assembly.openVolume s v s') : v = d.volume ∧ s.Onward place s' ∧
      s'.assembler.report = s.assembler.report ∧ s'.assembler.volume = some d.volume ∧
      s'.Delivers U place d G := by
  obtain ⟨hcarries, hholds, hwritable, hopenable⟩ := h.fills
  obtain ⟨rfl, rfl⟩ := hcarries.openVolume hopen
  have honward : s.Onward place
      { s with assembler := { s.assembler with volume := some d.volume } } := ⟨.refl .., rfl, rfl⟩
  refine ⟨rfl, honward, rfl, rfl, h.of_onward honward
    ⟨hcarries.opened, hholds, hwritable, hopenable⟩ rfl rfl ?_⟩
  rintro ⟨⟩

/-- Making a directory, while nothing is copied yet. -/
theorem makeDirectory {path : String} (h : s.Delivers U place d G)
    (hpath : ∀ name ∈ splitPath path, U.used name) (hnone : s.assembler.report.copied = [])
    (hmake : Yields (Assembly.makeDirectory path) s u s') :
    s.Onward place s' ∧ s'.assembler.report.copied = [] ∧ ∃ d' G', s'.Delivers U place d' G' := by
  rw [Assembly.makeDirectory, yields_bind] at hmake
  obtain ⟨v, s₁, hopen, h₁⟩ := hmake
  obtain ⟨rfl, honward₁, hreport₁, -, hdelivers₁⟩ := h.openVolume hopen
  obtain ⟨c, s₂, hedit, hlog⟩ := yields_bind.1 h₁
  obtain ⟨hcarries, ⟨K, hholds⟩, hwritable, hopenable⟩ := hdelivers₁.fills
  obtain ⟨d', hchange, honward₂, hassembler, hcarries'⟩ := hcarries.edit hedit
  obtain ⟨result, d'', G', K', found, hrun, hmakes, -, hholds', halike⟩ :=
    Edit.makeDirectory_cases hholds hwritable.1 hwritable.2 path
  cases hrun.symm.trans hchange
  have hcopied : s₂.assembler.report.copied = [] := by rw [hassembler, hreport₁, hnone]
  have hdelivers₂ : s₂.Delivers U place d' G' := by
    refine ⟨⟨hcarries' halike.image, ⟨K', hholds'⟩, halike.writable hwritable,
      hopenable.alike hholds.sound halike⟩, hmakes.named hdelivers₁.named hpath, hdelivers₁.aside,
      fun _ => hcopied, fun e he => ?_⟩
    rw [hcopied] at he
    exact absurd he e.not_lasts_nil
  obtain ⟨honward₃, hassembler₃, content, hdelivers₃⟩ := hdelivers₂.log hlog
  exact ⟨(honward₁.trans honward₂).trans honward₃, by rw [hassembler₃, hcopied], _, G', hdelivers₃⟩

end State.Delivers

/-- Writing a whole file to the volume makes its copy last, and keeps the others that do. -/
theorem State.Delivers.written {s₁ s₂ : State} {source : Path} {dest : String} {content : Content}
    (h : s₁.Delivers U place d G) (honward : s₁.Onward place s₂)
    (hread : s₁.session.tree.read source = .ok content)
    (hchange : (Edit.writeFile dest content content.size).on d = (.ok (), d'))
    (hcarries : d'.volume.image = d.volume.image → s₂.Carries place d')
    (hvolume : s₂.assembler.volume = some d'.volume)
    (hcopied : s₂.assembler.report.copied = s₁.assembler.report.copied ++ [⟨source, dest⟩])
    (hpath : ∀ name ∈ splitPath dest, U.used name) : ∃ G', s₂.Delivers U place d' G' := by
  obtain ⟨hcarries₁, ⟨K, hholds⟩, hwritable, hopenable⟩ := h.fills
  obtain ⟨result, d'', hrun, hwrites⟩ :=
    Edit.writeFile_on hholds hwritable.1 hwritable.2 dest content content.size
  cases hrun.symm.trans hchange
  have hsupplied : (Fat.Call.writeFile dest content content.size).Supplied := by
    rw [Fat.Call.supplied_iff]
    omega
  obtain ⟨e, ⟨⟩, -⟩ | ⟨-, halike, names, name, taken, spelling, G', K', -, -, hholds', hnamed',
    hunmarked⟩ := hwrites.nodes hholds h.named hsupplied hpath
  have hopenable' := hopenable.alike hholds.sound halike
  refine ⟨G', ⟨hcarries halike.image, ⟨K', hholds'⟩, halike.writable hwritable, hopenable'⟩,
    hnamed', h.aside, fun hnone => ?_, fun e he => ?_⟩
  · rw [hvolume] at hnone
    cases hnone
  rw [hcopied] at he
  obtain ⟨hfree, hcase⟩ := he.of_concat
  obtain ⟨-, -, hput⟩ := hunmarked fun name hname => h.aside _ (hfree name hname)
  rw [Int.toNat_natCast] at hput
  rw [halike.geometry, hput]
  rcases hcase with rfl | ⟨hlasts, hother⟩
  · have hnode : (G.nodes U d.volume.geometry.rootCluster).put (keys dest)
        (some ⟨spelling.shown, some content.toBytes⟩) (keys dest) =
          some ⟨spelling.shown, some content.toBytes⟩ := Function.update_self ..
    refine ⟨spelling.shown, content.toBytes, hnode, Session.Provides.grow ?_ honward.tree
      honward.logFile⟩
    obtain ⟨place', hplace', hc⟩ := Host.FileTree.read_eq_ok.1 hread
    refine ⟨place', content, hplace', ?_, hc, List.prefix_refl _, fun _ => rfl⟩
    -- The image is longer than any file in it, so it was not copied into itself.
    rintro rfl
    obtain rfl : content = d.content := Option.some.inj (hc.symm.trans hcarries₁.content)
    have hnode' := (congrFun hput (keys dest)).trans hnode
    obtain ⟨dir, f, n, s, c, hf, hr⟩ := Catalog.exists_record_of_nodes hnode'
    have hlt := hholds'.length_bytes_lt hopenable'.copies hf hr
    rw [Content.toBytes, Content.length_read, halike.below.1] at hlt
    omega
  · obtain ⟨spelling', bytes, hnode, hprovides⟩ := h.delivered e hlasts
    refine ⟨spelling', bytes, ?_, hprovides.grow honward.tree honward.logFile⟩
    rw [Fat.Nodes.put, Function.update_of_ne fun heq => hother heq.symm, hnode]

/-- Copying a file keeps what was copied before, unless the copy takes its place. -/
theorem State.Delivers.copyFile {source : Path} {dest : String} {copied : Bool}
    (h : s.Delivers U place d G) (hcopy : Yields (Assembly.copyFile source dest) s copied s')
    (hused : ∀ e ∈ s'.assembler.report.copied, ∀ name ∈ splitPath e.dest, U.used name) :
    ∃ d' G', s'.Delivers U place d' G' := by
  obtain ⟨v, s₁, s₂, message, isFile, hopen, hlog, -, -, hcase⟩ := copyFile_cases hcopy
  obtain ⟨rfl, honward₁, hreport₁, hvolume₁, hdelivers₁⟩ := h.openVolume hopen
  obtain ⟨hcarries, ⟨K, hholds⟩, hwritable, hopenable⟩ := hdelivers₁.fills
  rcases hcase with ⟨-, hmissing⟩ | ⟨-, content, s₃, hread, hedit, hupdate⟩
  · have honward₂ : s₁.Onward place s₂ := .of_update place hmissing rfl
    obtain rfl := yields_update.1 hmissing
    have hdelivers₂ := hdelivers₁.of_onward honward₂
      ⟨hcarries.of_report rfl rfl, ⟨K, hholds⟩, hwritable, hopenable⟩ rfl rfl fun hnone => hnone
    obtain ⟨-, -, content, hdelivers₃⟩ := hdelivers₂.log hlog
    exact ⟨_, G, hdelivers₃⟩
  · obtain ⟨d', hchange, honward₂, hassembler, hcarries'⟩ := hcarries.edit hedit
    have honward₃ : s₃.Onward place s₂ := .of_update place hupdate rfl
    obtain rfl := yields_update.1 hupdate
    have hcopied : s'.assembler.report.copied =
        s₁.assembler.report.copied ++ [⟨source, dest⟩] := by
      rw [assembler_session hlog, hassembler]
    obtain ⟨G', hdelivers₂⟩ := hdelivers₁.written (honward₂.trans honward₃) hread hchange
      (fun himage => (hcarries' himage).of_report rfl rfl) (congrArg Assembler.volume hassembler)
      (by rw [hassembler]) (hused ⟨source, dest⟩ (by simp [hcopied]))
    obtain ⟨-, -, content', hdelivers₃⟩ := hdelivers₂.log hlog
    exact ⟨_, G', hdelivers₃⟩

/-! ### Loops -/

/-- Making directories, while nothing is copied yet. -/
theorem State.Delivers.makeDirectories {directories : List String} (h : s.Delivers U place d G)
    (hused : ∀ path ∈ directories, ∀ name ∈ splitPath path, U.used name)
    (hnone : s.assembler.report.copied = [])
    (hloop : Yields (forIn directories PUnit.unit fun path _ => do
      Assembly.makeDirectory path
      pure (ForInStep.yield PUnit.unit)) s u s') :
    s'.assembler.image = s.assembler.image ∧ s'.assembler.report.copied = [] ∧
      ∃ d' G', s'.Delivers U place d' G' := by
  refine Yields.forIn (fun s₁ => s₁.assembler.image = s.assembler.image ∧
    s₁.assembler.report.copied = [] ∧ ∃ d' G', s₁.Delivers U place d' G') hloop ?_
    ⟨rfl, hnone, d, G, h⟩
  rintro path hpath s₁ s₂ u hmake ⟨himage, hnone₁, d₁, G₁, h₁⟩
  obtain ⟨honward, hnone₂, h₂⟩ := h₁.makeDirectory (hused path hpath) hnone₁ hmake
  exact ⟨honward.image.trans himage, hnone₂, h₂⟩

/-- Copying files. What was copied in the end tells which names are used. -/
theorem State.Delivers.copyFiles {entries : List BinaryEntry} (h : s.Delivers U place d G)
    (hloop : Yields (forIn entries PUnit.unit fun entry _ => do
      let _ ← Assembly.copyFile entry.source entry.dest
      pure (ForInStep.yield PUnit.unit)) s u s')
    (hused : ∀ e ∈ s'.assembler.report.copied, ∀ name ∈ splitPath e.dest, U.used name) :
    s'.assembler.image = s.assembler.image ∧ ∃ d' G', s'.Delivers U place d' G' := by
  have hkeeps := Yields.forIn (fun s₁ => s₁.assembler.image = s.assembler.image ∧
    ((∀ e ∈ s₁.assembler.report.copied, ∀ name ∈ splitPath e.dest, U.used name) →
      ∃ d' G', s₁.Delivers U place d' G'))
    hloop ?_ ⟨rfl, fun _ => ⟨d, G, h⟩⟩
  · exact ⟨hkeeps.1, hkeeps.2 hused⟩
  rintro entry - s₁ s₂ copied hcopy ⟨himage, hdelivers⟩
  obtain ⟨himage', hcopied⟩ := assembler_copyFile hcopy
  refine ⟨himage'.trans himage, fun hused₂ => ?_⟩
  obtain ⟨d₁, G₁, h₁⟩ := hdelivers fun e he => hused₂ e (by
    rcases hcopied with hcopied | hcopied
    · rwa [hcopied]
    · rw [hcopied]
      exact List.mem_append_left _ he)
  exact h₁.copyFile hcopy hused₂

/-! ### A whole assembly -/

/-- An image that was made and formatted has nothing in it yet. -/
theorem delivers_format (haside : ∀ k, ¬ Contested U.used k → U.aside k = false) {s₁ s₂ : State}
    {g : Fat.Geometry} {missing : List MissingEntry} (hvolume : s.assembler.volume = none)
    (hcreate : Yields createImage s u s₁) (hformat : Yields format s₁ g s₂)
    (hreport : s' = { s₂ with assembler := { s₂.assembler with report := { s₂.assembler.report with
      missing := s₂.assembler.report.missing ++ missing } } }) :
    (∃ place d G, s'.Delivers U place d G) ∧ s'.assembler.report.copied = [] ∧
      s'.assembler.image = s.assembler.image ∧
      s'.assembler.directories = s.assembler.directories := by
  have hassembler₁ := assembler_createImage hcreate
  obtain ⟨place, d, ⟨hcarries, hholds, hwritable, hopenable⟩, hassembler₂⟩ :=
    fills_format (by rw [hassembler₁, hvolume]) (by rw [hassembler₁]) hformat
  subst hreport
  refine ⟨⟨place, d, d.newCatalog, ⟨hcarries.of_report rfl rfl, hholds, hwritable, hopenable⟩,
    d.named_newCatalog, haside, fun _ => ?_, fun e he => ?_⟩, ?_, ?_, ?_⟩
  · rw [hassembler₂, hassembler₁]
  · rw [hassembler₂, hassembler₁] at he
    exact absurd he e.not_lasts_nil
  · rw [hassembler₂, hassembler₁]
  · rw [hassembler₂, hassembler₁]
  · rw [hassembler₂, hassembler₁]

/-- What was copied is in the image after it was sealed and a last line was logged. -/
theorem State.Delivers.sealed {s₁ : State} {message : String} {e : BinaryEntry}
    (h : s.Delivers U place d G) (hseal : Yields sealImage s () s₁)
    (hlog : Yields (Assembly.session (Build.log message)) s₁ () s')
    (he : e.Lasts U.used s.assembler.report.copied) :
    ∃ bytes, s'.session.ImageHas s.assembler.image e.dest bytes ∧
      s'.session.Provides place e.source bytes := by
  obtain ⟨⟨hcarries, ⟨K, hholds⟩, hwritable, hopenable⟩, hnamed, haside, hopened, hdelivered⟩ := h
  have hvolume : s.assembler.volume = some d.volume := by
    rcases hcarries.volume with hvolume | ⟨hnone, -⟩
    · exact hvolume
    · rw [hopened hnone] at he
      exact absurd he e.not_lasts_nil
  obtain ⟨honward₁, -, hlocated, hcontent⟩ := hcarries.sealImage hvolume hwritable hseal
  obtain ⟨session', hrun, rfl⟩ := yields_session.1 hlog
  obtain ⟨hgrows, hfile⟩ := Build.grows_log hrun
  obtain ⟨content, hcontent', hextends, -⟩ := hgrows.content place (Set.notMem_empty _) _ hcontent
  obtain ⟨v, hv, himage, hgeometry, -, hopen, hholds', hopenable'⟩ := hopenable.reopen hholds true
  have hsame := hopenable'.ofContent_extends hholds'.sound hextends true
  rw [himage, hv, hcarries.image] at hsame
  obtain ⟨spelling, bytes, hnode, hprovides⟩ := hdelivered e he
  have hfree : ∀ name ∈ splitPath e.dest, U.aside (key name) = false := by
    obtain ⟨before, after, -, hfree, -⟩ := he
    exact fun name hname => haside _ (hfree e List.mem_cons_self name hname)
  rw [← hgeometry] at hnode
  have honward : s.Onward place { s₁ with session := session' } :=
    honward₁.trans (onward_log place hlog).1
  refine ⟨bytes, ⟨content, v, ?_, hsame, ?_⟩, hprovides.grow honward.tree honward.logFile⟩
  · exact Host.FileTree.read_eq_ok.2 ⟨place, hgrows.locate hlocated, hcontent'⟩
  · exact ((hholds'.extend hextends).read_iff hopen hnamed hfree bytes).2 ⟨spelling, hnode⟩

/-- What is copied when a new image is assembled is in the image in the end. Each copy that lasts is
read from it with the bytes of its file, apart from lines that were logged to that very file. -/
theorem read_copied {image : Path} {blockSize blockCount sectorsPerCluster : Int}
    {directories : List String} {own suite : List BinaryEntry} {missing : List MissingEntry}
    {t t' : Session} {report : Report} {entry : BinaryEntry}
    (h : Yields (on { image, blockSize, blockCount, sectorsPerCluster, directories }
      (assemble own suite missing)) t report t')
    (hlegible : ∀ name, UsedName directories report.copied name → Fat.Legible name.toList)
    (hentry : entry.Lasts (UsedName directories report.copied) report.copied) :
    ∃ bytes content, t'.ImageHas image entry.dest bytes ∧
      t'.tree.read entry.source = .ok content ∧ bytes <+: content.toBytes ∧
      ((∀ p ∈ t'.logFile, t'.tree.locate p ≠ t'.tree.locate entry.source) →
        bytes = content.toBytes) := by
  obtain ⟨s', hassemble, rfl⟩ := yields_on.1 h
  obtain ⟨s₁, s₂, g, s₃, s₄, s₅, s₆, s₇, hannounce, hcreate, hformat, hreport, hmake, hcopy, hseal,
    hlog, rfl⟩ := yields_assemble.1 hassemble
  have hassembler₁ := assembler_session hannounce
  obtain ⟨⟨place, d, G, hdelivers₄⟩, hnone₄, himage₄, hdirectories₄⟩ :=
    delivers_format (U := .exactly hlegible) (Usage.aside_exactly hlegible) (by rw [hassembler₁])
      hcreate hformat hreport
  rw [hassembler₁] at himage₄ hdirectories₄
  obtain ⟨himage₅, hnone₅, d₅, G₅, hdelivers₅⟩ := hdelivers₄.makeDirectories (hdirectories₄ ▸
    fun path hpath name hname => .inl ⟨path, hpath, hname⟩) hnone₄ hmake
  have hcopied : s₇.assembler.report.copied = s₆.assembler.report.copied := by
    rw [assembler_sealImage hseal]
  obtain ⟨himage₆, d₆, G₆, hdelivers₆⟩ := hdelivers₅.copyFiles hcopy
    fun e he name hname => .inr ⟨e, hcopied ▸ he, hname⟩
  have hlasts : entry.Lasts (Usage.exactly hlegible).used s₆.assembler.report.copied := by
    rw [← hcopied]
    exact hentry
  obtain ⟨bytes, hhas, hprovides⟩ := hdelivers₆.sealed hseal hlog hlasts
  rw [himage₆, himage₅, himage₄] at hhas
  obtain ⟨source, content, hsource, -, hcontent, hprefix, hsame⟩ := hprovides
  refine ⟨bytes, content, hhas, Host.FileTree.read_eq_ok.2 ⟨source, hsource, hcontent⟩, hprefix,
    fun hother => hsame fun p hp => ?_⟩
  rw [← hsource]
  exact hother p hp

/-- Small files are all copied to the root directory of a new image, if there is a list of what they
come to. -/
theorem Formats.exists_copied {x : Assembler} {t : Session} {g : Fat.Geometry}
    (h : Formats x t g s place d) (hfresh : d.Fresh) (hfile : s.session.logFile = none)
    (own suite : List BinaryEntry) (missing : List MissingEntry)
    {files : List (BinaryEntry × Bytes)}
    (hlists : own ++ suite = files.map Prod.fst)
    (hread : ∀ file ∈ files, s.session.tree.read file.1.source = .ok (Content.ofBytes file.2))
    (haside : ∀ file ∈ files, s.session.tree.locate file.1.source ≠ .ok place)
    (hvalid : ∀ file ∈ files, Fat.isValidName (lastName file.1.dest) = true)
    {listing : Fat.Listing}
    (hfill : Fat.Listing.fill? [] (files.map fun file => (file.1.dest, file.2)) = some listing)
    (hroom : (files.map fun file => file.2.length + 21).sum ≤ Fat.Error.minClusters - 1) :
    ∃ report s', Yields (assemble own suite missing) ⟨{ x with directories := [] }, t⟩ report s' ∧
      report.copied = own ++ suite ∧ s.session.Like {place} s'.session := by
  have hplaces : s.session.logPlaces = ∅ := by simp [Session.logPlaces, hfile]
  have hcan : ∀ e ∈ own ++ suite, e.canCopy s.session.tree = true := by
    rw [hlists, List.forall_mem_map]
    intro file hmem
    simp [BinaryEntry.canCopy, BinaryEntry.isThere, hvalid file hmem,
      FileTree.isFile_of_read (hread file hmem)]
  have havoids : ∀ e ∈ own ++ suite,
      e.Avoids s.session.tree (insert place s.session.logPlaces) := by
    rw [hlists, List.forall_mem_map]
    simpa [BinaryEntry.Avoids, hplaces] using haside
  obtain ⟨d', hdoes, -⟩ := hfresh.hasFiles.exists_fill _ 0 hfill (by
    rwa [List.map_map, Nat.add_zero])
  have hcalls : (own ++ suite).map (·.call s.session.tree) =
      (files.map fun file => (file.1.dest, file.2)).map fun file =>
        .writeFile file.1 (Content.ofBytes file.2) file.2.length := by
    rw [hlists, List.map_map, List.map_map]
    refine List.map_congr_left fun file hmem => ?_
    rw [Function.comp_apply, BinaryEntry.call_of_read (hread file hmem), Content.size_ofBytes]
    rfl
  have hdoes' : d.Does (([] : List String).map .makeDirectory ++
      (own ++ suite).map (·.call s.session.tree)) d' := hcalls ▸ hdoes
  obtain ⟨report, s', content, hassemble, hreport, -, hlike, -⟩ :=
    h.exists_assembled_all (by simp [hplaces]) hcan havoids hdoes' missing
  rw [hplaces, insert_empty_eq] at hlike
  exact ⟨report, s', hassemble, hreport, hlike⟩

/-- Of three files the last one takes the place of the first, under its name in other letters. It is
read from the image, and so is the second. -/
theorem exists_read_copied_file : ∃ (t t' : Session) (report : Report),
    Yields (on { image := ⟨"", ["fs.img"]⟩, directories := [] }
      (assemble [⟨⟨"", ["sh"]⟩, "/sh"⟩, ⟨⟨"", ["notes"]⟩, "/Read me.txt"⟩]
        [⟨⟨"", ["test"]⟩, "/SH"⟩] [])) t report t' ∧
    (∀ name, UsedName [] report.copied name → Fat.Legible name.toList) ∧
    BinaryEntry.Lasts (UsedName [] report.copied) ⟨⟨"", ["notes"]⟩, "/Read me.txt"⟩
      report.copied ∧
    BinaryEntry.Lasts (UsedName [] report.copied) ⟨⟨"", ["test"]⟩, "/SH"⟩ report.copied ∧
    t'.ImageHas ⟨"", ["fs.img"]⟩ "/Read me.txt" [4] ∧
    t'.ImageHas ⟨"", ["fs.img"]⟩ "/SH" [5, 6] := by
  obtain ⟨t, g, s, d, hformats, hfresh, -, hfile, hgrows⟩ := exists_formats_beside []
    ((((FileTree.empty []).put ["sh"] (Content.ofBytes [1, 2, 3])).put ["notes"]
      (Content.ofBytes [4])).put ["test"] (Content.ofBytes [5, 6])) rfl rfl rfl
  obtain ⟨files, hfiles⟩ : ∃ files : List (BinaryEntry × Bytes), files =
      [(⟨⟨"", ["sh"]⟩, "/sh"⟩, [1, 2, 3]), (⟨⟨"", ["notes"]⟩, "/Read me.txt"⟩, [4]),
        (⟨⟨"", ["test"]⟩, "/SH"⟩, [5, 6])] := ⟨_, rfl⟩
  have hread : ∀ file ∈ files,
      s.session.tree.read file.1.source = .ok (Content.ofBytes file.2) := by
    simp only [hfiles, List.forall_mem_cons]
    exact ⟨hgrows.read_of_vacant rfl rfl, hgrows.read_of_vacant rfl rfl,
      hgrows.read_of_vacant rfl rfl, by simp⟩
  have haside : ∀ file ∈ files, s.session.tree.locate file.1.source ≠ .ok ["fs.img"] := by
    have hlocated : s.session.tree.locate ⟨"", ["sh"]⟩ = .ok ["sh"] ∧
        s.session.tree.locate ⟨"", ["notes"]⟩ = .ok ["notes"] ∧
        s.session.tree.locate ⟨"", ["test"]⟩ = .ok ["test"] :=
      ⟨hgrows.locate rfl, hgrows.locate rfl, hgrows.locate rfl⟩
    simp [hfiles, hlocated]
  have hvalid : ∀ file ∈ files, Fat.isValidName (lastName file.1.dest) = true := by
    rw [hfiles]
    decide
  obtain ⟨report, s', hassemble, hreport, hlike⟩ :=
    hformats.exists_copied hfresh hfile [⟨⟨"", ["sh"]⟩, "/sh"⟩, ⟨⟨"", ["notes"]⟩, "/Read me.txt"⟩]
      [⟨⟨"", ["test"]⟩, "/SH"⟩] [] (by rw [hfiles]; rfl) hread haside hvalid (by rw [hfiles]; rfl)
      (by rw [hfiles]; decide)
  have hyields := yields_on.2 ⟨s', hassemble, rfl⟩
  -- The names are plain, so none of them is contested.
  have hplain : ∀ e ∈ report.copied, ∀ name ∈ splitPath e.dest, Fat.Plain name := by
    rw [hreport]
    decide
  have hlegible : ∀ name, UsedName [] report.copied name → Fat.Legible name.toList := by
    rintro name (⟨path, hnil, -⟩ | ⟨e, he, hname⟩)
    · cases hnil
    · exact (hplain e he name hname).legible
  have hfree : ∀ e ∈ report.copied, ∀ name ∈ splitPath e.dest,
      ¬ Contested (UsedName [] report.copied) (key name) :=
    fun e he name hname => (hplain e he name hname).not_contested
  have hlasts₂ : BinaryEntry.Lasts (UsedName [] report.copied)
      ⟨⟨"", ["notes"]⟩, "/Read me.txt"⟩ report.copied :=
    ⟨[_], [_], hreport, fun e he => hfree e (hreport ▸ List.mem_cons_of_mem _ he), by decide⟩
  have hlasts₃ : BinaryEntry.Lasts (UsedName [] report.copied) ⟨⟨"", ["test"]⟩, "/SH"⟩
      report.copied :=
    ⟨[_, _], [], hreport, fun e he => hfree e (hreport ▸ List.mem_append_right [_, _] he), by simp⟩
  obtain ⟨bytes₂, content₂, hhas₂, hread₂, -, hsame₂⟩ := read_copied hyields hlegible hlasts₂
  obtain ⟨bytes₃, content₃, hhas₃, hread₃, -, hsame₃⟩ := read_copied hyields hlegible hlasts₃
  -- Their files are as they were, since there is no log file.
  have hlog : ∀ p ∈ s'.session.logFile, False := by simp [← hlike.logFile, hfile]
  have hkept : ∀ file ∈ files,
      s'.session.tree.read file.1.source = .ok (Content.ofBytes file.2) := fun file hmem =>
    (hlike.tree.read fun _ hplace => hplace ▸ haside file hmem).symm.trans (hread file hmem)
  cases hread₂.symm.trans (hkept (_, [4]) (by simp [hfiles]))
  cases hread₃.symm.trans (hkept (_, [5, 6]) (by simp [hfiles]))
  rw [hsame₂ fun p hp => (hlog p hp).elim, Content.toBytes_ofBytes] at hhas₂
  rw [hsame₃ fun p hp => (hlog p hp).elim, Content.toBytes_ofBytes] at hhas₃
  exact ⟨_, _, report, hyields, hlegible, hlasts₂, hlasts₃, hhas₂, hhas₃⟩

end Assembly

end BootImage
