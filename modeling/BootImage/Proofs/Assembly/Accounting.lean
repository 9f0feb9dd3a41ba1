import BootImage.Proofs.Assembly.Calls
import BootImage.Proofs.Assembly.Steps
import BootImage.Proofs.Host.Children
import BootImage.Proofs.Session.Looping

/-!
# What a report accounts for

Every binary that an image is to be made of comes from a name: that of a source, or that of a file
of the test suite. For a source there is a binary or there is none, which discovery tells; a binary
is copied or it is skipped, which the assembly tells. So each name ends up in the report just once,
as a copy or as a record of why there is none.

Records come from both discoveries, of sources and of the suite, and from each file that is skipped.
Since a new report is begun when the image is made, those of discovery are put into it after that.
Nothing else touches a report. And a file that was discovered is still there when it is to be
copied, for an assembly takes no file from the host.

## Main definitions

* `builtOf`, `unbuilt`: the binary of a source, and the record that there is none.
* `BinaryEntry.canCopy`, `BinaryEntry.skipped`: whether a binary is copied, and the record if not.
* `Report.account`: a report once a binary was copied or skipped.
* `Binaries.Splits`: names are split into binaries and records.
* `Report.Accounts`: a report accounts for binaries.

## Main results

* `Binaries.splits_of_discover`: what is discovered.
* `Assembly.report_copyFile`: what a single copy adds to the report.
* `Assembly.accounts_assemble`: the report of an assembly.
* `assembleImage_accounts`: the report on binaries that were discovered.
-/

namespace BootImage

open Host (Path FileTree Fault)

/-! ### Discovery -/

/-- The binary built of a source, if there is one, and where it goes in the image. -/
def builtOf (outputDir : Path) (suffixes : List String) (source : String) : BinaryEntry :=
  ⟨outputDir / withoutSuffix source suffixes, imagePath "/" (withoutSuffix source suffixes)⟩

/-- The record of a source of which no binary was built. -/
def unbuilt (outputDir : Path) (suffixes : List String) (source : String) : MissingEntry :=
  .ofPath (builtOf outputDir suffixes source).source (builtOf outputDir suffixes source).dest
    s!"no artifact for {source}"

/-- Whether a binary is a file of the host. -/
def BinaryEntry.isThere (tree : FileTree) (e : BinaryEntry) : Bool :=
  tree.isFile e.source = .ok true

/-- A file of the test suite, and where it goes in the image. -/
def suiteEntry (suiteDir : Path) (name : String) : BinaryEntry :=
  ⟨suiteDir.join ⟨"", [name]⟩, imagePath "/" name⟩

/-- The names of the files of a test suite. If there is no suite there are none, and a record says
so. -/
def SuiteLists (tree : FileTree) (suiteDir : Path) (names : List String)
    (absent : List MissingEntry) : Prop :=
  (tree.probe suiteDir = .ok (some .directory) ∧ tree.Lists suiteDir names ∧ absent = []) ∨
    tree.probe suiteDir ≠ .ok (some .directory) ∧ names = [] ∧
      absent = [.ofPath suiteDir none "test suite directory not found"]

section

variable {tree : FileTree} {outputDir sourcesDir suiteDir : Path} {suffixes names : List String}

/-- A binary is there just if its path leads to a file. -/
theorem isThere_of_probe {e : BinaryEntry} {node : Option Host.Node}
    (h : tree.probe e.source = .ok node) :
    e.isThere tree = true ↔ ∃ c executable, node = some (.file c executable) := by
  rw [BinaryEntry.isThere, decide_eq_true_iff, FileTree.isFile, h]
  rcases node with _ | _ | ⟨c, executable⟩ <;> simp [bind, Except.bind, pure, Except.pure]

theorem binaryOf_eq {source : String} {found : BinaryEntry ⊕ MissingEntry}
    (h : binaryOf tree outputDir suffixes "/" source = .ok found) :
    found = if (builtOf outputDir suffixes source).isThere tree then
      .inl (builtOf outputDir suffixes source) else .inr (unbuilt outputDir suffixes source) := by
  obtain ⟨node, hprobe, h⟩ := ok_of_bind h
  have hthere := isThere_of_probe (e := builtOf outputDir suffixes source) hprobe
  rcases node with _ | _ | ⟨c, executable⟩
  · cases h
    rw [if_neg (by simp [hthere])]
    rfl
  · cases h
    rw [if_neg (by simp [hthere])]
    rfl
  · cases h
    rw [if_pos (hthere.2 ⟨c, executable, rfl⟩)]
    rfl

/-- The sources are split into those of which there is a binary, and those without one. -/
theorem discoverLocal_eq {own : List BinaryEntry} {missing : List MissingEntry}
    (h : discoverLocal tree outputDir names suffixes "/" = .ok (own, missing)) :
    own = (names.map (builtOf outputDir suffixes)).filter (·.isThere tree) ∧
      missing = (names.filter fun name =>
        !(builtOf outputDir suffixes name).isThere tree).map (unbuilt outputDir suffixes) := by
  obtain ⟨found, hfound, h⟩ := ok_of_bind h
  cases h
  clear h
  induction names generalizing found with
  | nil =>
    cases hfound
    exact ⟨rfl, rfl⟩
  | cons name names ih =>
    rw [List.mapM_cons] at hfound
    obtain ⟨first, hfirst, hfound⟩ := ok_of_bind hfound
    obtain ⟨rest, hrest, hfound⟩ := ok_of_bind hfound
    cases hfound
    obtain ⟨hown, hmissing⟩ := ih rest hrest
    rw [binaryOf_eq hfirst, List.map_cons]
    cases hthere : (builtOf outputDir suffixes name).isThere tree with
    | true =>
      rw [if_pos rfl, List.filter_cons_of_pos hthere, List.filter_cons_of_neg (by simp [hthere]),
        ← hown, ← hmissing]
      exact ⟨rfl, rfl⟩
    | false =>
      rw [if_neg Bool.false_ne_true, List.filter_cons_of_neg (by simp [hthere]),
        List.filter_cons_of_pos (by simp [hthere]), List.map_cons, ← hown, ← hmissing]
      exact ⟨rfl, rfl⟩

theorem discoverSuite_eq {suite : List BinaryEntry} {absent : List MissingEntry}
    (h : discoverSuite tree suiteDir "/" = .ok (suite, absent)) :
    ∃ names, SuiteLists tree suiteDir names absent ∧ suite = names.map (suiteEntry suiteDir) := by
  obtain ⟨node, hprobe, h⟩ := ok_of_bind h
  rcases node with _ | _ | ⟨c, executable⟩
  · cases h
    exact ⟨[], .inr ⟨by simp [hprobe], rfl, rfl⟩, rfl⟩
  · obtain ⟨names, hnames, h⟩ := ok_of_bind h
    cases h
    exact ⟨names, .inl ⟨hprobe, FileTree.lists_filesIn hnames, rfl⟩, rfl⟩
  · cases h
    exact ⟨[], .inr ⟨by simp [hprobe], rfl, rfl⟩, rfl⟩

/-- Names of sources and files of the test suite are split into binaries that were discovered and
records of those that there are none of, one for each name, in order. -/
structure Binaries.Splits (b : Binaries) (tree : FileTree) (outputDir suiteDir : Path)
    (suffixes names suite : List String) (absent : List MissingEntry) : Prop where
  own : b.own = (names.map (builtOf outputDir suffixes)).filter (·.isThere tree)
  suite : b.suite = suite.map (suiteEntry suiteDir)
  missing : b.missing = (names.filter fun name =>
    !(builtOf outputDir suffixes name).isThere tree).map (unbuilt outputDir suffixes) ++ absent

/-- What is discovered. Nothing is taken from the tree meanwhile. -/
theorem Binaries.splits_of_discover {t t' : Session} {b : Binaries}
    (h : Yields (Binaries.discover outputDir sourcesDir suiteDir suffixes) t b t') :
    t.Retains t' ∧ ∃ names suite absent, t.tree.Lists sourcesDir names ∧
      SuiteLists t.tree suiteDir suite absent ∧
      b.Splits t.tree outputDir suiteDir suffixes names suite absent := by
  rw [Binaries.discover, yields_bind] at h
  obtain ⟨names, t₁, hnames, h₁⟩ := h
  obtain ⟨hnames, rfl⟩ := Build.yields_query.1 hnames
  obtain ⟨⟨own, missing⟩, t₂, hown, h₂⟩ := yields_bind.1 h₁
  obtain ⟨hown, rfl⟩ := Build.yields_query.1 hown
  obtain ⟨⟨suite, absent⟩, t₃, hsuite, h₃⟩ := yields_bind.1 h₂
  obtain ⟨hsuite, rfl⟩ := Build.yields_query.1 hsuite
  obtain ⟨_, t₄, hwarn, h₄⟩ := yields_bind.1 h₃
  obtain ⟨rfl, rfl⟩ := yields_pure.1 h₄
  obtain ⟨_, -, hnames⟩ := ok_of_bind hnames
  obtain ⟨hown, hmissing⟩ := discoverLocal_eq hown
  obtain ⟨files, hfiles, hsuite⟩ := discoverSuite_eq hsuite
  have hretains : Within Session.Retains (each (missing ++ absent) fun m =>
      Build.log s!"[WARN]  {m.text}") :=
    Within.forIn _ fun _ _ => Build.retains_log _
  exact ⟨hretains.yields hwarn, names, files, absent, FileTree.lists_filesIn hnames, hfiles, hown,
    hsuite, by rw [hmissing]⟩

/-- Each name counts once. -/
theorem Binaries.Splits.length_add {b : Binaries} {suite : List String}
    {absent : List MissingEntry}
    (h : b.Splits tree outputDir suiteDir suffixes names suite absent) :
    (b.own ++ b.suite).length + b.missing.length =
      names.length + suite.length + absent.length := by
  have hnames := List.length_eq_length_filter_add
    (fun name => (builtOf outputDir suffixes name).isThere tree) (l := names)
  rw [h.own, h.suite, h.missing, List.filter_map]
  simp only [List.length_append, List.length_map, Function.comp_def]
  omega

/-- All binaries that are discovered are there. -/
theorem Binaries.Splits.isThere {b : Binaries} {suite : List String}
    {absent : List MissingEntry}
    (h : b.Splits tree outputDir suiteDir suffixes names suite absent)
    (hsuite : SuiteLists tree suiteDir suite absent) :
    ∀ e ∈ b.own ++ b.suite, e.isThere tree = true := by
  intro e he
  simp only [h.own, h.suite, List.mem_append, List.mem_filter, List.mem_map] at he
  rcases he with ⟨-, hthere⟩ | ⟨name, hname, rfl⟩
  · exact hthere
  · rcases hsuite with ⟨-, hlists, -⟩ | ⟨-, rfl, -⟩
    · obtain ⟨place, -, -, hfile⟩ := (hlists.mem name).1 hname
      exact decide_eq_true hfile
    · cases hname

end

/-! ### Copying -/

/-- Whether a binary is copied: it is a file of the host, and the last name in its destination is
one that the image can have. -/
def BinaryEntry.canCopy (tree : FileTree) (e : BinaryEntry) : Bool :=
  e.isThere tree && Fat.isValidName (Assembly.lastName e.dest)

/-- The record of a binary that is not copied. -/
def BinaryEntry.skipped (tree : FileTree) (e : BinaryEntry) : MissingEntry :=
  .ofPath e.source e.dest
    (if e.isThere tree then "name not representable on FAT" else "not found")

/-- The report once a binary was copied or skipped. -/
def Report.account (tree : FileTree) (r : Report) (e : BinaryEntry) : Report :=
  if e.canCopy tree then { r with copied := r.copied ++ [e] }
  else { r with missing := r.missing ++ [e.skipped tree] }

theorem BinaryEntry.isThere_iff {tree : FileTree} {e : BinaryEntry} :
    e.isThere tree = true ↔ ∃ c, tree.read e.source = .ok c := by
  rw [isThere, decide_eq_true_iff, FileTree.isFile_eq_true_iff]

/-- A file that is there stays. -/
theorem BinaryEntry.isThere_of_retains {tree tree' : FileTree} {e : BinaryEntry}
    (h : tree.Retains tree') (he : e.isThere tree = true) : e.isThere tree' = true := by
  obtain ⟨c, hread⟩ := isThere_iff.1 he
  exact isThere_iff.2 (h.read hread)

/-- The tree only matters for whether a binary is there. -/
theorem Report.account_eq {tree tree' : FileTree} {e : BinaryEntry}
    (h : e.isThere tree = e.isThere tree') (r : Report) :
    r.account tree e = r.account tree' e := by
  rw [account, account, BinaryEntry.canCopy, BinaryEntry.canCopy, BinaryEntry.skipped,
    BinaryEntry.skipped, h]

/-- The report once binaries were copied or skipped, one after the other. -/
theorem Report.foldl_account (tree : FileTree) (r : Report) (entries : List BinaryEntry) :
    entries.foldl (account tree) r =
      { r with copied := r.copied ++ entries.filter (·.canCopy tree)
               missing := r.missing ++
                 (entries.filter fun e => !e.canCopy tree).map (·.skipped tree) } := by
  induction entries generalizing r with
  | nil => simp
  | cons e entries ih =>
    rw [List.foldl_cons, ih, account]
    cases hcopy : e.canCopy tree with
    | true => simp [hcopy]
    | false => simp [hcopy]

/-- A report accounts for binaries: those that can be copied are, in order, and after the records of
those that there were none of there is one for each of the others. -/
structure Report.Accounts (r : Report) (tree : FileTree) (b : Binaries) : Prop where
  copied : r.copied = (b.own ++ b.suite).filter (·.canCopy tree)
  missing : r.missing = b.missing ++
    ((b.own ++ b.suite).filter fun e => !e.canCopy tree).map (·.skipped tree)

theorem Report.Accounts.length_add {r : Report} {tree : FileTree} {b : Binaries}
    (h : r.Accounts tree b) :
    r.copied.length + r.missing.length = (b.own ++ b.suite).length + b.missing.length := by
  have hentries :=
    List.length_eq_length_filter_add (fun e => e.canCopy tree) (l := b.own ++ b.suite)
  rw [h.copied, h.missing, List.length_append, List.length_map]
  omega

/-- A report is complete just if there were no records of missing binaries, and all others could be
copied. -/
theorem Report.Accounts.isComplete_iff {r : Report} {tree : FileTree} {b : Binaries}
    (h : r.Accounts tree b) :
    r.isComplete = true ↔ b.missing = [] ∧ ∀ e ∈ b.own ++ b.suite, e.canCopy tree = true := by
  rw [Report.isComplete, h.missing, List.isEmpty_iff, List.append_eq_nil_iff, List.map_eq_nil_iff,
    List.filter_eq_nil_iff]
  simp

namespace Assembly

variable {s s' : State} {u : Unit}

/-- Opening the volume leaves the session alone. -/
theorem session_openVolume {v : Fat.Volume} (h : Yields openVolume s v s') :
    s'.session = s.session := by
  have hrun := run_openVolume s
  rw [h] at hrun
  repeat' split at hrun
  all_goals cases hrun
  all_goals rfl

/-- A copy is accounted for by what the tree and the image allow when it is made. -/
theorem report_copyFile {source : Path} {dest : String} {copied : Bool}
    (h : Yields (copyFile source dest) s copied s') :
    s'.assembler.report = s.assembler.report.account s.session.tree ⟨source, dest⟩ := by
  obtain ⟨v, s₁, s₂, message, isFile, hopen, hlog, hfile, hcopied, hcase⟩ := copyFile_cases h
  obtain ⟨volume, hassembler₁⟩ := assembler_openVolume hopen
  have hthere : BinaryEntry.isThere s.session.tree ⟨source, dest⟩ = isFile := by
    rw [BinaryEntry.isThere, ← session_openVolume hopen, hfile]
    cases isFile <;> rfl
  have hcan : BinaryEntry.canCopy s.session.tree ⟨source, dest⟩ = copied := by
    rw [hcopied, BinaryEntry.canCopy, hthere]
  rw [assembler_session hlog, Report.account, hcan]
  rcases hcase with ⟨rfl, hmissing⟩ | ⟨rfl, content, s₃, -, hedit, hupdate⟩
  · obtain rfl := yields_update.1 hmissing
    rw [if_neg Bool.false_ne_true, BinaryEntry.skipped, hthere, hassembler₁]
  · obtain ⟨volume', hassembler₃⟩ := assembler_edit hedit
    obtain rfl := yields_update.1 hupdate
    rw [if_pos rfl, hassembler₃, hassembler₁]

/-- Making a directory is not reported. -/
theorem report_makeDirectory {path : String} (h : Yields (makeDirectory path) s u s') :
    s'.assembler.report = s.assembler.report := by
  rw [makeDirectory, yields_bind] at h
  obtain ⟨v, s₁, hopen, h₁⟩ := h
  obtain ⟨_, s₂, hedit, hlog⟩ := yields_bind.1 h₁
  obtain ⟨volume, hassembler₁⟩ := assembler_openVolume hopen
  obtain ⟨volume', hassembler₂⟩ := assembler_edit hedit
  rw [assembler_session hlog, hassembler₂, hassembler₁]

/-- Formatting reports the geometry. -/
theorem report_format {g : Fat.Geometry} (h : Yields format s g s') :
    s'.assembler.report = { s.assembler.report with geometry := g } := by
  rw [format, yields_bind] at h
  obtain ⟨x, s₁, hx, h₁⟩ := h
  obtain ⟨rfl, rfl⟩ := yields_assembler.1 hx
  obtain ⟨g', s₂, hsession, h₂⟩ := yields_bind.1 h₁
  obtain ⟨_, s₃, hupdate, h₃⟩ := yields_bind.1 h₂
  obtain ⟨_, s₄, hlog, h₄⟩ := yields_bind.1 h₃
  obtain ⟨rfl, rfl⟩ := yields_pure.1 h₄
  obtain rfl := yields_update.1 hupdate
  rw [assembler_session hlog, assembler_session hsession]

/-- Copies are accounted for one after the other. Files that were there at the start still are. -/
theorem report_copyFiles {tree : FileTree} {entries : List BinaryEntry}
    (h : Yields (each entries fun e => copyFile e.source e.dest) s u s')
    (hthere : ∀ e ∈ entries, e.isThere tree = true) (htree : tree.Retains s.session.tree) :
    s'.assembler.report = entries.foldl (Report.account tree) s.assembler.report := by
  refine (Yields.each (fun done s₁ => tree.Retains s₁.session.tree ∧
    s₁.assembler.report = done.foldl (Report.account tree) s.assembler.report) h ?_
      ⟨htree, rfl⟩).2
  rintro done e he s₁ s₂ copied hcopy ⟨htree₁, hreport⟩
  have hretains : s₁.session.Retains s₂.session := ((works_copyFile _ _).yields hcopy).retains
  refine ⟨htree₁.trans hretains, ?_⟩
  have hsame : e.isThere tree = e.isThere s₁.session.tree :=
    (hthere e he).trans (BinaryEntry.isThere_of_retains htree₁ (hthere e he)).symm
  rw [report_copyFile hcopy, hreport, List.foldl_append, List.foldl_cons, List.foldl_nil,
    Report.account_eq hsame]

/-- The report of an assembly of files that are there accounts for them. -/
theorem accounts_assemble {x : Assembler} {tree : FileTree} {b : Binaries} {t t' : Session}
    {report : Report} (h : Yields (on x (assemble b.own b.suite b.missing)) t report t')
    (hthere : ∀ e ∈ b.own ++ b.suite, e.isThere tree = true) (htree : tree.Retains t.tree) :
    report.Accounts tree b := by
  obtain ⟨s', hassemble, rfl⟩ := yields_on.1 h
  obtain ⟨s₁, s₂, g, s₃, s₄, s₅, s₆, s₇, hannounce, hcreate, hformat, rfl, hmake, hcopy, hseal,
    hlog, rfl⟩ := yields_assemble.1 hassemble
  -- A new report is begun, with the records that are given.
  have hreport₂ : s₂.assembler.report = { image := s₁.assembler.image } := by
    rw [assembler_createImage hcreate]
  have hretains₃ : t.Retains s₃.session :=
    IsTrans.trans _ _ _ ((keeps_session (Build.retains_log _)).yields hannounce).retains
      (IsTrans.trans _ _ _ (keeps_createImage.yields hcreate).retains
        (keeps_format.yields hformat).retains)
  -- Directories are made.
  obtain ⟨hretains₅, hreport₅⟩ := Yields.forIn (fun s => t.Retains s.session ∧
      s.assembler.report = { s₃.assembler.report with
        missing := s₃.assembler.report.missing ++ b.missing }) hmake
    (fun path _ s₁ s₂ _ hpath ⟨hretains, hreport⟩ =>
      ⟨IsTrans.trans _ _ _ hretains ((works_makeDirectory path).yields hpath).retains,
        (report_makeDirectory hpath).trans hreport⟩) ⟨hretains₃, rfl⟩
  -- Files are copied.
  have hreport₆ := report_copyFiles hcopy hthere (htree.trans hretains₅)
  rw [hreport₅, report_format hformat, hreport₂, Report.foldl_account] at hreport₆
  rw [assembler_sealImage hseal, hreport₆]
  exact ⟨List.nil_append _, by simp⟩

end Assembly

/-- The report on binaries that were discovered accounts for every source and every file of the test
suite once, and it is complete just if nothing was left out. -/
theorem assembleImage_accounts {x : Assembler} {outputDir sourcesDir suiteDir : Path}
    {suffixes : List String} {t t' : Session} {report : Report}
    (h : Yields (assembleImage x outputDir sourcesDir suiteDir suffixes) t report t') :
    ∃ names suite absent b t₁, t.tree.Lists sourcesDir names ∧
      SuiteLists t.tree suiteDir suite absent ∧
      Yields (Binaries.discover outputDir sourcesDir suiteDir suffixes) t b t₁ ∧
      b.Splits t.tree outputDir suiteDir suffixes names suite absent ∧
      report.Accounts t.tree b ∧
      report.copied.length + report.missing.length =
        names.length + suite.length + absent.length ∧
      (report.isComplete = true ↔
        (∀ name ∈ names, (builtOf outputDir suffixes name).isThere t.tree = true) ∧ absent = [] ∧
          ∀ e ∈ b.own ++ b.suite, e.canCopy t.tree = true) := by
  rw [assembleImage, yields_bind] at h
  obtain ⟨b, t₁, hdiscover, hassemble⟩ := h
  obtain ⟨hretains, names, suite, absent, hnames, hsuite, hsplits⟩ :=
    Binaries.splits_of_discover hdiscover
  have hthere := hsplits.isThere hsuite
  have haccounts := Assembly.accounts_assemble hassemble hthere hretains
  refine ⟨names, suite, absent, b, t₁, hnames, hsuite, hdiscover, hsplits, haccounts,
    haccounts.length_add.trans hsplits.length_add, ?_⟩
  rw [haccounts.isComplete_iff, hsplits.missing, List.append_eq_nil_iff, List.map_eq_nil_iff,
    List.filter_eq_nil_iff, and_assoc]
  simp

/-- A tree with two sources, of one of which there is a binary. -/
def halfBuilt : FileTree :=
  ((((FileTree.empty []).putNode ["src"] .directory).putNode ["out"] .directory).put
    ["src", "sh.rs"] .empty).put ["src", "gone.rs"] .empty |>.put ["out", "sh"]
      (Content.ofBytes [1, 2, 3])

/-- Of two sources one has a binary, and there is no test suite. -/
theorem exists_assembleImage_accounts : ∃ (t t' : Session) (report : Report),
    Yields (assembleImage { image := ⟨"", ["fs.img"]⟩, directories := [] } ⟨"", ["out"]⟩
      ⟨"", ["src"]⟩ ⟨"", ["suite"]⟩ sourceSuffixes) t report t' ∧
    ∃ names suite absent b t₁, t.tree.Lists ⟨"", ["src"]⟩ names ∧
      SuiteLists t.tree ⟨"", ["suite"]⟩ suite absent ∧
      Yields (Binaries.discover ⟨"", ["out"]⟩ ⟨"", ["src"]⟩ ⟨"", ["suite"]⟩ sourceSuffixes) t b t₁ ∧
      b.Splits t.tree ⟨"", ["out"]⟩ ⟨"", ["suite"]⟩ sourceSuffixes names suite absent ∧
      report.Accounts t.tree b ∧
      report.copied.length + report.missing.length =
        names.length + suite.length + absent.length ∧
      (report.isComplete = true ↔
        (∀ name ∈ names, (builtOf ⟨"", ["out"]⟩ sourceSuffixes name).isThere t.tree = true) ∧
          absent = [] ∧ ∀ e ∈ b.own ++ b.suite, e.canCopy t.tree = true) := by
  obtain ⟨⟨own, suite, missing⟩, t₁, hdiscover, hown, hsuite, hfile, htree⟩ : ∃ b t₁,
      Yields (Binaries.discover ⟨"", ["out"]⟩ ⟨"", ["src"]⟩ ⟨"", ["suite"]⟩ sourceSuffixes)
        { tree := halfBuilt, clock := "", searchPath := "" } b t₁ ∧
      b.own = [⟨⟨"", ["out", "sh"]⟩, "/sh"⟩] ∧ b.suite = [] ∧ t₁.logFile = none ∧
      t₁.tree = halfBuilt := ⟨_, _, rfl, rfl, rfl, rfl, rfl⟩
  dsimp only at hown hsuite
  subst hown hsuite
  have hpath : Fat.splitPath "/sh" = ["sh"] := by decide
  have hspelling : Fat.spellingOf "sh" (fun _ => false) =
      .ok ⟨none, Fat.asciiBytes "SH         ".toList, 8⟩ := by decide
  have hlocated : t₁.tree.locate ⟨"", ["fs.img"]⟩ = .ok ["fs.img"] := by
    rw [htree]
    rfl
  have hread : t₁.tree.read ⟨"", ["out", "sh"]⟩ = .ok (Content.ofBytes [1, 2, 3]) := by
    rw [htree]
    rfl
  obtain ⟨report, s', hassemble, -, -⟩ := Assembly.exists_assemble_small hfile (by rw [htree]; rfl)
    hlocated (by rw [htree]; rfl) hread (by decide) hpath hspelling (by decide) missing
  have hyields : Yields (assembleImage { image := ⟨"", ["fs.img"]⟩, directories := [] }
      ⟨"", ["out"]⟩ ⟨"", ["src"]⟩ ⟨"", ["suite"]⟩ sourceSuffixes)
      { tree := halfBuilt, clock := "", searchPath := "" } report s'.session :=
    yields_bind.2 ⟨_, t₁, hdiscover, Assembly.yields_on.2 ⟨s', hassemble, rfl⟩⟩
  exact ⟨_, _, report, hyields, assembleImage_accounts hyields⟩

end BootImage
