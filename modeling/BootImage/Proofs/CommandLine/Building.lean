import BootImage.CommandLine.Commands
import BootImage.Proofs.Assembly.Guarding
import BootImage.Proofs.Elf.Flattening
import BootImage.Proofs.Kernel

/-!
# The deployed kernel is all or nothing

A build writes the log, the linker script in force, the raw binary, the kernel that the boot loader
finds and the image, and it starts a compiler, which may write anything. It can stop anywhere on the
way. What is left at the kernel's path, the image's and the raw binary's is told here for all of
that at once: each of them is watched by its last name, which none of the files that are written on
the way has, and the compiler is only asked to leave these three alone.

There are two ways to watch a place. Once a raw binary is there, the kernel and the raw binary can
become what the compiler left, laid out flat, and nothing else; the image can be anything. Before
that nothing comes to the kernel and the image at all.

## Main definitions

* `BuildOptions.Compiles`, `BuildOptions.Extracts`: how far a run gets.
* `BuildOptions.kernels`: what the kernel can become.
* `BuildOptions.Watches`: a place that can be watched.
* `BuildOptions.AllOrNothing`: what a run may have done.

## Main results

* `leaves_buildSteps`: a build leaves at a place what was there, or a kernel that can come of it.
* `build_allOrNothing`: so does the command line.
-/

namespace BootImage.CommandLine

open Host (Path FileTree)

variable {place : List String} {new : Set Content} {s s' t : Session} {l : Layout}
  {o : BuildOptions}

/-! ### Steps of a command -/

/-- Starting a new log file removes the old one, and nothing else. -/
theorem guards_resetLog : Within (Session.Guards place new) resetLog := by
  intro s
  rw [resetLog]
  refine run_bind_elim (fun _ _ hget => by cases hget) fun s₀ s₁ hget => ?_
  obtain ⟨rfl, rfl⟩ := yields_get.1 hget
  cases hfile : s₁.logFile with
  | none => exact Std.Refl.refl _
  | some file =>
    intro havoids
    have hremove : Within (Session.Guards place new) (Build.change (·.remove file)) :=
      Build.guards_remove (havoids file hfile)
    refine ((Build.guards_makeDirectories _).bind fun _ => ?_) s₁ havoids
    refine (Build.guards_has _).bind fun has => ?_
    cases has with
    | false => exact within_pure _
    | true => exact hremove

theorem guards_printLines (lines : List String) {rest : Build Unit}
    (hrest : Within (Session.Guards place new) rest) : Within (Session.Guards place new) (do
      for line in lines do
        Build.print line
      rest) :=
  Within.bind (Within.forIn lines fun line _ => Build.guards_print line) fun _ => hrest

theorem guards_load (p : Path) : Within (Session.Guards place new) (Settings.load p) := by
  refine (Build.guards_has p).bind fun has => ?_
  cases has with
  | false => exact within_pure _
  | true =>
    refine Within.bind ?_ fun _ => within_pure _
    refine (Build.guards_query _).bind fun content => ?_
    split
    · exact within_pure _
    · exact within_throw _

theorem guards_printSummary (a : Option Artifact) (report : Option Report) :
    Within (Session.Guards place new) (printSummary l a report) := by
  have hlast : Within (Session.Guards place new) (do
      Build.print "╚══════════════════════════════════════════════════════════════════════╝"
      Build.print "") :=
    (Build.guards_print _).bind fun _ => Build.guards_print _
  have hreport : ∀ r : Report, Within (Session.Guards place new) (do
      let size := (← Build.query (·.read r.image)).size
      for line in reportLines r size do
        Build.print line
      Build.print "╚══════════════════════════════════════════════════════════════════════╝"
      Build.print "") := fun r =>
    (Build.guards_query _).bind fun c => guards_printLines _ hlast
  refine guards_printLines _ ?_
  cases a with
  | none =>
    cases report with
    | none => exact hlast
    | some r => exact hreport r
  | some a =>
    refine (Build.guards_has _).bind fun deployed => guards_printLines _ ?_
    cases report with
    | none => exact hlast
    | some r => exact hreport r

/-- What comes before the kernel is built: a new log file and the settings. -/
def prepare (l : Layout) : Build Settings.Values := do
  resetLog
  printBanner
  Settings.load l.settings

theorem guards_prepare : Within (Session.Guards place new) (prepare l) :=
  guards_resetLog.bind fun _ => (guards_printLines _ (within_pure _)).bind fun _ => guards_load _

/-! ### The image -/

theorem guards_discover (outputDir sourcesDir suiteDir : Path) (suffixes : List String) :
    Within (Session.Guards place new)
      (Binaries.discover outputDir sourcesDir suiteDir suffixes) := by
  refine (Build.guards_query _).bind fun sources => ?_
  refine (Build.guards_query _).bind fun own => ?_
  refine (Build.guards_query _).bind fun suite => ?_
  exact (Within.forIn _ fun m _ => Build.guards_log _).bind fun _ => within_pure _

theorem guards_assembleUnsized {image : Path} {i : ImageOptions} (himage : image.Avoids place) :
    Within (Session.Guards place ∅) (assembleUnsized image i) := by
  refine (Build.guards_log _).bind fun _ => ?_
  split
  · split
    · exact (Assembly.guards_on himage Assembly.guards_createImage).bind fun _ => within_throw _
    · exact within_throw _
  · exact within_throw _

theorem guards_assembleSized {image : Path} {i : ImageOptions} {binaries : Binaries}
    (himage : image.Avoids place) :
    Within (Session.Guards place ∅) (assembleSized image i binaries) := by
  unfold assembleSized
  split
  · exact Assembly.guards_on himage (Assembly.guards_assemble _ _ _)
  · exact guards_assembleUnsized himage

/-- The image of a project is assembled at its path. -/
theorem guards_assembleFor {settings : Settings.Values} {architecture : Option String}
    {i : ImageOptions} (himage : (i.image.getD l.image).Avoids place) :
    Within (Session.Guards place ∅) (assembleFor l settings architecture i) := by
  unfold assembleFor
  split
  · split
    · exact (guards_discover _ _ _ _).bind fun binaries => guards_assembleSized himage
    · exact within_throw _
  · exact within_throw _

/-! ### What a run gets to -/

/-- What builds the kernel that options ask for. -/
def BuildOptions.builder (o : BuildOptions) (l : Layout) (settings : Settings.Values) :
    Builder where
  registry := .standard
  kernelDir := l.kernelDir
  toolchain :=
    { binDir := Toolchain.chooseBinDir o.toolchainDir settings, cargo := o.cargo
      objcopy := o.objcopy, logLevel := o.logLevel }

/-- The parameters of the target that options name. -/
def BuildOptions.Resolves (o : BuildOptions) (l : Layout) (r : Resolved) : Prop :=
  Registry.standard.Gives l.kernelDir o.target r

/-- A run that starts in a state gets through a step of the builder, which gives a result and leaves
a state. -/
def BuildOptions.Reaches {α : Type} (o : BuildOptions) (l : Layout) (step : Builder → Build α)
    (s : Session) (a : α) (t : Session) : Prop :=
  o.checkTarget = .ok () ∧ ∃ settings s₁, Yields (prepare l) s settings s₁ ∧
    Yields (step (o.builder l settings)) s₁ a t

/-- A run gets as far as an executable. -/
def BuildOptions.Compiles (o : BuildOptions) (l : Layout) (s : Session) (executable : Path)
    (t : Session) : Prop :=
  o.Reaches l (·.compile o.target) s executable t

/-- A run gets as far as a raw binary. -/
def BuildOptions.Extracts (o : BuildOptions) (l : Layout) (s : Session) (a : Artifact)
    (t : Session) : Prop :=
  o.Reaches l (·.build o.target) s a t

/-- What the kernel can become in a run: the executable that the compiler leaves at its path, laid
out flat. -/
def BuildOptions.kernels (o : BuildOptions) (l : Layout) (s : Session) : Set Content :=
  {flat | ∃ r t c, o.Resolves l r ∧ o.Compiles l s r.executable t ∧
    t.tree.read r.executable = .ok c ∧ Elf.flatten c = .ok flat}

theorem getLast?_executable {r : Resolved} (hr : o.Resolves l r) :
    r.executable.names.getLast? = some "os" := by
  obtain ⟨architecture, board, -, rfl⟩ := hr
  exact getLast?_div _ rfl

theorem getLast?_rawBinary {r : Resolved} (hr : o.Resolves l r) :
    r.rawBinary.names.getLast? = some "os.bin" := by
  obtain ⟨architecture, board, -, rfl⟩ := hr
  exact getLast?_div _ rfl

/-- The temporary file of the raw binary. -/
theorem temporaryName_rawBinary {r : Resolved} (hr : o.Resolves l r) :
    "." ++ r.rawBinary.name ++ ".TMP" = ".os.bin.TMP" := by
  rw [Path.name, getLast?_rawBinary hr]
  rfl

theorem getLast?_deployed : l.deployed.names.getLast? = some "kernel-qemu" :=
  getLast?_div _ rfl

theorem getLast?_image : l.image.names.getLast? = some "fs.img" :=
  getLast?_div _ rfl

/-- The temporary file of the deployed kernel. -/
theorem temporaryName_deployed : "." ++ l.deployed.name ++ ".TMP" = ".kernel-qemu.TMP" := by
  rw [Path.name, getLast?_deployed]
  rfl

/-- The log of a build is nowhere but at its path. -/
theorem logAvoids_of_buildLog (hlog : s.logFile = some l.buildLog)
    (hplace : place.getLast? ≠ some "build.log") : s.LogAvoids place := by
  rw [Session.LogAvoids, hlog]
  rintro p ⟨rfl⟩
  exact Path.avoids_of_getLast? (getLast?_div _ rfl) (by decide) hplace

theorem logAvoids_executable {r : Resolved} (hlog : s.logFile = some l.buildLog)
    (hr : o.Resolves l r) (current : List String) :
    s.LogAvoids (r.executable.place current) := by
  refine logAvoids_of_buildLog hlog ?_
  rw [Path.getLast?_place (getLast?_executable hr) (by decide)]
  decide

theorem logAvoids_rawBinary {r : Resolved} (hlog : s.logFile = some l.buildLog)
    (hr : o.Resolves l r) (current : List String) :
    s.LogAvoids (r.rawBinary.place current) := by
  refine logAvoids_of_buildLog hlog ?_
  rw [Path.getLast?_place (getLast?_rawBinary hr) (by decide)]
  decide

/-- The raw binary is beside the executable. -/
theorem output_of_resolves {r : Resolved} (hr : o.Resolves l r) :
    r.executable.withName? (r.executable.name ++ ".bin") = some r.rawBinary := by
  obtain ⟨architecture, board, -, rfl⟩ := hr
  have hbeside : ∀ p : Path, (p / "os").withName? ((p / "os").name ++ ".bin") =
      some (p / "os.bin") := by
    intro p
    have hname : (p / "os").name = "os" := by
      rw [Path.name, getLast?_div p rfl]
      rfl
    have hos : p / "os" = ⟨p.root, p.names ++ ["os"]⟩ := div_eq p rfl
    have hbin : p / "os.bin" = ⟨p.root, p.names ++ ["os.bin"]⟩ := div_eq p rfl
    rw [Path.withName?, hname, if_neg (by decide), hos, hbin, List.dropLast_concat]
    rfl
  exact hbeside _

/-! ### The build -/

/-- What comes between the settings and the summary. -/
def buildSteps (l : Layout) (settings : Settings.Values) (o : BuildOptions) :
    Build (Artifact × Option Report) := do
  let artifact ← buildTarget (o.builder l settings) o
  if o.deploys then
    let _ ← artifact.deploy l.deployed
  let report ← if o.makesImage then
      some <$> assembleFor l settings o.architecture o.image
    else pure none
  pure (artifact, report)

theorem buildProject_eq : buildProject l o = (do
    let settings ← prepare l
    let (artifact, report) ← tryCatch (buildSteps l settings o) fun failure =>
      throw (failure.about (toString o.target))
    printSummary l (some artifact) report) := by
  rw [prepare]
  simp only [bind_assoc]
  rfl

/-- The names of the files that a build writes on the way. -/
def namesOnTheWay : List String :=
  ["build.log", "linker.ld", ".os.bin.TMP", ".kernel-qemu.TMP"]

/-- A place at which a build can be watched: what is written on the way is elsewhere, and so are the
files of the compiler. -/
structure BuildOptions.Watches (o : BuildOptions) (l : Layout) (s : Session)
    (place : List String) : Prop where
  log : s.logFile = some l.buildLog
  apart : ∀ name ∈ namesOnTheWay, place.getLast? ≠ some name
  spares : ∀ r, o.Resolves l r → ∀ tool, s.NextSpares (r.command tool) place

theorem BuildOptions.Watches.logAvoids (h : o.Watches l s place) : s.LogAvoids place :=
  logAvoids_of_buildLog h.log (h.apart _ (by decide))

section

variable {settings : Settings.Values} {s₁ : Session}

theorem leaves_compile (hwatch : o.Watches l s place)
    (hprepare : Yields (prepare l) s settings s₁) :
    s₁.Leaves place new (((o.builder l settings).compile o.target).run.run s₁).2 := by
  have hprepared : s.Guards place new s₁ := guards_prepare.of_run hprepare
  exact Builder.leaves_compile (hprepared.logAvoids hwatch.logAvoids)
    (hwatch.apart _ (by decide)) fun r hr tool =>
      (hwatch.spares r hr tool).congr hprepared hwatch.logAvoids

/-- What the compiler left, laid out flat, is one of the kernels that can come of the run. -/
theorem of_compile {executable : Path} {s₂ : Session} (hwatch : o.Watches l s place)
    (hcheck : o.checkTarget = .ok ()) (hprepare : Yields (prepare l) s settings s₁)
    (hcompile : Yields ((o.builder l settings).compile o.target) s₁ executable s₂) :
    s₂.logFile = some l.buildLog ∧ ∃ r c, o.Resolves l r ∧ executable = r.executable ∧
      s₂.tree.fileAt? executable = some c ∧
      ∀ flat, Elf.flatten c = .ok flat → flat ∈ o.kernels l s := by
  have hprepared : s.Guards place ∅ s₁ := guards_prepare.of_run hprepare
  have hleaves : s₁.Leaves place ∅ _ := leaves_compile hwatch hprepare
  rw [hcompile] at hleaves
  obtain ⟨r, c, hr, rfl, hread⟩ := Builder.of_compile hcompile
  refine ⟨hleaves.logFile.trans ((hprepared hwatch.logAvoids).1.trans hwatch.log), r, c, hr, rfl,
    FileTree.fileAt?_of_read hread, fun flat hflat => ?_⟩
  exact ⟨r, s₂, c, hr, ⟨hcheck, settings, s₁, hprepare, hcompile⟩, hread, hflat⟩

theorem leaves_buildTarget (hwatch : o.Watches l s place) (hconverter : o.objcopy = none)
    (hprepare : Yields (prepare l) s settings s₁)
    (hnew : o.kernels l s ⊆ new ∨ ∀ r, o.Resolves l r → r.rawBinary.Avoids place) :
    s₁.Leaves place new ((buildTarget (o.builder l settings) o).run.run s₁).2 := by
  have hprepared : s.Guards place new s₁ := guards_prepare.of_run hprepare
  have havoids := hprepared.logAvoids hwatch.logAvoids
  rw [buildTarget]
  cases hcheck : o.checkTarget with
  | error cause =>
    exact (((Build.guards_log _).bind fun _ => within_throw _) s₁).leaves havoids
  | ok u =>
    refine Build.leaves_bind (leaves_compile hwatch hprepare) fun executable s₂ hcompile h₂ => ?_
    obtain ⟨hlog₂, r, c, hr, rfl, hfile, hkernel⟩ := of_compile hwatch hcheck hprepare hcompile
    refine Session.Guards.leaves ?_ (havoids.congr h₂.logFile)
    refine Builder.guards_extract hconverter (output_of_resolves hr) ?_ ?_ hfile
      (logAvoids_executable hlog₂ hr _)
    · rw [temporaryName_rawBinary hr]
      exact hwatch.apart _ (by decide)
    · exact hnew.symm.imp (fun hnew => hnew r hr) fun hnew flat hflat => hnew (hkernel flat hflat)

/-- The raw binary of a target that was built is one of the kernels that can come of the run. -/
theorem of_buildTarget {a : Artifact} (hwatch : o.Watches l s place)
    (hconverter : o.objcopy = none) (hprepare : Yields (prepare l) s settings s₁)
    (h : Yields (buildTarget (o.builder l settings) o) s₁ a t) :
    o.Extracts l s a t ∧ ∃ r, o.Resolves l r ∧ a.rawBinary = r.rawBinary ∧
      ∃ flat ∈ o.kernels l s, t.tree.fileAt? r.rawBinary = some flat := by
  rw [buildTarget] at h
  cases hcheck : o.checkTarget with
  | error cause =>
    rw [hcheck] at h
    obtain ⟨_, _, -, hfail⟩ := yields_bind.1 h
    exact absurd hfail not_yields_throw
  | ok u =>
    rw [hcheck] at h
    refine ⟨⟨hcheck, settings, s₁, hprepare, h⟩, ?_⟩
    obtain ⟨executable, s₂, hcompile, hextract⟩ := yields_bind.1 h
    obtain ⟨hlog₂, r, c, hr, rfl, hfile, hkernel⟩ := of_compile hwatch hcheck hprepare hcompile
    obtain ⟨hbinary, flat, hflat, hwritten⟩ := Builder.of_extract hconverter
      (output_of_resolves hr) hfile (logAvoids_executable hlog₂ hr _)
      (logAvoids_rawBinary hlog₂ hr _) hextract
    exact ⟨r, hr, hbinary, flat, hkernel flat hflat, hwritten⟩

/-- The kernel that is deployed is the raw binary. -/
theorem guards_deploy {a : Artifact} {r : Resolved} {flat : Content}
    (hlog : s.logFile = some l.buildLog) (hr : o.Resolves l r)
    (hbinary : a.rawBinary = r.rawBinary) (hfile : s.tree.fileAt? r.rawBinary = some flat)
    (hplace : place.getLast? ≠ some ".kernel-qemu.TMP") (hnew : flat ∈ new) :
    s.Guards place new ((a.deploy l.deployed).run.run s).2 := by
  have hcopies : Within (Session.Copies a.rawBinary flat place new) (a.deploy l.deployed) := by
    refine Artifact.copies_deploy (fun current => ?_) (fun current => ?_) ?_ (.inr hnew)
    · rw [hbinary, temporaryName_deployed,
        Path.getLast?_place (getLast?_rawBinary hr) (by decide)]
      decide
    · rw [hbinary]
      exact Path.avoids_place getLast?_deployed (by decide) (getLast?_rawBinary hr) (by decide)
        (by decide) current
    · rw [temporaryName_deployed]
      exact hplace
  rw [← hbinary] at hfile
  have havoids : s.LogAvoids (a.rawBinary.place s.tree.current) := by
    rw [hbinary]
    exact logAvoids_rawBinary hlog hr _
  exact (hcopies s havoids hfile).2.2

/-- A build leaves at a place what was there, or a kernel that can come of it. Nothing but the raw
binary is changed before there is one. -/
theorem leaves_buildSteps (hwatch : o.Watches l s place) (hconverter : o.objcopy = none)
    (himage : o.image.image = none) (hprepare : Yields (prepare l) s settings s₁)
    (hnew : o.kernels l s ⊆ new ∨ ∀ r, o.Resolves l r → r.rawBinary.Avoids place)
    (hrest : (∃ a t, o.Extracts l s a t) → o.kernels l s ⊆ new ∧ l.image.Avoids place) :
    s₁.Leaves place new ((buildSteps l settings o).run.run s₁).2 := by
  have hprepared : s.Guards place new s₁ := guards_prepare.of_run hprepare
  have havoids := hprepared.logAvoids hwatch.logAvoids
  refine Build.leaves_bind (leaves_buildTarget hwatch hconverter hprepare hnew)
    fun a s₂ htarget h₂ => ?_
  obtain ⟨hextracts, r, hr, hbinary, flat, hflat, hwritten⟩ :=
    of_buildTarget hwatch hconverter hprepare htarget
  obtain ⟨hkernels, himageAvoids⟩ := hrest ⟨a, s₂, hextracts⟩
  have havoids₂ : s₂.LogAvoids place := havoids.congr h₂.logFile
  have hlog₂ : s₂.logFile = some l.buildLog :=
    h₂.logFile.trans ((hprepared hwatch.logAvoids).1.trans hwatch.log)
  have hreport : Within (Session.Guards place new) (do
      let report ← if o.makesImage then
          some <$> assembleFor l settings o.architecture o.image
        else pure none
      pure (a, report)) := by
    split
    · refine Within.bind ?_ fun _ => within_pure _
      rw [map_eq_pure_bind]
      have hassemble : Within (Session.Guards place ∅)
          (assembleFor l settings o.architecture o.image) :=
        guards_assembleFor (by rwa [himage])
      exact (hassemble.mono fun _ _ h => h.mono (Set.empty_subset new)).bind fun _ => within_pure _
    · exact Within.bind (within_pure _) fun _ => within_pure _
  have hdeploy := guards_deploy hlog₂ hr hbinary hwritten (hwatch.apart _ (by decide))
    (hkernels hflat)
  simp only
  split
  · exact Build.leaves_bind (hdeploy.leaves havoids₂) fun _ s₃ _ h₃ =>
      (hreport s₃).leaves (havoids₂.congr h₃.logFile)
  · exact (hreport s₂).leaves havoids₂

end

theorem leaves_buildProject (hwatch : o.Watches l s place) (hconverter : o.objcopy = none)
    (himage : o.image.image = none)
    (hnew : o.kernels l s ⊆ new ∨ ∀ r, o.Resolves l r → r.rawBinary.Avoids place)
    (hrest : (∃ a t, o.Extracts l s a t) → o.kernels l s ⊆ new ∧ l.image.Avoids place) :
    s.Leaves place new ((buildProject l o).run.run s).2 := by
  rw [buildProject_eq]
  refine Build.leaves_guards_bind guards_prepare hwatch.logAvoids fun settings s₁ hprepare h₁ => ?_
  have havoids := h₁.logAvoids hwatch.logAvoids
  have hsteps := leaves_buildSteps hwatch hconverter himage hprepare hnew hrest
  refine Build.leaves_bind (Build.leaves_tryCatch hsteps (fun _ => within_throw _) havoids)
    fun built s₂ _ h₂ => ?_
  exact (guards_printSummary _ _ s₂).leaves (havoids.congr h₂.logFile)

/-! ### The command line -/

theorem state_execute {words : List String} {invocation : Invocation}
    (hwords : Invocation.ofWords words = .ok invocation) (s : Session) :
    (execute words s).2 = ((perform invocation).run.run s).2 := by
  rw [execute, hwords]
  cases hrun : (perform invocation).run.run s with
  | mk result s' => cases result <;> simp [hrun]

/-- The state in which a build starts: its log file is known. -/
def buildStart (l : Layout) (s : Session) : Session :=
  { s with logFile := some l.buildLog }

/-- A command line that asks for a build leaves at a place what the build does. Only a failure is
logged after it. -/
theorem leaves_execute {words : List String} {root : Path}
    (hwords : Invocation.ofWords words = .ok ⟨some root, .build o⟩)
    (hroot : Layout.ofRoot s.tree root = .ok l)
    (havoids : (buildStart l s).LogAvoids place)
    (hbuild : (buildStart l s).Leaves place new
      ((buildProject l o).run.run (buildStart l s)).2) :
    (buildStart l s).Leaves place new (execute words s).2 := by
  have hlayout : Yields (Build.query fun tree => Layout.ofRoot tree root) s l s :=
    Build.yields_query.2 ⟨hroot, rfl⟩
  rw [state_execute hwords, perform]
  simp only
  rw [run_bind_ok _ hlayout]
  refine run_bind_elim (fun _ _ hmodify => by cases hmodify) fun _ s₁ hmodify => ?_
  obtain rfl := yields_modify.1 hmodify
  have hperform : (buildStart l s).Leaves place new
      ((Command.perform l (.build o)).run.run (buildStart l s)).2 :=
    Build.leaves_bind hbuild fun _ _ _ _ => ⟨rfl, .refl ..⟩
  refine Build.leaves_bind (Build.leaves_tryCatch (Build.leaves_bind hperform ?_) ?_ havoids) ?_
  · exact fun _ _ _ _ => ⟨rfl, .refl ..⟩
  · intro failure
    split
    · exact (Build.guards_log _).bind fun _ => within_pure _
    · exact within_throw_bind _ _
  · intro e _ _ _
    cases e <;> exact ⟨rfl, .refl ..⟩

/-! ### All or nothing -/

/-- The files that the compiler writes are other ones than the kernel, the image and the raw binary,
whichever word starts the compiler. -/
def BuildOptions.Spared (o : BuildOptions) (l : Layout) (s : Session) : Prop :=
  ∀ r, o.Resolves l r → ∀ tool, ∀ p ∈ [l.deployed, l.image, r.rawBinary],
    s.NextSpares (r.command tool) (p.place s.tree.current)

/-- What a run may have done to the kernel that the boot loader finds, to the image and to the raw
binary. -/
structure BuildOptions.AllOrNothing (o : BuildOptions) (l : Layout) (s s' : Session) : Prop where
  /-- Unless the run gets as far as a raw binary, the kernel and the image stay. -/
  failed : (¬ ∃ a t, o.Extracts l s a t) →
    s'.tree.fileAt? l.deployed = s.tree.fileAt? l.deployed ∧
      s'.tree.fileAt? l.image = s.tree.fileAt? l.image
  /-- A kernel that is a new one is the executable that the compiler left, laid out flat. -/
  deployed : s'.tree.fileAt? l.deployed ≠ s.tree.fileAt? l.deployed →
    ∃ flat ∈ o.kernels l s, s'.tree.fileAt? l.deployed = some flat
  /-- An executable that has no segments to load gets nowhere. -/
  rejected : ∀ r t c e, o.Resolves l r → o.Compiles l s r.executable t →
    t.tree.read r.executable = .ok c → Elf.segments c = .error e →
      s'.tree.fileAt? l.deployed = s.tree.fileAt? l.deployed ∧
        s'.tree.fileAt? r.rawBinary = s.tree.fileAt? r.rawBinary

/-- The steps of a run are those that its start determines. -/
theorem BuildOptions.Reaches.unique {α : Type} {step : Builder → Build α} {a a' : α}
    (h : o.Reaches l step s a t) (h' : o.Reaches l step s a' s') : a' = a ∧ s' = t := by
  obtain ⟨-, settings, s₁, hprepare, hstep⟩ := h
  obtain ⟨-, settings', s₁', hprepare', hstep'⟩ := h'
  cases hprepare.symm.trans hprepare'
  cases hstep.symm.trans hstep'
  exact ⟨rfl, rfl⟩

/-- No kernel comes of an executable that has no segments to load. -/
theorem kernels_eq_empty {r : Resolved} {c : Content} {e : Elf.Error}
    (hcompiles : o.Compiles l s r.executable t) (hread : t.tree.read r.executable = .ok c)
    (herror : Elf.segments c = .error e) : o.kernels l s = ∅ := by
  refine Set.eq_empty_of_forall_notMem ?_
  rintro flat ⟨r', t', c', -, hcompiles', hread', hflat⟩
  obtain ⟨hexecutable, rfl⟩ := hcompiles.unique hcompiles'
  rw [hexecutable, hread] at hread'
  cases hread'
  rw [Elf.flatten, Elf.flattenWithin, herror] at hflat
  cases hflat

/-- The names of the kernel, the image and the raw binary. -/
def namesWatched : List String :=
  ["kernel-qemu", "fs.img", "os.bin"]

theorem watches_place {p : Path} {name : String} (hlog : s.logFile = some l.buildLog)
    (hp : p.names.getLast? = some name) (hname : name ∈ namesWatched)
    (hspares : ∀ r, o.Resolves l r → ∀ tool,
      s.NextSpares (r.command tool) (p.place s.tree.current)) :
    o.Watches l s (p.place s.tree.current) := by
  have hup : name ≠ ".." := by
    rintro rfl
    exact absurd hname (by decide)
  refine ⟨hlog, fun other hother heq => ?_, hspares⟩
  rw [Path.getLast?_place hp hup] at heq
  have hapart : ∀ x ∈ namesWatched, x ∉ namesOnTheWay := by decide
  exact hapart name hname (Option.some.inj heq ▸ hother)

section

variable {words : List String} {root p : Path} {name : String}
  (hwords : Invocation.ofWords words = .ok ⟨some root, .build o⟩)
  (hroot : Layout.ofRoot s.tree root = .ok l) (hconverter : o.objcopy = none)
  (himage : o.image.image = none) (hp : p.names.getLast? = some name) (hname : name ∈ namesWatched)
  (hspares : ∀ r, o.Resolves l r → ∀ tool,
    s.NextSpares (r.command tool) (p.place s.tree.current))

include hwords hroot hconverter himage hp hname hspares

/-- What a command line that asks for a build leaves at a path that can be watched. -/
theorem fileAt?_execute
    (hnew : o.kernels l (buildStart l s) ⊆ new ∨
      ∀ r, o.Resolves l r → r.rawBinary.Avoids (p.place s.tree.current))
    (hrest : (∃ a t, o.Extracts l (buildStart l s) a t) →
      o.kernels l (buildStart l s) ⊆ new ∧ l.image.Avoids (p.place s.tree.current)) :
    (execute words s).2.tree.fileAt? p = s.tree.fileAt? p ∨
      ∃ c ∈ new, (execute words s).2.tree.fileAt? p = some c := by
  have hwatch : o.Watches l (buildStart l s) (p.place s.tree.current) :=
    watches_place rfl hp hname hspares
  exact (leaves_execute hwords hroot hwatch.logAvoids
    (leaves_buildProject hwatch hconverter himage hnew hrest)).tree.fileAt?

/-- Whatever happens, only a kernel that can come of the run gets to a path that is not the
image's. -/
theorem fileAt?_kernels (hother : name ≠ "fs.img") :
    (execute words s).2.tree.fileAt? p = s.tree.fileAt? p ∨
      ∃ c ∈ o.kernels l (buildStart l s), (execute words s).2.tree.fileAt? p = some c := by
  refine fileAt?_execute hwords hroot hconverter himage hp hname hspares (.inl subset_rfl) fun _ =>
    ⟨subset_rfl, Path.avoids_place getLast?_image (by decide) hp ?_ hother.symm _⟩
  rintro rfl
  exact absurd hname (by decide)

/-- Unless there is a raw binary, no other path is changed. -/
theorem fileAt?_failed (hother : name ≠ "os.bin")
    (hfailed : ¬ ∃ a t, o.Extracts l (buildStart l s) a t) :
    (execute words s).2.tree.fileAt? p = s.tree.fileAt? p := by
  have hfile : (execute words s).2.tree.fileAt? p = s.tree.fileAt? p ∨
      ∃ c ∈ (∅ : Set Content), (execute words s).2.tree.fileAt? p = some c := by
    refine fileAt?_execute hwords hroot hconverter himage hp hname hspares (.inr fun r hr => ?_)
      fun hextracts => absurd hextracts hfailed
    refine Path.avoids_place (getLast?_rawBinary hr) (by decide) hp ?_ hother.symm _
    rintro rfl
    exact absurd hname (by decide)
  exact hfile.resolve_right fun ⟨_, hc, _⟩ => hc

end

/-- A command line whose image is to have no blocks. -/
def emptyImageWords : List String :=
  ["build", "--arch", "riscv64", "--board", "rvqemu", "--block-count", "0"]

/-- The options of that command line. -/
def emptyImageOptions : BuildOptions where
  architecture := "riscv64"
  board := "rvqemu"
  features := []
  toolchainDir := none
  cargo := "cargo"
  objcopy := none
  logLevel := none
  deploys := true
  makesImage := true
  image :=
    { mode := "release", image := none, suiteDir := none, blockSize := some 512
      blockCount := some 0, sectorsPerCluster := some 1 }

/-- A project in the current directory, of which there is a linker script alone. -/
def scriptOnly : FileTree :=
  ((FileTree.empty ["project"]).plant
    (Path.ofString "/project/os/src/hal/arch/riscv/linker-rvqemu.ld")
    (.file Content.empty false)).2

/-- A session in which the compiler leaves an executable of one segment. -/
def compiledOnce : Session where
  tree := scriptOnly
  clock := ""
  searchPath := ""
  answers := [.ended 0 "" ""
    [(.path (Path.ofString "os/target/riscv64gc-unknown-none-elf/release/os"),
      .file (Elf.headersOnly (Elf.leading 8 0x1000) { Elf.leading 8 0x1000 with type := 0 }) true)]]

end BootImage.CommandLine
