import BootImage.Kernel
import BootImage.Proofs.Session.Guarding

/-!
# What building a kernel leaves behind

A kernel is compiled, its raw binary is extracted and handed to the boot loader. Each step is told
here by what it may leave at a place, however it ends. The compiler is a program of the host, so it
leaves alone what its files are not. The raw binary is the old one or the executable laid out flat,
and what the boot loader finds is the old kernel or the raw binary.

## Main definitions

* `Registry.Gives`: the parameters of a target.
* `Resolved.command`: how the compiler is started.
* `Session.Copies`: a step while a file is copied.

## Main results

* `Builder.leaves_compile`, `Builder.of_compile`: compiling.
* `Builder.guards_extract`, `Builder.of_extract`: extracting the raw binary.
* `Artifact.copies_deploy`: handing it to the boot loader.
-/

namespace BootImage

open Host (Path FileTree)

variable {place : List String} {new : Set Content} {s s' t : Session}

/-! ### Targets -/

/-- A target has parameters in a kernel directory. -/
def Registry.Gives (registry : Registry) (kernelDir : Path) (target : Target) (r : Resolved) :
    Prop :=
  ∃ architecture board, registry.check target = .ok (architecture, board) ∧
    r = resolvedFor kernelDir target architecture board

theorem Registry.Gives.unique {registry : Registry} {kernelDir : Path} {target : Target}
    {r r' : Resolved} (h : registry.Gives kernelDir target r)
    (h' : registry.Gives kernelDir target r') : r' = r := by
  obtain ⟨architecture, board, hcheck, rfl⟩ := h
  obtain ⟨architecture', board', hcheck', rfl⟩ := h'
  cases hcheck.symm.trans hcheck'
  rfl

/-- The command that compiles a kernel, whichever word starts the compiler. -/
def Resolved.command (r : Resolved) (tool : String) : List String :=
  [tool, "build"] ++ (if r.target.mode = "release" then ["--release"] else []) ++
    ["--target", r.triple, "--features", " ".intercalate r.features]

theorem div_eq (p : Path) {name : String} (h : Path.ofString name = ⟨"", [name]⟩) :
    p / name = ⟨p.root, p.names ++ [name]⟩ := by
  have hdiv : p / name = p.join (Path.ofString name) := rfl
  rw [hdiv, h, Path.join, if_pos rfl]

/-- A name that is appended to a path is the last one. -/
theorem getLast?_div (p : Path) {name : String} (h : Path.ofString name = ⟨"", [name]⟩) :
    (p / name).names.getLast? = some name := by
  rw [div_eq p h, List.getLast?_concat]

section

variable {registry : Registry} {kernelDir : Path} {target : Target} {r : Resolved}

theorem guards_activate (h : r.activeScript.Avoids place) :
    Within (Session.Guards place new) r.activate := by
  refine (Build.guards_change fun _ _ hcopy => ?_).bind fun _ => Build.guards_log _
  exact FileTree.guards_copyFile hcopy (h _)

/-- Resolving a target writes to the linker script that is in force. -/
theorem guards_resolve (hplace : place.getLast? ≠ some "linker.ld") :
    Within (Session.Guards place new) (registry.resolve kernelDir target true) := by
  rw [Registry.resolve]
  cases registry.check target with
  | error cause => exact within_throw_bind _ _
  | ok found =>
    refine Within.bind (within_pure _) fun parameters => ?_
    obtain ⟨architecture, board⟩ := parameters
    refine (Build.guards_query _).bind fun isFile => ?_
    cases isFile with
    | false => exact within_throw_bind _ _
    | true =>
      refine Within.bind (guards_activate ?_) fun _ => within_pure _
      exact Path.avoids_of_getLast? (getLast?_div _ rfl) (by decide) hplace

theorem gives_of_resolve (h : Yields (registry.resolve kernelDir target true) s r s') :
    registry.Gives kernelDir target r := by
  rw [Registry.resolve] at h
  cases hcheck : registry.check target with
  | error cause =>
    rw [hcheck] at h
    obtain ⟨_, _, hfail, -⟩ := yields_bind.1 h
    exact absurd hfail not_yields_throw
  | ok found =>
    obtain ⟨architecture, board⟩ := found
    rw [hcheck] at h
    obtain ⟨parameters, _, hfound, hrest⟩ := yields_bind.1 h
    obtain ⟨rfl, rfl⟩ := yields_pure.1 hfound
    obtain ⟨isFile, _, -, hrest⟩ := yields_bind.1 hrest
    cases isFile with
    | false =>
      obtain ⟨_, _, hfail, -⟩ := yields_bind.1 hrest
      exact absurd hfail not_yields_throw
    | true =>
      obtain ⟨_, _, -, hrest⟩ := yields_bind.1 hrest
      obtain ⟨rfl, -⟩ := yields_pure.1 hrest
      exact ⟨_, _, hcheck, rfl⟩

end

/-! ### Compiling -/

namespace Builder

variable {b : Builder} {target : Target} {executable output : Path} {c : Content}

theorem guards_tool (b : Builder) (name : String) :
    Within (Session.Guards place new) (b.tool name) :=
  Within.bind (fun s => Std.Refl.refl s) fun _ => Build.guards_query _

/-- The compiler leaves alone what its files are not, and so does all that is done around it. -/
theorem leaves_compile (havoids : s.LogAvoids place) (hplace : place.getLast? ≠ some "linker.ld")
    (hspares : ∀ r, b.registry.Gives b.kernelDir target r → ∀ tool,
      s.NextSpares (r.command tool) place) :
    s.Leaves place new ((b.compile target).run.run s).2 := by
  rw [compile]
  refine Build.leaves_guards_bind (Build.guards_log _) havoids fun _ s₁ _ h₁ => ?_
  have havoids₁ := h₁.logAvoids havoids
  refine Build.leaves_guards_bind (guards_resolve hplace) havoids₁ fun r s₂ hr h₂ => ?_
  have havoids₂ := h₂.logAvoids havoids₁
  obtain ⟨architecture, board, hcheck, rfl⟩ := gives_of_resolve hr
  have hcommand := fun tool =>
    ((hspares _ ⟨architecture, board, hcheck, rfl⟩ tool).congr h₁ havoids).congr h₂ havoids₁
  cases b.toolchain.cargo with
  | none => exact (within_throw (R := Session.Guards place new) _ s₂).leaves havoids₂
  | some cargo =>
    refine Build.leaves_guards_bind (guards_tool b cargo) havoids₂ fun tool s₃ _ h₃ => ?_
    have havoids₃ := h₃.logAvoids havoids₂
    have hcommand := (hcommand tool).congr h₃ havoids₂
    refine run_bind_elim (fun _ _ hget => by cases hget) fun s₀ s₄ hget => ?_
    obtain ⟨rfl, rfl⟩ := yields_get.1 hget
    refine Build.leaves_bind (Build.leaves_runProgram havoids₃ hcommand) fun _ s₅ _ h₅ => ?_
    refine Session.Guards.leaves ?_ (havoids₃.congr h₅.logFile)
    have hpath : ∀ p : Path, Within (Session.Guards place new) (do
        let size := (← Build.query (·.read p)).size
        Build.log s!"[OK]    {p.name} — {size} bytes"
        return p) := fun p =>
      (Build.guards_query _).bind fun _ => (Build.guards_log _).bind fun _ => within_pure _
    refine Within.bind (Build.guards_query _) (fun isFile => ?_) s₅
    cases isFile with
    | false => exact within_throw_bind _ _
    | true => exact hpath _

/-- What was compiled is read at the path of the target's executable. -/
theorem of_compile (h : Yields (b.compile target) s executable t) :
    ∃ r c, b.registry.Gives b.kernelDir target r ∧ executable = r.executable ∧
      t.tree.read executable = .ok c := by
  rw [compile] at h
  obtain ⟨_, s₁, -, h⟩ := yields_bind.1 h
  obtain ⟨r, s₂, hr, h⟩ := yields_bind.1 h
  have hgives := gives_of_resolve hr
  cases hcargo : b.toolchain.cargo with
  | none =>
    rw [hcargo] at h
    exact absurd h not_yields_throw
  | some cargo =>
    rw [hcargo] at h
    obtain ⟨tool, s₃, -, h⟩ := yields_bind.1 h
    obtain ⟨_, s₄, -, h⟩ := yields_bind.1 h
    obtain ⟨_, s₅, -, h⟩ := yields_bind.1 h
    obtain ⟨isFile, s₆, -, h⟩ := yields_bind.1 h
    cases isFile with
    | false =>
      obtain ⟨_, _, hfail, -⟩ := yields_bind.1 h
      exact absurd hfail not_yields_throw
    | true =>
      obtain ⟨c, s₇, hquery, htell⟩ := yields_bind.1 h
      obtain ⟨hread, rfl⟩ := Build.yields_query.1 hquery
      obtain ⟨_, s₈, hlog, hpure⟩ := yields_bind.1 htell
      obtain ⟨rfl, rfl⟩ := yields_pure.1 hpure
      obtain ⟨c', hread'⟩ := ((Build.retains_log _).of_run hlog).read hread
      exact ⟨r, c', hgives, rfl, hread'⟩

/-! ### Extracting -/

theorem extract_eq (hconverter : b.toolchain.objcopy = none)
    (houtput : executable.withName? (executable.name ++ ".bin") = some output) :
    b.extract executable none = (do
      Build.log s!"=== EXTRACTING RAW BINARY ({executable.name}) ==="
      let content ← readExecutable executable
      let flat ← Build.ofExcept (.executable (toString executable)) (Elf.flatten content)
      Build.writeAtomically output flat
      let size := (← Build.query (·.read output)).size
      Build.log s!"[OK]    {output.name} — {size} bytes → {Host.sectorCount size} sectors"
      return { executable, rawBinary := output, size }) := by
  unfold extract
  rw [houtput, hconverter]
  rfl

theorem guards_readExecutable (p : Path) :
    Within (Session.Guards place new) (readExecutable p) := by
  refine (Build.guards_query _).bind fun isFile => ?_
  cases isFile with
  | false => exact within_throw_bind _ _
  | true => exact Build.guards_query (·.read p)

theorem yields_readExecutable {p : Path} (h : Yields (readExecutable p) s c s') :
    s.tree.read p = .ok c ∧ s' = s := by
  obtain ⟨isFile, s₁, hquery, hrest⟩ := yields_bind.1 h
  obtain ⟨-, rfl⟩ := Build.yields_query.1 hquery
  cases isFile with
  | false =>
    obtain ⟨_, _, hfail, -⟩ := yields_bind.1 hrest
    exact absurd hfail not_yields_throw
  | true =>
    have hread : Yields (Build.query (·.read p)) s₁ c s' := hrest
    exact Build.yields_query.1 hread

/-- What is read after a line was logged is what was there before. -/
theorem read_after_log {message : String} {content : Content} {u : Unit}
    (havoids : s.LogAvoids (executable.place s.tree.current))
    (hfile : s.tree.fileAt? executable = some c) (hlog : Yields (Build.log message) s u s')
    (hread : s'.tree.read executable = .ok content) : content = c := by
  have hguards : s.Guards (executable.place s.tree.current) ∅ s' := (Build.guards_log _).of_run hlog
  have hsame := (hguards havoids).2.2.fileAt?_eq
  rw [FileTree.fileAt?_of_read hread, hfile] at hsame
  exact Option.some.inj hsame

/-- The raw binary that is extracted to a path is the old one, or the executable laid out flat. -/
theorem guards_extract (hconverter : b.toolchain.objcopy = none)
    (houtput : executable.withName? (executable.name ++ ".bin") = some output)
    (hplace : place.getLast? ≠ some ("." ++ output.name ++ ".TMP"))
    (hnew : output.Avoids place ∨ ∀ flat, Elf.flatten c = .ok flat → flat ∈ new)
    (hfile : s.tree.fileAt? executable = some c)
    (havoids : s.LogAvoids (executable.place s.tree.current)) :
    s.Guards place new ((b.extract executable none).run.run s).2 := by
  rw [extract_eq hconverter houtput]
  refine (Build.guards_log _).run_bind fun _ s₁ hlog => ?_
  refine (guards_readExecutable _).run_bind fun content s₂ hyields => ?_
  obtain ⟨hread, rfl⟩ := yields_readExecutable hyields
  obtain rfl := read_after_log havoids hfile hlog hread
  refine (Build.guards_ofExcept _ _).run_bind fun flat s₃ hresult => ?_
  obtain ⟨hflat, rfl⟩ := Build.yields_ofExcept.1 hresult
  have hwrite : Within (Session.Guards place new) (Build.writeAtomically output flat) :=
    Build.guards_writeAtomically hplace (hnew.imp_right fun hnew => hnew flat hflat)
  refine (hwrite.bind fun _ => (Build.guards_query _).bind fun c' => ?_) s₃
  exact (Build.guards_log _).bind fun _ => within_pure _

theorem getLast?_of_withName? {p q : Path} {name : String} (h : p.withName? name = some q) :
    q.names.getLast? = some name := by
  rw [Path.withName?] at h
  split at h
  · cases h
  · cases h
    exact List.getLast?_concat

theorem binName_ne_up (name : String) : name ++ ".bin" ≠ ".." := by
  intro h
  have hlength := congrArg String.length h
  have hend : ".bin".length = 4 := by decide
  have hup : "..".length = 2 := by decide
  rw [String.length_append, hend, hup] at hlength
  omega

/-- What was extracted is the executable laid out flat. -/
theorem of_extract {a : Artifact} (hconverter : b.toolchain.objcopy = none)
    (houtput : executable.withName? (executable.name ++ ".bin") = some output)
    (hfile : s.tree.fileAt? executable = some c)
    (havoids : s.LogAvoids (executable.place s.tree.current))
    (havoids' : s.LogAvoids (output.place s.tree.current))
    (h : Yields (b.extract executable none) s a t) :
    a.rawBinary = output ∧
      ∃ flat, Elf.flatten c = .ok flat ∧ t.tree.fileAt? output = some flat := by
  rw [extract_eq hconverter houtput] at h
  obtain ⟨_, s₁, hlog, h₁⟩ := yields_bind.1 h
  obtain ⟨content, s₂, hyields, h₂⟩ := yields_bind.1 h₁
  obtain ⟨hread, rfl⟩ := yields_readExecutable hyields
  obtain rfl := read_after_log havoids hfile hlog hread
  obtain ⟨flat, s₃, hresult, h₃⟩ := yields_bind.1 h₂
  obtain ⟨hflat, rfl⟩ := Build.yields_ofExcept.1 hresult
  obtain ⟨_, s₄, hwrite, h₄⟩ := yields_bind.1 h₃
  obtain ⟨c', s₅, hquery, h₅⟩ := yields_bind.1 h₄
  obtain ⟨-, rfl⟩ := Build.yields_query.1 hquery
  obtain ⟨_, s₆, htell, hpure⟩ := yields_bind.1 h₅
  obtain ⟨rfl, rfl⟩ := yields_pure.1 hpure
  refine ⟨rfl, flat, hflat, ?_⟩
  have hwritten := FileTree.fileAt?_of_read (Build.read_of_writeAtomically hwrite)
  -- Only what is logged now could still change the raw binary, and the log is elsewhere.
  have hwriting : Within (Session.Guards (output.place s.tree.current) {flat})
      (Build.writeAtomically output flat) :=
    Build.guards_writeAtomically
      (Build.getLast?_place_ne (getLast?_of_withName? houtput) (binName_ne_up _) _) (.inr rfl)
  have hguards : s.Guards (output.place s.tree.current) {flat} s₅ :=
    IsTrans.trans _ _ _ ((Build.guards_log _).of_run hlog) (hwriting.of_run hwrite)
  have htold : s₅.Guards (output.place s₅.tree.current) ∅ t := (Build.guards_log _).of_run htell
  have havoids₅ : s₅.LogAvoids (output.place s₅.tree.current) := by
    rw [(hguards havoids').2.2.current]
    exact hguards.logAvoids havoids'
  rw [(htold havoids₅).2.2.fileAt?_eq]
  exact hwritten

end Builder

/-! ### Deploying -/

/-- A step while the file at a path is copied: it keeps its content `c`, and elsewhere the file at a
place is the one that was there, or has one of the contents `new`. -/
def Session.Copies (source : Path) (c : Content) (place : List String) (new : Set Content)
    (s s' : Session) : Prop :=
  s.LogAvoids (source.place s.tree.current) → s.tree.fileAt? source = some c →
    s'.LogAvoids (source.place s'.tree.current) ∧ s'.tree.fileAt? source = some c ∧
      s.Guards place new s'

section

variable {source dest : Path} {c : Content}

instance : Std.Refl (Session.Copies source c place new) :=
  ⟨fun s havoids hfile => ⟨havoids, hfile, Std.Refl.refl s⟩⟩

instance : IsTrans Session (Session.Copies source c place new) := by
  refine ⟨fun s s' s'' h h' havoids hfile => ?_⟩
  obtain ⟨havoids', hfile', hguards⟩ := h havoids hfile
  obtain ⟨havoids'', hfile'', hguards'⟩ := h' havoids' hfile'
  exact ⟨havoids'', hfile'', IsTrans.trans _ _ _ hguards hguards'⟩

theorem copies_of_guards
    (h : s.Guards (source.place s.tree.current) ∅ s') (h' : s.Guards place new s') :
    s.Copies source c place new s' := by
  intro havoids hfile
  obtain ⟨hlog, -, htree⟩ := h havoids
  refine ⟨?_, htree.fileAt?_eq.trans hfile, h'⟩
  rw [htree.current]
  exact havoids.congr hlog

/-- What the boot loader finds is the old kernel or the raw binary. -/
theorem Artifact.copies_deploy {a : Artifact}
    (htemporary : ∀ current,
      (a.rawBinary.place current).getLast? ≠ some ("." ++ dest.name ++ ".TMP"))
    (hdest : ∀ current, dest.Avoids (a.rawBinary.place current))
    (hplace : place.getLast? ≠ some ("." ++ dest.name ++ ".TMP"))
    (hnew : dest.Avoids place ∨ c ∈ new) :
    Within (Session.Copies a.rawBinary c place new) (a.deploy dest) := by
  have hwithin : ∀ {α : Type} {x : Build α},
      (∀ place' new', place'.getLast? ≠ some ("." ++ dest.name ++ ".TMP") →
        Within (Session.Guards place' new') x) →
      Within (Session.Copies a.rawBinary c place new) x := fun h s =>
    copies_of_guards (h _ _ (htemporary _) s) (h _ _ hplace s)
  refine Within.bind (Build.within_replaceFile ?_ ?_ (fun current s => ?_) ?_) fun _ => ?_
  · exact fun p => hwithin fun _ _ _ => Build.guards_makeDirectories p
  · exact fun current => hwithin fun _ _ hne =>
      Build.guards_create (Build.avoids_temporaryPath hne _)
  · intro havoids hfile
    have hgives : ∀ u s', Yields (do
        let content ← Build.query (·.read a.rawBinary)
        Build.change (·.write (Build.temporaryPath dest current) content)) s u s' →
          s'.tree.read (Build.temporaryPath dest current) = .ok c := by
      intro u s' hyields
      obtain ⟨content, s₁, hquery, hchange⟩ := yields_bind.1 hyields
      obtain ⟨hread, rfl⟩ := Build.yields_query.1 hquery
      obtain ⟨tree, hwrite, rfl⟩ := Build.yields_change.1 hchange
      rw [FileTree.fileAt?_of_read hread] at hfile
      rw [FileTree.read_of_write hwrite, Option.some.inj hfile]
    have hguards : ∀ place' new', place'.getLast? ≠ some ("." ++ dest.name ++ ".TMP") →
        dest.Avoids place' ∨ c ∈ new' → s.Guards place' new' _ := fun place' new' hne hnew' =>
      Build.guards_fill (Build.avoids_temporaryPath hne current)
        (((Build.guards_query _).bind fun _ =>
          Build.guards_write (.inl (Build.avoids_temporaryPath hne current))) s)
        fun u s' hyields => ⟨c, hgives u s' hyields, hnew'⟩
    exact copies_of_guards (hguards _ _ (htemporary _) (.inl (hdest _))) (hguards _ _ hplace hnew)
      havoids hfile
  · exact fun current => hwithin fun _ _ hne =>
      Build.guards_remove (Build.avoids_temporaryPath hne _)
  · exact hwithin fun _ _ _ => (Build.guards_log _).bind fun _ => within_pure _

end

end BootImage
