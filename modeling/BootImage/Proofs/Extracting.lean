import BootImage.Proofs.Elf.Flattening
import BootImage.Proofs.Kernel
import BootImage.Proofs.Session.Exchanging

/-!
# Raw binaries are exchanged

However an extraction ends, and whatever the converter does to the temporary file that it is given,
the file at the output is the executable laid out flat, or what the converter left, as a whole, or
the file that was there. The same holds where a raw binary is handed to the boot loader. No
temporary file is left behind, and the executable stays as it is.

Two paths are different if they lead to different places, however they are spelled: an executable
that is the output itself is exchanged like any other file.

## Main definitions

* `Builder.outcomes`: what an extraction may put in the place of its output.
* `Builder.untouched`: the places that the log and the converter leave alone.

## Main results

* `Builder.exchanges_extract`, `Artifact.exchanges_deploy`: a file is exchanged, or not touched.
* `exchanged_or_kept`: the two together, with the files that are kept.
-/

namespace BootImage

open Host (Path FileTree Fault)

variable {s s' s'' t : Session} {dest : Path} {new : Set Content}
  {spared : Set (List String)} {α β : Type}

/-! ### Steps around a replacement -/

namespace Session

/-- A failure that has changed nothing. -/
theorem Exchanges.of_error (e : Failure) :
    s.Exchanges dest new spared (.error e : Except Failure α) s :=
  ⟨rfl, fun _ => id, rfl, fun _ _ _ => rfl, nofun, fun _ _ => rfl, rfl, fun hcan _ => hcan⟩

/-- A failure is that of whatever comes after it. -/
theorem Exchanges.fails {e : Failure}
    (h : s.Exchanges dest new spared (.error e : Except Failure α) t) :
    s.Exchanges dest new spared (.error e : Except Failure β) t :=
  { h with stored := nofun, kept := fun _ _ => h.kept e rfl }

end Session

/-- Where a step that changes nothing comes first, it fails or the rest is run. -/
theorem run_bind_same {x : Build α} {f : α → Build β} {result : Except Failure β}
    (hx : Within Eq x) (hrun : (x >>= f).run.run s = (result, t)) :
    (∃ e, result = .error e ∧ t = s) ∨ ∃ a, Yields x s a s ∧ (f a).run.run s = (result, t) := by
  cases hfirst : x.run.run s with
  | mk r s' =>
    obtain rfl := hx.of_run hfirst
    cases r with
    | error e =>
      rw [run_bind_error _ hfirst] at hrun
      cases hrun
      exact .inl ⟨e, rfl, rfl⟩
    | ok a =>
      rw [run_bind_ok _ hfirst] at hrun
      exact .inr ⟨a, hfirst, hrun⟩

namespace Build

theorem same_query (f : FileTree → Except Fault α) : Within Eq (query f) := by
  intro s
  rw [run_query]

theorem same_ofExcept {ε : Type} (cause : ε → Cause) (x : Except ε α) :
    Within Eq (ofExcept cause x) := by
  intro s
  rw [run_ofExcept]

end Build

theorem Builder.same_readExecutable (executable : Path) :
    Within Eq (Builder.readExecutable executable) := by
  refine (Build.same_query _).bind fun isFile => ?_
  cases isFile with
  | false => exact within_throw_bind _ _
  | true => exact Build.same_query (·.read executable)

namespace Session

/-- The log file is none of the files that are looked at: not the one that is exchanged, nor the
temporary one, nor one at a place that is spared. -/
structure LogApart (dest : Path) (spared : Set (List String)) (s : Session) : Prop where
  goal : s.LogAvoids (dest.place s.tree.current)
  temporary : s.LogAvoids (temporaryPlace dest s.tree.current)
  spared : ∀ place ∈ spared, s.LogAvoids place

theorem LogApart.congr (h : s.LogApart dest spared) (hlog : s'.logFile = s.logFile)
    (hcurrent : s'.tree.current = s.tree.current) : s'.LogApart dest spared := by
  refine ⟨?_, ?_, fun place hplace => (h.spared place hplace).congr hlog⟩
  · exact hcurrent ▸ h.goal.congr hlog
  · exact hcurrent ▸ h.temporary.congr hlog

/-- Logging leaves what is not the log file. -/
theorem LogAvoids.content?_eq {place : List String} {message : String} {r : Except Failure Unit}
    (h : s.LogAvoids place) (hlog : (Build.log message).run.run s = (r, s')) :
    s'.tree.content? place = s.tree.content? place := by
  have hguards : s.Guards place ∅ s' := (Build.guards_log message).of_run hlog
  exact (hguards h).2.2.content?_eq

/-- What is exchanged after lines were logged is exchanged with them. -/
theorem Exchanges.of_log {message : String} {r : Except Failure Unit} {result : Except Failure α}
    (hapart : s.LogApart dest spared) (hlog : (Build.log message).run.run s = (r, s'))
    (h : s'.Exchanges dest new spared result t) : s.Exchanges dest new spared result t := by
  have hpersists : s.Persists s' := (Build.persists_log message).of_run hlog
  have hcurrent := hpersists.tree.current
  refine ⟨h.current.trans hcurrent, fun place hd => h.directory place
    (hpersists.tree.directory place hd), ?_, fun place hspared hne => ?_, h.stored, fun e he => ?_,
    h.logFile.trans hpersists.logFile, fun hcan haway => ?_⟩
  · have htemporary := h.temporary
    rw [hcurrent] at htemporary
    exact htemporary.trans (hapart.temporary.content?_eq hlog)
  · exact (h.other place hspared (hcurrent ▸ hne)).trans
      ((hapart.spared place hspared).content?_eq hlog)
  · have hkept := h.kept e he
    rw [FileTree.fileAt?, FileTree.fileAt?, h.current, hcurrent] at hkept
    rw [FileTree.fileAt?, FileTree.fileAt?, h.current, hcurrent]
    exact hkept.trans (hapart.goal.content?_eq hlog)
  · refine h.canLog (hcan.of_persists hpersists) ?_
    rw [hpersists.logFile, hcurrent]
    exact haway

/-- A file that no line is logged to is read as before. -/
theorem read_of_log {message : String} {r : Except Failure Unit} {c : Content}
    (havoids : s.LogAvoids (dest.place s.tree.current)) (hread : s.tree.read dest = .ok c)
    (hlog : (Build.log message).run.run s = (r, t)) : t.tree.read dest = .ok c := by
  have hpersists : s.Persists t := (Build.persists_log message).of_run hlog
  obtain ⟨c', hread'⟩ := hpersists.tree.read hread
  have hbefore := FileTree.fileAt?_of_read hread
  have hafter := FileTree.fileAt?_of_read hread'
  rw [FileTree.fileAt?] at hbefore hafter
  rw [hpersists.tree.current, havoids.content?_eq hlog, hbefore] at hafter
  rw [hread', Option.some.inj hafter]

/-- What is exchanged before a line is logged is exchanged with it, whether or not it can be. -/
theorem Exchanges.then_log {message : String} {r : Except Failure Unit}
    (hapart : s.LogApart dest spared)
    (h : s.Exchanges dest new spared (.ok () : Except Failure Unit) s')
    (hlog : (Build.log message).run.run s' = (r, t)) (a : α) :
    s.Exchanges dest new spared (.ok a) t := by
  have hpersists : s'.Persists t := (Build.persists_log message).of_run hlog
  have hapart' := hapart.congr h.logFile h.current
  refine ⟨hpersists.tree.current.trans h.current, fun place hd => hpersists.tree.directory place
    (h.directory place hd), ?_, fun place hspared hne => ?_, fun _ _ => ?_,
    nofun, hpersists.logFile.trans h.logFile, fun hcan haway =>
      (h.canLog hcan haway).of_persists hpersists⟩
  · have htemporary := hapart'.temporary.content?_eq hlog
    rw [h.current] at htemporary
    exact htemporary.trans h.temporary
  · exact ((hapart'.spared place hspared).content?_eq hlog).trans (h.other place hspared hne)
  · obtain ⟨c, hc, hread⟩ := h.stored () rfl
    exact ⟨c, hc, read_of_log hapart'.goal hread hlog⟩

end Session

/-! ### Handing a raw binary to the boot loader -/

/-- Handing a raw binary to the boot loader exchanges the file there for it. If the log file is not
there, it may fail afterwards, as the line that tells of it cannot be logged. -/
theorem Artifact.exchanges_deploy {a : Artifact} {result : Except Failure Path}
    (hapart : s.LogApart dest spared) (hdest : dest.place s.tree.current ∈ spared)
    (hraw : a.rawBinary.place s.tree.current ≠ temporaryPlace dest s.tree.current)
    (hrun : (a.deploy dest).run.run s = (result, t)) :
    ∃ ended : Except Failure Path, (ended = result ∨ (¬ s.CanLog ∧ ended = .ok dest)) ∧
      s.Exchanges dest {c | s.tree.fileAt? a.rawBinary = some c} spared ended t := by
  rw [Artifact.deploy] at hrun
  cases hreplace : (Build.replaceFile dest fun temporary => do
      Build.change (·.write temporary (← Build.query (·.read a.rawBinary)))).run.run s with
  | mk r s' =>
    have hexchanges : s.Exchanges dest {c | s.tree.fileAt? a.rawBinary = some c} spared r s' := by
      refine Build.exchanges_replaceFile hdest (fun made filled s'' hcurrent hmade _ hfill => ?_)
        hreplace
      obtain ⟨e, rfl, rfl⟩ | ⟨c, hquery, hfill⟩ := run_bind_same (Build.same_query _) hfill
      · exact .of_error e
      · refine Build.fills_write ?_ hfill
        obtain ⟨hread, -⟩ := Build.yields_query.1 hquery
        have hc := FileTree.fileAt?_of_read hread
        rw [FileTree.fileAt?, hcurrent, hmade _ hraw] at hc
        exact hc
    cases r with
    | error e =>
      rw [run_bind_error _ hreplace] at hrun
      cases hrun
      exact ⟨_, .inl rfl, hexchanges.fails⟩
    | ok _ =>
      rw [run_bind_ok _ hreplace] at hrun
      cases hlog : (Build.log s!"[OK]    {a.rawBinary.name} → {dest}").run.run s' with
      | mk r' s'' =>
        have htold := hexchanges.then_log hapart hlog dest
        cases r' with
        | ok _ =>
          rw [run_bind_ok _ hlog] at hrun
          cases hrun
          exact ⟨_, .inl rfl, htold⟩
        | error e =>
          rw [run_bind_error _ hlog] at hrun
          cases hrun
          refine ⟨_, .inr ⟨fun hcan => ?_, rfl⟩, htold⟩
          have hcan' := hexchanges.canLog hcan fun p hp =>
            ⟨hapart.goal p hp _, hapart.temporary p hp _⟩
          obtain ⟨_, hlog', -⟩ := hcan'.exists_log s!"[OK]    {a.rawBinary.name} → {dest}"
          cases hlog.symm.trans hlog'

/-! ### Extracting a raw binary -/

namespace Builder

variable {b : Builder} {executable output : Path} {chosen : Option Path}

/-- The converter, if there is one to be used. -/
def converter? (b : Builder) : Option String :=
  b.toolchain.objcopy.filter (· ≠ "")

/-- Stores the raw binary of an executable at a path. -/
def store (b : Builder) (executable output : Path) : Build Unit :=
  match b.converter? with
  | some converter => b.convert converter executable output
  | none => do
    let content ← readExecutable executable
    let flat ← Build.ofExcept (.executable (toString executable)) (Elf.flatten content)
    Build.writeAtomically output flat

theorem store_of_none (hconverter : b.converter? = none) :
    b.store executable output = (do
      let content ← readExecutable executable
      let flat ← Build.ofExcept (.executable (toString executable)) (Elf.flatten content)
      Build.writeAtomically output flat) := by
  rw [store, hconverter]

/-- The converter is started if there are segments to load. -/
theorem store_of_some {converter : String} (hconverter : b.converter? = some converter) :
    b.store executable output = (do
      let content ← readExecutable executable
      let _ ← Build.ofExcept (.executable (toString executable)) (Elf.segments content)
      Build.replaceFile output fun temporary => do
        let command := [← b.tool converter, toString executable, "--strip-all", "-O", "binary",
          toString temporary]
        Build.runProgram "extract" none { command, directory := none, environment := none }) := by
  rw [store, hconverter]
  rfl

theorem extract_eq_store
    (houtput : chosen.or (executable.withName? (executable.name ++ ".bin")) = some output) :
    b.extract executable chosen = (do
      Build.log s!"=== EXTRACTING RAW BINARY ({executable.name}) ==="
      b.store executable output
      let size := (← Build.query (·.read output)).size
      Build.log s!"[OK]    {output.name} — {size} bytes → {Host.sectorCount size} sectors"
      return { executable, rawBinary := output, size }) := by
  unfold extract store converter?
  cases chosen with
  | some p =>
    cases houtput
    cases b.toolchain.objcopy.filter (· ≠ "") with
    | none => simp
    | some converter => rfl
  | none =>
    rw [Option.none_or] at houtput
    rw [houtput]
    cases b.toolchain.objcopy.filter (· ≠ "") with
    | none => simp
    | some converter => rfl

/-- Where there is no path for the output, nothing is done. -/
theorem run_extract_none
    (houtput : chosen.or (executable.withName? (executable.name ++ ".bin")) = none) :
    (b.extract executable chosen).run.run s = (.error { cause := .host .noName }, s) := by
  cases chosen with
  | some p => cases houtput
  | none =>
    rw [Option.none_or] at houtput
    unfold extract
    rw [houtput]
    rfl

/-- What an extraction may put in the place of its output: the executable laid out flat, or what a
converter that has ended well has left in the temporary file, which was empty before. -/
def outcomes (b : Builder) (s : Session) (executable output : Path) : Set Content :=
  match b.converter? with
  | none => {flat | ∃ c, s.tree.fileAt? executable = some c ∧ Elf.flatten c = .ok flat}
  | some _ => {c | ∃ printed errors files,
      s.answers.headD .silent = .ended 0 printed errors files ∧
      c = (Host.written s.tree.current [toString (Build.temporaryPath output s.tree.current)]
        (temporaryPlace output s.tree.current) files).getD Content.empty}

/-- The places that the log file and the files of a converter leave alone. -/
def untouched (b : Builder) (s : Session) (output : Path) : Set (List String) :=
  {place | s.LogAvoids place ∧ (b.converter? ≠ none →
    s.NextSpares [toString (Build.temporaryPath output s.tree.current)] place)}

theorem same_tool (b : Builder) (name : String) : Within Eq (b.tool name) :=
  Within.bind (fun _ => rfl) fun _ => Build.same_query _

/-- A temporary file that is empty is filled by a converter, if that ends well. -/
theorem fills_convert {converter : String} {filled : Except Failure Unit} {made : FileTree}
    (hconverter : b.converter? = some converter)
    (htemporary : s.LogAvoids (temporaryPlace output s.tree.current))
    (hcurrent : made.current = s.tree.current)
    (hempty : made.read (Build.temporaryPath output s.tree.current) = .ok Content.empty)
    (hfill : (do
      let command := [← b.tool converter, toString executable, "--strip-all", "-O", "binary",
        toString (Build.temporaryPath output s.tree.current)]
      Build.runProgram "extract" none { command, directory := none, environment := none }
        : Build Unit).run.run { s with tree := made } = (filled, s')) :
    Session.Fills (Build.temporaryPath output s.tree.current) (b.outcomes s executable output)
      (b.untouched s output) { s with tree := made } filled s' := by
  obtain ⟨e, rfl, rfl⟩ | ⟨tool, -, hfill⟩ := run_bind_same (same_tool b converter) hfill
  · exact .of_error e
  · refine Build.fills_runProgram [tool, toString executable, "--strip-all", "-O", "binary"] rfl
      hempty ?_ (fun place hplace => ?_) (fun printed errors files hanswer => ?_) hfill
    · exact hcurrent ▸ htemporary
    · obtain ⟨havoids, hnext⟩ := hplace
      refine ⟨havoids, ?_⟩
      rw [Session.NextSpares]
      simp only [hcurrent]
      exact hnext (by simp [hconverter])
    · simp only [outcomes, hconverter, hcurrent]
      exact ⟨printed, errors, files, hanswer, rfl⟩

/-- Storing a raw binary exchanges the file there. -/
theorem exchanges_store {result : Except Failure Unit}
    (houtput : output.place s.tree.current ∈ b.untouched s output)
    (htemporary : s.LogAvoids (temporaryPlace output s.tree.current))
    (hrun : (b.store executable output).run.run s = (result, t)) :
    s.Exchanges output (b.outcomes s executable output) (b.untouched s output) result t := by
  cases hconverter : b.converter? with
  | some converter =>
    rw [store_of_some hconverter] at hrun
    obtain ⟨e, rfl, rfl⟩ | ⟨_, -, hrun⟩ := run_bind_same (same_readExecutable _) hrun
    · exact .of_error e
    obtain ⟨e, rfl, rfl⟩ | ⟨_, -, hrun⟩ := run_bind_same (Build.same_ofExcept _ _) hrun
    · exact .of_error e
    exact Build.exchanges_replaceFile houtput (fun made filled s' hcurrent _ hempty hfill =>
      fills_convert hconverter htemporary hcurrent hempty hfill) hrun
  | none =>
    rw [store_of_none hconverter] at hrun
    obtain ⟨e, rfl, rfl⟩ | ⟨content, hread, hrun⟩ := run_bind_same (same_readExecutable _) hrun
    · exact .of_error e
    obtain ⟨e, rfl, rfl⟩ | ⟨flat, hflat, hrun⟩ := run_bind_same (Build.same_ofExcept _ _) hrun
    · exact .of_error e
    obtain ⟨hread, -⟩ := yields_readExecutable hread
    obtain ⟨hflat, -⟩ := Build.yields_ofExcept.1 hflat
    have hnew : flat ∈ b.outcomes s executable output := by
      simp only [outcomes, hconverter]
      exact ⟨content, FileTree.fileAt?_of_read hread, hflat⟩
    exact Build.exchanges_replaceFile houtput (fun made filled s' _ _ _ hfill =>
      Build.fills_write hnew hfill) hrun

/-- What is done after the raw binary was stored tells how long it is. -/
theorem exchanges_told {result : Except Failure Artifact} (hcan : s.CanLog)
    (hapart : s.LogApart output spared)
    (hstore : ∀ r s', (b.store executable output).run.run s = (r, s') →
      s.Exchanges output new spared r s')
    (hrun : (do
      b.store executable output
      let size := (← Build.query (·.read output)).size
      Build.log s!"[OK]    {output.name} — {size} bytes → {Host.sectorCount size} sectors"
      return { executable, rawBinary := output, size } : Build Artifact).run.run s = (result, t)) :
    s.Exchanges output new spared result t ∧
      ∀ a, result = .ok a → a.executable = executable ∧ a.rawBinary = output ∧
        ∃ c, t.tree.read output = .ok c ∧ a.size = c.size := by
  cases hstored : (b.store executable output).run.run s with
  | mk r s' =>
    have hexchanges := hstore r s' hstored
    cases r with
    | error e =>
      rw [run_bind_error _ hstored] at hrun
      cases hrun
      exact ⟨hexchanges.fails, by rintro _ ⟨⟩⟩
    | ok _ =>
      rw [run_bind_ok _ hstored] at hrun
      obtain ⟨c, -, hread⟩ := hexchanges.stored () rfl
      rw [run_bind_ok _ (Build.yields_query.2 ⟨hread, rfl⟩)] at hrun
      have hcan' := hexchanges.canLog hcan fun p hp =>
        ⟨hapart.goal p hp _, hapart.temporary p hp _⟩
      obtain ⟨s'', hlog, -⟩ := hcan'.exists_log
        s!"[OK]    {output.name} — {c.size} bytes → {Host.sectorCount c.size} sectors"
      rw [run_bind_ok _ hlog] at hrun
      cases hrun
      have havoids := (hapart.congr hexchanges.logFile hexchanges.current).goal
      refine ⟨hexchanges.then_log hapart hlog _, ?_⟩
      rintro _ ⟨⟩
      exact ⟨rfl, rfl, c, Session.read_of_log havoids hread hlog, rfl⟩

/-- A line that is logged makes no difference to what may be extracted. -/
theorem outcomes_of_log {message : String} {r : Except Failure Unit}
    (havoids : s.LogAvoids (executable.place s.tree.current))
    (hlog : (Build.log message).run.run s = (r, s')) :
    b.outcomes s' executable output = b.outcomes s executable output := by
  have hguards : s.Guards (executable.place s.tree.current) ∅ s' :=
    (Build.guards_log message).of_run hlog
  obtain ⟨-, hanswers, htree⟩ := hguards havoids
  rw [outcomes, outcomes, hanswers, htree.current, htree.fileAt?_eq]

theorem untouched_of_log {message : String} {r : Except Failure Unit}
    (havoids : s.LogAvoids (executable.place s.tree.current))
    (hlog : (Build.log message).run.run s = (r, s')) :
    b.untouched s' output = b.untouched s output := by
  have hguards : s.Guards (executable.place s.tree.current) ∅ s' :=
    (Build.guards_log message).of_run hlog
  obtain ⟨hfile, hanswers, htree⟩ := hguards havoids
  simp only [untouched, Session.LogAvoids, Session.NextSpares, hfile, hanswers, htree.current]

/-- An extraction exchanges the file at its output, and tells how long that is. -/
theorem exchanges_extract {result : Except Failure Artifact}
    (houtput : chosen.or (executable.withName? (executable.name ++ ".bin")) = some output)
    (hgoal : output.place s.tree.current ∈ b.untouched s output)
    (hexecutable : s.LogAvoids (executable.place s.tree.current))
    (htemporary : s.LogAvoids (temporaryPlace output s.tree.current))
    (hrun : (b.extract executable chosen).run.run s = (result, t)) :
    s.Exchanges output (b.outcomes s executable output) (b.untouched s output) result t ∧
      ∀ a, result = .ok a → a.executable = executable ∧ a.rawBinary = output ∧
        ∃ c, t.tree.read output = .ok c ∧ a.size = c.size := by
  have hapart : s.LogApart output (b.untouched s output) :=
    ⟨hgoal.1, htemporary, fun _ => And.left⟩
  rw [extract_eq_store houtput] at hrun
  cases hlog : (Build.log s!"=== EXTRACTING RAW BINARY ({executable.name}) ===").run.run s with
  | mk r s' =>
    cases r with
    | error e =>
      rw [run_bind_error _ hlog] at hrun
      cases hrun
      exact ⟨.of_log hapart hlog (.of_error e), by rintro _ ⟨⟩⟩
    | ok _ =>
      rw [run_bind_ok _ hlog] at hrun
      have hpersists : s.Persists s' := (Build.persists_log _).of_run hlog
      have hcurrent := hpersists.tree.current
      have hapart' := hapart.congr hpersists.logFile hcurrent
      have huntouched : b.untouched s' output = b.untouched s output :=
        untouched_of_log hexecutable hlog
      have hstore : ∀ r s'', (b.store executable output).run.run s' = (r, s'') →
          s'.Exchanges output (b.outcomes s executable output) (b.untouched s output) r s'' := by
        intro r s'' hstore
        rw [← huntouched, ← outcomes_of_log hexecutable hlog]
        refine exchanges_store ?_ hapart'.temporary hstore
        rw [huntouched, hcurrent]
        exact hgoal
      obtain ⟨hexchanges, hartifact⟩ :=
        exchanges_told (Build.canLog_of_log hlog) hapart' hstore hrun
      exact ⟨.of_log hapart hlog hexchanges, hartifact⟩

end Builder

/-! ### All or nothing -/

/-- The file at a path is the one that it was, or there is none as before. -/
structure Session.KeepsFile (p : Path) (s t : Session) : Prop where
  file : t.tree.fileAt? p = s.tree.fileAt? p
  read : ∀ c, s.tree.read p = .ok c → t.tree.read p = .ok c

theorem Session.Exchanges.keepsFile {result : Except Failure α} {p : Path}
    (h : s.Exchanges dest new spared result t) (hfile : t.tree.fileAt? p = s.tree.fileAt? p) :
    s.KeepsFile p t := by
  have hgrows : s.tree.Grows Set.univ none t.tree :=
    ⟨h.current, h.directory, fun _ hplace => absurd (Set.mem_univ _) hplace⟩
  refine ⟨hfile, fun c hread => ?_⟩
  obtain ⟨place, hplace, hc⟩ := FileTree.read_eq_ok.1 hread
  refine FileTree.read_eq_ok.2 ⟨place, hgrows.locate hplace, ?_⟩
  rw [FileTree.fileAt?, FileTree.fileAt?, h.current, ← FileTree.place_of_locate hplace] at hfile
  exact hfile.trans hc

/-- An extraction exchanges the file at its output as a whole or leaves it as it is, and so does
handing a raw binary to the boot loader. Other files are kept, the executable among them, unless the
converter or the log writes to them. -/
theorem exchanged_or_kept :
    (∀ (b : Builder) (executable : Path) (chosen : Option Path) (s t : Session)
        (result : Except Failure Artifact),
      (b.extract executable chosen).run.run s = (result, t) →
      match chosen.or (executable.withName? (executable.name ++ ".bin")) with
      | none => (∃ e, result = .error e) ∧ t = s
      | some output =>
        output.place s.tree.current ≠ executable.place s.tree.current →
        output.place s.tree.current ∈ b.untouched s output →
        executable.place s.tree.current ∈ b.untouched s output →
        s.LogAvoids (temporaryPlace output s.tree.current) →
          s.Exchanges output (b.outcomes s executable output) (b.untouched s output) result t ∧
          s.KeepsFile executable t ∧ (∀ e, result = .error e → s.KeepsFile output t) ∧
          ∀ a, result = .ok a → a.executable = executable ∧ a.rawBinary = output ∧
            ∃ c, t.tree.read output = .ok c ∧ a.size = c.size) ∧
    ∀ (a : Artifact) (dest : Path) (s t : Session) (result : Except Failure Path),
      (a.deploy dest).run.run s = (result, t) →
      a.rawBinary.place s.tree.current ≠ temporaryPlace dest s.tree.current →
      s.LogAvoids (dest.place s.tree.current) →
      s.LogAvoids (temporaryPlace dest s.tree.current) →
        ∃ ended : Except Failure Path, (ended = result ∨ (¬ s.CanLog ∧ ended = .ok dest)) ∧
          s.Exchanges dest {c | s.tree.fileAt? a.rawBinary = some c} {place | s.LogAvoids place}
            ended t ∧
          (∀ e, ended = .error e → s.KeepsFile dest t) ∧
          ∀ p : Path, p.place s.tree.current ≠ dest.place s.tree.current →
            s.LogAvoids (p.place s.tree.current) → s.KeepsFile p t := by
  constructor
  · intro b executable chosen s t result hrun
    cases houtput : chosen.or (executable.withName? (executable.name ++ ".bin")) with
    | none =>
      cases (Builder.run_extract_none houtput).symm.trans hrun
      exact ⟨⟨_, rfl⟩, rfl⟩
    | some output =>
      intro hapart hgoal hexecutable htemporary
      obtain ⟨hexchanges, hartifact⟩ :=
        Builder.exchanges_extract houtput hgoal hexecutable.1 htemporary hrun
      have hsame : t.tree.fileAt? executable = s.tree.fileAt? executable := by
        rw [FileTree.fileAt?, FileTree.fileAt?, hexchanges.current]
        exact hexchanges.other _ hexecutable hapart.symm
      exact ⟨hexchanges, hexchanges.keepsFile hsame,
        fun e he => hexchanges.keepsFile (hexchanges.kept e he), hartifact⟩
  · intro a dest s t result hrun hraw hgoal htemporary
    have hapart : s.LogApart dest {place | s.LogAvoids place} := ⟨hgoal, htemporary, fun _ => id⟩
    obtain ⟨ended, hended, h⟩ := Artifact.exchanges_deploy hapart hgoal hraw hrun
    refine ⟨ended, hended, h, fun e he => h.keepsFile (h.kept e he), fun p hne havoids => ?_⟩
    refine h.keepsFile ?_
    rw [FileTree.fileAt?, FileTree.fileAt?, h.current]
    exact h.other _ havoids hne

/-- An executable of 176 bytes with an image of eight. -/
def overlapping : Content :=
  Elf.headersOnly (Elf.leading 8 0x1000) (Elf.leading 2 0x1003)

theorem exists_flatten_overlapping :
    ∃ flat, Elf.flatten overlapping = .ok flat ∧ flat.size = 8 := by
  have hf : Elf.Layout.Holds ⟨.bits64, .lowestFirst⟩ Elf.shortHeader
      [Elf.leading 8 0x1000, Elf.leading 2 0x1003] overlapping :=
    Elf.Layout.holds_ofBytes.2 (by decide +kernel)
  have hsegments := hf.segments_eq rfl (by decide)
    (by rw [overlapping, Elf.headersOnly, Content.size_ofBytes]; decide +kernel) (by decide)
  rw [List.mergeSort_of_pairwise (by decide)] at hsegments
  have hsize : (Elf.flatten overlapping).toOption.map (·.size) = some 8 := by
    rw [Elf.flatten, Elf.flattenWithin, hsegments]
    decide +kernel
  cases hflat : Elf.flatten overlapping with
  | error e =>
    rw [hflat] at hsize
    cases hsize
  | ok flat =>
    rw [hflat] at hsize
    exact ⟨flat, rfl, Option.some.inj hsize⟩

def kernelPath : Path :=
  ⟨"", ["k"]⟩

def binaryPath : Path :=
  ⟨"", ["k.bin"]⟩

/-- The kernel and its raw binary. -/
def kernelFiles : Artifact :=
  ⟨kernelPath, binaryPath, 1⟩

/-- A kernel with a raw binary of one byte, and what the programs to be started will answer. -/
def linked (answers : List Host.Answer) : Session where
  tree := ((FileTree.empty []).put ["k"] overlapping).put ["k.bin"] (Content.ofBytes [2])
  clock := "00:00:00.000"
  searchPath := ""
  answers

/-- The same files, and a file to log to. -/
def linkedLogging (log : Path) : Session :=
  { linked [] with logFile := some log }

/-- The answer of a converter that leaves one byte and ends with a code. -/
def converted (code : Int) : Host.Answer :=
  .ended code "" "" [(.lastWord, .file (Content.ofBytes [7]) false)]

/-- A builder with a toolchain. -/
def builderWith (toolchain : Toolchain) : Builder where
  registry := .standard
  kernelDir := ⟨"", []⟩
  toolchain

/-- The session after the first line of an extraction. -/
def announced (answers : List Host.Answer) : Session :=
  { linked answers with printed := #["[00:00:00.000] === EXTRACTING RAW BINARY (k) ==="] }

/-- Once the kernel was read and looked through, the rest is what is done with what was found. -/
theorem run_extract_linked {b : Builder} {answers : List Host.Answer} {output : Path}
    {parse : Content → Except Elf.Error α} {fill : α → Build Unit} {a : α}
    (hstore : b.store kernelPath output = do
      let content ← Builder.readExecutable kernelPath
      let a ← Build.ofExcept (.executable (toString kernelPath)) (parse content)
      fill a)
    (hparse : parse overlapping = .ok a) :
    (b.extract kernelPath (some output)).run.run (linked answers) =
      (do
        fill a
        let size := (← Build.query (·.read output)).size
        Build.log s!"[OK]    {output.name} — {size} bytes → {Host.sectorCount size} sectors"
        return { executable := kernelPath, rawBinary := output, size }
          : Build Artifact).run.run (announced answers) := by
  have hlog : Yields (Build.log s!"=== EXTRACTING RAW BINARY ({kernelPath.name}) ===")
      (linked answers) () (announced answers) := rfl
  have hread : Yields (Builder.readExecutable kernelPath) (announced answers) overlapping
      (announced answers) := rfl
  have hresult : Yields (Build.ofExcept (.executable (toString kernelPath)) (parse overlapping))
      (announced answers) a (announced answers) := Build.yields_ofExcept.2 ⟨hparse, rfl⟩
  rw [Builder.extract_eq_store rfl, hstore]
  simp only [bind_assoc]
  rw [run_bind_ok _ hlog, run_bind_ok _ hread, run_bind_ok _ hresult]

theorem logAvoids_linked (answers : List Host.Answer) (place : List String) :
    (linked answers).LogAvoids place := by
  rintro p ⟨⟩

/-- A converter that fills the temporary file alone writes neither to the kernel nor to its raw
binary. -/
theorem mem_untouched_converted (code : Int) {place : List String}
    (hplace : place ∈ [["k"], ["k.bin"]]) : place ∈
      (builderWith { objcopy := "objcopy" }).untouched (linked [converted code]) binaryPath := by
  refine ⟨logAvoids_linked _ place, fun _ file hfile => ?_⟩
  obtain rfl := List.mem_singleton.1 hfile
  have hother : ∀ place ∈ [["k"], ["k.bin"]], (Host.Output.target
      [toString (Build.temporaryPath binaryPath [])] .lastWord).place [] ≠ place := by
    decide +kernel
  exact hother place hplace

/-- The raw binary is exchanged for the kernel laid out flat, and for what a converter left. It
stays if the converter fails after it wrote to the temporary file, which is removed. The old one is
handed to a place of its own. -/
theorem exists_exchanged : ∃ (flat : Content) (a a' : Artifact) (failure : Failure)
      (s s' u t : Session),
    Elf.flatten overlapping = .ok flat ∧
    (Yields ((builderWith {}).extract kernelPath (some binaryPath)) (linked []) a s ∧
      s.tree.read binaryPath = .ok flat ∧ a.size = flat.size ∧
      s.tree.read kernelPath = .ok overlapping) ∧
    (Yields ((builderWith { objcopy := "objcopy" }).extract kernelPath (some binaryPath))
        (linked [converted 0]) a' s' ∧
      s'.tree.read binaryPath = .ok (Content.ofBytes [7]) ∧
      s'.tree.read kernelPath = .ok overlapping) ∧
    (((builderWith { objcopy := "objcopy" }).extract kernelPath (some binaryPath)).run.run
        (linked [converted 1]) = (.error failure, u) ∧
      u.tree.read binaryPath = .ok (Content.ofBytes [2]) ∧
      u.tree.content? (temporaryPlace binaryPath []) = none ∧
      u.tree.read kernelPath = .ok overlapping) ∧
    Yields (kernelFiles.deploy ⟨"", ["boot", "kernel"]⟩) (linked []) ⟨"", ["boot", "kernel"]⟩ t ∧
      t.tree.read ⟨"", ["boot", "kernel"]⟩ = .ok (Content.ofBytes [2]) ∧
      t.tree.read kernelPath = .ok overlapping := by
  obtain ⟨flat, hflat, -⟩ := exists_flatten_overlapping
  obtain ⟨found, hfound, -⟩ := ok_of_bind hflat
  have hread : ∀ answers, (linked answers).tree.read kernelPath = .ok overlapping := fun _ => rfl
  have hcan : (linked []).CanLog := by rintro p ⟨⟩
  have hnone : (builderWith {}).converter? = none := rfl
  have hsome : (builderWith { objcopy := "objcopy" }).converter? = some "objcopy" := rfl
  have hplain : ∀ place, place ∈ (builderWith {}).untouched (linked []) binaryPath :=
    fun place => ⟨logAvoids_linked _ place, fun hconverter => absurd rfl hconverter⟩
  obtain ⟨a, s, hextracted⟩ : ∃ a s,
      Yields ((builderWith {}).extract kernelPath (some binaryPath)) (linked []) a s := by
    simp only [Yields, run_extract_linked (Builder.store_of_none hnone) hflat]
    exact ⟨_, _, rfl⟩
  obtain ⟨a', s', hextracted'⟩ : ∃ a s,
      Yields ((builderWith { objcopy := "objcopy" }).extract kernelPath (some binaryPath))
        (linked [converted 0]) a s := by
    simp only [Yields, run_extract_linked (Builder.store_of_some hsome) hfound]
    exact ⟨_, _, rfl⟩
  obtain ⟨failure, u, hfailed⟩ : ∃ failure u,
      ((builderWith { objcopy := "objcopy" }).extract kernelPath (some binaryPath)).run.run
        (linked [converted 1]) = (.error failure, u) := by
    simp only [run_extract_linked (Builder.store_of_some hsome) hfound]
    exact ⟨_, _, rfl⟩
  obtain ⟨t, hdeployed⟩ : ∃ t, Yields (kernelFiles.deploy ⟨"", ["boot", "kernel"]⟩) (linked [])
      ⟨"", ["boot", "kernel"]⟩ t := ⟨_, rfl⟩
  have hplaces : binaryPath.place [] ≠ kernelPath.place [] := by decide
  obtain ⟨hexchanges, hkept, -, hartifact⟩ := exchanged_or_kept.1 _ _ _ _ _ _ hextracted
    hplaces (hplain _) (hplain _) (logAvoids_linked _ _)
  obtain ⟨hexchanges', hkept', -, -⟩ := exchanged_or_kept.1 _ _ _ _ _ _ hextracted'
    hplaces (mem_untouched_converted _ (by decide)) (mem_untouched_converted _ (by decide))
    (logAvoids_linked _ _)
  obtain ⟨hfails, hkept'', hold, -⟩ := exchanged_or_kept.1 _ _ _ _ _ _ hfailed
    hplaces (mem_untouched_converted _ (by decide)) (mem_untouched_converted _ (by decide))
    (logAvoids_linked _ _)
  obtain ⟨ended, hended, hdeploys, -, hothers⟩ :=
    exchanged_or_kept.2 _ _ _ _ _ hdeployed (by decide) (logAvoids_linked _ _)
      (logAvoids_linked _ _)
  have hflat' : s.tree.read binaryPath = .ok flat := by
    obtain ⟨c, ⟨c', hc', hc⟩, hstored⟩ := hexchanges.stored _ rfl
    obtain rfl : overlapping = c' := Option.some.inj hc'
    cases hflat.symm.trans hc
    exact hstored
  have hbyte : s'.tree.read binaryPath = .ok (Content.ofBytes [7]) := by
    obtain ⟨c, ⟨printed, errors, files, hanswer, rfl⟩, hstored⟩ := hexchanges'.stored _ rfl
    have hanswer : converted 0 = .ended 0 printed errors files := hanswer
    rw [converted] at hanswer
    cases hanswer
    exact hstored
  have hsize : a.size = flat.size := by
    obtain ⟨-, -, c, hstored, heq⟩ := hartifact _ rfl
    cases hflat'.symm.trans hstored
    exact heq
  obtain rfl := hended.resolve_right fun hlog => hlog.1 hcan
  have hhanded : t.tree.read ⟨"", ["boot", "kernel"]⟩ = .ok (Content.ofBytes [2]) := by
    obtain ⟨c, hc, hstored⟩ := hdeploys.stored _ rfl
    obtain rfl : Content.ofBytes [2] = c := Option.some.inj hc
    exact hstored
  exact ⟨flat, a, a', failure, s, s', u, t, hflat,
    ⟨hextracted, hflat', hsize, hkept.read _ (hread _)⟩,
    ⟨hextracted', hbyte, hkept'.read _ (hread _)⟩,
    ⟨hfailed, (hold _ rfl).read _ rfl, hfails.temporary, hkept''.read _ (hread _)⟩, hdeployed,
    hhanded, (hothers kernelPath (by decide) (logAvoids_linked _ _)).read _ (hread _)⟩

/-- An executable is overwritten where an output that is spelled in another way leads to it, and
where the raw binary is handed there. On the way to a file that cannot be made, a directory is made
in its place. A log file that is the destination grows behind the raw binary, and one that cannot be
there any more makes the step fail after it. -/
theorem overwritten_elsewhere : ∃ flat : Content, flat ≠ overlapping ∧
    (linked []).tree.read kernelPath = .ok overlapping ∧
    (⟨"", ["d", "..", "k"]⟩ : Path) ≠ kernelPath ∧
    (((builderWith {}).extract kernelPath
      (some ⟨"", ["d", "..", "k"]⟩)).run.run (linked [])).2.tree.read kernelPath = .ok flat ∧
    ((kernelFiles.deploy kernelPath).run.run (linked [])).2.tree.read kernelPath =
      .ok (Content.ofBytes [2]) ∧
    (linked []).tree.find? ⟨"", ["b", "a", "..", "a"]⟩ = none ∧
    ((kernelFiles.deploy ⟨"", ["b", "a", "..", "a"]⟩).run.run (linked [])).1.toOption = none ∧
    ((kernelFiles.deploy ⟨"", ["b", "a", "..", "a"]⟩).run.run (linked [])).2.tree.find?
      ⟨"", ["b", "a", "..", "a"]⟩ = some .directory ∧
    (((kernelFiles.deploy ⟨"", ["log"]⟩).run.run (linkedLogging ⟨"", ["log"]⟩)).2.tree.read
      ⟨"", ["log"]⟩).toOption.map (·.size) ≠ some 1 ∧
    ((kernelFiles.deploy ⟨"", ["out"]⟩).run.run
      (linkedLogging ⟨"", ["out", "log"]⟩)).1.toOption = none ∧
    ((kernelFiles.deploy ⟨"", ["out"]⟩).run.run
      (linkedLogging ⟨"", ["out", "log"]⟩)).2.tree.read ⟨"", ["out"]⟩ =
        .ok (Content.ofBytes [2]) := by
  obtain ⟨flat, hflat, hsize⟩ := exists_flatten_overlapping
  refine ⟨flat, ?_, rfl, by decide, ?_, rfl, rfl, rfl, rfl, by decide +kernel, rfl, rfl⟩
  · rintro rfl
    rw [overlapping, Elf.headersOnly, Content.size_ofBytes] at hsize
    exact absurd hsize (by decide +kernel)
  · rw [run_extract_linked (Builder.store_of_none rfl) hflat]
    rfl

end BootImage
