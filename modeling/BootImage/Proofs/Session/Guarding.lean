import BootImage.Proofs.Host.Places
import BootImage.Proofs.Session.Relating
import BootImage.Proofs.Session.Replacing

/-!
# Places that a build guards

What a build does to the file at one place, however it ends. Most steps are told by which path they
write to; only the log file is written by all of them, so it has to be elsewhere. A file that is
replaced through a temporary one is the old file or the new one whenever the replacing stops, and a
program of the host is up to nothing at a place that none of its files is at.

## Main definitions

* `Session.Guards`: a step that starts no program, and what it may leave at a place.
* `Session.Leaves`: the same of any step.

## Main results

* `Build.within_replaceFile`: what the steps of a replacement keep is kept by all of it.
* `Build.guards_writeAtomically`: the old file or the new one.
* `Build.leaves_runProgram`: a program leaves alone what its files are not.
-/

namespace BootImage

open Host (Path FileTree Fault Answer)

section

variable {ε σ α β : Type} {x : ExceptT ε (StateM σ) α} {s s' : σ} {result : Except ε α}
  {R : σ → σ → Prop}

theorem Within.of_run (h : Within R x) (hrun : x.run.run s = (result, s')) : R s s' := by
  have hs := h s
  rwa [hrun] at hs

/-- A sequence stops at a failure of its first step, or goes on from what that gave. -/
theorem run_bind_elim {P : σ → Prop} {f : α → ExceptT ε (StateM σ) β}
    (herror : ∀ e s', x.run.run s = (.error e, s') → P s')
    (hok : ∀ a s', Yields x s a s' → P ((f a).run.run s').2) : P ((x >>= f).run.run s).2 := by
  cases hrun : x.run.run s with
  | mk result s' =>
    cases result with
    | error e =>
      rw [run_bind_error f hrun]
      exact herror e s' hrun
    | ok a =>
      rw [run_bind_ok f hrun]
      exact hok a s' hrun

/-- What follows a step is told of the results that it can have. -/
theorem Within.run_bind [IsTrans σ R] {f : α → ExceptT ε (StateM σ) β} (hx : Within R x)
    (hf : ∀ a s', Yields x s a s' → R s' ((f a).run.run s').2) : R s ((x >>= f).run.run s).2 :=
  run_bind_elim (fun _ _ hrun => hx.of_run hrun) fun a s' hyields =>
    IsTrans.trans _ _ _ (hx.of_run hyields) (hf a s' hyields)

end

/-- A file takes another path. It comes from elsewhere, and goes elsewhere or has one of the
contents that may come. -/
theorem Host.FileTree.guards_rename {t t' : FileTree} {source dest : Path} {place : List String}
    {new : Set Content} {c : Content} (hrename : t.rename source dest = .ok t')
    (hread : t.read source = .ok c) (hsource : source.place t.current ≠ place)
    (hdest : dest.place t.current ≠ place ∨ c ∈ new) : t.Guards place new t' := by
  obtain ⟨start, goal, executable, hlocate, hnode, hgoal, -, hcurrent, hmoved⟩ :=
    of_rename hrename hread
  refine ⟨hcurrent, ?_⟩
  by_cases heq : goal = place
  · subst heq
    refine .inr ⟨c, hdest.resolve_left fun hne => hne (place_of_locate hgoal).symm, ?_⟩
    rw [content?, hmoved, if_pos rfl]
  · have hstart : start ≠ place := place_of_locate hlocate ▸ hsource
    exact .inl (by rw [content?, content?, hmoved, if_neg heq, if_neg hstart])

variable {place : List String} {new new' : Set Content} {s s' s'' : Session}

/-- The log file is elsewhere. -/
def Session.LogAvoids (s : Session) (place : List String) : Prop :=
  ∀ p ∈ s.logFile, p.Avoids place

theorem Session.LogAvoids.congr (h : s.LogAvoids place) (hlog : s'.logFile = s.logFile) :
    s'.LogAvoids place := by
  rw [LogAvoids, hlog]
  exact h

/-- A step that starts no program. If the log file is elsewhere, the file at a place is the one that
was there, or has one of the contents `new`. -/
def Session.Guards (place : List String) (new : Set Content) (s s' : Session) : Prop :=
  s.LogAvoids place →
    s'.logFile = s.logFile ∧ s'.answers = s.answers ∧ s.tree.Guards place new s'.tree

instance : Std.Refl (Session.Guards place new) :=
  ⟨fun _ _ => ⟨rfl, rfl, .refl ..⟩⟩

instance : IsTrans Session (Session.Guards place new) := by
  refine ⟨fun s s' s'' h h' havoids => ?_⟩
  obtain ⟨hlog, hanswers, htree⟩ := h havoids
  obtain ⟨hlog', hanswers', htree'⟩ := h' (havoids.congr hlog)
  exact ⟨hlog'.trans hlog, hanswers'.trans hanswers, htree.trans htree'⟩

theorem Session.Guards.mono (h : s.Guards place new s') (hnew : new ⊆ new') :
    s.Guards place new' s' :=
  fun havoids => (h havoids).imp_right (And.imp_right (·.mono hnew))

/-- The file at a place is the one that was there, or has one of the contents `new`, whatever else
was done. -/
structure Session.Leaves (place : List String) (new : Set Content) (s s' : Session) : Prop where
  logFile : s'.logFile = s.logFile
  tree : s.tree.Guards place new s'.tree

theorem Session.Leaves.trans (h : s.Leaves place new s') (h' : s'.Leaves place new s'') :
    s.Leaves place new s'' :=
  ⟨h'.logFile.trans h.logFile, h.tree.trans h'.tree⟩

theorem Session.Guards.logAvoids (h : s.Guards place new s') (havoids : s.LogAvoids place) :
    s'.LogAvoids place :=
  havoids.congr (h havoids).1

theorem Session.Guards.leaves (h : s.Guards place new s') (havoids : s.LogAvoids place) :
    s.Leaves place new s' :=
  ⟨(h havoids).1, (h havoids).2.2⟩

namespace Build

variable {α : Type}

/-! ### Single steps -/

theorem guards_ofExcept {ε : Type} (cause : ε → Cause) (r : Except ε α) :
    Within (Session.Guards place new) (ofExcept cause r) := by
  intro s
  rw [run_ofExcept]
  exact Std.Refl.refl s

theorem guards_query (f : FileTree → Except Fault α) :
    Within (Session.Guards place new) (query f) := by
  intro s
  rw [run_query]
  exact Std.Refl.refl s

theorem guards_has (p : Path) : Within (Session.Guards place new) (has p) :=
  (guards_query _).bind fun _ => within_pure _

theorem guards_change {f : FileTree → Except Fault FileTree}
    (h : ∀ t t', f t = .ok t' → t.Guards place new t') :
    Within (Session.Guards place new) (change f) := by
  intro s
  rw [run_change]
  split
  · rename_i hf
    exact fun _ => ⟨rfl, rfl, h _ _ hf⟩
  · exact Std.Refl.refl s

theorem guards_makeDirectories (p : Path) :
    Within (Session.Guards place new) (makeDirectories p) := by
  intro s
  rw [run_makeDirectories]
  exact fun _ => ⟨rfl, rfl, FileTree.guards_makeDirectories ..⟩

theorem guards_print (line : String) : Within (Session.Guards place new) (print line) :=
  fun _ _ => ⟨rfl, rfl, .refl ..⟩

/-- A file is written elsewhere, or with one of the contents that may come. -/
theorem guards_write {p : Path} {f : FileTree → Content}
    (h : p.Avoids place ∨ ∀ t, f t ∈ new) :
    Within (Session.Guards place new) (change fun t => t.write p (f t)) :=
  guards_change fun _ _ hwrite =>
    FileTree.guards_write hwrite (h.imp (fun havoids => havoids _) fun hnew => hnew _)

theorem guards_create {p : Path} (h : p.Avoids place) :
    Within (Session.Guards place new) (change (·.create p)) :=
  guards_change fun _ _ hcreate => FileTree.guards_create hcreate (h _)

theorem guards_remove {p : Path} (h : p.Avoids place) :
    Within (Session.Guards place new) (change (·.remove p)) :=
  guards_change fun _ _ hremove => FileTree.guards_remove hremove (h _)

/-- Logging changes the log file alone. -/
theorem guards_log (message : String) : Within (Session.Guards place new) (log message) := by
  intro s
  rw [log]
  refine run_bind_elim (fun _ _ hget => by cases hget) fun s₀ s₁ hget => ?_
  obtain ⟨rfl, rfl⟩ := yields_get.1 hget
  refine run_bind_elim (fun _ _ hprint => by cases hprint) fun _ s₂ hprint => ?_
  have hprinted : s₁.Guards place new s₂ := (guards_print _).of_run hprint
  obtain rfl := yields_modify.1 hprint
  refine IsTrans.trans _ _ _ hprinted ?_
  cases hfile : s₁.logFile with
  | none => exact Std.Refl.refl _
  | some file =>
    intro havoids
    have hplace : file.Avoids place := havoids file rfl
    exact ((guards_makeDirectories _).bind fun _ => guards_write (.inl hplace)) _ havoids

/-! ### Replacing a file -/

/-- What the steps of a replacement keep is kept by all of it. -/
theorem within_replaceFile {R : Session → Session → Prop} [Std.Refl R] [IsTrans Session R]
    {dest : Path} {fill : Path → Build Unit} (hmake : ∀ p, Within R (makeDirectories p))
    (hcreate : ∀ current, Within R (change (·.create (temporaryPath dest current))))
    (hfill : ∀ current, Within R (do
      fill (temporaryPath dest current)
      change (·.rename (temporaryPath dest current) dest)))
    (hremove : ∀ current, Within R (change (·.remove (temporaryPath dest current)))) :
    Within R (replaceFile dest fill) := by
  have hget : Within R (get : Build Session) := fun s => Std.Refl.refl s
  refine (hmake _).bind fun _ => hget.bind fun t => (hcreate _).bind fun _ => ?_
  refine Within.tryCatch (hfill _) fun failure => ?_
  refine Within.bind (hget.bind fun _ => within_pure _) fun has => ?_
  split
  · exact (hremove _).bind fun _ => within_throw failure
  · exact within_throw failure

theorem getLast?_temporaryPath (dest : Path) (current : List String) :
    (temporaryPath dest current).names.getLast? = some ("." ++ dest.name ++ ".TMP") :=
  List.getLast?_concat

theorem length_temporaryName (name : String) :
    ("." ++ name ++ ".TMP").length = name.length + 5 := by
  have hdot : ".".length = 1 := by decide
  have hend : ".TMP".length = 4 := by decide
  rw [String.length_append, String.length_append, hdot, hend]
  omega

/-- The name of a temporary file is not that of the file. -/
theorem temporaryName_ne (name : String) : "." ++ name ++ ".TMP" ≠ name := by
  intro h
  have hlength := length_temporaryName name
  rw [h] at hlength
  omega

theorem temporaryName_ne_up (name : String) : "." ++ name ++ ".TMP" ≠ ".." := by
  intro h
  have hlength := length_temporaryName name
  have hup : "..".length = 2 := by decide
  rw [h, hup] at hlength
  omega

/-- The temporary file of a path is not where the path leads. -/
theorem getLast?_place_ne {dest : Path} {name : String} (h : dest.names.getLast? = some name)
    (hup : name ≠ "..") (current : List String) :
    (dest.place current).getLast? ≠ some ("." ++ dest.name ++ ".TMP") := by
  have hname : dest.name = name := by
    rw [Path.name, h]
    rfl
  rw [Path.getLast?_place h hup, hname]
  exact fun heq => temporaryName_ne name (Option.some.inj heq).symm

theorem avoids_temporaryPath {dest : Path}
    (hplace : place.getLast? ≠ some ("." ++ dest.name ++ ".TMP")) (current : List String) :
    (temporaryPath dest current).Avoids place :=
  Path.avoids_of_getLast? (getLast?_temporaryPath dest current) (temporaryName_ne_up _) hplace

/-- What a file is given before it takes another path is all that comes to the place there. -/
theorem guards_fill {fill : Build Unit} {temporary dest : Path}
    (htemporary : temporary.Avoids place) (hfill : s.Guards place new (fill.run.run s).2)
    (hgives : ∀ u s', Yields fill s u s' →
      ∃ c, s'.tree.read temporary = .ok c ∧ (dest.Avoids place ∨ c ∈ new)) :
    s.Guards place new ((do fill; change (·.rename temporary dest) : Build Unit).run.run s).2 := by
  refine run_bind_elim (fun e s' hrun => by rwa [hrun] at hfill) fun u s' hyields => ?_
  obtain ⟨c, hread, hc⟩ := hgives u s' hyields
  rw [hyields] at hfill
  refine IsTrans.trans _ _ _ hfill ?_
  rw [run_change]
  split
  · rename_i hrename
    refine fun _ => ⟨rfl, rfl, ?_⟩
    exact FileTree.guards_rename hrename hread (htemporary _) (hc.imp_left fun havoids => havoids _)
  · exact Std.Refl.refl _

/-- A file that is stored through a temporary one is the old file or the new one. -/
theorem guards_writeAtomically {dest : Path} {c : Content}
    (hplace : place.getLast? ≠ some ("." ++ dest.name ++ ".TMP"))
    (h : dest.Avoids place ∨ c ∈ new) :
    Within (Session.Guards place new) (writeAtomically dest c) := by
  have htemporary := avoids_temporaryPath hplace
  refine within_replaceFile guards_makeDirectories (fun current => guards_create (htemporary _))
    (fun current s => ?_) fun current => guards_remove (htemporary _)
  refine guards_fill (htemporary current) (guards_write (.inl (htemporary current)) s) ?_
  intro u s' hyields
  obtain ⟨tree, hwrite, rfl⟩ := yields_change.1 hyields
  exact ⟨c, FileTree.read_of_write hwrite, h⟩

end Build

/-! ### Programs of the host -/

/-- The files that a program has written. -/
def Host.Answer.files : Answer → List (Host.Output × Host.Node)
  | .ended _ _ _ files => files
  | .notStarted _ _ _ => []

/-- The next program, started by a command, writes no file at a place. -/
def Session.NextSpares (s : Session) (command place : List String) : Prop :=
  ∀ file ∈ (s.answers.headD .silent).files, (file.1.target command).place s.tree.current ≠ place

theorem Session.NextSpares.congr {command : List String} (h : s.NextSpares command place)
    (hguards : s.Guards place new s') (havoids : s.LogAvoids place) :
    s'.NextSpares command place := by
  obtain ⟨-, hanswers, htree⟩ := hguards havoids
  rw [NextSpares, hanswers, htree.current]
  exact h

namespace Build

variable {α β : Type} {call : Host.Call}

/-- A sequence leaves at a place what its first step does, or what follows then. -/
theorem leaves_bind {x : Build α} {f : α → Build β} (hx : s.Leaves place new (x.run.run s).2)
    (hf : ∀ a s', Yields x s a s' → s.Leaves place new s' →
      s'.Leaves place new ((f a).run.run s').2) : s.Leaves place new ((x >>= f).run.run s).2 := by
  refine run_bind_elim (fun e s' hrun => by rwa [hrun] at hx) fun a s' hyields => ?_
  rw [hyields] at hx
  exact hx.trans (hf a s' hyields hx)

/-- A step that starts no program comes first. -/
theorem leaves_guards_bind {x : Build α} {f : α → Build β}
    (hx : Within (Session.Guards place new) x) (havoids : s.LogAvoids place)
    (hf : ∀ a s', Yields x s a s' → s.Guards place new s' →
      s'.Leaves place new ((f a).run.run s').2) : s.Leaves place new ((x >>= f).run.run s).2 :=
  leaves_bind ((hx s).leaves havoids) fun a s' hyields _ => hf a s' hyields (hx.of_run hyields)

/-- A failure is handled by a step that starts no program. -/
theorem leaves_tryCatch {x : Build α} {handler : Failure → Build α}
    (hx : s.Leaves place new (x.run.run s).2)
    (hhandler : ∀ e, Within (Session.Guards place new) (handler e)) (havoids : s.LogAvoids place) :
    s.Leaves place new ((tryCatch x handler).run.run s).2 := by
  cases hrun : x.run.run s with
  | mk result s' =>
    rw [hrun] at hx
    cases result with
    | ok a =>
      rw [run_tryCatch_ok handler hrun]
      exact hx
    | error e =>
      rw [run_tryCatch_error handler hrun]
      exact hx.trans ((hhandler e s').leaves (havoids.congr hx.logFile))

/-- The state that a program leaves, also if some of its files could not be written. -/
theorem state_start (call : Host.Call) (s : Session) : ((start call).run.run s).2 =
    { s with
      answers := s.answers.tail
      calls := s.calls.push call
      tree := (s.tree.apply call.command (s.answers.headD .silent).files).2 } := by
  rw [start, run_bind_ok _ (rfl : (get : Build Session).run.run s = (.ok s, s))]
  cases s.answers.headD .silent with
  | notStarted missing label text => rfl
  | ended code printed errors files =>
    simp only [Host.Answer.files]
    cases s.tree.apply call.command files with
    | mk result tree => cases result <;> rfl

theorem leaves_start (h : s.NextSpares call.command place) :
    s.Leaves place new ((start call).run.run s).2 := by
  rw [state_start]
  exact ⟨rfl, FileTree.guards_apply s.tree call.command _ h⟩

theorem leaves_attempt (h : s.NextSpares call.command place) :
    s.Leaves place new ((attempt call).run.run s).2 := by
  have hstart : s.Leaves place new ((start call).run.run s).2 := leaves_start h
  cases hrun : (start call).run.run s with
  | mk result s' =>
    rw [hrun] at hstart
    cases result with
    | ok answer =>
      rw [attempt, run_tryCatch_ok _ hrun]
      exact hstart
    | error failure =>
      rw [attempt, run_tryCatch_error _ hrun]
      split <;> exact hstart

/-- A program that has to end well leaves alone what its files are not, whether or not it does. -/
theorem leaves_runProgram {step : String} {target : Option String} (havoids : s.LogAvoids place)
    (h : s.NextSpares call.command place) :
    s.Leaves place new ((runProgram step target call).run.run s).2 := by
  rw [runProgram]
  refine leaves_guards_bind (guards_log _) havoids fun _ s₁ _ hlog => ?_
  refine leaves_bind (leaves_attempt (h.congr hlog havoids)) fun answer s₂ _ hattempt => ?_
  have havoids₂ : s₂.LogAvoids place := (hlog.logAvoids havoids).congr hattempt.logFile
  refine Session.Guards.leaves ?_ havoids₂
  cases answer with
  | notStarted missing label text =>
    exact ((guards_log _).bind fun _ => within_throw _) s₂
  | ended code printed errors files =>
    simp only
    split
    · exact ((guards_log _).bind fun _ => within_throw _) s₂
    · exact Std.Refl.refl _

end Build

end BootImage
