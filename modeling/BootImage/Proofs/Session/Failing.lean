import BootImage.Proofs.Checks
import BootImage.Proofs.Session.Looping

/-!
# How a build fails

A step that works on files fails because the file system refuses something, and for no other reason,
whatever state it is started in. So a failure of another kind comes from a check that the program
makes itself. Of such a check it is known what was done before it, which may be nothing at all.

## Main definitions

* `FailsAs`: the ways in which a program fails.
* `Failure.IsFault`: the file system refused something.

## Main results

* `FailsAs.bind`, `FailsAs.tryCatch`, `FailsAs.each`: programs that are put together.
* `Build.failsAs_log`, `Build.failsAs_writeAtomically`: steps that fail by faults only.
-/

namespace BootImage

open Host (Path FileTree Fault)

section

variable {ε σ α β : Type} {P E : ε → Prop} {x : ExceptT ε (StateM σ) α} {s s' : σ} {e : ε}

/-- Whatever state a program is started in, it gives a result or fails in a way of which `P`
holds. -/
def FailsAs (P : ε → Prop) (x : ExceptT ε (StateM σ) α) : Prop :=
  ∀ s, Ends P (fun _ => True) (x.run.run s).1

theorem FailsAs.of_run (h : FailsAs P x) (hrun : x.run.run s = (.error e, s')) : P e := by
  have hs := h s
  rwa [hrun] at hs

theorem failsAs_iff : FailsAs P x ↔ ∀ s e s', x.run.run s = (.error e, s') → P e := by
  refine ⟨fun h s e s' hrun => h.of_run hrun, fun h s => ?_⟩
  cases hrun : x.run.run s with
  | mk result s' =>
    cases result with
    | error e => exact h s e s' hrun
    | ok a => exact trivial

theorem FailsAs.mono (h : FailsAs E x) (hP : ∀ e, E e → P e) : FailsAs P x :=
  failsAs_iff.2 fun _ _ _ hrun => hP _ (h.of_run hrun)

theorem failsAs_pure (a : α) : FailsAs P (pure a : ExceptT ε (StateM σ) α) :=
  fun _ => trivial

theorem failsAs_throw (he : P e) : FailsAs P (throw e : ExceptT ε (StateM σ) α) :=
  fun _ => he

theorem failsAs_get : FailsAs P (get : ExceptT ε (StateM σ) σ) :=
  fun _ => trivial

theorem failsAs_modify (f : σ → σ) : FailsAs P (modify f : ExceptT ε (StateM σ) PUnit) :=
  fun _ => trivial

theorem FailsAs.bind {f : α → ExceptT ε (StateM σ) β} (hx : FailsAs P x)
    (hf : ∀ a, FailsAs P (f a)) : FailsAs P (x >>= f) := by
  intro s
  cases hrun : x.run.run s with
  | mk result s₁ =>
    cases result with
    | error e =>
      rw [run_bind_error f hrun]
      exact hx.of_run hrun
    | ok a =>
      rw [run_bind_ok f hrun]
      exact hf a s₁

theorem FailsAs.of_if {p : Prop} [Decidable p] {k : ExceptT ε (StateM σ) α} (he : P e)
    (hk : ¬ p → FailsAs P k) : FailsAs P (do
      if p then throw e
      k) := by
  by_cases hp : p
  · simp only [hp, if_true]
    exact fun _ => he
  · simpa only [hp, if_false] using hk hp

/-- A handler is told of the failures that there can be. -/
theorem FailsAs.tryCatch {handler : ε → ExceptT ε (StateM σ) α} (hx : FailsAs E x)
    (hhandler : ∀ e, E e → FailsAs P (handler e)) : FailsAs P (tryCatch x handler) := by
  intro s
  cases hrun : x.run.run s with
  | mk result s₁ =>
    cases result with
    | error e =>
      rw [run_tryCatch_error handler hrun]
      exact hhandler e (hx.of_run hrun) s₁
    | ok a =>
      rw [run_tryCatch_ok handler hrun]
      exact trivial

theorem FailsAs.each {body : β → ExceptT ε (StateM σ) α} (hbody : ∀ y, FailsAs P (body y))
    (l : List β) : FailsAs P (each l body) := by
  induction l with
  | nil => exact failsAs_pure _
  | cons y l ih =>
    rw [each_cons]
    exact (hbody y).bind fun _ => ih

end

/-- The file system refused something. -/
def Failure.IsFault (e : Failure) : Prop :=
  ∃ fault, e.cause = .host fault

/-- The file system refuses something, so it is not the configuration that is wrong. -/
theorem Failure.IsFault.kind_ne {e : Failure} (h : e.IsFault) : e.kind ≠ .configuration := by
  obtain ⟨fault, hcause⟩ := h
  rw [Failure.kind, hcause]
  exact Failure.Kind.noConfusion

namespace Build

variable {α : Type}

theorem failsAs_query (f : FileTree → Except Fault α) : FailsAs Failure.IsFault (query f) := by
  intro s
  rw [run_query]
  cases f s.tree with
  | error fault => exact ⟨fault, rfl⟩
  | ok a => exact trivial

theorem failsAs_change (f : FileTree → Except Fault FileTree) :
    FailsAs Failure.IsFault (change f) :=
  (failsAs_query f).bind fun _ => failsAs_modify _

theorem failsAs_makeDirectories (p : Path) : FailsAs Failure.IsFault (makeDirectories p) := by
  intro s
  rw [run_makeDirectories]
  cases (s.tree.makeDirectories p).1 with
  | error fault => exact ⟨fault, rfl⟩
  | ok _ => exact trivial

theorem failsAs_log (message : String) : FailsAs Failure.IsFault (log message) := by
  refine failsAs_get.bind fun s => FailsAs.bind (failsAs_modify _) fun _ => ?_
  cases s.logFile with
  | none => exact failsAs_pure _
  | some file => exact (failsAs_makeDirectories _).bind fun _ => failsAs_change _

/-- A replacement fails as what is done for it does. -/
theorem failsAs_replaceFile {dest : Path} {fill : Path → Build Unit}
    (hfill : ∀ p, FailsAs Failure.IsFault (fill p)) :
    FailsAs Failure.IsFault (replaceFile dest fill) := by
  refine (failsAs_makeDirectories _).bind fun _ => failsAs_get.bind fun s =>
    (failsAs_change _).bind fun _ => ?_
  have hfilled := (hfill (temporaryPath dest s.tree.current)).bind fun _ =>
    failsAs_change (·.rename (temporaryPath dest s.tree.current) dest)
  refine hfilled.tryCatch fun failure hfailure => ?_
  refine FailsAs.bind (failsAs_get.bind fun _ => failsAs_pure _) fun has => ?_
  split
  · exact (failsAs_change _).bind fun _ => failsAs_throw hfailure
  · exact failsAs_throw hfailure

theorem failsAs_writeAtomically (dest : Path) (c : Content) :
    FailsAs Failure.IsFault (writeAtomically dest c) :=
  failsAs_replaceFile fun _ => failsAs_change _

end Build

end BootImage
