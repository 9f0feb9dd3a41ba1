import BootImage.Proofs.Host.Growth
import BootImage.Session

/-!
# Running a build

What runs in a state and can fail is followed here as long as it gives results: `Yields` names the
result and the state after it, and is taken apart along the program. Logging is the one thing that
happens all over a build. It makes the tree grow, and nothing else is to be known of it.

## Main definitions

* `Yields`: a program gives a result, and leaves a state.

## Main results

* `yields_bind`, `yields_tryCatch`: a program is taken apart.
* `Yields.forIn`: what each turn of a loop keeps is kept by the loop.
* `Build.grows_log`: logging makes the tree grow.
* `Build.log_yields`: when a line can be logged.
-/

namespace BootImage

open Host (Path FileTree Fault)

section

variable {ε σ α β γ : Type} {x : ExceptT ε (StateM σ) α} {s s' : σ} {a : α} {b : β}

theorem run_bind (x : ExceptT ε (StateM σ) α) (f : α → ExceptT ε (StateM σ) β) (s : σ) :
    (x >>= f).run.run s = (ExceptT.bindCont f (x.run.run s).1).run (x.run.run s).2 :=
  rfl

theorem run_tryCatch (x : ExceptT ε (StateM σ) α) (handler : ε → ExceptT ε (StateM σ) α) (s : σ) :
    (tryCatch x handler).run.run s = (x.run >>= fun result =>
      (tryCatch (ExceptT.mk (pure result)) handler).run : StateM σ (Except ε α)).run s :=
  rfl

/-- A program that is started in a state gives a result and leaves another state. -/
def Yields (x : ExceptT ε (StateM σ) α) (s : σ) (a : α) (s' : σ) : Prop :=
  x.run.run s = (.ok a, s')

theorem yields_pure {a' : α} : Yields (pure a : ExceptT ε (StateM σ) α) s a' s' ↔
    a' = a ∧ s' = s := by
  constructor
  · rintro ⟨⟩
    exact ⟨rfl, rfl⟩
  · rintro ⟨rfl, rfl⟩
    rfl

theorem yields_get {s₁ : σ} : Yields (get : ExceptT ε (StateM σ) σ) s s₁ s' ↔
    s₁ = s ∧ s' = s := by
  constructor
  · rintro ⟨⟩
    exact ⟨rfl, rfl⟩
  · rintro ⟨rfl, rfl⟩
    rfl

theorem yields_modify {f : σ → σ} {u : PUnit} :
    Yields (modify f : ExceptT ε (StateM σ) PUnit) s u s' ↔ s' = f s := by
  constructor
  · rintro ⟨⟩
    rfl
  · rintro rfl
    rfl

theorem not_yields_throw {e : ε} : ¬ Yields (throw e : ExceptT ε (StateM σ) α) s a s' := by
  rintro ⟨⟩

theorem yields_bind {f : α → ExceptT ε (StateM σ) β} :
    Yields (x >>= f) s b s' ↔ ∃ a s₁, Yields x s a s₁ ∧ Yields (f a) s₁ b s' := by
  rw [Yields, run_bind]
  cases hx : x.run.run s with
  | mk result s₁ =>
    cases result with
    | error e =>
      constructor
      · rintro ⟨⟩
      · rintro ⟨a, s₂, hyields, -⟩
        cases hx.symm.trans hyields
    | ok a =>
      constructor
      · intro h
        exact ⟨a, s₁, hx, h⟩
      · rintro ⟨a', s₂, hyields, h⟩
        cases hx.symm.trans hyields
        exact h

/-- A program gives a result if its first step does, and what follows gives one then. -/
theorem Yields.bind {f : α → ExceptT ε (StateM σ) β} {s₁ : σ} {P : σ → Prop} (hx : Yields x s a s₁)
    (hf : ∃ s', Yields (f a) s₁ b s' ∧ P s') : ∃ s', Yields (x >>= f) s b s' ∧ P s' := by
  obtain ⟨s', hf, hs'⟩ := hf
  exact ⟨s', yields_bind.2 ⟨a, s₁, hx, hf⟩, hs'⟩

/-- A program whose failures are not survived. -/
theorem yields_tryCatch {handler : ε → ExceptT ε (StateM σ) α}
    (hhandler : ∀ e s₁, ¬ Yields (handler e) s₁ a s') :
    Yields (tryCatch x handler) s a s' ↔ Yields x s a s' := by
  rw [Yields, Yields, run_tryCatch, StateT.run_bind]
  cases hx : x.run.run s with
  | mk result s₁ =>
    cases result with
    | error e =>
      constructor
      · intro h
        exact absurd h (hhandler e s₁)
      · rintro ⟨⟩
    | ok a' => exact Iff.rfl

/-- What each turn of a loop keeps is kept by the loop. -/
theorem Yields.forIn {body : β → ExceptT ε (StateM σ) γ} {l : List β} {u : PUnit}
    (I : σ → Prop) (h : Yields (forIn l PUnit.unit fun x _ => do
      let _ ← body x
      pure (ForInStep.yield PUnit.unit)) s u s')
    (hbody : ∀ x ∈ l, ∀ s₁ s₂ c, Yields (body x) s₁ c s₂ → I s₁ → I s₂) (hs : I s) : I s' := by
  induction l generalizing s with
  | nil =>
    rw [List.forIn_nil, yields_pure] at h
    rwa [h.2]
  | cons y l ih =>
    rw [List.forall_mem_cons] at hbody
    rw [List.forIn_cons, yields_bind] at h
    obtain ⟨step, s₁, hstep, hrest⟩ := h
    obtain ⟨c, s₂, hy, hyield⟩ := yields_bind.1 hstep
    obtain ⟨rfl, rfl⟩ := yields_pure.1 hyield
    exact ih hrest hbody.2 (hbody.1 _ _ _ hy hs)

end

namespace Build

variable {α : Type} {s s' : Session} {a : α} {u : Unit}

theorem yields_query {f : FileTree → Except Fault α} :
    Yields (query f) s a s' ↔ f s.tree = .ok a ∧ s' = s := by
  rw [query, yields_bind]
  constructor
  · rintro ⟨s₀, s₁, hget, h⟩
    obtain ⟨rfl, rfl⟩ := yields_get.1 hget
    cases hf : f s₁.tree with
    | error e =>
      rw [hf] at h
      exact absurd h not_yields_throw
    | ok a' =>
      rw [hf] at h
      obtain ⟨rfl, rfl⟩ := yields_pure.1 h
      exact ⟨rfl, rfl⟩
  · rintro ⟨hf, rfl⟩
    refine ⟨s', s', yields_get.2 ⟨rfl, rfl⟩, ?_⟩
    rw [hf]
    exact yields_pure.2 ⟨rfl, rfl⟩

theorem yields_ofExcept {ε : Type} {cause : ε → Cause} {r : Except ε α} :
    Yields (ofExcept cause r) s a s' ↔ r = .ok a ∧ s' = s := by
  cases r with
  | error e =>
    constructor
    · intro h
      exact absurd h not_yields_throw
    · rintro ⟨⟨⟩, -⟩
  | ok a' =>
    rw [ofExcept, yields_pure]
    constructor
    · rintro ⟨rfl, rfl⟩
      exact ⟨rfl, rfl⟩
    · rintro ⟨⟨⟩, rfl⟩
      exact ⟨rfl, rfl⟩

theorem yields_change {f : FileTree → Except Fault FileTree} :
    Yields (change f) s u s' ↔ ∃ tree, f s.tree = .ok tree ∧ s' = { s with tree } := by
  rw [change, yields_bind]
  constructor
  · rintro ⟨tree, s₁, hquery, h⟩
    obtain ⟨hf, rfl⟩ := yields_query.1 hquery
    exact ⟨tree, hf, yields_modify.1 h⟩
  · rintro ⟨tree, hf, rfl⟩
    exact ⟨tree, s, yields_query.2 ⟨hf, rfl⟩, yields_modify.2 rfl⟩

theorem yields_makeDirectories {p : Path} : Yields (makeDirectories p) s u s' ↔
    (s.tree.makeDirectories p).1 = .ok () ∧
      s' = { s with tree := (s.tree.makeDirectories p).2 } := by
  rw [makeDirectories, yields_bind]
  constructor
  · rintro ⟨s₀, s₁, hget, h⟩
    obtain ⟨rfl, rfl⟩ := yields_get.1 hget
    obtain ⟨u, s₂, hmodify, h⟩ := yields_bind.1 h
    obtain rfl := yields_modify.1 hmodify
    exact yields_ofExcept.1 h
  · rintro ⟨hok, rfl⟩
    refine ⟨s, s, yields_get.2 ⟨rfl, rfl⟩, ?_⟩
    exact yields_bind.2 ⟨(), _, yields_modify.2 rfl, yields_ofExcept.2 ⟨hok, rfl⟩⟩

/-- Logging makes the tree grow, and keeps the log file where it is. -/
theorem grows_log {message : String} (h : Yields (log message) s u s') :
    s.tree.Grows ∅ s.logFile s'.tree ∧ s'.logFile = s.logFile := by
  rw [log, yields_bind] at h
  obtain ⟨s₀, s₁, hget, h⟩ := h
  obtain ⟨rfl, rfl⟩ := yields_get.1 hget
  obtain ⟨u, s₂, hprint, h⟩ := yields_bind.1 h
  obtain rfl := yields_modify.1 hprint
  cases hfile : s₁.logFile with
  | none =>
    simp only [hfile] at h
    obtain ⟨-, rfl⟩ := yields_pure.1 h
    exact ⟨.refl .., rfl⟩
  | some file =>
    simp only [hfile] at h
    obtain ⟨u, s₃, hmake, hchange⟩ := yields_bind.1 h
    obtain ⟨-, rfl⟩ := yields_makeDirectories.1 hmake
    obtain ⟨tree, hwrite, rfl⟩ := yields_change.1 hchange
    obtain ⟨place, hplace, hnode, rfl⟩ := FileTree.write_eq_ok.1 hwrite
    refine ⟨(FileTree.grows_makeDirectories ..).trans (FileTree.grows_put hnode fun _ =>
      ⟨⟨file, rfl, hplace⟩, fun old hold => ?_⟩), rfl⟩
    obtain ⟨executable, hold⟩ := FileTree.content?_eq_some.1 hold
    have hfind : FileTree.find? (s₁.tree.makeDirectories file.parent).2 file =
        some (.file old executable) := by
      rw [FileTree.find?, hplace]
      exact hold
    simp only [hfind]
    exact Content.extends_append ..

/-- Without a log file a line is only printed. -/
theorem log_yields (hfile : s.logFile = none) (message : String) :
    ∃ s', Yields (log message) s () s' ∧ s'.tree = s.tree ∧ s'.logFile = none := by
  refine ⟨{ s with printed := s.printed.push s!"[{s.clock}] {message}" }, ?_, rfl, hfile⟩
  rw [log, yields_bind]
  refine ⟨s, s, yields_get.2 ⟨rfl, rfl⟩, yields_bind.2 ⟨(), _, yields_modify.2 rfl, ?_⟩⟩
  simp only [hfile]
  exact yields_pure.2 ⟨rfl, rfl⟩

end Build

end BootImage
