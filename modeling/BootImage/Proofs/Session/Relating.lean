import BootImage.Proofs.Session.Running

/-!
# Runs that are related

Two questions about a program cannot be asked of the runs that give results alone, since a program
that fails has changed its state too. What does it leave alone, however it ends (`Within`)? And what
does it make of two states that differ in something that it should not look at (`Respects`)? Both
are answered along the program, from its steps: what holds of each of them holds of a sequence, of a
loop and of a handler for failures.

## Main definitions

* `Within`: the state that a program leaves is related to the one that it is started in.
* `Respects`: states that are related lead to the same result and to states that are related.
* `Relates`: the same, with states that are not related in the end as they were at the start.
* `Session.Retains`: what is in the tree stays there.

## Main results

* `Within.bind`, `Within.tryCatch`, `Within.forIn`: programs that are put together.
* `Respects.bind`, `Respects.tryCatch`, `Respects.forIn`: the same for two runs.
* `Respects.read_bind`: programs that look at their state.
* `Relates.bind`: one program after the other.
* `Build.retains_log`: logging takes nothing from the tree.
-/

namespace BootImage

section

variable {ε σ α β γ : Type} {x : ExceptT ε (StateM σ) α} {s s' : σ} {a : α} {e : ε}

/-! ### One run -/

theorem run_bind_ok (f : α → ExceptT ε (StateM σ) β) (h : x.run.run s = (.ok a, s')) :
    (x >>= f).run.run s = (f a).run.run s' := by
  rw [run_bind, h]
  rfl

theorem run_bind_error (f : α → ExceptT ε (StateM σ) β) (h : x.run.run s = (.error e, s')) :
    (x >>= f).run.run s = (.error e, s') := by
  rw [run_bind, h]
  rfl

theorem run_tryCatch_ok (handler : ε → ExceptT ε (StateM σ) α) (h : x.run.run s = (.ok a, s')) :
    (tryCatch x handler).run.run s = (.ok a, s') := by
  rw [run_tryCatch, StateT.run_bind, h]
  rfl

theorem run_tryCatch_error (handler : ε → ExceptT ε (StateM σ) α)
    (h : x.run.run s = (.error e, s')) :
    (tryCatch x handler).run.run s = (handler e).run.run s' := by
  rw [run_tryCatch, StateT.run_bind, h]
  rfl

/-- Whatever state a program is started in, the one that it leaves is related to it, also when the
program fails. -/
def Within (R : σ → σ → Prop) (x : ExceptT ε (StateM σ) α) : Prop :=
  ∀ s, R s (x.run.run s).2

section Within

variable {R : σ → σ → Prop}

theorem within_pure [Std.Refl R] (a : α) : Within R (pure a : ExceptT ε (StateM σ) α) :=
  fun s => Std.Refl.refl s

theorem within_throw [Std.Refl R] (e : ε) : Within R (throw e : ExceptT ε (StateM σ) α) :=
  fun s => Std.Refl.refl s

/-- What follows a failure is not run. -/
theorem within_throw_bind [Std.Refl R] (e : ε) (f : α → ExceptT ε (StateM σ) β) :
    Within R (throw e >>= f) := by
  intro s
  have hrun := run_bind_error f (rfl : (throw e : ExceptT ε (StateM σ) α).run.run s = (.error e, s))
  rw [hrun]
  exact Std.Refl.refl s

theorem Within.mono {R' : σ → σ → Prop} (h : Within R x) (hR : ∀ s s', R s s' → R' s s') :
    Within R' x :=
  fun s => hR _ _ (h s)

theorem Within.bind [IsTrans σ R] {f : α → ExceptT ε (StateM σ) β} (hx : Within R x)
    (hf : ∀ a, Within R (f a)) : Within R (x >>= f) := by
  intro s
  have hs := hx s
  cases hrun : x.run.run s with
  | mk result s₁ =>
    rw [hrun] at hs
    cases result with
    | error e =>
      rw [run_bind_error f hrun]
      exact hs
    | ok a =>
      rw [run_bind_ok f hrun]
      exact IsTrans.trans _ _ _ hs (hf a s₁)

theorem Within.tryCatch [IsTrans σ R] {handler : ε → ExceptT ε (StateM σ) α} (hx : Within R x)
    (hhandler : ∀ e, Within R (handler e)) : Within R (tryCatch x handler) := by
  intro s
  have hs := hx s
  cases hrun : x.run.run s with
  | mk result s₁ =>
    rw [hrun] at hs
    cases result with
    | error e =>
      rw [run_tryCatch_error handler hrun]
      exact IsTrans.trans _ _ _ hs (hhandler e s₁)
    | ok a =>
      rw [run_tryCatch_ok handler hrun]
      exact hs

theorem Within.forIn [Std.Refl R] [IsTrans σ R] {body : β → ExceptT ε (StateM σ) γ} (l : List β)
    (hbody : ∀ y ∈ l, Within R (body y)) :
    Within R (forIn l PUnit.unit fun y _ => do
      let _ ← body y
      pure (ForInStep.yield PUnit.unit)) := by
  induction l with
  | nil =>
    rw [List.forIn_nil]
    exact within_pure _
  | cons y l ih =>
    rw [List.forall_mem_cons] at hbody
    rw [List.forIn_cons]
    refine Within.bind (hbody.1.bind fun _ => within_pure _) fun step => ?_
    cases step with
    | done u => exact within_pure _
    | yield u => exact ih hbody.2

end Within

/-! ### Two runs -/

/-- Started in states that are related, a program gives the same result, and leaves states that are
related. -/
def Respects (R : σ → σ → Prop) (x : ExceptT ε (StateM σ) α) : Prop :=
  ∀ s s', R s s' → ∃ result t t', x.run.run s = (result, t) ∧ x.run.run s' = (result, t') ∧ R t t'

section Respects

variable {R : σ → σ → Prop}

theorem respects_pure (a : α) : Respects R (pure a : ExceptT ε (StateM σ) α) :=
  fun s s' h => ⟨.ok a, s, s', rfl, rfl, h⟩

theorem respects_throw (e : ε) : Respects R (throw e : ExceptT ε (StateM σ) α) :=
  fun s s' h => ⟨.error e, s, s', rfl, rfl, h⟩

/-- What follows a failure is not run. -/
theorem respects_throw_bind (e : ε) (f : α → ExceptT ε (StateM σ) β) :
    Respects R (throw e >>= f) :=
  fun s s' h => ⟨.error e, s, s', run_bind_error f rfl, run_bind_error f rfl, h⟩

theorem Respects.bind {f : α → ExceptT ε (StateM σ) β} (hx : Respects R x)
    (hf : ∀ a, Respects R (f a)) : Respects R (x >>= f) := by
  intro s s' h
  obtain ⟨result, t, t', hs, hs', hR⟩ := hx s s' h
  cases result with
  | error e => exact ⟨.error e, t, t', run_bind_error f hs, run_bind_error f hs', hR⟩
  | ok a =>
    rw [run_bind_ok f hs, run_bind_ok f hs']
    exact hf a t t' hR

/-- What is read of the state may be read, if what follows does not tell the two apart by it. -/
theorem Respects.read_bind {g : σ → α} {f : α → ExceptT ε (StateM σ) β}
    (hx : ∀ s, x.run.run s = (.ok (g s), s))
    (hf : ∀ s s', R s s' → Respects R (f (g s)) ∧ f (g s') = f (g s)) : Respects R (x >>= f) := by
  intro s s' h
  obtain ⟨hrespects, hsame⟩ := hf s s' h
  rw [run_bind_ok f (hx s), run_bind_ok f (hx s'), hsame]
  exact hrespects s s' h

/-- What a program keeps of the first state may be known of it throughout. -/
theorem Respects.and {I : σ → Prop} (hx : Respects R x) (hI : Within (fun s t => I s → I t) x) :
    Respects (fun s s' => R s s' ∧ I s) x := by
  rintro s s' ⟨hR, hs⟩
  obtain ⟨result, t, t', hrun, hrun', hR'⟩ := hx s s' hR
  have ht := hI s hs
  rw [hrun] at ht
  exact ⟨result, t, t', hrun, hrun', hR', ht⟩

theorem Respects.tryCatch {handler : ε → ExceptT ε (StateM σ) α} (hx : Respects R x)
    (hhandler : ∀ e, Respects R (handler e)) : Respects R (tryCatch x handler) := by
  intro s s' h
  obtain ⟨result, t, t', hs, hs', hR⟩ := hx s s' h
  cases result with
  | error e =>
    rw [run_tryCatch_error handler hs, run_tryCatch_error handler hs']
    exact hhandler e t t' hR
  | ok a => exact ⟨.ok a, t, t', run_tryCatch_ok handler hs, run_tryCatch_ok handler hs', hR⟩

theorem Respects.forIn {body : β → ExceptT ε (StateM σ) γ} (l : List β)
    (hbody : ∀ y ∈ l, Respects R (body y)) :
    Respects R (forIn l PUnit.unit fun y _ => do
      let _ ← body y
      pure (ForInStep.yield PUnit.unit)) := by
  induction l with
  | nil =>
    rw [List.forIn_nil]
    exact respects_pure _
  | cons y l ih =>
    rw [List.forall_mem_cons] at hbody
    rw [List.forIn_cons]
    refine Respects.bind (hbody.1.bind fun _ => respects_pure _) fun step => ?_
    cases step with
    | done u => exact respects_pure _
    | yield u => exact ih hbody.2

end Respects

/-! ### Two runs that meet -/

/-- Started in states that are related by `R`, a program gives the same result, and leaves states
that are related by `S` if it is not a failure, and by `E` if it is one. -/
def Relates (R S E : σ → σ → Prop) (x : ExceptT ε (StateM σ) α) : Prop :=
  ∀ s s', R s s' →
    (∃ a t t', x.run.run s = (.ok a, t) ∧ x.run.run s' = (.ok a, t') ∧ S t t') ∨
    ∃ e t t', x.run.run s = (.error e, t) ∧ x.run.run s' = (.error e, t') ∧ E t t'

section Relates

variable {R S T E : σ → σ → Prop}

theorem Respects.relates (hx : Respects R x) (hS : ∀ s s', R s s' → S s s')
    (hE : ∀ s s', R s s' → E s s') : Relates R S E x := by
  intro s s' h
  obtain ⟨result, t, t', hs, hs', hR⟩ := hx s s' h
  cases result with
  | error e => exact .inr ⟨e, t, t', hs, hs', hE _ _ hR⟩
  | ok a => exact .inl ⟨a, t, t', hs, hs', hS _ _ hR⟩

theorem Relates.respects (hx : Relates R R R x) : Respects R x := by
  intro s s' h
  obtain ⟨a, t, t', hs, hs', hR⟩ | ⟨e, t, t', hs, hs', hR⟩ := hx s s' h
  · exact ⟨.ok a, t, t', hs, hs', hR⟩
  · exact ⟨.error e, t, t', hs, hs', hR⟩

theorem relates_throw_bind (e : ε) (f : α → ExceptT ε (StateM σ) β)
    (hE : ∀ s s', R s s' → E s s') : Relates R S E (throw e >>= f) :=
  fun s s' h => .inr ⟨e, s, s', run_bind_error f rfl, run_bind_error f rfl, hE s s' h⟩

theorem Relates.bind {f : α → ExceptT ε (StateM σ) β} (hx : Relates R S E x)
    (hf : ∀ a, Relates S T E (f a)) : Relates R T E (x >>= f) := by
  intro s s' h
  obtain ⟨a, t, t', hs, hs', hS⟩ | ⟨e, t, t', hs, hs', hE⟩ := hx s s' h
  · rw [run_bind_ok f hs, run_bind_ok f hs']
    exact hf a t t' hS
  · exact .inr ⟨e, t, t', run_bind_error f hs, run_bind_error f hs', hE⟩

end Relates

end

/-! ### Steps of a build -/

namespace Build

open Host (Path FileTree Fault)

variable {α β : Type}

theorem run_ofExcept {ε : Type} (cause : ε → Cause) (r : Except ε α) (t : Session) :
    (ofExcept cause r).run.run t = (r.mapError fun e => ⟨cause e, none⟩, t) := by
  cases r <;> rfl

theorem run_query (f : FileTree → Except Fault α) (t : Session) :
    (query f).run.run t = ((f t.tree).mapError fun fault => ⟨.host fault, none⟩, t) :=
  (run_bind_ok _ rfl).trans (run_ofExcept ..)

/-- What follows a look at the tree is run where that finds something. -/
theorem run_query_bind (f : FileTree → Except Fault α) (g : α → Build β) (t : Session) :
    (query f >>= g).run.run t = match f t.tree with
      | .error fault => (.error ⟨.host fault, none⟩, t)
      | .ok a => (g a).run.run t := by
  have hquery := run_query f t
  cases hfound : f t.tree with
  | error fault =>
    rw [hfound] at hquery
    exact run_bind_error _ hquery
  | ok a =>
    rw [hfound] at hquery
    exact run_bind_ok _ hquery

theorem run_change (f : FileTree → Except Fault FileTree) (t : Session) :
    (change f).run.run t = match f t.tree with
      | .ok tree => (.ok (), { t with tree })
      | .error fault => (.error ⟨.host fault, none⟩, t) := by
  rw [change, run_query_bind]
  cases f t.tree with
  | error fault => rfl
  | ok tree => rfl

/-- What follows a change of the tree is run on the tree after it. -/
theorem run_change_bind (f : FileTree → Except Fault FileTree) (g : Unit → Build β) (t : Session) :
    (change f >>= g).run.run t = match f t.tree with
      | .error fault => (.error ⟨.host fault, none⟩, t)
      | .ok tree => (g ()).run.run { t with tree } := by
  have hchange := run_change f t
  cases hmade : f t.tree with
  | error fault =>
    rw [hmade] at hchange
    exact run_bind_error _ hchange
  | ok tree =>
    rw [hmade] at hchange
    exact run_bind_ok _ hchange

theorem run_makeDirectories (p : Path) (t : Session) :
    (makeDirectories p).run.run t =
      ((t.tree.makeDirectories p).1.mapError fun fault => ⟨.host fault, none⟩,
        { t with tree := (t.tree.makeDirectories p).2 }) :=
  (run_bind_ok _ rfl).trans ((run_bind_ok _ rfl).trans (run_ofExcept ..))

end Build

/-! ### Files that stay -/

/-- What is in the tree stays there. -/
def Session.Retains (t t' : Session) : Prop :=
  t.tree.Retains t'.tree

instance : Std.Refl Session.Retains :=
  ⟨fun t => .refl t.tree⟩

instance : IsTrans Session Session.Retains :=
  ⟨fun _ _ _ h h' => Host.FileTree.Retains.trans h h'⟩

namespace Build

open Host (Path FileTree Fault)

variable {α : Type}

theorem retains_ofExcept {ε : Type} (cause : ε → Cause) (r : Except ε α) :
    Within Session.Retains (ofExcept cause r) := by
  intro t
  rw [run_ofExcept]
  exact Std.Refl.refl t

theorem retains_query (f : FileTree → Except Fault α) : Within Session.Retains (query f) := by
  intro t
  rw [run_query]
  exact Std.Refl.refl t

theorem retains_write (p : Path) (f : FileTree → Content) :
    Within Session.Retains (change fun t => t.write p (f t)) := by
  intro t
  rw [run_change]
  cases hwrite : t.tree.write p (f t.tree) with
  | error fault => exact Std.Refl.refl t
  | ok tree => exact FileTree.retains_write hwrite

theorem retains_makeDirectories (p : Path) : Within Session.Retains (makeDirectories p) := by
  intro t
  rw [run_makeDirectories]
  exact FileTree.retains_makeDirectories t.tree p

theorem retains_log (message : String) : Within Session.Retains (log message) := by
  refine Within.bind (fun t => Std.Refl.refl t) fun t => ?_
  refine Within.bind (fun t => FileTree.Retains.refl t.tree) fun _ => ?_
  cases t.logFile with
  | none => exact within_pure _
  | some file => exact (retains_makeDirectories _).bind fun _ => retains_write file _

end Build

end BootImage
