import BootImage.Proofs.Session.Relating

/-!
# Loops

A loop that only runs a program for each member of a list is that program run for one member after
the other. So it can be cut anywhere, and a loop that fails has gone through some of the members and
failed at the next one.

## Main definitions

* `each`: a program for each member of a list.

## Main results

* `each_cons`, `each_append`: a loop is cut.
* `Yields.each`: what is known of a loop from what each turn adds to it.
* `exists_of_each_error`: where a loop that fails has come to.
-/

namespace BootImage

variable {ε σ α β : Type} {body : β → ExceptT ε (StateM σ) α} {l : List β} {s s' : σ} {e : ε}

/-- Runs a program for each member of a list. -/
def each (l : List β) (body : β → ExceptT ε (StateM σ) α) : ExceptT ε (StateM σ) PUnit :=
  forIn l PUnit.unit fun y _ => do
    let _ ← body y
    pure (ForInStep.yield PUnit.unit)

theorem each_nil (body : β → ExceptT ε (StateM σ) α) : each [] body = pure PUnit.unit :=
  rfl

theorem each_cons (y : β) (l : List β) (body : β → ExceptT ε (StateM σ) α) :
    each (y :: l) body = body y >>= fun _ => each l body := by
  rw [each, List.forIn_cons, bind_assoc]
  simp only [pure_bind]
  rfl

theorem each_append (l l' : List β) (body : β → ExceptT ε (StateM σ) α) :
    each (l ++ l') body = each l body >>= fun _ => each l' body := by
  induction l with
  | nil => rw [List.nil_append, each_nil, pure_bind]
  | cons y l ih =>
    rw [List.cons_append, each_cons, each_cons, bind_assoc]
    exact congrArg _ (funext fun _ => ih)

theorem each_map {γ : Type} (f : γ → β) (l : List γ) (body : β → ExceptT ε (StateM σ) α) :
    each (l.map f) body = each l fun y => body (f y) := by
  induction l with
  | nil => rfl
  | cons y l ih => rw [List.map_cons, each_cons, each_cons, ih]

/-- What holds before a loop, and is carried on by each of its turns, holds of the whole list after
it. -/
theorem Yields.each {u : PUnit} (I : List β → σ → Prop) (h : Yields (each l body) s u s')
    (hbody : ∀ done y, y ∈ l → ∀ s₁ s₂ a, Yields (body y) s₁ a s₂ → I done s₁ → I (done ++ [y]) s₂)
    (hs : I [] s) : I l s' := by
  -- The turns that are made already come before the list that is left.
  have hfrom : ∀ (rest done : List β) (s : σ), (∀ y ∈ rest, y ∈ l) →
      Yields (BootImage.each rest body) s u s' → I done s → I (done ++ rest) s' := by
    intro rest
    induction rest with
    | nil =>
      intro done s _ h hs
      rw [each_nil, yields_pure] at h
      rwa [List.append_nil, h.2]
    | cons y rest ih =>
      intro done s hrest h hs
      rw [List.forall_mem_cons] at hrest
      rw [each_cons, yields_bind] at h
      obtain ⟨a, s₁, hy, h⟩ := h
      have hnext := ih (done ++ [y]) s₁ hrest.2 h (hbody done y hrest.1 s s₁ a hy hs)
      rwa [List.append_assoc] at hnext
  exact hfrom l [] s (fun _ => id) h hs

/-- A loop that fails has gone through the members before one at which it fails. -/
theorem exists_of_each_error (h : (each l body).run.run s = (.error e, s')) :
    ∃ before y after s₁, l = before ++ y :: after ∧ Yields (each before body) s PUnit.unit s₁ ∧
      (body y).run.run s₁ = (.error e, s') := by
  induction l generalizing s with
  | nil => cases h
  | cons y l ih =>
    rw [each_cons] at h
    cases hrun : (body y).run.run s with
    | mk result s₁ =>
      cases result with
      | error e' =>
        rw [run_bind_error _ hrun] at h
        cases h
        exact ⟨[], y, l, s, rfl, yields_pure.2 ⟨rfl, rfl⟩, hrun⟩
      | ok a =>
        rw [run_bind_ok _ hrun] at h
        obtain ⟨before, z, after, s₂, rfl, hbefore, hz⟩ := ih h
        refine ⟨y :: before, z, after, s₂, rfl, ?_, hz⟩
        rw [each_cons, yields_bind]
        exact ⟨a, s₁, hrun, hbefore⟩

/-- What a program keeps however it ends it keeps when it gives a result. -/
theorem Within.yields {R : σ → σ → Prop} {x : ExceptT ε (StateM σ) α} {a : α} (hx : Within R x)
    (h : Yields x s a s') : R s s' := by
  have hs := hx s
  rwa [h] at hs

end BootImage
