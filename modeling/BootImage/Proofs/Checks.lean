/-!
# Checks before a computation

A program that may fail checks something, fails if it does not hold, and goes on otherwise. What is
known of such a program is read off its checks from the first to the last: of a result, that all of
them held, and of a failure, that it has one of their causes.

## Main definitions

* `Ends`: a program ends with a result or a failure of some sort.

## Main results

* `ok_of_unless`, `ok_of_if`, `ok_of_bind`: what held if there is a result.
* `eq_of_unless`, `eq_of_if`, `error_of_if`: what is left of a check that is decided.
* `Ends.bind`, `Ends.of_unless`, `Ends.of_if`: a program ends in some way if its parts do.
-/

namespace BootImage

variable {ε α β : Type} {p : Prop} [Decidable p] {e : ε} {k : Except ε α} {a : α}

/-- A computation that checks something and goes on has found it. -/
theorem ok_of_unless (h : (do
      unless p do throw e
      k) = .ok a) : p ∧ k = .ok a := by
  by_cases hp : p
  · exact ⟨hp, by simpa [hp] using h⟩
  · simp only [hp, if_false] at h
    cases h

theorem ok_of_if (h : (do
      if p then throw e
      k) = .ok a) : ¬ p ∧ k = .ok a := by
  by_cases hp : p
  · simp only [hp, if_true] at h
    cases h
  · exact ⟨hp, by simpa [hp] using h⟩

/-- A check that is passed may be left out. -/
theorem eq_of_unless (hp : p) : (do
      unless p do throw e
      k) = k := by
  simp only [hp, if_true]

theorem eq_of_if (hp : ¬ p) : (do
      if p then throw e
      k) = k := by
  simp only [hp, if_false]

theorem error_of_if (hp : p) : (do
      if p then throw e
      k) = .error e := by
  simp only [hp, if_true]
  rfl

theorem ok_of_bind {x : Except ε β} {f : β → Except ε α} (h : x >>= f = .ok a) :
    ∃ b, x = .ok b ∧ f b = .ok a := by
  cases x with
  | error e => cases h
  | ok b => exact ⟨b, rfl, h⟩

/-- A computation ends with a result of which `Q` holds, or fails for a cause of which `P` holds. -/
def Ends (P : ε → Prop) (Q : α → Prop) : Except ε α → Prop
  | .ok a => Q a
  | .error e => P e

namespace Ends

variable {P : ε → Prop} {Q : α → Prop} {R : β → Prop}

theorem imp {Q' : α → Prop} {x : Except ε α} (hx : Ends P Q x) (h : ∀ a, Q a → Q' a) :
    Ends P Q' x := by
  cases x with
  | error e => exact hx
  | ok a => exact h a hx

/-- The result is in any case that of the computation. -/
theorem and_eq {x : Except ε α} (hx : Ends P Q x) : Ends P (fun a => x = .ok a ∧ Q a) x := by
  cases x with
  | error e => exact hx
  | ok a => exact ⟨rfl, hx⟩

theorem bind {x : Except ε α} {f : α → Except ε β} (hx : Ends P Q x)
    (hf : ∀ a, Q a → Ends P R (f a)) : Ends P R (x >>= f) := by
  cases x with
  | error e => exact hx
  | ok a => exact hf a hx

theorem map {x : Except ε α} {f : α → β} (hx : Ends P (fun a => R (f a)) x) :
    Ends P R (f <$> x) := by
  cases x with
  | error e => exact hx
  | ok a => exact hx

theorem of_unless (he : P e) (hk : p → Ends P Q k) : Ends P Q (do
      unless p do throw e
      k) := by
  by_cases hp : p
  · simpa only [hp, if_true] using hk hp
  · simp only [hp, if_false]
    exact he

theorem of_if (he : P e) (hk : ¬ p → Ends P Q k) : Ends P Q (do
      if p then throw e
      k) := by
  by_cases hp : p
  · simp only [hp, if_true]
    exact he
  · simpa only [hp, if_false] using hk hp

end Ends

end BootImage
