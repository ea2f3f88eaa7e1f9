import Mathlib

/-!
# Two computations that agree

A computation that may fault is carried out on two representations of its data.  The first
says with which error it faults; for the second, `none` is a fault.

* `Agrees R` — both fault, or both have results and `R` holds of them.
* `Agrees.bind` — agreement goes along the steps of a computation.
* `agrees_eq_iff` — agreement up to equality.
-/

namespace Agreement

/-- Both computations fault, or both have results that are related. -/
inductive Agrees {ε α β : Type} (R : α → β → Prop) : Except ε α → Option β → Prop where
  | fault (e : ε) : Agrees R (.error e) none
  | result {a : α} {b : β} (h : R a b) : Agrees R (.ok a) (some b)

section Rules

variable {ε α β γ δ : Type} {R : α → β → Prop} {S : γ → δ → Prop} {x : Except ε α} {y : Option β}

/-- **Agreement goes along the steps of a computation.** -/
theorem Agrees.bind {f : α → Except ε γ} {g : β → Option δ} (h : Agrees R x y)
    (hnext : ∀ a b, R a b → Agrees S (f a) (g b)) : Agrees S (x >>= f) (y >>= g) := by
  cases h with
  | fault e => exact .fault e
  | result hab => exact hnext _ _ hab

/-- The results are those of the first computation. -/
theorem Agrees.with_eq (h : Agrees R x y) : Agrees (fun a b => x = .ok a ∧ R a b) x y := by
  cases h with
  | fault e => exact .fault e
  | result hab => exact .result ⟨rfl, hab⟩

/-- A last step that cannot fault. -/
theorem Agrees.map {f : α → γ} {g : β → Option δ} (h : Agrees R x y)
    (hnext : ∀ a b, R a b → ∃ d, g b = some d ∧ S (f a) d) : Agrees S (x.map f) (y >>= g) := by
  cases h with
  | fault e => exact .fault e
  | result hab =>
    obtain ⟨d, hd, hs⟩ := hnext _ _ hab
    show Agrees S (.ok _) (g _)
    rw [hd]
    exact .result hs

/-- A step of the second computation alone. -/
theorem Agrees.step {z : Option γ} {v : γ} {g : γ → Option β} (hstep : z = some v)
    (h : Agrees R x (g v)) : Agrees R x (z >>= g) := by
  rw [hstep]
  exact h

theorem Agrees.ite {p : Prop} [Decidable p] {x' : Except ε α} {y' : Option β}
    (h : p → Agrees R x y) (h' : ¬ p → Agrees R x' y') :
    Agrees R (if p then x else x') (if p then y else y') := by
  by_cases hp : p
  · rw [if_pos hp, if_pos hp]
    exact h hp
  · rw [if_neg hp, if_neg hp]
    exact h' hp

/-- Two computations with equal results. -/
theorem agrees_eq_iff {x : Except ε α} {y : Option α} :
    Agrees (fun a b => b = a) x y ↔ y = x.toOption := by
  constructor
  · intro h
    cases h with
    | fault e => rfl
    | result hab => rw [hab]; rfl
  · rintro rfl
    cases x with
    | error e => exact .fault e
    | ok a => exact .result rfl

end Rules

end Agreement
