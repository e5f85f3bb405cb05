import Apple2ix.Foundations.Results
import Apple2ix.Foundations.Runs

/-! What a computation that may stop with an error gives back: a value with a property, or one of
the errors that are allowed. -/
namespace Apple2ix.Outcomes
open Runs
set_option autoImplicit false

universe u v w
variable {ε : Type u} {α β : Type v} {allowed : ε → Prop} {P Q : α → Prop} {R : β → Prop}

/-- `x` stops only with an error that is allowed, and what it returns meets `P`. -/
def Yields (allowed : ε → Prop) (x : Except ε α) (P : α → Prop) : Prop :=
  match x with
  | .ok a => P a
  | .error e => allowed e

theorem Yields.ok {a : α} (h : P a) : Yields allowed (.ok a : Except ε α) P := h

theorem Yields.error {e : ε} (h : allowed e) : Yields allowed (.error e : Except ε α) P := h

/-- One computation after the other. -/
theorem Yields.bind {x : Except ε α} {f : α → Except ε β} (h : Yields allowed x P)
    (hf : ∀ a, P a → Yields allowed (f a) R) : Yields allowed (x >>= f) R := by
  cases x with
  | ok a => exact hf a h
  | error e => exact h

theorem Yields.mono {x : Except ε α} (h : Yields allowed x P) (hPQ : ∀ a, P a → Q a) :
    Yields allowed x Q := by
  cases x with
  | ok a => exact hPQ a h
  | error e => exact h

theorem Yields.of_ok {x : Except ε α} {a : α} (h : Yields allowed x P) (hx : x = .ok a) : P a := by
  subst hx
  exact h

theorem Yields.of_error {x : Except ε α} {e : ε} (h : Yields allowed x P) (hx : x = .error e) :
    allowed e := by
  subst hx
  exact h

/-- **The rule for runs.** What every step yields from a state that has it, every run yields. -/
theorem Yields.run {σ : Type v} {ω : Type w} {step : σ → ω → Except ε σ} (I : σ → Prop)
    (hstep : ∀ s a, I s → Yields allowed (step s a) I) {s : σ} (hs : I s) (as : List ω) :
    Yields allowed (runM step s as) I := by
  induction as generalizing s with
  | nil => exact hs
  | cons a as ih =>
    have h := hstep s a hs
    cases ha : step s a with
    | ok t =>
      rw [runM_cons_ok as ha]
      exact ih (h.of_ok ha)
    | error e =>
      rw [runM_cons_error as ha]
      exact h.of_error ha

end Apple2ix.Outcomes
