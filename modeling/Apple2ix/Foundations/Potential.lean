import Mathlib.Algebra.Ring.Int.Defs
import Mathlib.Data.Int.Notation
import Apple2ix.Foundations.Runs

/-! Potentials of a run: what its steps are worth against what they add. -/
namespace Apple2ix.Runs
set_option autoImplicit false

variable {τ ω : Type*} {next : τ → ω → τ}

/-- **The potential rule.** Where no step adds more to a potential than it is worth, a run adds what
it is worth exactly when every one of its steps does. -/
theorem foldl_potential (potential : τ → ℤ) (worth : ω → ℤ)
    (hstep : ∀ x a, potential (next x a) ≤ potential x + worth a) (x : τ) (as : List ω) :
    potential (as.foldl next x) ≤ potential x + (as.map worth).sum ∧
      (potential (as.foldl next x) = potential x + (as.map worth).sum ↔
        AlongPure next (fun x a => potential (next x a) = potential x + worth a) x as) := by
  induction as generalizing x with
  | nil => exact ⟨Int.le_of_eq (Int.add_zero _).symm, iff_of_true (Int.add_zero _).symm trivial⟩
  | cons a as ih =>
    obtain ⟨hle, heq⟩ := ih (next x a)
    have hfirst := hstep x a
    rw [List.foldl_cons, List.map_cons, List.sum_cons, AlongPure, ← heq]
    refine ⟨by omega, ?_⟩
    constructor
    · intro h
      exact ⟨by omega, by omega⟩
    · rintro ⟨ha, hrest⟩
      omega

/-- Two runs that agree in every step agree. -/
theorem alongPure_congr {P Q : τ → ω → Prop} (h : ∀ x a, P x a ↔ Q x a) (x : τ) (as : List ω) :
    AlongPure next P x as ↔ AlongPure next Q x as := by
  induction as generalizing x with
  | nil => exact Iff.rfl
  | cons a as ih => exact and_congr (h x a) (ih (next x a))

end Apple2ix.Runs
