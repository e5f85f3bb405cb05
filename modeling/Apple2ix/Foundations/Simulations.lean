import Apple2ix.Foundations.Runs

/-! Two machines that take the same operations: a relation that their steps keep, as long as the
operations meet a condition, holds after their runs. -/
namespace Apple2ix.Runs
set_option autoImplicit false

universe u v w x
variable {σ : Type u} {τ : Type v} {ω : Type w} {ε : Type x}
variable {step : σ → ω → Except ε σ} {next : τ → ω → Except ε τ}

/-- The results of two steps: both failures, the same, or both states, in the relation. -/
inductive Results (R : σ → τ → Prop) : Except ε σ → Except ε τ → Prop
  | error (e : ε) : Results R (.error e) (.error e)
  | ok {s : σ} {t : τ} (h : R s t) : Results R (.ok s) (.ok t)

theorem Results.mono {R S : σ → τ → Prop} {s : Except ε σ} {t : Except ε τ} (h : Results R s t)
    (hRS : ∀ s t, R s t → S s t) : Results S s t := by
  cases h with
  | error e => exact .error e
  | ok h => exact .ok (hRS _ _ h)

/-- A machine follows another one, and fails with it. -/
theorem Results.exists_left {R : σ → τ → Prop} {s : Except ε σ} {t : τ} (h : Results R s (.ok t)) :
    ∃ s', s = .ok s' ∧ R s' t := by
  cases h with
  | ok h => exact ⟨_, rfl, h⟩

/-- **Lock step.** Where related states take an operation that meets the condition to results that
are related, so do runs along which all operations meet it. -/
theorem runM_lockstep {R : σ → τ → Prop} {P : τ → ω → Prop}
    (hstep : ∀ s t a, R s t → P t a → Results R (step s a) (next t a)) {s : σ} {t : τ} {as : List ω}
    (h : R s t) (halong : Along next P t as) : Results R (runM step s as) (runM next t as) := by
  induction as generalizing s t with
  | nil => exact .ok h
  | cons a as ih =>
    have hfirst := hstep s t a h halong.head
    cases hs : step s a with
    | error e =>
      rw [hs] at hfirst
      cases ht : next t a with
      | ok t' =>
        rw [ht] at hfirst
        cases hfirst
      | error e' =>
        rw [ht] at hfirst
        cases hfirst
        rw [runM_cons_error as hs, runM_cons_error as ht]
        exact .error e
    | ok s' =>
      rw [hs] at hfirst
      cases ht : next t a with
      | error e =>
        rw [ht] at hfirst
        cases hfirst
      | ok t' =>
        rw [ht] at hfirst
        rw [runM_cons_ok as hs, runM_cons_ok as ht]
        rw [along_cons ht] at halong
        cases hfirst with
        | ok h' => exact ih h' halong.2

end Apple2ix.Runs
