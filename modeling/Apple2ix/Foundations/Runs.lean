import Mathlib.Data.List.Basic

/-! Runs of a machine whose steps may stop the program. `runM step s ops` performs the
operations in order and stops at the first error; the outputs of the steps are collected by the
step function itself when they matter. -/
namespace Apple2ix.Runs
set_option autoImplicit false

universe u v w
variable {σ : Type u} {ω : Type v} {ε : Type w}

/-- The state after a list of operations, or the error of the first one that fails. -/
def runM (step : σ → ω → Except ε σ) : σ → List ω → Except ε σ
  | s, [] => .ok s
  | s, a :: as =>
    match step s a with
    | .ok t => runM step t as
    | .error e => .error e

variable {step : σ → ω → Except ε σ}

@[simp] theorem runM_nil (s : σ) : runM step s [] = .ok s := rfl

theorem runM_cons_ok {s t : σ} {a : ω} (as : List ω) (h : step s a = .ok t) :
    runM step s (a :: as) = runM step t as := by
  rw [runM, h]

theorem runM_cons_error {s : σ} {a : ω} {e : ε} (as : List ω) (h : step s a = .error e) :
    runM step s (a :: as) = .error e := by
  rw [runM, h]

/-- A run of `as ++ bs` is a run of `as` followed by one of `bs`. -/
theorem runM_append (s : σ) (as bs : List ω) :
    runM step s (as ++ bs) =
      match runM step s as with
      | .ok t => runM step t bs
      | .error e => .error e := by
  induction as generalizing s with
  | nil => rfl
  | cons a as ih =>
    cases h : step s a with
    | ok t => rw [List.cons_append, runM_cons_ok _ h, runM_cons_ok _ h, ih]
    | error e => rw [List.cons_append, runM_cons_error _ h, runM_cons_error _ h]

theorem runM_append_ok {s t u : σ} {as bs : List ω} (h : runM step s as = .ok t)
    (h' : runM step t bs = .ok u) : runM step s (as ++ bs) = .ok u := by
  rw [runM_append, h]
  exact h'

/-- A run that ends came through a state after every prefix of its operations. -/
theorem runM_prefix {s u : σ} {as bs : List ω} (h : runM step s (as ++ bs) = .ok u) :
    ∃ t, runM step s as = .ok t ∧ runM step t bs = .ok u := by
  rw [runM_append] at h
  cases ht : runM step s as with
  | ok t => exact ⟨t, rfl, by simpa [ht] using h⟩
  | error e => simp [ht] at h

/-- **The invariant rule.** What every successful step preserves holds after every run. -/
theorem runM_invariant (I : σ → Prop) (hstep : ∀ s a t, I s → step s a = .ok t → I t)
    {s t : σ} {as : List ω} (hs : I s) (h : runM step s as = .ok t) : I t := by
  induction as generalizing s with
  | nil =>
    cases h
    exact hs
  | cons a as ih =>
    cases ha : step s a with
    | ok r =>
      rw [runM_cons_ok as ha] at h
      exact ih (hstep s a r hs ha) h
    | error e =>
      rw [runM_cons_error as ha] at h
      cases h

/-- A run of a machine that carries more state is a run of the machine it extends. -/
theorem runM_map {τ : Type*} {more : τ → ω → Except ε τ} (f : τ → σ)
    (hstep : ∀ x a y, more x a = .ok y → step (f x) a = .ok (f y)) {x y : τ} {as : List ω}
    (h : runM more x as = .ok y) : runM step (f x) as = .ok (f y) := by
  induction as generalizing x with
  | nil =>
    cases h
    rfl
  | cons a as ih =>
    cases ha : more x a with
    | ok r =>
      rw [runM_cons_ok as ha] at h
      rw [runM_cons_ok as (hstep x a r ha)]
      exact ih h
    | error e =>
      rw [runM_cons_error as ha] at h
      cases h

/-- A machine that can follow every step of another one can follow its runs. -/
theorem runM_lift {τ : Type*} {more : τ → ω → Except ε τ} (f : τ → σ)
    (hlift : ∀ x a t, step (f x) a = .ok t → ∃ y, more x a = .ok y ∧ f y = t) {x : τ} {t : σ}
    {as : List ω} (h : runM step (f x) as = .ok t) : ∃ y, runM more x as = .ok y ∧ f y = t := by
  induction as generalizing x with
  | nil =>
    cases h
    exact ⟨x, rfl, rfl⟩
  | cons a as ih =>
    cases ha : step (f x) a with
    | ok r =>
      obtain ⟨y, hy, rfl⟩ := hlift x a r ha
      rw [runM_cons_ok as ha] at h
      rw [runM_cons_ok as hy]
      exact ih h
    | error e =>
      rw [runM_cons_error as ha] at h
      cases h

/-- A run fails exactly when some operation fails in the state the ones before it lead to. -/
theorem runM_error_iff (s : σ) (as : List ω) (e : ε) :
    runM step s as = .error e ↔
      ∃ pre a post t, as = pre ++ a :: post ∧ runM step s pre = .ok t ∧ step t a = .error e := by
  constructor
  · intro h
    induction as generalizing s with
    | nil => cases h
    | cons a as ih =>
      cases ha : step s a with
      | error f =>
        rw [runM_cons_error as ha] at h
        cases h
        exact ⟨[], a, as, s, rfl, rfl, ha⟩
      | ok t =>
        rw [runM_cons_ok as ha] at h
        obtain ⟨pre, b, post, r, rfl, hpre, hb⟩ := ih t h
        refine ⟨a :: pre, b, post, r, rfl, ?_, hb⟩
        rw [runM_cons_ok pre ha, hpre]
  · rintro ⟨pre, a, post, t, rfl, hpre, ha⟩
    rw [runM_append, hpre]
    exact runM_cons_error post ha

/-! ## Conditions along a run -/

/-- Every operation of a run meets `P` in the state that it finds. -/
def Along (step : σ → ω → Except ε σ) (P : σ → ω → Prop) (s : σ) (as : List ω) : Prop :=
  ∀ pre a post t, as = pre ++ a :: post → runM step s pre = .ok t → P t a

section Along
variable {P Q : σ → ω → Prop} {s t : σ} {a : ω} {as : List ω}

theorem along_nil (s : σ) : Along step P s [] := by
  intro pre a post t h
  simp at h

theorem Along.head (h : Along step P s (a :: as)) : P s a := h [] a as s rfl rfl

theorem along_cons (ht : step s a = .ok t) :
    Along step P s (a :: as) ↔ P s a ∧ Along step P t as := by
  constructor
  · intro h
    refine ⟨h.head, ?_⟩
    rintro pre b post u rfl hu
    refine h (a :: pre) b post u rfl ?_
    rw [runM_cons_ok pre ht]
    exact hu
  · rintro ⟨ha, h⟩ pre b post u heq hu
    cases pre with
    | nil =>
      rw [List.nil_append, List.cons.injEq] at heq
      obtain ⟨rfl, rfl⟩ := heq
      cases hu
      exact ha
    | cons c pre =>
      rw [List.cons_append, List.cons.injEq] at heq
      obtain ⟨rfl, rfl⟩ := heq
      rw [runM_cons_ok pre ht] at hu
      exact h pre b post u rfl hu

/-- Whether every operation of a run passes a test in the state that it finds. -/
def checkAlong (step : σ → ω → Except ε σ) (check : σ → ω → Bool) : σ → List ω → Bool
  | _, [] => true
  | s, a :: as => check s a && match step s a with
    | .ok t => checkAlong step check t as
    | .error _ => true

/-- A test that can be run along a run. -/
theorem along_of_check {check : σ → ω → Bool} (hcheck : ∀ s a, check s a = true → P s a)
    (h : checkAlong step check s as = true) : Along step P s as := by
  induction as generalizing s with
  | nil => exact along_nil s
  | cons a as ih =>
    rw [checkAlong, Bool.and_eq_true] at h
    obtain ⟨ha, hrest⟩ := h
    cases ht : step s a with
    | ok t =>
      rw [ht] at hrest
      exact (along_cons ht).mpr ⟨hcheck s a ha, ih hrest⟩
    | error e =>
      rintro (- | ⟨b, pre⟩) c post u heq hu
      · cases heq
        cases hu
        exact hcheck _ _ ha
      · cases heq
        rw [runM_cons_error pre ht] at hu
        cases hu

/-- An invariant that the steps keep where they meet a condition holds after a run along which they
do. -/
theorem runM_along_invariant (I : σ → Prop)
    (hstep : ∀ s a t, I s → P s a → step s a = .ok t → I t) (hs : I s) (halong : Along step P s as)
    (hrun : runM step s as = .ok t) : I t := by
  induction as generalizing s with
  | nil =>
    cases hrun
    exact hs
  | cons a as ih =>
    cases ha : step s a with
    | error e =>
      rw [runM_cons_error as ha] at hrun
      cases hrun
    | ok u =>
      rw [runM_cons_ok as ha] at hrun
      rw [along_cons ha] at halong
      exact ih (hstep s a u hs halong.1 ha) halong.2 hrun

/-- Two conditions agree along a run when they agree at each step under an invariant that the
steps keep as long as they hold; the invariant may speak of the operations to come. -/
theorem along_iff (I : σ → List ω → Prop) (hiff : ∀ s a as, I s (a :: as) → (P s a ↔ Q s a))
    (hstep : ∀ s a as, I s (a :: as) → Q s a → ∃ t, step s a = .ok t ∧ I t as) (h : I s as) :
    Along step P s as ↔ Along step Q s as := by
  induction as generalizing s with
  | nil => exact iff_of_true (along_nil s) (along_nil s)
  | cons a as ih =>
    by_cases ha : Q s a
    · obtain ⟨t, ht, hI⟩ := hstep s a as h ha
      rw [along_cons ht, along_cons ht, ih hI, hiff s a as h]
    · exact iff_of_false (fun hP => ha ((hiff s a as h).mp hP.head)) fun hQ => ha hQ.head

/-- When a step keeps an invariant exactly if it meets a condition, all states that a run comes
through have the invariant exactly if all its steps meet the condition. -/
theorem along_iff_invariant (I : σ → Prop)
    (hstep : ∀ s a t, I s → step s a = .ok t → (I t ↔ P s a)) {u : σ} (hs : I s)
    (h : runM step s as = .ok u) :
    (∀ pre post r, as = pre ++ post → runM step s pre = .ok r → I r) ↔ Along step P s as := by
  induction as generalizing s with
  | nil =>
    refine iff_of_true ?_ (along_nil s)
    intro pre post r heq hr
    rw [(List.append_eq_nil_iff.mp heq.symm).1] at hr
    cases hr
    exact hs
  | cons a as ih =>
    cases ha : step s a with
    | error e =>
      rw [runM_cons_error as ha] at h
      cases h
    | ok t =>
      rw [runM_cons_ok as ha] at h
      rw [along_cons ha]
      constructor
      · intro hall
        have ht : I t := by
          refine hall [a] as t rfl ?_
          rw [runM_cons_ok [] ha, runM_nil]
        refine ⟨(hstep s a t hs ha).mp ht, (ih ht h).mp ?_⟩
        rintro pre post r rfl hr
        refine hall (a :: pre) post r rfl ?_
        rw [runM_cons_ok pre ha]
        exact hr
      · rintro ⟨hP, halong⟩ pre post r heq hr
        have ht : I t := (hstep s a t hs ha).mpr hP
        cases pre with
        | nil =>
          cases hr
          exact hs
        | cons b pre =>
          rw [List.cons_append, List.cons.injEq] at heq
          obtain ⟨rfl, rfl⟩ := heq
          rw [runM_cons_ok pre ha] at hr
          exact (ih ht h).mpr halong pre post r rfl hr

/-- Every operation meets `P` along a run of a machine that cannot stop. -/
def AlongPure {τ : Type*} (next : τ → ω → τ) (P : τ → ω → Prop) : τ → List ω → Prop
  | _, [] => True
  | x, a :: as => P x a ∧ AlongPure next P (next x a) as

instance AlongPure.decidable {τ : Type*} (next : τ → ω → τ) (P : τ → ω → Prop)
    [∀ x a, Decidable (P x a)] : ∀ x as, Decidable (AlongPure next P x as)
  | _, [] => inferInstanceAs (Decidable True)
  | x, a :: as =>
    have := AlongPure.decidable next P (next x a) as
    inferInstanceAs (Decidable (P x a ∧ AlongPure next P (next x a) as))

/-- A condition on an abstraction of the state can be followed in the abstraction alone, which
moves with every step that meets the condition. -/
theorem along_pure {τ : Type*} {R : τ → ω → Prop} (f : σ → τ) (next : τ → ω → τ)
    (I : σ → List ω → Prop)
    (hstep : ∀ s a as, I s (a :: as) → R (f s) a →
      ∃ t, step s a = .ok t ∧ f t = next (f s) a ∧ I t as) (h : I s as) :
    Along step (fun s a => R (f s) a) s as ↔ AlongPure next R (f s) as := by
  induction as generalizing s with
  | nil => exact iff_of_true (along_nil s) trivial
  | cons a as ih =>
    by_cases ha : R (f s) a
    · obtain ⟨t, ht, hf, hI⟩ := hstep s a as h ha
      rw [along_cons ht, ih hI, hf]
      rfl
    · exact iff_of_false (fun hR => ha hR.head) fun hR => ha hR.1

end Along

end Apple2ix.Runs
