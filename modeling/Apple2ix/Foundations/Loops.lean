import Mathlib.Data.Nat.Init
import Mathlib.Logic.Function.Iterate

/-! Counted and conditional loops of an imperative program as total functions.
`forUp n body` is `for (i = 0; i < n; i++)`, `forUpM` the same loop with a body that may
stop the program, and `whileLoop` a `while` loop with an explicit bound on its iterations.
Each loop comes with the invariant rule its users need. -/
namespace Apple2ix.Loops
set_option autoImplicit false

universe u v
variable {σ : Type u} {ε : Type v}

/-! ## Counted loops -/

/-- The state after the iterations `i = 0, …, n - 1` of `body i`. -/
def forUp (n : ℕ) (body : ℕ → σ → σ) (s : σ) : σ :=
  match n with
  | 0 => s
  | n + 1 => body n (forUp n body s)

@[simp] theorem forUp_zero (body : ℕ → σ → σ) (s : σ) : forUp 0 body s = s := rfl

theorem forUp_succ (n : ℕ) (body : ℕ → σ → σ) (s : σ) :
    forUp (n + 1) body s = body n (forUp n body s) := rfl

/-- What holds before the loop and is carried from `i` to `i + 1` by the body holds after it. -/
theorem forUp_invariant {body : ℕ → σ → σ} {s : σ} (I : ℕ → σ → Prop) (n : ℕ) (h0 : I 0 s)
    (hstep : ∀ i t, i < n → I i t → I (i + 1) (body i t)) : I n (forUp n body s) := by
  induction n with
  | zero => exact h0
  | succ n ih =>
    have hn := ih (fun i t hi => hstep i t (by omega))
    exact hstep n _ (Nat.lt_succ_self n) hn

/-- What the passes of a loop achieve one by one, and never undo, is all achieved after it. -/
theorem forUp_achieves {body : ℕ → σ → σ} {s : σ} {P : ℕ → σ → Prop} (n : ℕ)
    (hown : ∀ i t, i < n → P i (body i t))
    (hkeep : ∀ i j t, i < n → j < n → P j t → P j (body i t)) :
    ∀ j, j < n → P j (forUp n body s) := by
  have hall := forUp_invariant (s := s) (fun m t => ∀ j, j < m → P j t) n
    (fun j hj => absurd hj (Nat.not_lt_zero j)) (fun i t hi ih j hj => by
      by_cases hji : j = i
      · rw [hji]
        exact hown i t hi
      · exact hkeep i j t hi (by omega) (ih j (by omega)))
  exact hall

/-- `forUp` with a body that may stop the program with an error. -/
def forUpM (n : ℕ) (body : ℕ → σ → Except ε σ) (s : σ) : Except ε σ :=
  match n with
  | 0 => .ok s
  | n + 1 => (forUpM n body s).bind (body n)

@[simp] theorem forUpM_zero (body : ℕ → σ → Except ε σ) (s : σ) : forUpM 0 body s = .ok s := rfl

theorem forUpM_succ (n : ℕ) (body : ℕ → σ → Except ε σ) (s : σ) :
    forUpM (n + 1) body s = (forUpM n body s).bind (body n) := rfl

/-- A loop that stopped the program stops it however many passes were to follow. -/
theorem forUpM_error {body : ℕ → σ → Except ε σ} {s : σ} {e : ε} {m n : ℕ}
    (h : forUpM m body s = .error e) (hmn : m ≤ n) : forUpM n body s = .error e := by
  induction n, hmn using Nat.le_induction with
  | base => exact h
  | succ n _ ih =>
    rw [forUpM_succ, ih]
    rfl

/-- A loop whose body does not look at the counter, taken apart at its first pass. -/
theorem forUpM_const_succ (n : ℕ) (body : σ → Except ε σ) (s : σ) :
    forUpM (n + 1) (fun _ => body) s = (body s).bind (forUpM n fun _ => body) := by
  induction n with
  | zero =>
    have h : forUpM 1 (fun _ => body) s = body s := rfl
    rw [h]
    cases body s <;> rfl
  | succ n ih =>
    rw [forUpM_succ, ih]
    cases body s <;> rfl

/-- The invariant rule when the body stays in the program at every state the invariant allows. -/
theorem forUpM_invariant {body : ℕ → σ → Except ε σ} {s : σ} (I : ℕ → σ → Prop) (n : ℕ)
    (h0 : I 0 s) (hstep : ∀ i t, i < n → I i t → ∃ t', body i t = .ok t' ∧ I (i + 1) t') :
    ∃ t, forUpM n body s = .ok t ∧ I n t := by
  induction n with
  | zero => exact ⟨s, rfl, h0⟩
  | succ n ih =>
    obtain ⟨t, ht, hI⟩ := ih (fun i t hi => hstep i t (by omega))
    obtain ⟨t', ht', hI'⟩ := hstep n t (Nat.lt_succ_self n) hI
    refine ⟨t', ?_, hI'⟩
    rw [forUpM_succ, ht]
    exact ht'

/-! ## Conditional loops -/

/-- `while (cond s) s = body s`, stopped with `stuck` after `fuel` tests of the condition. -/
def whileLoop (stuck : ε) (cond : σ → Bool) (body : σ → σ) : ℕ → σ → Except ε σ
  | 0, _ => .error stuck
  | fuel + 1, s => if cond s then whileLoop stuck cond body fuel (body s) else .ok s

/-- A loop whose condition holds for exactly the first `n` iterates runs `n` times. -/
theorem whileLoop_iterate {stuck : ε} {cond : σ → Bool} {body : σ → σ} (n fuel : ℕ) (s : σ)
    (hfuel : n < fuel) (hrun : ∀ i, i < n → cond (body^[i] s) = true)
    (hstop : cond (body^[n] s) = false) :
    whileLoop stuck cond body fuel s = .ok (body^[n] s) := by
  induction n generalizing fuel s with
  | zero =>
    obtain ⟨f, rfl⟩ := Nat.exists_eq_succ_of_ne_zero (by omega : fuel ≠ 0)
    have h0 : cond s = false := hstop
    simp [whileLoop, h0]
  | succ n ih =>
    obtain ⟨f, rfl⟩ := Nat.exists_eq_succ_of_ne_zero (by omega : fuel ≠ 0)
    have h0 : cond s = true := hrun 0 (Nat.succ_pos n)
    have htail := ih f (body s) (by omega) (fun i hi => hrun (i + 1) (by omega)) hstop
    simpa [whileLoop, h0] using htail

end Apple2ix.Loops
