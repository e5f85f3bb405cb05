import Mathlib.Data.Nat.Init
import Apple2ix.Foundations.Results

/-! Loops that move a fixed number of items by calls that may each move fewer of them. -/
namespace Apple2ix.Transfers
set_option autoImplicit false

universe u v
variable {σ : Type u} {ε : Type v}

/-- The loop that calls until `expected` items are moved or `maxtries` calls moved none.
`call k count s` is call number `k`, made when `count` items are moved: the state after it and
the number of items it moved. -/
def transfer (call : ℕ → ℕ → σ → Except ε (σ × ℕ)) (expected maxtries k count : ℕ) (s : σ) :
    Except ε (σ × ℕ) :=
  call k count s >>= fun moved =>
    if moved.2 = 0 then
      if maxtries ≤ 1 then .ok (moved.1, count)
      else transfer call expected (maxtries - 1) (k + 1) count moved.1
    else if expected ≤ count + moved.2 then .ok (moved.1, expected)
    else transfer call expected maxtries (k + 1) (count + moved.2) moved.1
termination_by maxtries + (expected - count)
decreasing_by all_goals omega

/-- **The rule of the loop.** What every call carries from the items moved before it to those
moved after it holds of all that were moved. The loop stops early only where a call can move
nothing: with `available` items moved at least. -/
theorem transfer_rule (call : ℕ → ℕ → σ → Except ε (σ × ℕ)) (expected : ℕ) (I : ℕ → σ → Prop)
    (available : ℕ)
    (hcall : ∀ k count s, count < expected → I count s → ∃ t n, call k count s = .ok (t, n) ∧
      count + n ≤ expected ∧ I (count + n) t ∧ (n = 0 → available ≤ count))
    (maxtries k count : ℕ) (s : σ) (hcount : count < expected) (hs : I count s) :
    ∃ t moved, transfer call expected maxtries k count s = .ok (t, moved) ∧ moved ≤ expected ∧
      I moved t ∧ (moved < expected → available ≤ moved) := by
  induction hm : maxtries + (expected - count) using Nat.strong_induction_on
    generalizing maxtries k count s with
  | _ m ih =>
    obtain ⟨t, n, hok, hle, hI, hnone⟩ := hcall k count s hcount hs
    rw [transfer, hok, ok_bind]
    by_cases hn : n = 0
    · subst hn
      rw [if_pos rfl]
      by_cases hlast : maxtries ≤ 1
      · rw [if_pos hlast]
        exact ⟨t, count, rfl, Nat.le_of_lt hcount, hI, fun _ => hnone rfl⟩
      · rw [if_neg hlast]
        exact ih _ (by omega) (maxtries - 1) (k + 1) count t hcount hI rfl
    · rw [if_neg hn]
      by_cases hdone : expected ≤ count + n
      · rw [if_pos hdone]
        have heq : count + n = expected := Nat.le_antisymm hle hdone
        rw [heq] at hI
        exact ⟨t, expected, rfl, Nat.le_refl _, hI, fun h => absurd h (Nat.lt_irrefl _)⟩
      · rw [if_neg hdone]
        exact ih _ (by omega) maxtries (k + 1) (count + n) t (by omega) hI rfl

end Apple2ix.Transfers
