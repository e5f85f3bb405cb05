import Mathlib.Data.Nat.Digits.Lemmas

/-! Sums of numbers digit by digit, in any base, with the carry from each digit into the next. -/
namespace Apple2ix.Ripple
set_option autoImplicit false

/-- The digits of the sum, least first, and the carry out. -/
def ripple (b : ℕ) : List (ℕ × ℕ) → ℕ → List ℕ × ℕ
  | [], c => ([], c)
  | (x, y) :: rest, c =>
    let r := ripple b rest ((x + y + c) / b)
    ((x + y + c) % b :: r.1, r.2)

/-- The two numbers and the carry in. -/
def total (b : ℕ) (l : List (ℕ × ℕ)) (c : ℕ) : ℕ :=
  Nat.ofDigits b (l.map Prod.fst) + Nat.ofDigits b (l.map Prod.snd) + c

section Base
variable {b : ℕ} (hb : 0 < b)
include hb

/-- Without its last digit a total is that of the other digits and the carry into them. -/
theorem total_div (x y : ℕ) (rest : List (ℕ × ℕ)) (c : ℕ) :
    total b ((x, y) :: rest) c / b = total b rest ((x + y + c) / b) := by
  have hsplit : total b ((x, y) :: rest) c = (x + y + c) +
      b * (Nat.ofDigits b (rest.map Prod.fst) + Nat.ofDigits b (rest.map Prod.snd)) := by
    simp only [total, List.map_cons, Nat.ofDigits_cons]
    ring
  rw [hsplit, Nat.add_mul_div_left _ _ hb, total]
  ring

omit hb in
theorem total_mod (x y : ℕ) (rest : List (ℕ × ℕ)) (c : ℕ) :
    total b ((x, y) :: rest) c % b = (x + y + c) % b := by
  have hsplit : total b ((x, y) :: rest) c = (x + y + c) +
      b * (Nat.ofDigits b (rest.map Prod.fst) + Nat.ofDigits b (rest.map Prod.snd)) := by
    simp only [total, List.map_cons, Nat.ofDigits_cons]
    ring
  rw [hsplit, Nat.add_mul_mod_self_left]

/-- **The carry out** is what does not fit. -/
theorem ripple_carry (l : List (ℕ × ℕ)) (c : ℕ) :
    (ripple b l c).2 = total b l c / b ^ l.length := by
  induction l generalizing c with
  | nil => simp [ripple, total]
  | cons xy rest ih =>
    obtain ⟨x, y⟩ := xy
    rw [List.length_cons, Nat.pow_succ', ← Nat.div_div_eq_div_mul, total_div hb]
    exact ih _

/-- **The digits** are those of the total. -/
theorem ripple_digits (l : List (ℕ × ℕ)) (c : ℕ) :
    (ripple b l c).1 = (List.range l.length).map fun i => total b l c / b ^ i % b := by
  induction l generalizing c with
  | nil => rfl
  | cons xy rest ih =>
    obtain ⟨x, y⟩ := xy
    have hfirst : total b ((x, y) :: rest) c / b ^ 0 % b = (x + y + c) % b := by
      rw [Nat.pow_zero, Nat.div_one, total_mod]
    have hrest : ∀ i, total b ((x, y) :: rest) c / b ^ (i + 1) % b =
        total b rest ((x + y + c) / b) / b ^ i % b := by
      intro i
      rw [Nat.pow_succ', ← Nat.div_div_eq_div_mul, total_div hb]
    rw [List.length_cons, List.range_succ_eq_map, List.map_cons, List.map_map, hfirst]
    change _ :: (ripple b rest ((x + y + c) / b)).1 = _
    rw [ih]
    congr 1
    refine List.map_congr_left fun i _ => ?_
    exact (hrest i).symm

/-- A number and its complement. -/
theorem ofDigits_complement (ys : List ℕ) (h : ∀ y ∈ ys, y < b) :
    Nat.ofDigits b (ys.map fun y => b - 1 - y) + Nat.ofDigits b ys + 1 = b ^ ys.length := by
  induction ys with
  | nil => rfl
  | cons y ys ih =>
    have hy : b - 1 - y + y = b - 1 := Nat.sub_add_cancel (by
      have := h y List.mem_cons_self
      omega)
    have htail := ih fun z hz => h z (List.mem_cons_of_mem y hz)
    rw [List.map_cons, Nat.ofDigits_cons, Nat.ofDigits_cons, List.length_cons, Nat.pow_succ',
      ← htail]
    have hsum : b - 1 - y + b * Nat.ofDigits b (ys.map fun y => b - 1 - y) +
        (y + b * Nat.ofDigits b ys) + 1 = (b - 1 - y + y + 1) +
          b * (Nat.ofDigits b (ys.map fun y => b - 1 - y) + Nat.ofDigits b ys) := by ring
    rw [hsum, hy, Nat.sub_add_cancel hb]
    ring

/-- Adding the complement and one subtracts, up to a carry out. -/
theorem total_complement (l : List (ℕ × ℕ)) (h : ∀ xy ∈ l, xy.2 < b) :
    total b (l.map fun xy => (xy.1, b - 1 - xy.2)) 1 + Nat.ofDigits b (l.map Prod.snd) =
      b ^ l.length + Nat.ofDigits b (l.map Prod.fst) := by
  have hcomplement := ofDigits_complement hb (l.map Prod.snd) fun y hy => by
    obtain ⟨xy, hxy, rfl⟩ := List.mem_map.mp hy
    exact h xy hxy
  rw [List.length_map] at hcomplement
  rw [total, List.map_map, List.map_map, ← hcomplement, List.map_map]
  change Nat.ofDigits b (l.map Prod.fst) +
    Nat.ofDigits b (l.map ((fun y => b - 1 - y) ∘ Prod.snd)) + 1 + _ = _
  ring

end Base

end Apple2ix.Ripple
