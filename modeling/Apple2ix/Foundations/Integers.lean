import Mathlib.Tactic.NormNum
import Mathlib.Data.Int.Init

/-! Integers of 32 bits: what is left of a number that is stored in one. -/
namespace Apple2ix
set_option autoImplicit false

/-- The value of an `int32_t` after `n` was stored in it. -/
def toInt32 (n : ℤ) : ℤ := Int.bmod n (2 ^ 32)

def IsInt32 (n : ℤ) : Prop := -2147483648 ≤ n ∧ n < 2147483648

theorem toInt32_eq {n : ℤ} (h : IsInt32 n) : toInt32 n = n := by
  obtain ⟨hlo, hhi⟩ := h
  unfold toInt32
  rw [Int.bmod_def]
  norm_num
  omega

/-- A number between the largest of them and the largest unsigned one becomes negative. -/
theorem toInt32_neg {n : ℤ} (h : 2147483648 ≤ n) (hn : n < 4294967296) : toInt32 n < 0 := by
  unfold toInt32
  rw [Int.bmod_def]
  norm_num
  omega

end Apple2ix
