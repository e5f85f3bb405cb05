import Mathlib.Data.BitVec
import Mathlib.Logic.Function.Basic

/-! Named flags in a machine word. A family of flags is a type whose members stand for different
bits of the word, each by a mask; `has`, `set` and `clear` are the usual bit operations, and the
simp set reads a flag of the result off the flags before. -/
namespace Apple2ix
set_option autoImplicit false

universe u

/-- The members of `F` are flags of words of `w` bits. -/
class Flag (F : Type u) (w : outParam ℕ) where
  mask : F → BitVec w
  bit : F → ℕ
  bit_lt : ∀ f, bit f < w
  bit_injective : Function.Injective bit
  mask_eq : ∀ f, mask f = BitVec.twoPow w (bit f)

namespace Flag
variable {F : Type u} {w : ℕ} [Flag F w]

/-- `word & f`, as a condition. -/
def has (word : BitVec w) (f : F) : Bool := word &&& mask f != 0

/-- `f | g | …`. -/
def all : List F → BitVec w
  | [] => 0
  | f :: fs => mask f ||| all fs

/-- `word |= (f | g | …)`. -/
def set (word : BitVec w) (fs : List F) : BitVec w := word ||| all fs

/-- `word &= ~(f | g | …)`. -/
def clear (word : BitVec w) (fs : List F) : BitVec w := word &&& ~~~all fs

theorem has_eq (word : BitVec w) (f : F) : has word f = word.getLsbD (bit f) := by
  have hbit : BitVec.twoPow w (bit f) ≠ 0 := by
    intro hz
    have hget := congrArg (fun v => BitVec.getLsbD v (bit f)) hz
    simp [bit_lt f] at hget
  rw [has, mask_eq, BitVec.and_twoPow]
  cases word.getLsbD (bit f) with
  | true => simpa using hbit
  | false => simp

theorem has_mask [DecidableEq F] (f g : F) : has (mask g : BitVec w) f = decide (f = g) := by
  rw [has_eq, mask_eq, BitVec.getLsbD_twoPow]
  by_cases h : f = g
  · subst h
    simp [bit_lt f]
  · have hne : bit g ≠ bit f := fun he => h (bit_injective he.symm)
    simp [h, hne]

theorem has_all [DecidableEq F] (fs : List F) (f : F) :
    has (all fs : BitVec w) f = decide (f ∈ fs) := by
  induction fs with
  | nil => simp [all, has]
  | cons g fs ih =>
    rw [has_eq] at ih ⊢
    rw [all, BitVec.getLsbD_or, ih, ← has_eq, has_mask]
    simp

@[simp] theorem has_set [DecidableEq F] (word : BitVec w) (fs : List F) (f : F) :
    has (set word fs) f = (has word f || decide (f ∈ fs)) := by
  rw [← has_all fs f]
  simp only [has_eq, set, BitVec.getLsbD_or]

@[simp] theorem has_clear [DecidableEq F] (word : BitVec w) (fs : List F) (f : F) :
    has (clear word fs) f = (has word f && !decide (f ∈ fs)) := by
  rw [← has_all fs f]
  simp only [has_eq, clear, BitVec.getLsbD_and, BitVec.getLsbD_not, bit_lt f, decide_true,
    Bool.true_and]

end Flag

end Apple2ix
