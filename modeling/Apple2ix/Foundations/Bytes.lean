import Mathlib.Logic.Function.Basic
import Mathlib.Data.Fintype.Basic

/-! Byte buffers behind C pointers, and case analysis over one byte. -/
namespace Apple2ix
set_option autoImplicit false

/-- A byte buffer seen through a pointer: `b i` is the cell `b[i]`. -/
abbrev Buf := ℕ → UInt8

/-- `memcpy(&b[at], src, n)`. -/
def Buf.copy (b : Buf) (start : ℕ) (src : Buf) (n : ℕ) : Buf :=
  fun i => if start ≤ i ∧ i < start + n then src (i - start) else b i

/-- `b + off`: the cells of `b` from `off` on. -/
def Buf.from (b : Buf) (off : ℕ) : Buf := fun i => b (off + i)

/-- The cells of `b` from `off` on replaced by those of `c`. -/
def Buf.splice (b : Buf) (off : ℕ) (c : Buf) : Buf := fun i => if off ≤ i then c (i - off) else b i

theorem Buf.copy_inside (b src : Buf) (start n i : ℕ) (hi : i < n) :
    b.copy start src n (start + i) = src i := by
  have h : start ≤ start + i ∧ start + i < start + n := by omega
  simp only [Buf.copy, h, and_self, if_true, Nat.add_sub_cancel_left]

theorem Buf.copy_outside (b src : Buf) (start n i : ℕ) (hi : i < start ∨ start + n ≤ i) :
    b.copy start src n i = b i := by
  have h : ¬ (start ≤ i ∧ i < start + n) := by omega
  simp only [Buf.copy, h, if_false]

/-- A property of bytes holds of all of them when it holds of the 256 bit patterns. -/
theorem forall_uint8 {P : UInt8 → Prop} (h : ∀ x : BitVec 8, P (UInt8.ofBitVec x)) (b : UInt8) :
    P b := h b.toBitVec

end Apple2ix
