import Apple2ix.Foundations.Bytes

/-! Reading a buffer around a ring of `w` cells. A reader that advances its position modulo `w`
sees the same bytes as one that reads `ring b w` at positions that only grow. -/
namespace Apple2ix
set_option autoImplicit false

/-- The buffer repeated forever: cell `p` of the ring is cell `p % w` of the buffer. -/
def ring (b : Buf) (w : ℕ) : Buf := fun p => b (p % w)

theorem ring_add_width (b : Buf) (w p : ℕ) : ring b w (w + p) = ring b w p := by
  simp only [ring, Nat.add_mod_left]

theorem ring_of_lt (b : Buf) (w p : ℕ) (hp : p < w) : ring b w p = b p := by
  simp only [ring, Nat.mod_eq_of_lt hp]

/-- Rings over buffers that agree on their first `w` cells are equal. -/
theorem ring_congr (b c : Buf) (w : ℕ) (hw : 0 < w) (h : ∀ i, i < w → b i = c i) :
    ring b w = ring c w := by
  funext p
  exact h (p % w) (Nat.mod_lt p hw)

end Apple2ix
