import Mathlib.Data.List.GetD
import Apple2ix.Foundations.Bytes

/-! The bytes of a buffer as a list. -/
namespace Apple2ix
set_option autoImplicit false

/-- The `n` bytes of a buffer from `start` on. -/
def window (b : Buf) (start n : ℕ) : List UInt8 := (List.range n).map fun i => b (start + i)

def zeros : Buf := fun _ => 0

theorem window_length (b : Buf) (start n : ℕ) : (window b start n).length = n := by
  simp [window]

theorem window_append (b : Buf) (start m n : ℕ) :
    window b start m ++ window b (start + m) n = window b start (m + n) := by
  simp only [window, List.range_add, List.map_append, List.map_map]
  congr 1
  exact List.map_congr_left fun i _ => by rw [Function.comp, Nat.add_assoc]

theorem window_take (b : Buf) (start : ℕ) {m n : ℕ} (h : m ≤ n) :
    (window b start n).take m = window b start m := by
  rw [← Nat.add_sub_of_le h, ← window_append]
  exact List.take_left' (window_length b start m)

theorem window_congr {b c : Buf} {start n : ℕ} (h : ∀ i, i < n → b (start + i) = c (start + i)) :
    window b start n = window c start n :=
  List.map_congr_left fun i hi => h i (List.mem_range.mp hi)

theorem window_eq_iff {b c : Buf} {start start' n : ℕ} :
    window b start n = window c start' n ↔ ∀ i, i < n → b (start + i) = c (start' + i) := by
  simp only [window, List.map_inj_left, List.mem_range]

/-- What is written over the start of a window leaves the rest of it. -/
theorem window_copy (b : Buf) (start : ℕ) {n : ℕ} (data : List UInt8) (h : data.length ≤ n) :
    window (b.copy start (data.getD · 0) data.length) start n =
      data ++ (window b start n).drop data.length := by
  refine List.ext_getElem (by simp [window]; omega) fun i hi hi' => ?_
  rw [window_length] at hi
  simp only [window, List.getElem_map, List.getElem_range]
  by_cases hin : i < data.length
  · rw [Buf.copy_inside _ _ _ _ _ hin, List.getElem_append_left hin, List.getD_eq_getElem _ _ hin]
  · rw [Buf.copy_outside _ _ _ _ _ (by omega), List.getElem_append_right (by omega),
      List.getElem_drop, List.getElem_map, List.getElem_range]
    congr 2
    omega

theorem window_zeros (b : Buf) (n : ℕ) : window (b.copy 0 zeros n) 0 n = List.replicate n 0 := by
  refine List.ext_getElem (by simp [window]) fun i hi _ => ?_
  rw [window_length] at hi
  simp only [window, List.getElem_map, List.getElem_range, List.getElem_replicate]
  rw [Buf.copy_inside _ _ _ _ _ hi]
  rfl

end Apple2ix
