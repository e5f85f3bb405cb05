import Mathlib.Data.List.Basic

/-! A stream cut into chunks of one length: the complete ones, and what is left behind the last of
them. -/
namespace Apple2ix.Chunks
set_option autoImplicit false

variable {α : Type*} {n : ℕ}

def chunks (n : ℕ) (l : List α) : List (List α) :=
  (List.range (l.length / n)).map fun k => (l.drop (k * n)).take n

def leftover (n : ℕ) (l : List α) : List α := l.drop (l.length / n * n)

theorem chunks_length (n : ℕ) (l : List α) : (chunks n l).length = l.length / n := by
  rw [chunks, List.length_map, List.length_range]

theorem chunks_short {l : List α} (h : l.length < n) : chunks n l = [] ∧ leftover n l = l := by
  rw [chunks, leftover, Nat.div_eq_of_lt h, Nat.zero_mul, List.drop_zero]
  exact ⟨rfl, rfl⟩

/-- The first chunk. -/
theorem chunks_cons (hn : 0 < n) {l : List α} (hl : l.length = n) (m : List α) :
    chunks n (l ++ m) = l :: chunks n m ∧ leftover n (l ++ m) = leftover n m := by
  have hdiv : (l ++ m).length / n = m.length / n + 1 := by
    rw [List.length_append, hl, Nat.add_div_left _ hn]
  have hdrop : ∀ k, (l ++ m).drop ((k + 1) * n) = m.drop (k * n) := by
    intro k
    rw [List.drop_append, List.drop_eq_nil_of_le (by rw [hl, Nat.succ_mul]; omega), hl,
      Nat.succ_mul,
      Nat.add_sub_cancel, List.nil_append]
  refine ⟨?_, ?_⟩
  · rw [chunks, hdiv, List.range_succ_eq_map, List.map_cons, List.map_map, Nat.zero_mul,
      List.drop_zero, List.take_left' hl]
    congr 1
    refine List.map_congr_left fun k _ => ?_
    rw [Function.comp, hdrop]
  · rw [leftover, hdiv, hdrop, leftover]

theorem chunks_one (hn : 0 < n) {l : List α} (hl : l.length = n) :
    chunks n l = [l] ∧ leftover n l = [] := by
  obtain ⟨hfirst, hleft⟩ := chunks_cons hn hl []
  obtain ⟨hnone, hempty⟩ := chunks_short (l := ([] : List α)) hn
  rw [List.append_nil] at hfirst hleft
  rw [hfirst, hleft, hnone, hempty]
  exact ⟨rfl, rfl⟩

/-- What comes behind a stream is cut together with what was left of it. -/
theorem chunks_append (hn : 0 < n) (l m : List α) :
    chunks n (l ++ m) = chunks n l ++ chunks n (leftover n l ++ m) ∧
      leftover n (l ++ m) = leftover n (leftover n l ++ m) := by
  induction h : l.length using Nat.strongRecOn generalizing l with
  | ind k ih =>
    by_cases hlt : l.length < n
    · rw [(chunks_short hlt).1, (chunks_short hlt).2]
      exact ⟨rfl, rfl⟩
    · have htake : (l.take n).length = n := by
        rw [List.length_take]
        omega
      have hdrop : (l.drop n).length = k - n := by
        rw [List.length_drop, h]
      obtain ⟨hchunks, hleft⟩ := ih (k - n) (by omega) (l.drop n) hdrop
      obtain ⟨hfirst, hfirstLeft⟩ := chunks_cons hn htake (l.drop n)
      obtain ⟨hall, hallLeft⟩ := chunks_cons hn htake (l.drop n ++ m)
      rw [List.take_append_drop] at hfirst hfirstLeft
      rw [← List.append_assoc, List.take_append_drop] at hall hallLeft
      rw [hall, hallLeft, hfirst, hfirstLeft, hchunks, hleft]
      exact ⟨rfl, rfl⟩

/-- A stream that starts with so many chunks. -/
theorem chunks_flatten (hn : 0 < n) {ls : List (List α)} (hls : ∀ l ∈ ls, l.length = n) {m : List α}
    (hm : m.length < n) :
    chunks n (ls.flatten ++ m) = ls ∧ leftover n (ls.flatten ++ m) = m := by
  induction ls with
  | nil => exact chunks_short hm
  | cons l ls ih =>
    obtain ⟨hchunks, hleft⟩ := ih fun l' hl' => hls l' (List.mem_cons_of_mem l hl')
    obtain ⟨hfirst, hfirstLeft⟩ := chunks_cons hn (hls l (List.mem_cons_self ..)) (ls.flatten ++ m)
    rw [List.flatten_cons, List.append_assoc, hfirst, hfirstLeft, hchunks, hleft]
    exact ⟨rfl, rfl⟩

end Apple2ix.Chunks
