import Mathlib.Data.List.Perm.Basic
import Apple2ix.Foundations.Loops

/-! Loops that write down what they pass. A logged loop does what the loop does, and its log has
one entry a pass, read off the state the pass starts in. -/
namespace Apple2ix.Loops
set_option autoImplicit false

universe u v w
variable {σ : Type u} {ε : Type v} {ι : Type w}

def logged (entry : σ → ι) (body : σ → σ) (s : σ × List ι) : σ × List ι :=
  (body s.1, s.2 ++ [entry s.1])

theorem logged_iterate (entry : σ → ι) (body : σ → σ) (n : ℕ) (s : σ) (log : List ι) :
    (logged entry body)^[n] (s, log) =
      (body^[n] s, log ++ (List.range n).map fun k => entry (body^[k] s)) := by
  induction n with
  | zero => simp
  | succ n ih =>
    rw [Function.iterate_succ_apply', ih, logged, Function.iterate_succ_apply', List.range_succ,
      List.map_append, List.append_assoc]
    rfl

theorem forUp_logged (entry : σ → ι) (body : ℕ → σ → σ) (n : ℕ) (s : σ) (log : List ι) :
    forUp n (fun i => logged entry (body i)) (s, log) =
      (forUp n body s, log ++ (List.range n).map fun k => entry (forUp k body s)) := by
  induction n with
  | zero => simp
  | succ n ih =>
    rw [forUp_succ, ih, logged, forUp_succ, List.range_succ, List.map_append, List.append_assoc]
    rfl

/-- Three walks taken in turns cover what they cover one after the other. -/
theorem flatten_turns (n : ℕ) (f g h : ℕ → List ι) :
    (((List.range n).map fun k => f k ++ (g k ++ h k)).flatten).Perm
      ((List.range n).flatMap h ++ ((List.range n).flatMap g ++ (List.range n).flatMap f)) := by
  rw [← List.flatMap_def]
  have hgh := List.flatMap_append_perm (List.range n) g h
  have hfgh := List.flatMap_append_perm (List.range n) f fun k => g k ++ h k
  refine (hfgh.symm.trans (List.Perm.append_left _ hgh.symm)).trans ?_
  rw [← List.append_assoc ((List.range n).flatMap h)]
  exact List.perm_append_comm.trans (List.Perm.append_right _ List.perm_append_comm)

end Apple2ix.Loops
