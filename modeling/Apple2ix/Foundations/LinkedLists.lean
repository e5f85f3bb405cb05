import Mathlib.Data.List.Basic
import Mathlib.Data.List.Induction
import Mathlib.Data.List.Nodup
import Mathlib.Logic.Function.Basic

/-! Linked lists in a heap. `Linked next p xs r` says that the pointers lead from `p` through the
cells `xs`, in this order, to `r`; with `r = none` the list ends in NULL. A doubly linked list is
two such chains, the one of the back pointers over the reversed list. -/
namespace Apple2ix.LinkedLists
set_option autoImplicit false

universe u
variable {α : Type u} {next : α → Option α} {p r : Option α} {xs ys : List α} {a b : α}

/-- From `p` the pointers `next` visit the cells `xs` and then reach `r`. -/
def Linked (next : α → Option α) (p : Option α) (xs : List α) (r : Option α) : Prop :=
  match xs with
  | [] => p = r
  | x :: xs => p = some x ∧ Linked next (next x) xs r

@[simp] theorem linked_nil : Linked next p [] r ↔ p = r := Iff.rfl

@[simp] theorem linked_cons :
    Linked next p (a :: xs) r ↔ p = some a ∧ Linked next (next a) xs r := Iff.rfl

theorem linked_append :
    Linked next p (xs ++ ys) r ↔ ∃ q, Linked next p xs q ∧ Linked next q ys r := by
  induction xs generalizing p with
  | nil => simp
  | cons x xs ih => simp [ih, and_assoc]

/-- A chain starts at its first cell. -/
theorem Linked.start (h : Linked next p xs none) : p = xs.head? := by
  cases xs with
  | nil => exact h
  | cons x xs => exact h.1

theorem Linked.congr {next' : α → Option α} (h : Linked next p xs r)
    (hnext : ∀ x ∈ xs, next' x = next x) : Linked next' p xs r := by
  induction xs generalizing p with
  | nil => exact h
  | cons x xs ih =>
    obtain ⟨hp, hrest⟩ := h
    refine ⟨hp, ?_⟩
    rw [hnext x (List.mem_cons_self ..)]
    exact ih hrest fun y hy => hnext y (List.mem_cons_of_mem x hy)

theorem Linked.next_eq (h : Linked next p (xs ++ a :: ys) none) : next a = ys.head? := by
  obtain ⟨q, -, -, hys⟩ := linked_append.mp h
  exact hys.start

variable [DecidableEq α]

/-- Writing the pointer of a cell outside of the chain. -/
theorem Linked.update (h : Linked next p xs r) (hb : b ∉ xs) (q : Option α) :
    Linked (Function.update next b q) p xs r := by
  apply h.congr
  intro x hx
  have hne : x ≠ b := fun he => hb (he ▸ hx)
  exact Function.update_of_ne hne q next

/-- Writing the pointer of the last cell moves the end of the chain. -/
theorem Linked.retarget (h : Linked next p (xs ++ [b]) r) (hb : b ∉ xs) (q : Option α) :
    Linked (Function.update next b q) p (xs ++ [b]) q := by
  obtain ⟨c, hxs, hc, -⟩ := linked_append.mp h
  refine linked_append.mpr ⟨c, hxs.update hb q, hc, ?_⟩
  exact Function.update_self b q next

/-- A cell is taken out of the chain: the pointer that led to it, of the cell before it or the
start of the chain, then leads to what comes after it. -/
theorem Linked.detach (h : Linked next p (xs ++ a :: ys) r) (hnodup : (xs ++ a :: ys).Nodup) :
    Linked (xs.getLast?.elim next fun b => Function.update next b (next a))
      (xs.getLast?.elim (next a) fun _ => p) (xs ++ ys) r := by
  cases xs using List.reverseRecOn with
  | nil => exact h.2
  | append_singleton xs b =>
    rw [List.getLast?_concat]
    obtain ⟨q, hxs, -, hys⟩ := linked_append.mp h
    rw [List.nodup_append, List.nodup_append] at hnodup
    obtain ⟨⟨-, -, hxb⟩, -, hby⟩ := hnodup
    have hb : b ∉ xs := fun hmem => hxb b hmem b (List.mem_singleton_self b) rfl
    have hbys : b ∉ ys := fun hmem =>
      hby b (List.mem_append_right xs (List.mem_singleton_self b)) b
        (List.mem_cons_of_mem a hmem) rfl
    exact linked_append.mpr ⟨next a, hxs.retarget hb _, hys.update hbys _⟩

end Apple2ix.LinkedLists
