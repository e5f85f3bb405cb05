import Mathlib.Data.List.Perm.Basic
import Apple2ix.Foundations.LinkedLists
import Apple2ix.Audio.PlayQueue

/-! What holds of a play queue after any calls, and what each call does to the queue it stands
for. -/
namespace Apple2ix.Audio
open LinkedLists
set_option autoImplicit false

/-- **The invariant of a play queue** made of the identities `nodeIds`: `queued`, the newest node
first, is a doubly linked list that `queuedHead` enters at its oldest node, `avail` a singly linked
one; together they are all nodes, each once, and every node keeps its identity. -/
structure ListOk (nodeIds : List UInt32) (list : PQList) (queued avail : List ℕ) : Prop where
  links : Linked list.next list.queuedNodes queued none
  back : Linked list.prev list.queuedHead queued.reverse none
  pool : Linked list.next list.availNodes avail none
  nodes : (queued ++ avail).Perm (List.range nodeIds.length)
  ids : ∀ i nodeId, nodeIds[i]? = some nodeId → (list.node i).nodeId = nodeId

/-- The queue that a list of nodes stands for. -/
def PQList.contents (list : PQList) (queued avail : List ℕ) : Queue :=
  ⟨queued.reverse.map list.node, avail.map fun a => (list.node a).nodeId⟩

section Invariant
variable {nodeIds : List UInt32} {list : PQList} {queued avail pre post : List ℕ} {a : ℕ}

namespace ListOk

theorem nodup (h : ListOk nodeIds list queued avail) : (queued ++ avail).Nodup :=
  h.nodes.nodup_iff.mpr List.nodup_range

theorem length_le (h : ListOk nodeIds list queued avail) : queued.length ≤ nodeIds.length := by
  have hlength := h.nodes.length_eq
  rw [List.length_append, List.length_range] at hlength
  omega

/-- Distinct nodes have distinct identities. -/
theorem ids_inj (h : ListOk nodeIds list queued avail) (hids : nodeIds.Nodup) {b : ℕ}
    (ha : a ∈ queued) (hb : b ∈ queued) (heq : (list.node a).nodeId = (list.node b).nodeId) :
    a = b := by
  have hrange : ∀ i ∈ queued, i < nodeIds.length := fun i hi =>
    List.mem_range.mp (h.nodes.mem_iff.mp (List.mem_append_left avail hi))
  have hat : ∀ i ∈ queued, nodeIds[i]? = some (list.node i).nodeId := by
    intro i hi
    have hsome := List.getElem?_eq_getElem (hrange i hi)
    rw [hsome, h.ids i _ hsome]
  apply (List.getElem?_inj (hrange a ha) hids).mp
  rw [hat a ha, hat b hb, heq]

end ListOk

/-! ## Taking a node out -/

/-- `a` is out of the queue and not yet in the pool. -/
structure Detached (nodeIds : List UInt32) (list : PQList) (a : ℕ) (queued avail : List ℕ) :
    Prop where
  links : Linked list.next list.queuedNodes queued none
  back : Linked list.prev list.queuedHead queued.reverse none
  pool : Linked list.next list.availNodes avail none
  nodes : (queued ++ a :: avail).Perm (List.range nodeIds.length)
  ids : ∀ i nodeId, nodeIds[i]? = some nodeId → (list.node i).nodeId = nodeId

/-- The pointers around the node `a` after it was taken out. -/
def PQList.detach (list : PQList) (a : ℕ) : PQList :=
  { list with
    next := (list.prev a).elim list.next fun b => Function.update list.next b (list.next a)
    prev := (list.next a).elim list.prev fun c => Function.update list.prev c (list.prev a)
    queuedNodes := (list.prev a).elim (list.next a) fun _ => list.queuedNodes
    queuedHead := (list.next a).elim (list.prev a) fun _ => list.queuedHead }

theorem ListOk.next_eq (h : ListOk nodeIds list (pre ++ a :: post) avail) :
    list.next a = post.head? := h.links.next_eq

theorem ListOk.prev_eq (h : ListOk nodeIds list (pre ++ a :: post) avail) :
    list.prev a = pre.getLast? := by
  have hback := h.back
  rw [List.reverse_append, List.reverse_cons, List.append_assoc, List.singleton_append] at hback
  rw [hback.next_eq, List.head?_reverse]

theorem ListOk.detach (h : ListOk nodeIds list (pre ++ a :: post) avail) :
    Detached nodeIds (list.detach a) a (pre ++ post) avail := by
  have hnodup := h.nodup
  have hqueued : (pre ++ a :: post).Nodup := (List.nodup_append.mp hnodup).1
  have hback := h.back
  rw [List.reverse_append, List.reverse_cons, List.append_assoc, List.singleton_append] at hback
  refine ⟨?_, ?_, ?_, ?_, h.ids⟩
  · have hlinks := h.links.detach hqueued
    rw [← h.prev_eq] at hlinks
    exact hlinks
  · have hnodup' : (post.reverse ++ a :: pre.reverse).Nodup := by
      have hreverse := List.nodup_reverse.mpr hqueued
      rwa [List.reverse_append, List.reverse_cons, List.append_assoc,
        List.singleton_append] at hreverse
    have hlinks := hback.detach hnodup'
    rw [List.getLast?_reverse, ← h.next_eq, ← List.reverse_append] at hlinks
    exact hlinks
  · show Linked ((list.prev a).elim list.next fun b => Function.update list.next b (list.next a))
      list.availNodes avail none
    cases hprev : list.prev a with
    | none => exact h.pool
    | some b =>
      apply h.pool.update
      intro hb
      have hmem : b ∈ pre ++ a :: post := by
        rw [h.prev_eq] at hprev
        exact List.mem_append_left _ (List.mem_of_getLast? hprev)
      exact (List.nodup_append.mp hnodup).2.2 b hmem b hb rfl
  · refine List.Perm.trans ?_ h.nodes
    rw [List.append_assoc, List.append_assoc]
    apply List.Perm.append_left
    exact List.perm_middle

theorem PQList.release_nodeId (b : ℕ) :
    ((list.release a).node b).nodeId = (list.node b).nodeId := by
  by_cases hb : b = a
  · subst hb
    simp [release, setNode, setPrev, setNext]
  · simp [release, setNode, setPrev, setNext, Function.update_of_ne hb]

/-- A node that goes back to the pool keeps its identity, and nothing else changes. -/
theorem Detached.release (h : Detached nodeIds list a queued avail) :
    ListOk nodeIds (list.release a) queued (a :: avail) ∧
      (list.release a).contents queued (a :: avail) =
        ⟨queued.reverse.map list.node,
          (list.node a).nodeId :: avail.map fun b => (list.node b).nodeId⟩ := by
  have hnodup : (queued ++ a :: avail).Nodup := h.nodes.nodup_iff.mpr List.nodup_range
  obtain ⟨-, hpool, hdisj⟩ := List.nodup_append.mp hnodup
  have hqueued : a ∉ queued := fun ha => hdisj a ha a (List.mem_cons_self ..) rfl
  have havail : a ∉ avail := (List.nodup_cons.mp hpool).1
  refine ⟨⟨?_, ?_, ?_, h.nodes, ?_⟩, ?_⟩
  · exact h.links.update hqueued _
  · exact h.back.update (by simpa using hqueued) _
  · refine ⟨rfl, ?_⟩
    show Linked (Function.update list.next a list.availNodes)
      (Function.update list.next a list.availNodes a) avail none
    rw [Function.update_self]
    exact h.pool.update havail _
  · intro i nodeId hi
    rw [PQList.release_nodeId, h.ids i nodeId hi]
  · have hkept : queued.reverse.map (list.release a).node = queued.reverse.map list.node := by
      apply List.map_congr_left
      intro b hb
      have hne : b ≠ a := fun he => hqueued (he ▸ List.mem_reverse.mp hb)
      exact Function.update_of_ne hne _ _
    simp only [PQList.contents, hkept, PQList.release_nodeId, List.map_cons]

end Invariant

end Apple2ix.Audio
