import Apple2ix.Audio.PlayQueueInvariant

/-! Each call of the play queue does to the list of nodes what it does to the queue that the list
stands for; a run then gives the replies of the queue. -/
namespace Apple2ix.Audio
open LinkedLists Runs
set_option autoImplicit false

section Calls
variable {nodeIds : List UInt32} {list : PQList} {queued avail pre post : List ℕ} {a fuel : ℕ}

/-! ## Enqueue -/

theorem playqEnqueue_none (node : PlayNode) (h : list.availNodes = none) :
    playqEnqueue list node = (list, node, -1) := by
  simp [playqEnqueue, h]

/-- The pointers and the node after a node of the pool was put into the queue. -/
def PQList.attach (list : PQList) (a : ℕ) (node : PlayNode) : PQList where
  next := Function.update list.next a list.queuedNodes
  prev := list.queuedNodes.elim (Function.update list.prev a none) fun q =>
    Function.update (Function.update list.prev a none) q (some a)
  node := Function.update list.node a { node with nodeId := (list.node a).nodeId }
  availNodes := list.next a
  queuedNodes := some a
  queuedHead := list.queuedNodes.elim (some a) fun _ => list.queuedHead

theorem playqEnqueue_some (node : PlayNode) (h : list.availNodes = some a) :
    playqEnqueue list node =
      (list.attach a node, { node with nodeId := (list.node a).nodeId }, 0) := by
  cases hq : list.queuedNodes <;>
    simp [playqEnqueue, PQList.attach, PQList.setNode, PQList.setNext, PQList.setPrev, h, hq]

theorem ListOk.attach (h : ListOk nodeIds list queued (a :: avail)) (node : PlayNode) :
    ListOk nodeIds (list.attach a node) (a :: queued) avail ∧
      (list.attach a node).contents (a :: queued) avail =
        ⟨queued.reverse.map list.node ++ [{ node with nodeId := (list.node a).nodeId }],
          avail.map fun b => (list.node b).nodeId⟩ := by
  obtain ⟨hnodup, hpool, hdisj⟩ := List.nodup_append.mp h.nodup
  have hqueued : a ∉ queued := fun ha => hdisj a ha a (List.mem_cons_self ..) rfl
  have havail : a ∉ avail := (List.nodup_cons.mp hpool).1
  have hnode : ∀ b, ((list.attach a node).node b).nodeId = (list.node b).nodeId := by
    intro b
    by_cases hb : b = a
    · subst hb
      simp [PQList.attach]
    · simp [PQList.attach, Function.update_of_ne hb]
  refine ⟨⟨?_, ?_, ?_, ?_, ?_⟩, ?_⟩
  · refine ⟨rfl, ?_⟩
    show Linked (Function.update list.next a list.queuedNodes)
      (Function.update list.next a list.queuedNodes a) queued none
    rw [Function.update_self]
    exact h.links.update hqueued _
  · rw [List.reverse_cons]
    cases queued with
    | nil =>
      have hnone : list.queuedNodes = none := h.links
      simp [PQList.attach, hnone]
    | cons q queued =>
      have hsome : list.queuedNodes = some q := h.links.1
      have hq : q ∉ queued.reverse := by simpa using (List.nodup_cons.mp hnodup).1
      have hback : Linked list.prev list.queuedHead (queued.reverse ++ [q]) none := by
        simpa using h.back
      have haq : a ∉ queued.reverse ++ [q] := by simpa [and_comm, eq_comm] using hqueued
      have hne : a ≠ q := fun he => hqueued (he ▸ List.mem_cons_self ..)
      rw [List.reverse_cons]
      refine linked_append.mpr ⟨some a, ?_, ?_⟩
      · simpa [PQList.attach, hsome] using (hback.update haq none).retarget hq (some a)
      · simp [PQList.attach, hsome, Function.update_of_ne hne]
  · exact h.pool.2.update havail _
  · exact List.perm_middle.symm.trans h.nodes
  · intro i nodeId hi
    rw [hnode, h.ids i nodeId hi]
  · have hkept : queued.reverse.map (list.attach a node).node = queued.reverse.map list.node := by
      apply List.map_congr_left
      intro b hb
      have hne : b ≠ a := fun he => hqueued (he ▸ List.mem_reverse.mp hb)
      exact Function.update_of_ne hne _ _
    have hlast : (list.attach a node).node a = { node with nodeId := (list.node a).nodeId } :=
      Function.update_self a _ list.node
    simp only [PQList.contents, List.reverse_cons, List.map_append, hkept, hnode, List.map_cons,
      List.map_nil, hlast]

/-! ## Dequeue, remove and drain -/

/-- The oldest node, when there is one, is the last of the list. -/
theorem ListOk.head_eq (h : ListOk nodeIds list queued avail) :
    list.queuedHead = queued.getLast? := by
  rw [h.back.start, List.head?_reverse]

theorem playqDequeue_none (out : Bool) (h : ListOk nodeIds list [] avail) :
    playqDequeue list out = .ok (list, if out then some .zero else none, -1) := by
  have hhead : list.queuedHead = none := h.back
  have hnodes : list.queuedNodes = none := h.links
  simp [playqDequeue, hhead, hnodes]

theorem playqDequeue_some (out : Bool) (h : ListOk nodeIds list (pre ++ [a]) avail) :
    playqDequeue list out =
      .ok ((list.detach a).release a, if out then some (list.node a) else none, 0) := by
  have hhead : list.queuedHead = some a := by rw [h.head_eq, List.getLast?_concat]
  have hnext : list.next a = none := h.next_eq
  cases hprev : list.prev a <;>
    simp [playqDequeue, PQList.detach, PQList.setNext, hhead, hnext, hprev]

theorem iterateListAndFindNode_eq (nodeId : UInt32) {p : Option ℕ} {xs : List ℕ}
    (h : Linked list.next p xs none) (hfuel : xs.length < fuel) :
    iterateListAndFindNode list nodeId fuel p =
      .ok (xs.find? fun b => (list.node b).nodeId = nodeId) := by
  induction xs generalizing p fuel with
  | nil =>
    obtain ⟨fuel, rfl⟩ := Nat.exists_eq_succ_of_ne_zero (Nat.ne_of_gt hfuel)
    cases h
    rfl
  | cons x xs ih =>
    obtain ⟨fuel, rfl⟩ := Nat.exists_eq_succ_of_ne_zero (Nat.ne_of_gt (Nat.zero_lt_of_lt hfuel))
    obtain ⟨rfl, hrest⟩ := h
    by_cases hx : (list.node x).nodeId = nodeId
    · simp [iterateListAndFindNode, hx]
    · simp only [iterateListAndFindNode, hx, if_false, List.find?_cons, decide_false]
      exact ih hrest (by simpa using hfuel)

theorem playqRemove_some (node : PlayNode) (h : ListOk nodeIds list queued avail)
    (hfuel : queued.length < fuel)
    (hfind : (queued.find? fun b => (list.node b).nodeId = node.nodeId) = some a) :
    playqRemove fuel list node = .ok ((list.detach a).release a, list.node a, 0) := by
  rw [playqRemove, iterateListAndFindNode_eq node.nodeId h.links hfuel, hfind, ok_bind]
  -- the pointer of `a` is read again after that of the node before it was written
  have hagain : ∀ b, Function.update list.next b (list.next a) a = list.next a := by
    intro b
    by_cases hb : a = b
    · rw [hb, Function.update_self]
    · exact Function.update_of_ne hb _ _
  cases hprev : list.prev a <;> cases hnext : list.next a <;> rw [hnext] at hagain <;>
    simp [PQList.detach, PQList.setNext, PQList.setPrev, hprev, hnext, hagain]

theorem playqRemove_none (node : PlayNode) (h : ListOk nodeIds list queued avail)
    (hfuel : queued.length < fuel)
    (hfind : (queued.find? fun b => (list.node b).nodeId = node.nodeId) = none) :
    playqRemove fuel list node = .ok (list, node, -1) := by
  rw [playqRemove, iterateListAndFindNode_eq node.nodeId h.links hfuel, hfind, ok_bind]

/-- Looking for an identity along the list, and in the queue from its oldest node on. -/
theorem ListOk.find_cases (h : ListOk nodeIds list queued avail) (hids : nodeIds.Nodup)
    (nodeId : UInt32) :
    ((queued.find? fun b => (list.node b).nodeId = nodeId) = none ∧
      (queued.reverse.map list.node).find? (fun n => n.nodeId = nodeId) = none) ∨
    ∃ pre a post, queued = pre ++ a :: post ∧ (list.node a).nodeId = nodeId ∧
      (queued.find? fun b => (list.node b).nodeId = nodeId) = some a ∧
      (queued.reverse.map list.node).find? (fun n => n.nodeId = nodeId) = some (list.node a) ∧
      (queued.reverse.map list.node).filter (fun n => n.nodeId ≠ nodeId) =
        (pre ++ post).reverse.map list.node := by
  cases hfind : queued.find? fun b => (list.node b).nodeId = nodeId with
  | none =>
    left
    simpa using hfind
  | some a =>
    right
    obtain ⟨ha, pre, post, rfl, -⟩ := List.find?_eq_some_iff_append.mp hfind
    have ha : (list.node a).nodeId = nodeId := by simpa using ha
    have hqueued : (pre ++ a :: post).Nodup := (List.nodup_append.mp h.nodup).1
    have hother : ∀ b ∈ pre ++ post, (list.node b).nodeId ≠ nodeId := by
      intro b hb heq
      have hmem : b ∈ pre ++ a :: post := by
        rcases List.mem_append.mp hb with hb | hb
        · exact List.mem_append_left _ hb
        · exact List.mem_append_right _ (List.mem_cons_of_mem a hb)
      have hab := h.ids_inj hids hmem (List.mem_append_right pre (List.mem_cons_self ..))
        (heq.trans ha.symm)
      subst hab
      exact (List.nodup_cons.mp (List.nodup_middle.mp hqueued)).1 hb
    have hpre : ∀ b ∈ pre, (list.node b).nodeId ≠ nodeId := fun b hb =>
      hother b (List.mem_append_left post hb)
    have hpost : ∀ b ∈ post, (list.node b).nodeId ≠ nodeId := fun b hb =>
      hother b (List.mem_append_right pre hb)
    refine ⟨pre, a, post, rfl, ha, rfl, ?_, ?_⟩
    · have hnone : (post.reverse.map list.node).find? (fun n => n.nodeId = nodeId) = none := by
        simpa using hpost
      rw [List.reverse_append, List.reverse_cons, List.append_assoc, List.map_append,
        List.find?_append, hnone]
      simp [ha]
    · have hkeep : ∀ xs : List ℕ, (∀ b ∈ xs, (list.node b).nodeId ≠ nodeId) →
          (xs.reverse.map list.node).filter (fun n => n.nodeId ≠ nodeId) =
            xs.reverse.map list.node := by
        intro xs hxs
        rw [List.filter_eq_self]
        simpa using hxs
      rw [List.reverse_append, List.reverse_cons, List.append_assoc, List.map_append,
        List.filter_append, hkeep post hpost, List.singleton_append, List.map_cons,
        List.filter_cons_of_neg (by simp [ha]), hkeep pre hpre, List.reverse_append,
        List.map_append]

theorem playqDrain_eq (h : ListOk nodeIds list queued avail) (hfuel : queued.length < fuel) :
    ∃ list', playqDrain fuel list = .ok list' ∧
      ListOk nodeIds list' [] (queued ++ avail) ∧
      list'.contents [] (queued ++ avail) =
        ⟨[], (queued ++ avail).map fun a => (list.node a).nodeId⟩ := by
  induction queued using List.reverseRecOn generalizing list avail fuel with
  | nil =>
    obtain ⟨fuel, rfl⟩ := Nat.exists_eq_succ_of_ne_zero (Nat.ne_of_gt hfuel)
    refine ⟨list, ?_, h, rfl⟩
    rw [playqDrain, playqDequeue_none false h, ok_bind]
    rfl
  | append_singleton queued a ih =>
    obtain ⟨fuel, rfl⟩ := Nat.exists_eq_succ_of_ne_zero (Nat.ne_of_gt (Nat.zero_lt_of_lt hfuel))
    have hdetached := h.detach
    rw [List.append_nil] at hdetached
    obtain ⟨hok, -⟩ := hdetached.release
    obtain ⟨list', hdrain, hok', hcontents⟩ := ih hok (by simpa using hfuel)
    rw [List.append_cons] at hok' hcontents
    refine ⟨list', ?_, hok', ?_⟩
    · rw [playqDrain, playqDequeue_some false h, ok_bind]
      exact hdrain
    · simp only [hcontents, PQList.release_nodeId]
      rfl

/-! ## Every call -/

/-- **Each call is the call on the queue that the list stands for**: it returns, gives the same
reply, and keeps the invariant. -/
theorem call_ok (h : ListOk nodeIds list queued avail) (hids : nodeIds.Nodup)
    (hfuel : nodeIds.length < fuel) (op : Op) :
    ∃ list' queued' avail',
      call fuel list op = .ok (list', ((list.contents queued avail).call op).2) ∧
      ListOk nodeIds list' queued' avail' ∧
      list'.contents queued' avail' = ((list.contents queued avail).call op).1 := by
  have hloop : queued.length < fuel := Nat.lt_of_le_of_lt h.length_le hfuel
  cases op with
  | enqueue node =>
    cases avail with
    | nil =>
      refine ⟨list, queued, [], ?_, h, rfl⟩
      rw [call, playqEnqueue_none node h.pool]
      rfl
    | cons a avail =>
      obtain ⟨hok, hcontents⟩ := h.attach node
      refine ⟨_, _, _, ?_, hok, hcontents⟩
      rw [call, playqEnqueue_some node h.pool.1]
      rfl
  | dequeue out =>
    cases queued using List.reverseRecOn with
    | nil =>
      refine ⟨list, [], avail, ?_, h, rfl⟩
      rw [call, playqDequeue_none out h]
      rfl
    | append_singleton queued a =>
      have hdetached := h.detach
      rw [List.append_nil] at hdetached
      obtain ⟨hok, hcontents⟩ := hdetached.release
      refine ⟨_, _, _, ?_, hok, ?_⟩
      · rw [call, playqDequeue_some out h]
        simp [ok_bind, PQList.contents, Queue.call]
      · rw [hcontents]
        simp [PQList.contents, Queue.call, PQList.detach]
  | remove node =>
    rcases h.find_cases hids node.nodeId with
      ⟨hnone, hqueue⟩ | ⟨pre, a, post, rfl, ha, hfind, hqueue, hfilter⟩
    · refine ⟨list, queued, avail, ?_, h, ?_⟩
      · rw [call, playqRemove_none node h hloop hnone]
        simp only [ok_bind, PQList.contents, Queue.call, hqueue]
      · simp only [PQList.contents, Queue.call, hqueue]
    · obtain ⟨hok, hcontents⟩ := h.detach.release
      refine ⟨_, _, _, ?_, hok, ?_⟩
      · rw [call, playqRemove_some node h hloop hfind]
        simp only [ok_bind, PQList.contents, Queue.call, hqueue]
      · rw [hcontents]
        simp only [PQList.contents, Queue.call, hqueue, hfilter, PQList.detach, ha]
  | drain =>
    obtain ⟨list', hdrain, hok, hcontents⟩ := playqDrain_eq h hloop
    refine ⟨list', [], _, ?_, hok, ?_⟩
    · rw [call, hdrain]
      rfl
    · rw [hcontents]
      simp [PQList.contents, Queue.call]
  | getHead =>
    refine ⟨list, queued, avail, ?_, h, ?_⟩
    · cases queued using List.reverseRecOn with
      | nil =>
        have hhead : list.queuedHead = none := h.back
        simp [call, playqGetHead, hhead, PQList.contents, Queue.call]
      | append_singleton queued a =>
        have hhead : list.queuedHead = some a := by rw [h.head_eq, List.getLast?_concat]
        simp [call, playqGetHead, hhead, PQList.contents, Queue.call]
    · cases queued using List.reverseRecOn <;> simp [PQList.contents, Queue.call]
  | get node =>
    have hsearch := iterateListAndFindNode_eq node.nodeId h.links hloop
    rcases h.find_cases hids node.nodeId with
      ⟨hnone, hqueue⟩ | ⟨pre, a, post, rfl, ha, hfind, hqueue, hfilter⟩
    · refine ⟨list, queued, avail, ?_, h, ?_⟩
      · simp only [call, playqGet, hsearch, hnone, ok_bind, PQList.contents, Queue.call, hqueue]
      · simp only [PQList.contents, Queue.call, hqueue]
    · refine ⟨list, _, avail, ?_, h, ?_⟩
      · simp only [call, playqGet, hsearch, hfind, ok_bind, PQList.contents, Queue.call, hqueue]
      · simp only [PQList.contents, Queue.call, hqueue]
  | canEnqueue =>
    refine ⟨list, queued, avail, ?_, h, rfl⟩
    cases avail with
    | nil =>
      have hnone : list.availNodes = none := h.pool
      simp [call, playqCanEnqueue, hnone, PQList.contents, Queue.call]
    | cons a avail =>
      have hsome : list.availNodes = some a := h.pool.1
      simp [call, playqCanEnqueue, hsome, PQList.contents, Queue.call]

end Calls

/-! ## The queue that a list stands for -/

/-- The nodes of the list make up the queue `q`. -/
def PQList.Holds (nodeIds : List UInt32) (list : PQList) (q : Queue) : Prop :=
  ∃ queued avail, ListOk nodeIds list queued avail ∧ list.contents queued avail = q

section Holds
variable {nodeIds : List UInt32} {list : PQList} {fuel : ℕ} {q : Queue}
  {node : PlayNode} {nodes : List PlayNode} {nodeId : UInt32} {ids : List UInt32}

namespace PQList.Holds

/-- Every identity is in the queue or free, and only once. -/
theorem perm (h : list.Holds nodeIds q) :
    (q.queued.map PlayNode.nodeId ++ q.avail).Perm nodeIds := by
  obtain ⟨queued, avail, hok, rfl⟩ := h
  have hids : (List.range nodeIds.length).map (fun a => (list.node a).nodeId) = nodeIds := by
    apply List.ext_getElem (by simp)
    intro i _ hi
    simpa using hok.ids i _ (List.getElem?_eq_getElem hi)
  have hnodes : (queued.reverse ++ avail).Perm (List.range nodeIds.length) :=
    ((List.reverse_perm queued).append_right avail).trans hok.nodes
  have hmap := hnodes.map fun a => (list.node a).nodeId
  rw [hids, List.map_append] at hmap
  rw [PQList.contents, List.map_map]
  exact hmap

theorem nodup (h : list.Holds nodeIds q) (hids : nodeIds.Nodup) :
    (q.queued.map PlayNode.nodeId ++ q.avail).Nodup :=
  h.perm.nodup_iff.mpr hids

theorem call (h : list.Holds nodeIds q) (hids : nodeIds.Nodup) (hfuel : nodeIds.length < fuel)
    (op : Op) :
    ∃ list', Audio.call fuel list op = .ok (list', (q.call op).2) ∧
      list'.Holds nodeIds (q.call op).1 := by
  obtain ⟨queued, avail, hok, rfl⟩ := h
  obtain ⟨list', queued', avail', hcall, hok', hcontents⟩ := call_ok hok hids hfuel op
  exact ⟨list', hcall, queued', avail', hok', hcontents⟩

/-- `Get` finds the oldest node. -/
theorem get_oldest (h : list.Holds nodeIds ⟨node :: nodes, ids⟩) (hids : nodeIds.Nodup)
    (hfuel : nodeIds.length < fuel) {asked : PlayNode} (hasked : asked.nodeId = node.nodeId) :
    playqGet fuel list asked = .ok (node, 0) := by
  obtain ⟨list', hcall, -⟩ := h.call hids hfuel (.get asked)
  rw [Queue.call, hasked, List.find?_cons_of_pos (by simp), Audio.call] at hcall
  obtain ⟨⟨found, err⟩, hget, hreply⟩ := bind_eq_ok.mp hcall
  cases hreply
  exact hget

/-- `Remove` takes it out. -/
theorem remove_oldest (h : list.Holds nodeIds ⟨node :: nodes, ids⟩) (hids : nodeIds.Nodup)
    (hfuel : nodeIds.length < fuel) :
    ∃ list', playqRemove fuel list node = .ok (list', node, 0) ∧
      list'.Holds nodeIds ⟨nodes, node.nodeId :: ids⟩ := by
  have hnodup := (List.nodup_append.mp (h.nodup hids)).1
  rw [List.map_cons, List.nodup_cons] at hnodup
  have hrest : (node :: nodes).filter (fun m => m.nodeId ≠ node.nodeId) = nodes := by
    rw [List.filter_cons_of_neg (by simp), List.filter_eq_self]
    intro m hm
    have hne : m.nodeId ≠ node.nodeId := fun heq =>
      hnodup.1 (heq ▸ List.mem_map_of_mem hm)
    exact decide_eq_true hne
  obtain ⟨list', hcall, hholds⟩ := h.call hids hfuel (.remove node)
  rw [Queue.call, List.find?_cons_of_pos (by simp)] at hcall hholds
  simp only [hrest] at hholds
  rw [Audio.call] at hcall
  obtain ⟨⟨list₁, found, err⟩, hremove, hreply⟩ := bind_eq_ok.mp hcall
  cases hreply
  exact ⟨list', hremove, hholds⟩

theorem canEnqueue (h : list.Holds nodeIds q) : playqCanEnqueue list = decide (q.avail ≠ []) := by
  obtain ⟨queued, avail, hok, rfl⟩ := h
  cases avail with
  | nil =>
    have hnone : list.availNodes = none := hok.pool
    simp [playqCanEnqueue, hnone, PQList.contents]
  | cons a avail =>
    have hsome : list.availNodes = some a := hok.pool.1
    simp [playqCanEnqueue, hsome, PQList.contents]

/-- `Enqueue` takes the first free identity. -/
theorem enqueue (h : list.Holds nodeIds ⟨nodes, nodeId :: ids⟩) (node : PlayNode) :
    ∃ list', playqEnqueue list node = (list', { node with nodeId := nodeId }, 0) ∧
      list'.Holds nodeIds ⟨nodes ++ [{ node with nodeId := nodeId }], ids⟩ := by
  obtain ⟨queued, avail, hok, hcontents⟩ := h
  cases avail with
  | nil => cases hcontents
  | cons a avail =>
    simp only [PQList.contents, List.map_cons, Queue.mk.injEq, List.cons.injEq] at hcontents
    obtain ⟨rfl, rfl, rfl⟩ := hcontents
    obtain ⟨hok', hcontents'⟩ := hok.attach node
    exact ⟨_, playqEnqueue_some node hok.pool.1, a :: queued, avail, hok', hcontents'⟩

end PQList.Holds

end Holds

/-! ## Creation and runs -/

section Runs
variable {nodeIds : List UInt32} {list : PQList} {queued avail : List ℕ} {fuel : ℕ}

theorem ListOk.createStep (h : ListOk nodeIds list [] avail) (nodeId : UInt32) :
    ListOk (nodeIds ++ [nodeId]) (createStep list nodeIds.length nodeId) []
      (nodeIds.length :: avail) := by
  have hfresh : nodeIds.length ∉ avail := by
    intro hmem
    have hlt := List.mem_range.mp (h.nodes.mem_iff.mp hmem)
    exact Nat.lt_irrefl _ hlt
  refine ⟨h.links, h.back, ⟨rfl, ?_⟩, ?_, ?_⟩
  · simp only [Audio.createStep, Function.update_self]
    exact h.pool.update hfresh _
  · rw [List.length_append, List.length_singleton, List.range_succ]
    exact (List.Perm.cons _ h.nodes).trans (List.perm_append_singleton _ _).symm
  · intro i id hi
    by_cases he : i = nodeIds.length
    · subst he
      simpa [Audio.createStep] using hi
    · rw [show (Audio.createStep list nodeIds.length nodeId).node i = list.node i from
        Function.update_of_ne he _ _]
      apply h.ids i id
      have hlt := (List.getElem?_eq_some_iff.mp hi).1
      rw [List.length_append, List.length_singleton] at hlt
      rwa [List.getElem?_append_left (by omega)] at hi

theorem createNodes_ok (h : ListOk nodeIds list [] (List.range nodeIds.length).reverse)
    (ids : List UInt32) :
    ListOk (nodeIds ++ ids) (createNodes list nodeIds.length ids) []
      (List.range (nodeIds ++ ids).length).reverse := by
  induction ids generalizing nodeIds list with
  | nil => simpa [createNodes] using h
  | cons nodeId ids ih =>
    have hstep := h.createStep nodeId
    have hrange : nodeIds.length :: (List.range nodeIds.length).reverse =
        (List.range (nodeIds ++ [nodeId]).length).reverse := by
      simp [List.range_succ]
    rw [hrange] at hstep
    have hrest := ih hstep
    rw [List.length_append, List.length_singleton] at hrest
    rw [createNodes, List.append_cons]
    exact hrest

theorem playqCreatePlayQueue_ok (h : playqCreatePlayQueue nodeIds = .ok list) :
    ListOk nodeIds list [] (List.range nodeIds.length).reverse ∧
      list.contents [] (List.range nodeIds.length).reverse = Queue.create nodeIds := by
  have hempty : ListOk [] PQList.empty [] [] := ⟨rfl, rfl, rfl, List.Perm.refl _, nofun⟩
  unfold playqCreatePlayQueue at h
  split at h
  · cases h
    have hok := createNodes_ok hempty nodeIds
    refine ⟨hok, ?_⟩
    have hids : (List.range nodeIds.length).map
        (fun i => ((createNodes PQList.empty 0 nodeIds).node i).nodeId) = nodeIds := by
      apply List.ext_getElem (by simp)
      intro i _ hi
      simpa using hok.ids i _ (List.getElem?_eq_getElem hi)
    simp only [PQList.contents, Queue.create, List.reverse_nil, List.map_nil, List.map_reverse,
      hids]
  · cases h

/-- A run is the run on the queue that the list stands for. -/
theorem run_ok (h : ListOk nodeIds list queued avail) (hids : nodeIds.Nodup)
    (hfuel : nodeIds.length < fuel) (replies : List Reply) (ops : List Op) :
    ∃ list' queued' avail',
      runM (step fuel) (list, replies) ops =
        .ok (list', replies ++ ((list.contents queued avail).run ops).2) ∧
      ListOk nodeIds list' queued' avail' ∧
      list'.contents queued' avail' = ((list.contents queued avail).run ops).1 := by
  induction ops generalizing list queued avail replies with
  | nil => exact ⟨list, queued, avail, by simp [Queue.run], h, rfl⟩
  | cons op ops ih =>
    obtain ⟨list₁, queued₁, avail₁, hcall, hok, hcontents⟩ := call_ok h hids hfuel op
    obtain ⟨list₂, queued₂, avail₂, hrun, hok', hcontents'⟩ :=
      ih hok (replies ++ [((list.contents queued avail).call op).2])
    refine ⟨list₂, queued₂, avail₂, ?_, hok', ?_⟩
    · have hstep : step fuel (list, replies) op =
          .ok (list₁, replies ++ [((list.contents queued avail).call op).2]) := by
        rw [step, hcall]
        rfl
      rw [runM_cons_ok ops hstep, hrun, hcontents, List.append_assoc]
      rfl
    · rw [hcontents', hcontents]
      rfl

end Runs

/-! ## Order -/

/-- The node that a call gave back without an error. -/
def Reply.result : Reply → Option PlayNode
  | .code err node => if err = 0 then node else none
  | _ => none

/-- The nodes that a history of calls put into the queue, in order. -/
def accepted (history : List (Op × Reply)) : List PlayNode :=
  history.filterMap fun (op, reply) =>
    match op with
    | .enqueue _ => reply.result
    | _ => none

/-- The nodes that a history of calls got from `Dequeue`, in order. -/
def delivered (history : List (Op × Reply)) : List PlayNode :=
  history.filterMap fun (op, reply) =>
    match op with
    | .dequeue _ => reply.result
    | _ => none

theorem accepted_cons (x : Op × Reply) (history : List (Op × Reply)) :
    accepted (x :: history) = accepted [x] ++ accepted history :=
  List.filterMap_append (l := [x])

theorem delivered_cons (x : Op × Reply) (history : List (Op × Reply)) :
    delivered (x :: history) = delivered [x] ++ delivered history :=
  List.filterMap_append (l := [x])

theorem Queue.call_order (q : Queue) (op : Op) :
    (delivered [(op, (q.call op).2)] ++ (q.call op).1.queued).Sublist
      (q.queued ++ accepted [(op, (q.call op).2)]) := by
  cases op with
  | enqueue node => cases h : q.avail <;> simp [Queue.call, delivered, accepted, Reply.result, h]
  | dequeue out =>
    cases h : q.queued <;> cases out <;>
      simp [Queue.call, delivered, accepted, Reply.result, h]
  | remove node =>
    cases h : q.queued.find? fun n => n.nodeId = node.nodeId <;>
      simp [Queue.call, delivered, accepted, h]
  | drain => simp [Queue.call, delivered, accepted]
  | getHead => cases h : q.queued <;> simp [Queue.call, delivered, accepted, h]
  | get node =>
    cases h : q.queued.find? fun n => n.nodeId = node.nodeId <;>
      simp [Queue.call, delivered, accepted, h]
  | canEnqueue => simp [Queue.call, delivered, accepted]

/-- First in, first out: what was delivered, followed by what still waits, lies in what was
accepted in the same order. -/
theorem Queue.run_order (q : Queue) (ops : List Op) :
    (delivered (ops.zip (q.run ops).2) ++ (q.run ops).1.queued).Sublist
      (q.queued ++ accepted (ops.zip (q.run ops).2)) := by
  induction ops generalizing q with
  | nil => simp [Queue.run, delivered, accepted]
  | cons op ops ih =>
    have hcall := q.call_order op
    have hrest := ih (q.call op).1
    simp only [Queue.run, List.zip_cons_cons]
    rw [delivered_cons, accepted_cons]
    rw [List.append_assoc, ← List.append_assoc q.queued]
    refine List.Sublist.trans (hrest.append_left _) ?_
    rw [← List.append_assoc]
    exact hcall.append_right _

/-! ## The play queue -/

/-- **The play queue invariant.** After any calls on a queue made of distinct identities the two
lists are well formed and hold each node once; the replies are those of a queue in which the oldest
node comes first; a call of `Enqueue` fails exactly when the pool is empty, and `Remove` takes out
the one node with the given identity, or changes nothing. -/
theorem play_queue_invariant {nodeIds : List UInt32} {list₀ : PQList} (hids : nodeIds.Nodup)
    (hcreate : playqCreatePlayQueue nodeIds = .ok list₀) {fuel : ℕ}
    (hfuel : nodeIds.length < fuel) (ops : List Op) :
    ∃ list replies queued avail,
      run fuel list₀ ops = .ok (list, replies) ∧
      ListOk nodeIds list queued avail ∧
      (list.queuedHead = queued.getLast? ∧ (list.queuedHead = none ↔ queued = [])) ∧
      (Queue.create nodeIds).run ops = (list.contents queued avail, replies) ∧
      (delivered (ops.zip replies) ++ queued.reverse.map list.node).Sublist
        (accepted (ops.zip replies)) ∧
      (∀ node, (playqEnqueue list node).2.2 ≠ 0 ↔ avail = []) ∧
      ∀ node,
        (playqRemove fuel list node = .ok (list, node, -1) ∧
          ∀ a ∈ queued, (list.node a).nodeId ≠ node.nodeId) ∨
        ∃ pre a post list', queued = pre ++ a :: post ∧ (list.node a).nodeId = node.nodeId ∧
          playqRemove fuel list node = .ok (list', list.node a, 0) ∧
          ListOk nodeIds list' (pre ++ post) (a :: avail) ∧
          ∀ b, b ≠ a → list'.node b = list.node b := by
  obtain ⟨hok₀, hcontents₀⟩ := playqCreatePlayQueue_ok hcreate
  obtain ⟨list, queued, avail, hrun, hok, hcontents⟩ := run_ok hok₀ hids hfuel [] ops
  rw [hcontents₀] at hrun hcontents
  have hloop : queued.length < fuel := Nat.lt_of_le_of_lt hok.length_le hfuel
  refine ⟨list, _, queued, avail, hrun, hok, ⟨hok.head_eq, ?_⟩, ?_, ?_, ?_, ?_⟩
  · rw [hok.head_eq, List.getLast?_eq_none_iff]
  · rw [hcontents]
    rfl
  · have horder := (Queue.create nodeIds).run_order ops
    rw [← hcontents] at horder
    exact horder
  · intro node
    cases avail with
    | nil =>
      rw [playqEnqueue_none node hok.pool]
      simp
    | cons a avail =>
      rw [playqEnqueue_some node hok.pool.1]
      simp
  · intro node
    rcases hok.find_cases hids node.nodeId with ⟨hnone, -⟩ | ⟨pre, a, post, rfl, ha, hfind, -⟩
    · left
      exact ⟨playqRemove_none node hok hloop hnone, by simpa using hnone⟩
    · right
      refine ⟨pre, a, post, _, rfl, ha, playqRemove_some node hok hloop hfind,
        hok.detach.release.1, ?_⟩
      intro b hb
      exact Function.update_of_ne hb _ _

/-- Two nodes: the third `Enqueue` fails, and the two payloads come back in order. -/
theorem play_queue_invariant_two_nodes :
    ∃ list replies queued avail,
      run 3 (createNodes .empty 0 [42, 43])
        [.enqueue ⟨0, 1, none⟩, .enqueue ⟨0, 2, none⟩, .enqueue ⟨0, 3, none⟩, .dequeue true] =
          .ok (list, replies) ∧
      ListOk [42, 43] list queued avail ∧
      replies = [.code 0 (some ⟨43, 1, none⟩), .code 0 (some ⟨42, 2, none⟩),
        .code (-1) (some ⟨0, 3, none⟩), .code 0 (some ⟨43, 1, none⟩)] := by
  obtain ⟨list, replies, queued, avail, hrun, hok, -, hqueue, -⟩ :=
    play_queue_invariant (show [42, 43].Nodup by decide) rfl (show 2 < 3 by decide)
      [.enqueue ⟨0, 1, none⟩, .enqueue ⟨0, 2, none⟩, .enqueue ⟨0, 3, none⟩, .dequeue true]
  exact ⟨list, replies, queued, avail, hrun, hok, (congrArg Prod.snd hqueue).symm⟩

end Apple2ix.Audio
