import Mathlib.Data.Int.Basic
import Mathlib.Logic.Function.Basic
import Apple2ix.Foundations.Results
import Apple2ix.Foundations.Runs

/-! The play queue of playqueue.c: nodes that move between a pool of available ones and a doubly
linked queue. The nodes lie in a heap; `none` is the NULL pointer. -/
namespace Apple2ix.Audio
open Runs
set_option autoImplicit false

/-- Why a call does not return: a failed `assert`, or a loop that is not done after `fuel` tests
of its condition. -/
inductive Fault
  | assertion
  | unfinished
  deriving DecidableEq, Repr

/-- `PlayNode_s`. `bytes` is the address of a buffer that the queue never looks into. -/
structure PlayNode where
  nodeId : UInt32
  numBytes : Int32
  bytes : Option ℕ
  deriving DecidableEq, Repr

/-- `(PlayNode_s){ 0 }`. -/
def PlayNode.zero : PlayNode := ⟨0, 0, none⟩

/-- `PQList_s`, with the memory its pointers reach: `next`, `prev` and `node` are the fields of the
`PQListNode_s` at each address. -/
structure PQList where
  next : ℕ → Option ℕ
  prev : ℕ → Option ℕ
  node : ℕ → PlayNode
  availNodes : Option ℕ
  queuedNodes : Option ℕ
  queuedHead : Option ℕ

namespace PQList

def setNext (list : PQList) (a : ℕ) (p : Option ℕ) : PQList :=
  { list with next := Function.update list.next a p }

def setPrev (list : PQList) (a : ℕ) (p : Option ℕ) : PQList :=
  { list with prev := Function.update list.prev a p }

def setNode (list : PQList) (a : ℕ) (node : PlayNode) : PQList :=
  { list with node := Function.update list.node a node }

/-- A node that left the queue: it goes to the front of the pool and loses its payload. -/
def release (list : PQList) (a : ℕ) : PQList :=
  let list := (list.setPrev a none).setNext a list.availNodes
  let list := { list with availNodes := some a }
  list.setNode a { list.node a with numBytes := 0, bytes := none }

end PQList

/-- `_iterate_list_and_find_node`: the pointer at which the search stops. -/
def iterateListAndFindNode (list : PQList) (nodeId : UInt32) :
    ℕ → Option ℕ → Except Fault (Option ℕ)
  | 0, _ => .error .unfinished
  | _ + 1, none => .ok none
  | fuel + 1, some a =>
    if (list.node a).nodeId = nodeId then .ok (some a)
    else iterateListAndFindNode list nodeId fuel (list.next a)

/-- `playq_enqueue`: the list, the caller's node and the error code. -/
def playqEnqueue (list : PQList) (node : PlayNode) : PQList × PlayNode × ℤ :=
  match list.availNodes with
  | none => (list, node, -1)
  | some a =>
    -- detach a node from the available pool
    let list := { list with availNodes := list.next a }
    -- exchange data
    let list := list.setNode a
      { list.node a with numBytes := node.numBytes, bytes := node.bytes }
    let node := { node with nodeId := (list.node a).nodeId }
    -- enqueue node
    let list := (list.setNext a list.queuedNodes).setPrev a none
    let list :=
      match list.queuedNodes with
      | some q => list.setPrev q (some a)
      | none => list
    let list := { list with queuedNodes := some a }
    -- reset head
    let list := if list.next a = none then { list with queuedHead := some a } else list
    (list, node, 0)

/-- `playq_dequeue`. The caller may pass NULL, and then gets no node. -/
def playqDequeue (list : PQList) (out : Bool) :
    Except Fault (PQList × Option PlayNode × ℤ) :=
  match list.queuedHead with
  | some a =>
    -- detach from queued
    let list := { list with queuedHead := list.prev a }
    let list :=
      match list.queuedHead with
      | some h => list.setNext h none
      | none => { list with queuedNodes := none }
    .ok (list.release a, if out then some (list.node a) else none, 0)
  | none =>
    if list.queuedNodes = none then .ok (list, if out then some .zero else none, -1)
    else .error .assertion

/-- `playq_remove`. -/
def playqRemove (fuel : ℕ) (list : PQList) (node : PlayNode) :
    Except Fault (PQList × PlayNode × ℤ) := do
  match ← iterateListAndFindNode list node.nodeId fuel list.queuedNodes with
  | none => .ok (list, node, -1)
  | some a =>
    -- reset head
    let list :=
      if list.next a = none then { list with queuedHead := list.prev a } else list
    -- detach from the queued list
    let list :=
      match list.prev a with
      | some b =>
        let list := list.setNext b (list.next a)
        match list.next a with
        | some c => list.setPrev c (list.prev a)
        | none => list
      | none =>
        let list := { list with queuedNodes := list.next a }
        match list.next a with
        | some c => list.setPrev c none
        | none => list
    .ok (list.release a, list.node a, 0)

/-- `playq_drain`. -/
def playqDrain : ℕ → PQList → Except Fault PQList
  | 0, _ => .error .unfinished
  | fuel + 1, list => do
    let (list, _, err) ← playqDequeue list false
    if err = 0 then playqDrain fuel list else .ok list

/-- `playq_getHead`. -/
def playqGetHead (list : PQList) : PlayNode × ℤ :=
  match list.queuedHead with
  | some a => (list.node a, 0)
  | none => (.zero, -1)

/-- `playq_get`. -/
def playqGet (fuel : ℕ) (list : PQList) (node : PlayNode) : Except Fault (PlayNode × ℤ) := do
  match ← iterateListAndFindNode list node.nodeId fuel list.queuedNodes with
  | some a => .ok (list.node a, 0)
  | none => .ok (.zero, -1)

/-- `playq_canEnqueue`. -/
def playqCanEnqueue (list : PQList) : Bool := list.availNodes.isSome

/-! ## Creation -/

def maxPlayqBuffers : ℕ := 16

/-- The memory before the nodes are allocated. -/
def PQList.empty : PQList := ⟨fun _ => none, fun _ => none, fun _ => .zero, none, none, none⟩

/-- One pass of the loop in `playq_createPlayQueue`: the next node is allocated, and put at the
front of the pool. -/
def createStep (list : PQList) (i : ℕ) (nodeId : UInt32) : PQList :=
  { list with
    next := Function.update list.next i list.availNodes
    prev := Function.update list.prev i none
    node := Function.update list.node i ⟨nodeId, 0, none⟩
    availNodes := some i }

/-- The loop of `playq_createPlayQueue` from node `i` on. -/
def createNodes : PQList → ℕ → List UInt32 → PQList
  | list, _, [] => list
  | list, i, nodeId :: nodeIds => createNodes (createStep list i nodeId) (i + 1) nodeIds

/-- `playq_createPlayQueue`, when there is memory for it. -/
def playqCreatePlayQueue (nodeIds : List UInt32) : Except Fault PQList :=
  if nodeIds.length ≤ maxPlayqBuffers then .ok (createNodes .empty 0 nodeIds)
  else .error .assertion

/-! ## Calls -/

/-- A call through the function pointers of `PlayQueue_s`, with what the caller's node holds. -/
inductive Op
  | enqueue (node : PlayNode)
  | dequeue (out : Bool)
  | remove (node : PlayNode)
  | drain
  | getHead
  | get (node : PlayNode)
  | canEnqueue
  deriving DecidableEq, Repr

/-- What a call gives back: its error code with what the caller's node then holds, or a truth
value, or nothing. -/
inductive Reply
  | code (err : ℤ) (node : Option PlayNode)
  | flag (b : Bool)
  | void
  deriving DecidableEq, Repr

/-- One call. -/
def call (fuel : ℕ) (list : PQList) : Op → Except Fault (PQList × Reply)
  | .enqueue node =>
    let (list, node, err) := playqEnqueue list node
    .ok (list, .code err (some node))
  | .dequeue out => do
    let (list, node, err) ← playqDequeue list out
    .ok (list, .code err node)
  | .remove node => do
    let (list, node, err) ← playqRemove fuel list node
    .ok (list, .code err (some node))
  | .drain => do
    let list ← playqDrain fuel list
    .ok (list, .void)
  | .getHead =>
    let (node, err) := playqGetHead list
    .ok (list, .code err (some node))
  | .get node => do
    let (node, err) ← playqGet fuel list node
    .ok (list, .code err (some node))
  | .canEnqueue => .ok (list, .flag (playqCanEnqueue list))

/-- One call of a run that collects the replies. -/
def step (fuel : ℕ) (s : PQList × List Reply) (op : Op) :
    Except Fault (PQList × List Reply) := do
  let (list, reply) ← call fuel s.1 op
  .ok (list, s.2 ++ [reply])

/-- The calls `ops`, one after the other, on a queue; with their replies in order. -/
def run (fuel : ℕ) (list : PQList) (ops : List Op) : Except Fault (PQList × List Reply) :=
  runM (step fuel) (list, []) ops

/-! ## What the queue is for -/

/-- A queue with its oldest node first, and the identities that are free, in the order in which
they are used. -/
structure Queue where
  queued : List PlayNode
  avail : List UInt32
  deriving DecidableEq, Repr

namespace Queue

/-- A queue of empty nodes. The last identity given is the first one used. -/
def create (nodeIds : List UInt32) : Queue := ⟨[], nodeIds.reverse⟩

/-- What a call does to the queue, and its reply. -/
def call (q : Queue) : Op → Queue × Reply
  | .enqueue node =>
    match q.avail with
    | [] => (q, .code (-1) (some node))
    | nodeId :: avail =>
      (⟨q.queued ++ [{ node with nodeId := nodeId }], avail⟩,
        .code 0 (some { node with nodeId := nodeId }))
  | .dequeue out =>
    match q.queued with
    | [] => (q, .code (-1) (if out then some .zero else none))
    | node :: queued =>
      (⟨queued, node.nodeId :: q.avail⟩, .code 0 (if out then some node else none))
  | .remove node =>
    match q.queued.find? fun n => n.nodeId = node.nodeId with
    | none => (q, .code (-1) (some node))
    | some n =>
      (⟨q.queued.filter fun m => m.nodeId ≠ node.nodeId, node.nodeId :: q.avail⟩,
        .code 0 (some n))
  | .drain => (⟨[], (q.queued.map PlayNode.nodeId).reverse ++ q.avail⟩, .void)
  | .getHead =>
    match q.queued with
    | [] => (q, .code (-1) (some .zero))
    | node :: _ => (q, .code 0 (some node))
  | .get node =>
    match q.queued.find? fun n => n.nodeId = node.nodeId with
    | none => (q, .code (-1) (some .zero))
    | some n => (q, .code 0 (some n))
  | .canEnqueue => (q, .flag (q.avail ≠ []))

/-- The calls `ops`, one after the other, with their replies in order. -/
def run (q : Queue) : List Op → Queue × List Reply
  | [] => (q, [])
  | op :: ops =>
    let (q, reply) := q.call op
    let (q, replies) := q.run ops
    (q, reply :: replies)

end Queue

end Apple2ix.Audio
