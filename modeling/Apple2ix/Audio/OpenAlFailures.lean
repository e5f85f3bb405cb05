import Mathlib.Algebra.Ring.Int.Defs
import Mathlib.Algebra.Order.Group.Nat
import Mathlib.Algebra.Order.BigOperators.Group.List
import Apple2ix.Audio.OpenAl
import Apple2ix.Audio.PlayQueueCalls

/-! The entry points of soundcore-openal.c when OpenAL fails: every call is answered by what it
gives or by the code that `alGetError` then returns. -/
namespace Apple2ix.OpenAl.Failing
open Runs Audio Outcomes
set_option autoImplicit false

/-! ## OpenAL -/

/-- A code of `alGetError` other than `AL_NO_ERROR`. -/
structure AlError where
  code : ℤ
  ne_zero : code ≠ 0

inductive AlCall
  | buffersProcessed
  | unqueueBuffers
  | byteOffset
  | bufferData
  | queueBuffers
  | sourceState
  | sourcePlay
  deriving DecidableEq, Repr

/-- What each call is answered; `unqueueBuffers i` is for the pass `i` of the loop. -/
structure Answers where
  buffersProcessed : Except AlError ℤ
  unqueueBuffers : ℕ → Except AlError UInt32
  byteOffset : Except AlError ℤ
  bufferData : Except AlError Unit
  queueBuffers : Except AlError Unit
  sourceState : Except AlError SourceState
  sourcePlay : Except AlError Unit

/-- The value that is returned, the voice, and the calls that failed, in order. -/
structure Outcome where
  err : ℤ
  voice : ALVoice
  errors : List (AlCall × AlError)

/-! ## The entry points -/

/-- The loop of `_ALProcessPlayBuffers`, from pass `i` on. Its `err` is overwritten behind it. -/
def dequeue (fuel : ℕ) (unqueueBuffers : ℕ → Except AlError UInt32) :
    ℕ → ℕ → ALVoice → Except Fault (ALVoice × List (AlCall × AlError))
  | 0, _, voice => .ok (voice, [])
  | processed + 1, i, voice =>
    match unqueueBuffers i with
    | .error e => .ok (voice, [(.unqueueBuffers, e)])
    | .ok bufid => do
      let (playNode, err) ← ofPlayq (playqGet fuel voice.playq ⟨bufid, 0, none⟩)
      if err ≠ 0 then dequeue fuel unqueueBuffers processed (i + 1) voice
      else do
        let voice ← playqRemoveNode fuel voice playNode
        dequeue fuel unqueueBuffers processed (i + 1) voice

/-- `_ALProcessPlayBuffers`, with `bytes_queued`. -/
def alProcessPlayBuffers (fuel : ℕ) (voice : ALVoice) (answers : Answers) :
    Except Fault (ℕ × Outcome) :=
  match answers.buffersProcessed with
  | .error e => .ok (0, ⟨e.code, voice, [(.buffersProcessed, e)]⟩)
  | .ok processed => do
    let (voice, errors) ← dequeue fuel answers.unqueueBuffers processed.toNat 0 voice
    match answers.byteOffset with
    | .error e => .ok (0, ⟨e.code, voice, errors ++ [(.byteOffset, e)]⟩)
    | .ok playOffset => do
      assert (0 ≤ playOffset)
      let q := voice.queuedTotalBytes - playOffset
      .ok (if 0 ≤ q then q.toNat else 0, ⟨0, voice, errors⟩)

/-- `ALGetPosition`, with `bytes_queued`. The `err` that the block declares hides the one that is
returned. -/
def alGetPosition (fuel : ℕ) (voice : ALVoice) (answers : Answers) :
    Except Fault (ℕ × Outcome) := do
  let (queued, r) ← alProcessPlayBuffers fuel voice answers
  .ok (if r.err ≠ 0 then 0 else queued + r.voice.index, { r with err := 0 })

/-- `ALLockBuffer`, with `audio_ptr` and `audio_bytes`. -/
def alLockBuffer (fuel : ℕ) (voice : ALVoice) (writeBytes : ℕ) (answers : Answers) :
    Except Fault (Option ℕ × ℕ × Outcome) := do
  let writeBytes := if writeBytes = 0 then voice.buffersize else writeBytes
  let (bytesQueued, r) ← alProcessPlayBuffers fuel voice answers
  if r.err ≠ 0 then .ok (none, 0, r)
  else
    -- a buffer underrun
    let voice := if bytesQueued = 0 ∧ r.voice.index = 0 then r.voice.quiet else r.voice
    let remaining := voice.buffersize - voice.index
    let writeBytes := if remaining < writeBytes then remaining else writeBytes
    .ok (some voice.index, writeBytes, { r with voice := voice })

/-- `_ALSubmitBufferToOpenAL`. -/
def alSubmitBufferToOpenAL (fuel : ℕ) (voice : ALVoice) (answers : Answers) :
    Except Fault Outcome := do
  let (playq, playNode, err) := playqEnqueue voice.playq ⟨0, Int32.ofNat voice.index, some 0⟩
  if err ≠ 0 then .ok ⟨err, voice, []⟩
  else do
    let voice := { voice with
      playq := playq
      queuedTotalBytes := voice.queuedTotalBytes + voice.index
      index := 0 }
    assert (0 < voice.queuedTotalBytes)
    match answers.bufferData with
    | .error e => do
      let voice ← playqRemoveNode fuel voice playNode
      .ok ⟨e.code, voice, [(.bufferData, e)]⟩
    | .ok () =>
      match answers.queueBuffers with
      | .error e => do
        let voice ← playqRemoveNode fuel voice playNode
        .ok ⟨e.code, voice, [(.queueBuffers, e)]⟩
      | .ok () =>
        match answers.sourceState with
        | .error e => .ok ⟨e.code, voice, [(.sourceState, e)]⟩
        | .ok state =>
          if state ≠ .playing ∧ state ≠ .paused then
            match answers.sourcePlay with
            | .error e => .ok ⟨e.code, voice, [(.sourcePlay, e)]⟩
            | .ok () => .ok ⟨0, voice, []⟩
          else .ok ⟨0, voice, []⟩

/-- `ALUnlockBuffer`. -/
def alUnlockBuffer (fuel : ℕ) (voice : ALVoice) (audioBytes : ℕ) (answers : Answers) :
    Except Fault Outcome := do
  let (bytesQueued, r) ← alProcessPlayBuffers fuel voice answers
  if r.err ≠ 0 then .ok r
  else do
    let voice := { r.voice with index := r.voice.index + audioBytes }
    assert (voice.index < voice.buffersize || voice.index = voice.buffersize)
    -- keep accumulating data into the working buffer
    if voice.buffersize / 4 ≤ bytesQueued then .ok { r with voice := voice }
    else if !playqCanEnqueue voice.playq then .ok { r with voice := voice }
    else do
      let s ← alSubmitBufferToOpenAL fuel voice answers
      .ok { s with errors := r.errors ++ s.errors }

inductive Call
  | getPosition
  | lockBuffer (writeBytes : ℕ)
  | unlockBuffer (audioBytes : ℕ)
  deriving DecidableEq, Repr

def Call.run (fuel : ℕ) (voice : ALVoice) (answers : Answers) : Call → Except Fault Outcome
  | getPosition => do
    let (_, r) ← alGetPosition fuel voice answers
    .ok r
  | lockBuffer writeBytes => do
    let (_, _, r) ← alLockBuffer fuel voice writeBytes answers
    .ok r
  | unlockBuffer audioBytes => alUnlockBuffer fuel voice audioBytes answers

/-- The bytes that a call adds to the working buffer. -/
def Call.committed : Call → ℕ
  | unlockBuffer audioBytes => audioBytes
  | _ => 0

/-! ## Without failures -/

/-- What a source answers that plays on to these states while it is asked. -/
def answersOf (source : Source) (polls : Polls) (playback : Playback) : Answers where
  buffersProcessed := .ok polls.first.processed
  unqueueBuffers := fun i => .ok (source.attached.getD i 0)
  byteOffset := .ok polls.second.offset
  bufferData := .ok ()
  queueBuffers := .ok ()
  sourceState := .ok playback.state
  sourcePlay := .ok ()

section Faultless
variable {fuel : ℕ} {dev dev' : Device} {polls : Polls} {playback : Playback}

/-- The two loops take the same nodes out. -/
theorem dequeue_unqueue {processed i : ℕ} {unqueueBuffers : ℕ → Except AlError UInt32}
    (hanswers : ∀ k, unqueueBuffers (i + k) = .ok (dev.source.attached.getD k 0))
    (h : unqueueProcessed fuel processed dev = .ok dev') :
    dequeue fuel unqueueBuffers processed i dev.voice = .ok (dev'.voice, []) := by
  induction processed generalizing i dev with
  | zero =>
    cases h
    rfl
  | succ processed ih =>
    rw [unqueueProcessed] at h
    obtain ⟨one, hone, hrest⟩ := bind_eq_ok.mp h
    rw [OpenAl.unqueue, Source.alSourceUnqueueBuffers] at hone
    cases hattached : dev.source.attached with
    | nil =>
      rw [hattached] at hone
      cases hone
    | cons bufid attached =>
      rw [hattached] at hone
      have hfirst := hanswers 0
      rw [hattached, Nat.add_zero] at hfirst
      change unqueueBuffers i = .ok bufid at hfirst
      have hnext : ∀ k, unqueueBuffers (i + 1 + k) = .ok (attached.getD k 0) := by
        intro k
        rw [Nat.add_assoc, hanswers, hattached, Nat.add_comm 1 k]
        rfl
      obtain ⟨_, htaken, hone⟩ := bind_eq_ok.mp hone
      cases htaken
      obtain ⟨⟨playNode, err⟩, hget, hnode⟩ := bind_eq_ok.mp hone
      dsimp only at hnode
      unfold dequeue
      simp only [hfirst, hget, ok_bind]
      by_cases herr : err ≠ 0
      · rw [if_pos herr] at hnode ⊢
        cases hnode
        have hall := ih (by exact hnext) hrest
        exact hall
      · rw [if_neg herr] at hnode ⊢
        obtain ⟨voice, hremove, hvoice⟩ := bind_eq_ok.mp hnode
        cases hvoice
        rw [hremove, ok_bind]
        have hall := ih (by exact hnext) hrest
        exact hall

/-- Where no call fails, the voice is the one of the source that gives the answers. -/
theorem alProcessPlayBuffers_source {bytesQueued : ℕ}
    (h : OpenAl.alProcessPlayBuffers fuel dev polls = .ok (bytesQueued, dev')) :
    alProcessPlayBuffers fuel dev.voice (answersOf dev.source polls playback) =
      .ok (bytesQueued, ⟨0, dev'.voice, []⟩) := by
  rw [OpenAl.alProcessPlayBuffers] at h
  obtain ⟨first, hfirst, h⟩ := bind_eq_ok.mp h
  obtain ⟨one, hone, h⟩ := bind_eq_ok.mp h
  obtain ⟨second, hsecond, h⟩ := bind_eq_ok.mp h
  rw [Source.play] at hfirst hsecond
  split at hfirst
  · cases hfirst
    split at hsecond
    · cases hsecond
      cases h
      have hloop := @dequeue_unqueue fuel _ one polls.first.processed 0
        (answersOf dev.source polls playback).unqueueBuffers
        (fun k => by rw [Nat.zero_add]; rfl) hone
      have hoffset : (0 : ℤ) ≤ polls.second.offset := Int.natCast_nonneg _
      rw [alProcessPlayBuffers]
      simp only [answersOf, Int.toNat_natCast] at hloop ⊢
      rw [hloop, ok_bind, decide_eq_true hoffset]
      rfl
    · cases hsecond
  · cases hfirst

theorem alGetPosition_source {bytesQueued : ℕ}
    (h : OpenAl.alGetPosition fuel dev polls = .ok (bytesQueued, dev')) :
    alGetPosition fuel dev.voice (answersOf dev.source polls playback) =
      .ok (bytesQueued, ⟨0, dev'.voice, []⟩) := by
  rw [OpenAl.alGetPosition] at h
  obtain ⟨⟨queued, one⟩, hone, h⟩ := bind_eq_ok.mp h
  cases h
  rw [alGetPosition, alProcessPlayBuffers_source hone]
  rfl

theorem alLockBuffer_source {writeBytes audioPtr audioBytes : ℕ}
    (h : OpenAl.alLockBuffer fuel dev writeBytes polls = .ok (audioPtr, audioBytes, dev')) :
    alLockBuffer fuel dev.voice writeBytes (answersOf dev.source polls playback) =
      .ok (some audioPtr, audioBytes, ⟨0, dev'.voice, []⟩) := by
  rw [OpenAl.alLockBuffer] at h
  obtain ⟨⟨queued, one⟩, hone, h⟩ := bind_eq_ok.mp h
  cases h
  rw [alLockBuffer, alProcessPlayBuffers_source hone]
  rfl

/-- A submission that OpenAL takes. -/
theorem alSubmitBufferToOpenAL_source (fuel : ℕ) (source : Source) (polls : Polls)
    (h : OpenAl.alSubmitBufferToOpenAL dev playback = .ok dev') :
    ∃ err, alSubmitBufferToOpenAL fuel dev.voice (answersOf source polls playback) =
      .ok ⟨err, dev'.voice, []⟩ := by
  rw [OpenAl.alSubmitBufferToOpenAL] at h
  rw [alSubmitBufferToOpenAL]
  generalize playqEnqueue dev.voice.playq ⟨0, Int32.ofNat dev.voice.index, some 0⟩ = r at h ⊢
  obtain ⟨playq, playNode, err⟩ := r
  dsimp only at h ⊢
  by_cases herr : err ≠ 0
  · rw [if_pos herr] at h ⊢
    cases h
    exact ⟨err, rfl⟩
  · rw [if_neg herr] at h ⊢
    obtain ⟨_, hassert, h⟩ := bind_eq_ok.mp h
    obtain ⟨filled, hdata, h⟩ := bind_eq_ok.mp h
    obtain ⟨played, hplay, h⟩ := bind_eq_ok.mp h
    rw [Source.play] at hplay
    split at hplay
    · cases hplay
      rw [hassert, ok_bind]
      simp only [answersOf]
      refine ⟨0, ?_⟩
      split at h
      · rename_i hstopped
        cases h
        exact if_pos hstopped
      · rename_i hgoes
        cases h
        exact if_neg hgoes
    · cases hplay

theorem alUnlockBuffer_source {audioBytes : ℕ}
    (h : OpenAl.alUnlockBuffer fuel dev audioBytes polls playback = .ok dev') :
    ∃ err, alUnlockBuffer fuel dev.voice audioBytes (answersOf dev.source polls playback) =
      .ok ⟨err, dev'.voice, []⟩ := by
  rw [OpenAl.alUnlockBuffer] at h
  obtain ⟨⟨queued, one⟩, hone, h⟩ := bind_eq_ok.mp h
  obtain ⟨_, hassert, h⟩ := bind_eq_ok.mp h
  rw [alUnlockBuffer, alProcessPlayBuffers_source hone, ok_bind]
  dsimp only at h hassert ⊢
  rw [if_neg (not_not_intro rfl), hassert, ok_bind]
  split at h
  · rename_i hquarter
    cases h
    exact ⟨0, if_pos hquarter⟩
  · rename_i hquarter
    rw [if_neg hquarter]
    split at h
    · rename_i hfull
      cases h
      exact ⟨0, if_pos hfull⟩
    · rename_i hfull
      obtain ⟨err, hsubmit⟩ := alSubmitBufferToOpenAL_source fuel dev.source polls h
      rw [if_neg hfull, hsubmit]
      exact ⟨err, rfl⟩

end Faultless

/-! ## What should hold -/

/-- A voice whose play queue is `q`: its total is the sum of the sizes of the nodes. -/
structure VoiceOk (nodeIds : List UInt32) (q : Queue) (voice : ALVoice) : Prop where
  playq : voice.playq.Holds nodeIds q
  sizes : ∀ node ∈ q.queued, 0 ≤ node.numBytes.toInt
  total : voice.queuedTotalBytes = (q.queued.map fun node => node.numBytes.toInt).sum
  fits : voice.buffersize < 2 ^ 31

/-- Errors are reported, and leave the voice intact. -/
structure Intact (nodeIds : List UInt32) (voice : ALVoice) (call : Call) (r : Outcome) : Prop where
  reported : r.err ≠ 0 ↔ r.errors ≠ []
  counted : ∃ q, VoiceOk nodeIds q r.voice
  kept : (∃ failed ∈ r.errors, failed.1 = .bufferData ∨ failed.1 = .queueBuffers) →
    r.voice.working = window voice.data 0 (voice.index + call.committed)

/-! ## The play queue -/

/-- What a call leaves as it was. -/
structure SameBuffer (voice voice' : ALVoice) : Prop where
  data : voice'.data = voice.data
  index : voice'.index = voice.index
  buffersize : voice'.buffersize = voice.buffersize

theorem SameBuffer.trans {voice voice' voice'' : ALVoice} (h : SameBuffer voice voice')
    (h' : SameBuffer voice' voice'') : SameBuffer voice voice'' :=
  ⟨h'.data.trans h.data, h'.index.trans h.index, h'.buffersize.trans h.buffersize⟩

/-- Without the node of an identity the sum is less by its size. -/
theorem sum_without {nodes : List PlayNode} (hnodup : (nodes.map PlayNode.nodeId).Nodup)
    {node : PlayNode} (hmem : node ∈ nodes) :
    ((nodes.filter fun m => m.nodeId ≠ node.nodeId).map fun m => m.numBytes.toInt).sum =
      (nodes.map fun m => m.numBytes.toInt).sum - node.numBytes.toInt := by
  induction nodes with
  | nil => cases hmem
  | cons m nodes ih =>
    rw [List.map_cons, List.nodup_cons] at hnodup
    rw [List.map_cons, List.sum_cons]
    rcases List.mem_cons.mp hmem with rfl | hmem
    · have hrest : (node :: nodes).filter (fun m => m.nodeId ≠ node.nodeId) = nodes := by
        rw [List.filter_cons_of_neg (by simp), List.filter_eq_self]
        intro m hm
        exact decide_eq_true fun heq => hnodup.1 (heq ▸ List.mem_map_of_mem hm)
      rw [hrest]
      omega
    · have hne : m.nodeId ≠ node.nodeId := fun heq => hnodup.1 (heq ▸ List.mem_map_of_mem hmem)
      rw [List.filter_cons, if_pos (decide_eq_true hne), List.map_cons, List.sum_cons,
        ih hnodup.2 hmem]
      omega

section Queue
variable {nodeIds : List UInt32} {fuel : ℕ} {q : Queue} {voice : ALVoice}

theorem VoiceOk.nodup (h : VoiceOk nodeIds q voice) (hids : nodeIds.Nodup) :
    (q.queued.map PlayNode.nodeId).Nodup :=
  (List.nodup_append.mp (h.playq.nodup hids)).1

theorem VoiceOk.total_nonneg (h : VoiceOk nodeIds q voice) : 0 ≤ voice.queuedTotalBytes := by
  rw [h.total]
  apply List.sum_nonneg
  intro x hx
  obtain ⟨node, hnode, rfl⟩ := List.mem_map.mp hx
  exact h.sizes node hnode

/-- A node can be enqueued when not all identities are in use. -/
theorem VoiceOk.canEnqueue (h : VoiceOk nodeIds q voice) :
    playqCanEnqueue voice.playq = decide (q.queued.length < nodeIds.length) := by
  have hlength := h.playq.perm.length_eq
  rw [List.length_append, List.length_map] at hlength
  rw [h.playq.canEnqueue, decide_eq_decide, ← List.length_pos_iff]
  omega

/-- `_playq_removeNode` of a node that is queued. -/
theorem VoiceOk.remove (h : VoiceOk nodeIds q voice) (hids : nodeIds.Nodup)
    (hfuel : nodeIds.length < fuel) {asked node : PlayNode} (hasked : asked.nodeId = node.nodeId)
    (hfind : q.queued.find? (fun n => n.nodeId = node.nodeId) = some node) :
    ∃ voice', playqRemoveNode fuel voice asked = .ok voice' ∧
      VoiceOk nodeIds ⟨q.queued.filter fun m => m.nodeId ≠ node.nodeId, node.nodeId :: q.avail⟩
        voice' ∧ SameBuffer voice voice' := by
  have hmem := List.mem_of_find?_eq_some hfind
  have hsum := sum_without (h.nodup hids) hmem
  obtain ⟨list', hcall, hholds⟩ := h.playq.call hids hfuel (.remove asked)
  simp only [Queue.call, hasked, hfind, Audio.call] at hcall hholds
  obtain ⟨⟨list₁, found, err⟩, hremove, hreply⟩ := bind_eq_ok.mp hcall
  simp only [Except.ok.injEq, Prod.mk.injEq, Reply.code.injEq, Option.some.injEq] at hreply
  obtain ⟨rfl, rfl, rfl⟩ := hreply
  have hafter : VoiceOk nodeIds
      ⟨q.queued.filter fun m => m.nodeId ≠ found.nodeId, found.nodeId :: q.avail⟩
      { voice with
        playq := list₁, queuedTotalBytes := voice.queuedTotalBytes - found.numBytes.toInt } := by
    refine ⟨hholds, fun m hm => h.sizes m (List.mem_of_mem_filter hm), ?_, h.fits⟩
    show voice.queuedTotalBytes - _ = _
    rw [h.total, hsum]
  refine ⟨_, ?_, hafter, rfl, rfl, rfl⟩
  have hnonneg : 0 ≤ voice.queuedTotalBytes - found.numBytes.toInt := hafter.total_nonneg
  rw [playqRemoveNode, hremove]
  simp only [ofPlayq, ok_bind, assert, decide_true, if_true, decide_eq_true hnonneg]

end Queue

/-! ## What the polls come to -/

/-- The identities that the loop gets, and the error that ends it. -/
def unqueued (unqueueBuffers : ℕ → Except AlError UInt32) : ℕ → ℕ → List UInt32 × Option AlError
  | 0, _ => ([], none)
  | processed + 1, i =>
    match unqueueBuffers i with
    | .error e => ([], some e)
    | .ok bufid =>
      let (bufids, error) := unqueued unqueueBuffers processed (i + 1)
      (bufid :: bufids, error)

namespace Answers

def unqueued (answers : Answers) : List UInt32 × Option AlError :=
  match answers.buffersProcessed with
  | .error _ => ([], none)
  | .ok processed => Failing.unqueued answers.unqueueBuffers processed.toNat 0

/-- The code that `_ALProcessPlayBuffers` returns. -/
def pollErr (answers : Answers) : ℤ :=
  match answers.buffersProcessed with
  | .error e => e.code
  | .ok _ =>
    match answers.byteOffset with
    | .error e => e.code
    | .ok _ => 0

/-- The calls of it that fail. -/
def pollErrors (answers : Answers) : List (AlCall × AlError) :=
  match answers.buffersProcessed with
  | .error e => [(.buffersProcessed, e)]
  | .ok _ =>
    answers.unqueued.2.toList.map (fun e => (.unqueueBuffers, e)) ++
      match answers.byteOffset with
      | .error e => [(.byteOffset, e)]
      | .ok _ => []

/-- A buffer could not be unqueued, and the question after it went well. -/
def Hides (answers : Answers) : Prop :=
  answers.unqueued.2.isSome = true ∧ ∃ playOffset, answers.byteOffset = .ok playOffset

/-- A call of `_ALSubmitBufferToOpenAL` before the data reach the source fails. -/
def Refuses (answers : Answers) : Prop :=
  (∃ e, answers.bufferData = .error e) ∨ ∃ e, answers.queueBuffers = .error e

/-- A call of `_ALSubmitBufferToOpenAL` fails. -/
def SubmitFails (answers : Answers) : Prop :=
  answers.Refuses ∨ (∃ e, answers.sourceState = .error e) ∨
    ∃ state, answers.sourceState = .ok state ∧ state ≠ .playing ∧ state ≠ .paused ∧
      ∃ e, answers.sourcePlay = .error e

/-- The nodes that stay in the queue. -/
def left (answers : Answers) (q : Queue) : List PlayNode :=
  q.queued.filter fun node => node.nodeId ∉ answers.unqueued.1

/-- The bytes that are still to be played. -/
def queuedBytes (answers : Answers) (q : Queue) : ℕ :=
  match answers.byteOffset with
  | .error _ => 0
  | .ok playOffset =>
    (((answers.left q).map fun node => node.numBytes.toInt).sum - playOffset).toNat

/-- `ALUnlockBuffer` goes on to submit the working buffer. -/
def Submits (answers : Answers) (nodeIds : List UInt32) (q : Queue) (buffersize : ℕ) : Prop :=
  answers.pollErr = 0 ∧ answers.queuedBytes q < buffersize / 4 ∧
    (answers.left q).length < nodeIds.length

end Answers

section Polls
variable {nodeIds : List UInt32} (hids : nodeIds.Nodup) {fuel : ℕ}
  (hfuel : nodeIds.length < fuel)
include hids hfuel

/-- The loop takes the nodes out that it can. -/
theorem dequeue_ok (unqueueBuffers : ℕ → Except AlError UInt32) (processed i : ℕ) {q : Queue}
    {voice : ALVoice} (h : VoiceOk nodeIds q voice) :
    ∃ voice' q', dequeue fuel unqueueBuffers processed i voice = .ok (voice',
        (unqueued unqueueBuffers processed i).2.toList.map fun e => (.unqueueBuffers, e)) ∧
      VoiceOk nodeIds q' voice' ∧ SameBuffer voice voice' ∧
      q'.queued =
        q.queued.filter fun node => node.nodeId ∉ (unqueued unqueueBuffers processed i).1 := by
  induction processed generalizing i q voice with
  | zero =>
    refine ⟨voice, q, rfl, h, ⟨rfl, rfl, rfl⟩, ?_⟩
    simp [unqueued]
  | succ processed ih =>
    cases hanswer : unqueueBuffers i with
    | error e =>
      refine ⟨voice, q, ?_, h, ⟨rfl, rfl, rfl⟩, ?_⟩
      · simp [dequeue, unqueued, hanswer]
      · simp [unqueued, hanswer]
    | ok bufid =>
      have hnext : unqueued unqueueBuffers (processed + 1) i =
          (bufid :: (unqueued unqueueBuffers processed (i + 1)).1,
            (unqueued unqueueBuffers processed (i + 1)).2) := by
        simp only [unqueued, hanswer]
      obtain ⟨list', hcall, -⟩ := h.playq.call hids hfuel (.get ⟨bufid, 0, none⟩)
      simp only [Queue.call, Audio.call] at hcall
      obtain ⟨⟨found, err⟩, hget, hreply⟩ := bind_eq_ok.mp hcall
      rw [hnext]
      unfold dequeue
      simp only [hanswer, hget, ofPlayq, ok_bind]
      cases hfind : q.queued.find? fun n => n.nodeId = bufid with
      | none =>
        simp only [hfind, Except.ok.injEq, Prod.mk.injEq, Reply.code.injEq,
          Option.some.injEq] at hreply
        obtain ⟨-, rfl, rfl⟩ := hreply
        obtain ⟨voice', q', hrest, hok, hsame, hqueued⟩ := ih (i + 1) h
        refine ⟨voice', q', hrest, hok, hsame, ?_⟩
        rw [hqueued]
        refine List.filter_congr fun node hnode => ?_
        have hne : node.nodeId ≠ bufid := by
          have hnone := List.find?_eq_none.mp hfind node hnode
          simpa using hnone
        simp [hne]
      | some node =>
        simp only [hfind, Except.ok.injEq, Prod.mk.injEq, Reply.code.injEq,
          Option.some.injEq] at hreply
        obtain ⟨-, rfl, rfl⟩ := hreply
        have hid : found.nodeId = bufid := by simpa using List.find?_some hfind
        obtain ⟨voice₁, hremove, hok₁, hsame₁⟩ := h.remove hids hfuel
          (rfl : found.nodeId = found.nodeId) (by rw [hid]; exact hfind)
        obtain ⟨voice', q', hrest, hok, hsame, hqueued⟩ := ih (i + 1) hok₁
        simp only [ne_eq, not_true_eq_false, if_false, hremove, ok_bind]
        refine ⟨voice', q', hrest, hok, hsame₁.trans hsame, ?_⟩
        rw [hqueued, List.filter_filter]
        refine List.filter_congr fun m _ => ?_
        simp only [hid, List.mem_cons, not_or, Bool.decide_and, Bool.and_comm]

abbrev Asserts (fault : Fault) : Prop := fault = .assertion

/-- What the polling helper leaves. -/
structure Polled (answers : Answers) (nodeIds : List UInt32) (q : Queue) (voice : ALVoice)
    (bytesQueued : ℕ) (r : Outcome) : Prop where
  err : r.err = answers.pollErr
  errors : r.errors = answers.pollErrors
  queue : ∃ q', VoiceOk nodeIds q' r.voice ∧ q'.queued = answers.left q
  same : SameBuffer voice r.voice
  bytesQueued : r.err = 0 → bytesQueued = answers.queuedBytes q

omit hids hfuel in
theorem assert_yields (condition : Bool) :
    Yields Asserts (assert condition) fun _ => condition = true := by
  cases condition with
  | true => exact Yields.ok rfl
  | false => exact Yields.error rfl

/-- **`_ALProcessPlayBuffers`.** -/
theorem alProcessPlayBuffers_yields {q : Queue} {voice : ALVoice} (h : VoiceOk nodeIds q voice)
    (answers : Answers) : Yields Asserts (alProcessPlayBuffers fuel voice answers)
      fun (bytesQueued, r) => Polled answers nodeIds q voice bytesQueued r := by
  unfold alProcessPlayBuffers
  cases hprocessed : answers.buffersProcessed with
  | error e =>
    refine Yields.ok ⟨?_, ?_, ⟨q, h, ?_⟩, ⟨rfl, rfl, rfl⟩, fun hzero => absurd hzero e.ne_zero⟩
    · simp only [Answers.pollErr, hprocessed]
    · simp only [Answers.pollErrors, hprocessed]
    · simp [Answers.left, Answers.unqueued, hprocessed]
  | ok processed =>
    have hunqueued : answers.unqueued = unqueued answers.unqueueBuffers processed.toNat 0 := by
      simp only [Answers.unqueued, hprocessed]
    obtain ⟨voice', q', hdequeue, hok, hsame, hqueued⟩ :=
      dequeue_ok hids hfuel answers.unqueueBuffers processed.toNat 0 h
    rw [← hunqueued] at hdequeue hqueued
    simp only [hdequeue, ok_bind]
    cases hoffset : answers.byteOffset with
    | error e =>
      refine Yields.ok ⟨?_, ?_, ⟨q', hok, hqueued⟩, hsame, fun hzero => absurd hzero e.ne_zero⟩
      · simp only [Answers.pollErr, hprocessed, hoffset]
      · simp only [Answers.pollErrors, hprocessed, hoffset]
    | ok playOffset =>
      refine (assert_yields _).bind fun _ _ => Yields.ok ⟨?_, ?_, ⟨q', hok, hqueued⟩, hsame, ?_⟩
      · simp only [Answers.pollErr, hprocessed, hoffset]
      · simp only [Answers.pollErrors, hprocessed, hoffset, List.append_nil]
      · intro _
        have htotal := hok.total
        simp only [Answers.queuedBytes, hoffset, Answers.left, ← hqueued, ← htotal]
        split_ifs <;> omega

end Polls

/-! ## Submission -/

section Submit
variable {nodeIds : List UInt32} (hids : nodeIds.Nodup) {fuel : ℕ}
  (hfuel : nodeIds.length < fuel) {q : Queue} {voice : ALVoice} (h : VoiceOk nodeIds q voice)
  (answers : Answers)

/-- What a submission leaves: its error is the one of the call that failed, and the working buffer
is empty whatever happened. -/
structure Submitted (nodeIds : List UInt32) (voice : ALVoice) (answers : Answers) (r : Outcome) :
    Prop where
  reported : r.err ≠ 0 ↔ answers.SubmitFails
  errors : r.errors ≠ [] ↔ answers.SubmitFails
  refused : (∃ failed ∈ r.errors, failed.1 = .bufferData ∨ failed.1 = .queueBuffers) ↔
    answers.Refuses
  queue : ∃ q', VoiceOk nodeIds q' r.voice
  index : r.voice.index = 0

/-- One of the two calls before the data reach the source has failed. -/
theorem submitted_refused {voice' : ALVoice} {q' : Queue} {call : AlCall} {e : AlError}
    (hkind : call = .bufferData ∨ call = .queueBuffers) (hrefuses : answers.Refuses)
    (hok : VoiceOk nodeIds q' voice') (hindex : voice'.index = 0) :
    Submitted nodeIds voice answers ⟨e.code, voice', [(call, e)]⟩ where
  reported := iff_of_true e.ne_zero (Or.inl hrefuses)
  errors := iff_of_true (List.cons_ne_nil _ _) (Or.inl hrefuses)
  refused := iff_of_true ⟨_, List.mem_singleton_self _, hkind⟩ hrefuses
  queue := ⟨q', hok⟩
  index := hindex

/-- One of the calls after them has failed. -/
theorem submitted_late {voice' : ALVoice} {q' : Queue} {call : AlCall} {e : AlError}
    (hkind : ¬ (call = .bufferData ∨ call = .queueBuffers)) (haccepts : ¬ answers.Refuses)
    (hfails : answers.SubmitFails) (hok : VoiceOk nodeIds q' voice') (hindex : voice'.index = 0) :
    Submitted nodeIds voice answers ⟨e.code, voice', [(call, e)]⟩ where
  reported := iff_of_true e.ne_zero hfails
  errors := iff_of_true (List.cons_ne_nil _ _) hfails
  refused := by
    refine iff_of_false ?_ haccepts
    rintro ⟨failed, hmem, hfailed⟩
    rw [List.mem_singleton.mp hmem] at hfailed
    exact hkind hfailed
  queue := ⟨q', hok⟩
  index := hindex

/-- No call has failed. -/
theorem submitted_all {voice' : ALVoice} {q' : Queue} (hgoes : ¬ answers.SubmitFails)
    (hok : VoiceOk nodeIds q' voice') (hindex : voice'.index = 0) :
    Submitted nodeIds voice answers ⟨0, voice', []⟩ where
  reported := iff_of_false (not_not_intro rfl) hgoes
  errors := iff_of_false (not_not_intro rfl) hgoes
  refused := by
    refine iff_of_false ?_ fun hrefuses => hgoes (Or.inl hrefuses)
    rintro ⟨failed, hmem, -⟩
    cases hmem
  queue := ⟨q', hok⟩
  index := hindex

/-- What the source is asked after it has got the buffer. -/
theorem submitted_source {voice' : ALVoice} {q' : Queue} (haccepts : ¬ answers.Refuses)
    (hok : VoiceOk nodeIds q' voice') (hindex : voice'.index = 0) :
    Yields Asserts
      (match answers.sourceState with
        | .error e => .ok ⟨e.code, voice', [(.sourceState, e)]⟩
        | .ok state =>
          if state ≠ .playing ∧ state ≠ .paused then
            match answers.sourcePlay with
            | .error e => .ok ⟨e.code, voice', [(.sourcePlay, e)]⟩
            | .ok () => .ok ⟨0, voice', []⟩
          else .ok ⟨0, voice', []⟩ : Except Fault Outcome)
      fun r => Submitted nodeIds voice answers r := by
  cases hstate : answers.sourceState with
  | error e =>
    exact Yields.ok
      (submitted_late answers (by simp) haccepts (Or.inr (Or.inl ⟨e, hstate⟩)) hok hindex)
  | ok state =>
    by_cases hstopped : state ≠ .playing ∧ state ≠ .paused
    · simp only [if_pos hstopped]
      cases hplay : answers.sourcePlay with
      | error e =>
        have hfails : answers.SubmitFails :=
          Or.inr (Or.inr ⟨state, hstate, hstopped.1, hstopped.2, e, hplay⟩)
        exact Yields.ok (submitted_late answers (by simp) haccepts hfails hok hindex)
      | ok _ =>
        have hgoes : ¬ answers.SubmitFails := by
          simp [Answers.SubmitFails, haccepts, hstate, hplay]
        exact Yields.ok (submitted_all answers hgoes hok hindex)
    · simp only [if_neg hstopped]
      have hgoes : ¬ answers.SubmitFails := by
        simp only [Answers.SubmitFails, haccepts, hstate, false_or, reduceCtorEq, exists_false,
          Except.ok.injEq]
        rintro ⟨state', rfl, hplaying, hpaused, -⟩
        exact hstopped ⟨hplaying, hpaused⟩
      exact Yields.ok (submitted_all answers hgoes hok hindex)

include hids hfuel h

/-- The working buffer gets a node, which can be taken back. -/
theorem submit_enqueue (hfree : playqCanEnqueue voice.playq = true)
    (hle : voice.index ≤ voice.buffersize) :
    ∃ playq node, playqEnqueue voice.playq ⟨0, Int32.ofNat voice.index, some 0⟩ = (playq, node, 0) ∧
      (∃ q', VoiceOk nodeIds q' { voice with
        playq := playq
        queuedTotalBytes := voice.queuedTotalBytes + voice.index
        index := 0 }) ∧
      ∃ restored q', playqRemoveNode fuel { voice with
          playq := playq
          queuedTotalBytes := voice.queuedTotalBytes + voice.index
          index := 0 } node = .ok restored ∧ VoiceOk nodeIds q' restored ∧ restored.index = 0 := by
  obtain ⟨nodes, avail⟩ := q
  rw [h.playq.canEnqueue, decide_eq_true_eq] at hfree
  cases avail with
  | nil => exact absurd rfl hfree
  | cons bufid avail =>
    obtain ⟨playq, henqueue, hplayq⟩ := h.playq.enqueue ⟨0, Int32.ofNat voice.index, some 0⟩
    have hsize : (Int32.ofNat voice.index).toInt = voice.index :=
      Int32.toInt_ofNat_of_lt (Nat.lt_of_le_of_lt hle h.fits)
    let node : PlayNode := ⟨bufid, Int32.ofNat voice.index, some 0⟩
    have hqueued : VoiceOk nodeIds ⟨nodes ++ [node], avail⟩ { voice with
        playq := playq
        queuedTotalBytes := voice.queuedTotalBytes + voice.index
        index := 0 } := by
      refine ⟨hplayq, ?_, ?_, h.fits⟩
      · intro m hm
        rcases List.mem_append.mp hm with hm | hm
        · exact h.sizes m hm
        · obtain rfl := List.mem_singleton.mp hm
          show 0 ≤ (Int32.ofNat voice.index).toInt
          omega
      · rw [List.map_append, List.sum_append, ← h.total, List.map_singleton, List.sum_singleton]
        show voice.queuedTotalBytes + voice.index = _ + (Int32.ofNat voice.index).toInt
        rw [hsize]
    -- no other node has the identity
    have hfresh : (nodes.find? fun n => n.nodeId = bufid) = none := by
      refine List.find?_eq_none.mpr fun n hn => ?_
      have hne : n.nodeId ≠ bufid := (List.nodup_append.mp (h.playq.nodup hids)).2.2 _
        (List.mem_map_of_mem hn) _ (List.mem_cons_self ..)
      simpa using hne
    have hfind : (nodes ++ [node]).find? (fun n => n.nodeId = node.nodeId) = some node := by
      rw [List.find?_append, hfresh]
      simp
    obtain ⟨restored, hremove, hrestored, hsame⟩ :=
      hqueued.remove hids hfuel (rfl : node.nodeId = node.nodeId) hfind
    exact ⟨playq, node, henqueue, ⟨_, hqueued⟩, restored, _, hremove, hrestored, hsame.index⟩

/-- **`_ALSubmitBufferToOpenAL`.** -/
theorem alSubmitBufferToOpenAL_yields (hfree : playqCanEnqueue voice.playq = true)
    (hle : voice.index ≤ voice.buffersize) :
    Yields Asserts (alSubmitBufferToOpenAL fuel voice answers) fun r =>
      Submitted nodeIds voice answers r := by
  obtain ⟨playq, node, henqueue, ⟨q', hqueued⟩, restored, q'', hremove, hrestored, hindex⟩ :=
    submit_enqueue hids hfuel h hfree hle
  unfold alSubmitBufferToOpenAL
  simp only [henqueue, ne_eq, not_true_eq_false, if_false]
  refine (assert_yields _).bind fun _ _ => ?_
  cases hdata : answers.bufferData with
  | error e =>
    simp only [hremove, ok_bind]
    exact Yields.ok (submitted_refused answers (Or.inl rfl) (Or.inl ⟨e, hdata⟩) hrestored hindex)
  | ok _ =>
    cases hqueue : answers.queueBuffers with
    | error e =>
      simp only [hremove, ok_bind]
      exact Yields.ok (submitted_refused answers (Or.inr rfl) (Or.inr ⟨e, hqueue⟩) hrestored hindex)
    | ok _ =>
      have haccepts : ¬ answers.Refuses := by
        rintro (⟨e, he⟩ | ⟨e, he⟩)
        · rw [hdata] at he
          cases he
        · rw [hqueue] at he
          cases he
      exact submitted_source answers haccepts hqueued rfl

end Submit

/-! ## The calls -/

section Answers
variable (answers : Answers)

theorem AlError.code_ne (e : AlError) : e.code ≠ 0 := e.ne_zero

theorem pollErrors_iff :
    answers.pollErrors ≠ [] ↔ answers.pollErr ≠ 0 ∨ answers.unqueued.2.isSome = true := by
  cases hprocessed : answers.buffersProcessed with
  | error e =>
    simp only [Answers.pollErrors, Answers.pollErr, hprocessed]
    exact iff_of_true (List.cons_ne_nil _ _) (Or.inl e.code_ne)
  | ok processed =>
    simp only [Answers.pollErrors, Answers.pollErr, hprocessed]
    cases hoffset : answers.byteOffset with
    | error e => exact iff_of_true (by simp) (Or.inl e.code_ne)
    | ok playOffset => cases answers.unqueued.2 <;> simp

theorem hides_iff :
    answers.Hides ↔ answers.pollErr = 0 ∧ answers.unqueued.2.isSome = true := by
  unfold Answers.Hides Answers.pollErr
  cases hprocessed : answers.buffersProcessed with
  | error e => simp [Answers.unqueued, hprocessed, e.code_ne]
  | ok processed =>
    cases hoffset : answers.byteOffset with
    | error e => simp [e.code_ne]
    | ok playOffset => simp

/-- The polls fail at other calls than a submission. -/
theorem pollErrors_kind : ¬ ∃ failed ∈ answers.pollErrors,
    failed.1 = .bufferData ∨ failed.1 = .queueBuffers := by
  rintro ⟨failed, hmem, hkind⟩
  cases hprocessed : answers.buffersProcessed with
  | error e =>
    simp only [Answers.pollErrors, hprocessed, List.mem_singleton] at hmem
    subst hmem
    simp at hkind
  | ok processed =>
    simp only [Answers.pollErrors, hprocessed, List.mem_append, List.mem_map] at hmem
    obtain ⟨e, -, rfl⟩ | hmem := hmem
    · simp at hkind
    · cases hoffset : answers.byteOffset with
      | error e =>
        simp only [hoffset, List.mem_singleton] at hmem
        subst hmem
        simp at hkind
      | ok playOffset =>
        simp only [hoffset] at hmem
        cases hmem

/-- What is reported when the polls are all that was done. -/
theorem polled_reported {r : Outcome} (herr : r.err = answers.pollErr)
    (herrors : r.errors = answers.pollErrors) :
    (r.err ≠ 0 ↔ r.errors ≠ []) ↔ ¬ answers.Hides := by
  rw [herr, herrors, pollErrors_iff, hides_iff]
  tauto

end Answers

/-- When a call reports its errors and keeps what it could not submit. -/
def Call.Sound (nodeIds : List UInt32) (q : Queue) (voice : ALVoice) (answers : Answers) :
    Call → Prop
  | getPosition => answers.pollErr = 0 ∧ answers.unqueued.2 = none
  | lockBuffer _ => ¬ answers.Hides
  | unlockBuffer audioBytes =>
    (answers.Hides → answers.Submits nodeIds q voice.buffersize ∧ answers.SubmitFails) ∧
      (answers.Submits nodeIds q voice.buffersize ∧ answers.Refuses → voice.index + audioBytes = 0)

section Calls
variable {nodeIds : List UInt32} (hids : nodeIds.Nodup) {fuel : ℕ}
  (hfuel : nodeIds.length < fuel) {q : Queue} {voice : ALVoice} (h : VoiceOk nodeIds q voice)
  (answers : Answers)
include hids hfuel h

/-- It returns 0 whatever happened. -/
theorem getPosition_yields : Yields Asserts (Call.getPosition.run fuel voice answers) fun r =>
    Intact nodeIds voice .getPosition r ↔ Call.getPosition.Sound nodeIds q voice answers := by
  unfold Call.run alGetPosition
  refine ((alProcessPlayBuffers_yields hids hfuel h answers).bind fun x hpolled => ?_).bind
    (P := fun x : ℕ × Outcome => x.2.err = 0 ∧ x.2.errors = answers.pollErrors ∧
      ∃ q', VoiceOk nodeIds q' x.2.voice) fun x hx => Yields.ok ?_
  · obtain ⟨-, herrors, ⟨q', hok, -⟩, -, -⟩ := hpolled
    exact Yields.ok ⟨rfl, herrors, q', hok⟩
  · obtain ⟨herr, herrors, hcounted⟩ := hx
    have hfails := pollErrors_iff answers
    constructor
    · intro hintact
      have hreported := hintact.reported
      rw [herr, herrors, hfails] at hreported
      have hnone := not_or.mp (hreported.not.mp fun hne => hne rfl)
      exact ⟨not_not.mp hnone.1, Option.not_isSome_iff_eq_none.mp hnone.2⟩
    · rintro ⟨hzero, hnone⟩
      refine ⟨?_, hcounted, ?_⟩
      · rw [herr, herrors, hfails, hnone]
        simp [hzero]
      · rw [herrors]
        exact fun hkind => absurd hkind (pollErrors_kind answers)

theorem lockBuffer_yields (writeBytes : ℕ) :
    Yields Asserts ((Call.lockBuffer writeBytes).run fuel voice answers) fun r =>
      Intact nodeIds voice (.lockBuffer writeBytes) r ↔
        (Call.lockBuffer writeBytes).Sound nodeIds q voice answers := by
  unfold Call.run alLockBuffer
  refine ((alProcessPlayBuffers_yields hids hfuel h answers).bind fun x hpolled => ?_).bind
    (P := fun x : Option ℕ × ℕ × Outcome => x.2.2.err = answers.pollErr ∧
      x.2.2.errors = answers.pollErrors ∧ ∃ q', VoiceOk nodeIds q' x.2.2.voice) fun x hx =>
        Yields.ok ?_
  · obtain ⟨bytesQueued, r⟩ := x
    obtain ⟨herr, herrors, ⟨q', hok, -⟩, -, -⟩ := hpolled
    by_cases hfails : r.err ≠ 0
    · simp only [if_pos hfails]
      exact Yields.ok ⟨herr, herrors, q', hok⟩
    · simp only [if_neg hfails]
      refine Yields.ok ⟨herr, herrors, q', ?_⟩
      dsimp only
      split_ifs
      · exact ⟨hok.playq, hok.sizes, hok.total, hok.fits⟩
      · exact hok
  · obtain ⟨herr, herrors, hcounted⟩ := hx
    have hreported := polled_reported answers herr herrors
    constructor
    · exact fun hintact => hreported.mp hintact.reported
    · intro hsound
      refine ⟨hreported.mpr hsound, hcounted, ?_⟩
      rw [herrors]
      exact fun hkind => absurd hkind (pollErrors_kind answers)

omit hids hfuel h in
/-- The working buffer is empty after a submission, so it kept what it had only if that was
nothing. -/
theorem submitted_kept (voice : ALVoice) {voice' : ALVoice} (hindex : voice'.index = 0) (n : ℕ) :
    voice'.working = window voice.data 0 n ↔ n = 0 := by
  rw [ALVoice.working, hindex]
  constructor
  · intro heq
    have hlength := congrArg List.length heq
    rw [window_length, window_length] at hlength
    exact hlength.symm
  · rintro rfl
    rfl

theorem unlockBuffer_yields (audioBytes : ℕ) :
    Yields Asserts ((Call.unlockBuffer audioBytes).run fuel voice answers) fun r =>
      Intact nodeIds voice (.unlockBuffer audioBytes) r ↔
        (Call.unlockBuffer audioBytes).Sound nodeIds q voice answers := by
  unfold Call.run alUnlockBuffer
  refine (alProcessPlayBuffers_yields hids hfuel h answers).bind fun x hpolled => ?_
  obtain ⟨bytesQueued, r⟩ := x
  obtain ⟨herr, herrors, ⟨q', hok, hleft⟩, hsame, hbytes⟩ := hpolled
  dsimp only
  -- all the ways that end before a submission
  have hstays : ∀ r' : Outcome, r'.err = answers.pollErr → r'.errors = answers.pollErrors →
      (∃ q'', VoiceOk nodeIds q'' r'.voice) → ¬ answers.Submits nodeIds q voice.buffersize →
      (Intact nodeIds voice (.unlockBuffer audioBytes) r' ↔
        (Call.unlockBuffer audioBytes).Sound nodeIds q voice answers) := by
    intro r' herr' herrors' hcounted hstop
    have hreported := polled_reported answers herr' herrors'
    constructor
    · intro hintact
      have hshown := hreported.mp hintact.reported
      exact ⟨fun hhides => absurd hhides hshown, fun hsubmits => absurd hsubmits.1 hstop⟩
    · rintro ⟨hhides, -⟩
      refine ⟨hreported.mpr fun hh => hstop (hhides hh).1, hcounted, ?_⟩
      rw [herrors']
      exact fun hkind => absurd hkind (pollErrors_kind answers)
  by_cases hfails : r.err ≠ 0
  · rw [if_pos hfails]
    exact Yields.ok (hstays r herr herrors ⟨q', hok⟩ fun hsubmits => hfails (herr.trans hsubmits.1))
  · have hzero : r.err = 0 := not_not.mp hfails
    have hpoll : answers.pollErr = 0 := herr.symm.trans hzero
    rw [if_neg hfails]
    refine (assert_yields _).bind fun _ hassert => ?_
    have hcommitted : VoiceOk nodeIds q'
        { r.voice with index := r.voice.index + audioBytes } :=
          ⟨hok.playq, hok.sizes, hok.total, hok.fits⟩
    have hbuffersize := hsame.buffersize
    by_cases hquarter : r.voice.buffersize / 4 ≤ bytesQueued
    · rw [if_pos hquarter]
      refine Yields.ok (hstays _ herr herrors ⟨q', hcommitted⟩ fun hsubmits => ?_)
      have hless := hsubmits.2.1
      rw [← hbytes hzero, ← hbuffersize] at hless
      omega
    rw [if_neg hquarter]
    have hfree := hok.canEnqueue
    rw [hleft] at hfree
    by_cases hroom : (answers.left q).length < nodeIds.length
    · rw [decide_eq_true hroom] at hfree
      have hsubmits : answers.Submits nodeIds q voice.buffersize := by
        refine ⟨hpoll, ?_, hroom⟩
        rw [← hbytes hzero, ← hbuffersize]
        omega
      simp only [hfree, Bool.not_true, Bool.false_eq_true, if_false]
      have hle : r.voice.index + audioBytes ≤ r.voice.buffersize := by
        simp only [Bool.or_eq_true, decide_eq_true_eq] at hassert
        omega
      refine (alSubmitBufferToOpenAL_yields hids hfuel hcommitted answers hfree hle).bind
        fun s hs => Yields.ok ?_
      obtain ⟨hreported, hserrors, hrefused, hqueue, hindex⟩ := hs
      have hhides := hides_iff answers
      have hpolled := pollErrors_iff answers
      have herrors' : r.errors ++ s.errors ≠ [] ↔ answers.Hides ∨ answers.SubmitFails := by
        rw [ne_eq, List.append_eq_nil_iff, not_and_or, herrors, ← ne_eq, ← ne_eq, hpolled, hserrors,
          hhides]
        simp [hpoll]
      have hkind : (∃ failed ∈ r.errors ++ s.errors, failed.1 = .bufferData ∨
          failed.1 = .queueBuffers) ↔ answers.Refuses := by
        rw [← hrefused]
        have hnone := pollErrors_kind answers
        rw [← herrors] at hnone
        simp only [List.mem_append, or_and_right, exists_or]
        exact or_iff_right hnone
      have hkept := submitted_kept voice hindex (voice.index + audioBytes)
      constructor
      · intro hintact
        have hshown := hintact.reported
        rw [hreported, herrors'] at hshown
        refine ⟨fun hh => ⟨hsubmits, hshown.mpr (Or.inl hh)⟩, fun hrefuses => ?_⟩
        exact hkept.mp (hintact.kept (hkind.mpr hrefuses.2))
      · rintro ⟨hhidden, hempty⟩
        refine ⟨?_, hqueue, fun hlost => ?_⟩
        · rw [hreported, herrors']
          exact ⟨Or.inr, fun hor => hor.elim (fun hh => (hhidden hh).2) id⟩
        · exact hkept.mpr (hempty ⟨hsubmits, hkind.mp hlost⟩)
    · rw [decide_eq_false hroom] at hfree
      simp only [hfree, Bool.not_false, if_true]
      exact Yields.ok (hstays _ herr herrors ⟨q', hcommitted⟩ fun hsubmits => hroom hsubmits.2.2)

end Calls

/-- **OpenAL errors.** A call stops at an assertion of its own, or its errors are reported and leave
the voice intact exactly when the call is sound. -/
theorem openal_errors {nodeIds : List UInt32} (hids : nodeIds.Nodup) {fuel : ℕ}
    (hfuel : nodeIds.length < fuel) {q : Queue} {voice : ALVoice} (h : VoiceOk nodeIds q voice)
    (answers : Answers) (call : Call) :
    Yields Asserts (call.run fuel voice answers) fun r =>
      Intact nodeIds voice call r ↔ call.Sound nodeIds q voice answers := by
  cases call with
  | getPosition => exact getPosition_yields hids hfuel h answers
  | lockBuffer writeBytes => exact lockBuffer_yields hids hfuel h answers writeBytes
  | unlockBuffer audioBytes => exact unlockBuffer_yields hids hfuel h answers audioBytes

/-- A voice as it is created, with the four buffers of OPENAL_NUM_BUFFERS. -/
def freshVoice : ALVoice := ⟨createNodes .empty 0 [1, 2, 3, 4], 0, zeros, 0, 1024⟩

theorem freshVoice_ok : VoiceOk [1, 2, 3, 4] ⟨[], [4, 3, 2, 1]⟩ freshVoice := by
  obtain ⟨hok, hcontents⟩ := playqCreatePlayQueue_ok
    (rfl : playqCreatePlayQueue [1, 2, 3, 4] = .ok _)
  exact ⟨⟨_, _, hok, hcontents⟩, nofun, rfl, by decide⟩

/-- OpenAL with nothing wrong, and nothing played. -/
def idleAnswers : Answers :=
  ⟨.ok 0, fun _ => .ok 0, .ok 0, .ok (), .ok (), .ok .stopped, .ok ()⟩

/-- A commit of a quarter of the buffer, that is submitted. -/
theorem openal_errors_idle :
    Yields Asserts ((Call.unlockBuffer 256).run 5 freshVoice idleAnswers) fun r =>
      Intact [1, 2, 3, 4] freshVoice (.unlockBuffer 256) r ↔
        (Call.unlockBuffer 256).Sound [1, 2, 3, 4] ⟨[], [4, 3, 2, 1]⟩ freshVoice idleAnswers :=
  openal_errors (by decide) (by decide) freshVoice_ok idleAnswers (.unlockBuffer 256)

/-- AL_INVALID_OPERATION. -/
def alInvalidOperation : AlError := ⟨0xA004, by decide⟩

/-- ALGetPosition returns 0 although its first question failed. -/
theorem openal_error_hidden : ¬ ∀ (nodeIds : List UInt32), nodeIds.Nodup →
    ∀ fuel, nodeIds.length < fuel →
    ∀ q voice, VoiceOk nodeIds q voice → ∀ answers call,
      Yields Asserts (Call.run fuel voice answers call) fun r => Intact nodeIds voice call r := by
  intro hall
  have hintact : Intact [1, 2, 3, 4] freshVoice .getPosition
      ⟨0, freshVoice, [(.buffersProcessed, alInvalidOperation)]⟩ :=
    hall [1, 2, 3, 4] (by decide) 5 (by decide) _ freshVoice freshVoice_ok
      { idleAnswers with buffersProcessed := .error alInvalidOperation } .getPosition
  exact hintact.reported.mpr (List.cons_ne_nil _ _) rfl

end Apple2ix.OpenAl.Failing
