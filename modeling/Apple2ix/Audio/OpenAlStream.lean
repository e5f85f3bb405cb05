import Mathlib.Algebra.Ring.Int.Defs
import Mathlib.Algebra.Order.Group.Nat
import Mathlib.Algebra.Order.BigOperators.Group.List
import Apple2ix.Audio.OpenAl
import Apple2ix.Audio.PlayQueueCalls

/-! What the voice, its play queue and the OpenAL source know of one stream, whatever the order of
the calls and however far the source has played when it is asked. -/
namespace Apple2ix.OpenAl
open Runs Audio Outcomes
set_option autoImplicit false

/-! ## The play queue and the source -/

/-- The play queue knows which buffers are attached, and how much is in each of them. -/
structure Device.Mirrors (nodeIds : List UInt32) (dev : Device) (q : Queue) : Prop where
  playq : dev.voice.playq.Holds nodeIds q
  attached : dev.source.attached = q.queued.map PlayNode.nodeId
  sizes : ∀ node ∈ q.queued,
    node.numBytes.toInt = (dev.source.buffers node.nodeId).length ∧
      (dev.source.buffers node.nodeId).length ≤ dev.voice.buffersize
  total : dev.voice.queuedTotalBytes = (q.queued.map fun node => node.numBytes.toInt).sum
  handed : dev.source.attachedBytes <:+ dev.source.handed

/-- What the source plays makes no difference to the writer. -/
structure Device.SameWriter (dev dev' : Device) : Prop where
  data : dev'.voice.data = dev.voice.data
  index : dev'.voice.index = dev.voice.index
  buffersize : dev'.voice.buffersize = dev.voice.buffersize
  handed : dev'.source.handed = dev.source.handed

abbrev Misused (fault : Fault) : Prop := fault = .misuse

section Process
variable {nodeIds : List UInt32} {fuel : ℕ} {dev dev' : Device} {q : Queue}

theorem Device.SameWriter.trans {dev'' : Device} (h : dev.SameWriter dev')
    (h' : dev'.SameWriter dev'') : dev.SameWriter dev'' :=
  ⟨h'.data.trans h.data, h'.index.trans h.index, h'.buffersize.trans h.buffersize,
    h'.handed.trans h.handed⟩

theorem assert_true {condition : Bool} (h : condition = true) : assert condition = .ok () :=
  if_pos h

theorem assert_holds {condition : Prop} [Decidable condition] (h : condition) :
    assert (decide condition) = .ok () :=
  assert_true (decide_eq_true h)

/-- The estimate of the voice is exact. -/
theorem Device.Mirrors.total_eq (h : dev.Mirrors nodeIds q) :
    dev.voice.queuedTotalBytes = dev.source.attachedBytes.length := by
  rw [h.total, Source.attachedBytes, h.attached, List.length_flatMap, List.map_map]
  have hsizes : q.queued.map (fun node => node.numBytes.toInt) =
      q.queued.map fun node => ((dev.source.buffers node.nodeId).length : ℤ) :=
    List.map_congr_left fun node hnode => (h.sizes node hnode).1
  rw [hsizes]
  induction q.queued with
  | nil => rfl
  | cons node nodes ih =>
    simp only [List.map_cons, List.sum_cons, Int.natCast_add, Function.comp_apply]
    rw [ih]

theorem Device.Mirrors.play {source : Source} {playback : Playback} (h : dev.Mirrors nodeIds q)
    (hplay : dev.source.play playback = .ok source) :
    ({ dev with source := source } : Device).Mirrors nodeIds q ∧
      dev.SameWriter { dev with source := source } ∧
      source.processed ≤ source.attached.length ∧
      source.offset ≤ source.attachedBytes.length := by
  unfold Source.play at hplay
  split at hplay
  · rename_i hwithin
    cases hplay
    exact ⟨⟨h.playq, h.attached, h.sizes, h.total, h.handed⟩, ⟨rfl, rfl, rfl, rfl⟩, hwithin⟩
  · cases hplay

theorem play_yields (source : Source) (playback : Playback) :
    Yields Misused (source.play playback) fun source' => source.play playback = .ok source' := by
  unfold Source.play
  split
  · exact Yields.ok rfl
  · exact Yields.error rfl

/-- The oldest buffer leaves the source and the play queue together. -/
theorem Device.Mirrors.unqueue {node : PlayNode} {nodes : List PlayNode} {avail : List UInt32}
    (h : dev.Mirrors nodeIds ⟨node :: nodes, avail⟩) (hids : nodeIds.Nodup)
    (hfuel : nodeIds.length < fuel) :
    ∃ dev', OpenAl.unqueue fuel dev = .ok dev' ∧
      dev'.Mirrors nodeIds ⟨nodes, node.nodeId :: avail⟩ ∧ dev.SameWriter dev' := by
  have hattached : dev.source.attached = node.nodeId :: nodes.map PlayNode.nodeId := h.attached
  obtain ⟨playq, hremove, hplayq⟩ := h.playq.remove_oldest hids hfuel
  have hget := h.playq.get_oldest hids hfuel
    (show (⟨node.nodeId, 0, none⟩ : PlayNode).nodeId = node.nodeId from rfl)
  have htotal : dev.voice.queuedTotalBytes - node.numBytes.toInt =
      (nodes.map fun node => node.numBytes.toInt).sum := by
    rw [h.total, List.map_cons, List.sum_cons]
    omega
  have hpositive : 0 ≤ (nodes.map fun node => node.numBytes.toInt).sum := by
    apply List.sum_nonneg
    intro x hx
    obtain ⟨m, hm, rfl⟩ := List.mem_map.mp hx
    rw [(h.sizes m (List.mem_cons_of_mem _ hm)).1]
    exact Int.natCast_nonneg _
  let after : Device := {
    voice := { dev.voice with
      playq := playq
      queuedTotalBytes := dev.voice.queuedTotalBytes - node.numBytes.toInt }
    source := { dev.source with
      attached := nodes.map PlayNode.nodeId
      processed := dev.source.processed - 1
      offset := dev.source.offset - (dev.source.buffers node.nodeId).length } }
  refine ⟨after, ?_, ⟨hplayq, rfl, ?_, htotal, ?_⟩, ⟨rfl, rfl, rfl, rfl⟩⟩
  · unfold OpenAl.unqueue Source.alSourceUnqueueBuffers
    rw [hattached]
    simp only [ok_bind, hget, ofPlayq, playqRemoveNode, hremove, ne_eq, not_true_eq_false, if_false]
    rw [assert_holds trivial, ok_bind, assert_holds (by rw [htotal]; exact hpositive), ok_bind,
      ok_bind]
  · exact fun m hm => h.sizes m (List.mem_cons_of_mem _ hm)
  · have hhanded := h.handed
    rw [Source.attachedBytes, hattached, List.flatMap_cons] at hhanded
    exact (List.suffix_append _ _).trans hhanded

theorem unqueueProcessed_yields (hids : nodeIds.Nodup) (hfuel : nodeIds.length < fuel)
    {processed : ℕ} (h : dev.Mirrors nodeIds q) (hprocessed : processed ≤ q.queued.length) :
    Yields Misused (unqueueProcessed fuel processed dev) fun dev' =>
      (∃ q', dev'.Mirrors nodeIds q') ∧ dev.SameWriter dev' := by
  induction processed generalizing dev q with
  | zero => exact Yields.ok ⟨⟨q, h⟩, rfl, rfl, rfl, rfl⟩
  | succ processed ih =>
    obtain ⟨queued, avail⟩ := q
    cases queued with
    | nil => exact absurd hprocessed (Nat.not_succ_le_zero _)
    | cons node nodes =>
      obtain ⟨dev₁, hunqueue, hmirrors, hsame⟩ := h.unqueue hids hfuel
      rw [unqueueProcessed, hunqueue, ok_bind]
      exact (ih hmirrors (Nat.le_of_succ_le_succ hprocessed)).mono fun dev₂ h₂ =>
        ⟨h₂.1, hsame.trans h₂.2⟩

/-- What the voice learns of the source: how much there is left to play. -/
theorem alProcessPlayBuffers_yields (hids : nodeIds.Nodup) (hfuel : nodeIds.length < fuel)
    (h : dev.Mirrors nodeIds q) (polls : Polls) :
    Yields Misused (alProcessPlayBuffers fuel dev polls) fun (bytesQueued, dev') =>
      (∃ q', dev'.Mirrors nodeIds q') ∧ dev.SameWriter dev' ∧
        (bytesQueued = 0 ↔ dev'.source.drained = true) := by
  unfold alProcessPlayBuffers
  refine (play_yields dev.source polls.first).bind fun source hplay => ?_
  obtain ⟨hmirrors, hsame, hprocessed, -⟩ := h.play hplay
  rw [hmirrors.attached, List.length_map] at hprocessed
  refine (unqueueProcessed_yields hids hfuel hmirrors hprocessed).bind fun dev₁ h₁ => ?_
  obtain ⟨⟨q₁, hmirrors₁⟩, hsame₁⟩ := h₁
  refine (play_yields dev₁.source polls.second).bind fun source₁ hplay₁ => ?_
  obtain ⟨hmirrors₂, hsame₂, -, hoffset⟩ := hmirrors₁.play hplay₁
  have htotal : dev₁.voice.queuedTotalBytes = source₁.attachedBytes.length := hmirrors₂.total_eq
  refine Yields.ok ⟨⟨q₁, hmirrors₂⟩, (hsame.trans hsame₁).trans hsame₂, ?_⟩
  simp only [Source.drained, decide_eq_true_eq, htotal]
  rw [if_pos (by omega)]
  omega

/-- The working buffer becomes the newest of the attached ones. -/
theorem alSubmitBufferToOpenAL_yields (hids : nodeIds.Nodup) (h : dev.Mirrors nodeIds q)
    (hfree : playqCanEnqueue dev.voice.playq = true) (hindex : 0 < dev.voice.index)
    (hle : dev.voice.index ≤ dev.voice.buffersize) (hfits : dev.voice.buffersize < 2 ^ 31)
    (playback : Playback) :
    Yields Misused (alSubmitBufferToOpenAL dev playback) fun dev' =>
      (∃ q', dev'.Mirrors nodeIds q') ∧ dev'.voice.data = dev.voice.data ∧ dev'.voice.index = 0 ∧
        dev'.voice.buffersize = dev.voice.buffersize ∧
        dev'.source.handed = dev.source.handed ++ dev.voice.working := by
  obtain ⟨nodes, avail⟩ := q
  rw [h.playq.canEnqueue, decide_eq_true_eq] at hfree
  cases avail with
  | nil => exact absurd rfl hfree
  | cons bufid avail =>
    have hfresh : ∀ node ∈ nodes, node.nodeId ≠ bufid := fun node hnode =>
      (List.nodup_append.mp (h.playq.nodup hids)).2.2 _ (List.mem_map_of_mem hnode) _
        (List.mem_cons_self ..)
    have hattached : bufid ∉ dev.source.attached := by
      rw [h.attached]
      intro hmem
      obtain ⟨node, hnode, heq⟩ := List.mem_map.mp hmem
      exact hfresh node hnode heq
    obtain ⟨playq, henqueue, hplayq⟩ :=
      h.playq.enqueue ⟨0, Int32.ofNat dev.voice.index, some 0⟩
    have hsize : (Int32.ofNat dev.voice.index).toInt = dev.voice.index :=
      Int32.toInt_ofNat_of_lt (Nat.lt_of_le_of_lt hle hfits)
    have hpositive : 0 < dev.voice.queuedTotalBytes + dev.voice.index := by
      rw [h.total_eq]
      omega
    -- the voice and the source as they are when playback goes on
    let voice : ALVoice := { dev.voice with
      playq := playq
      queuedTotalBytes := dev.voice.queuedTotalBytes + dev.voice.index
      index := 0 }
    let source : Source := { dev.source with
      buffers := Function.update dev.source.buffers bufid dev.voice.working
      handed := dev.source.handed ++ dev.voice.working
      attached := dev.source.attached ++ [bufid] }
    have hbuffers : ∀ node ∈ nodes, source.buffers node.nodeId = dev.source.buffers node.nodeId :=
      fun node hnode => Function.update_of_ne (hfresh node hnode) _ _
    have hnew : source.buffers bufid = dev.voice.working := Function.update_self ..
    have hbytes : source.attachedBytes = dev.source.attachedBytes ++ dev.voice.working := by
      have hold : dev.source.attached.flatMap source.buffers = dev.source.attachedBytes := by
        rw [Source.attachedBytes, h.attached]
        simp only [List.flatMap_map]
        exact List.flatMap_congr fun node hnode => hbuffers node hnode
      rw [Source.attachedBytes, List.flatMap_append, hold, List.flatMap_singleton, hnew]
    have hmirrors : (⟨voice, source⟩ : Device).Mirrors nodeIds
        ⟨nodes ++ [⟨bufid, Int32.ofNat dev.voice.index, some 0⟩], avail⟩ := by
      refine ⟨hplayq, ?_, ?_, ?_, ?_⟩
      · rw [List.map_append, ← h.attached]
        rfl
      · intro node hnode
        rcases List.mem_append.mp hnode with hnode | hnode
        · rw [hbuffers node hnode]
          exact h.sizes node hnode
        · obtain rfl := List.mem_singleton.mp hnode
          rw [hnew, hsize, ALVoice.working, window_length]
          exact ⟨rfl, hle⟩
      · rw [List.map_append, List.sum_append, ← h.total, List.map_singleton, List.sum_singleton,
          hsize]
      · rw [hbytes]
        obtain ⟨before, hbefore⟩ := h.handed
        exact ⟨before, by rw [← List.append_assoc, hbefore]⟩
    unfold alSubmitBufferToOpenAL
    simp only [henqueue, ne_eq, not_true_eq_false, if_false, hsize, Int.toNat_natCast]
    rw [assert_holds hpositive, ok_bind, Source.alBufferData, if_neg hattached, ok_bind]
    refine (play_yields source playback).bind fun source' hplay => ?_
    obtain ⟨hmirrors', hsame, -, -⟩ := hmirrors.play hplay
    split
    · exact Yields.ok ⟨⟨_, hmirrors'.playq, hmirrors'.attached, hmirrors'.sizes, hmirrors'.total,
        hmirrors'.handed⟩, rfl, rfl, rfl, hsame.handed⟩
    · exact Yields.ok ⟨⟨_, hmirrors'⟩, rfl, rfl, rfl, hsame.handed⟩

theorem alGetPosition_yields (hids : nodeIds.Nodup) (hfuel : nodeIds.length < fuel)
    (h : dev.Mirrors nodeIds q) (polls : Polls) :
    Yields Misused (alGetPosition fuel dev polls) fun (_, dev') =>
      (∃ q', dev'.Mirrors nodeIds q') ∧ dev.SameWriter dev' :=
  (alProcessPlayBuffers_yields hids hfuel h polls).bind fun _ h₁ => Yields.ok ⟨h₁.1, h₁.2.1⟩

theorem Device.SameWriter.working (h : dev.SameWriter dev') :
    dev'.voice.working = dev.voice.working := by
  rw [ALVoice.working, h.data, h.index, ALVoice.working]

theorem ALVoice.quiet_working (voice : ALVoice) (h : voice.index = 0) :
    voice.quiet.working = List.replicate (voice.buffersize / 4) 0 := by
  simp only [quiet, working, h, Nat.zero_add]
  exact window_zeros _ _

theorem granted_le (remaining writeBytes : ℕ) :
    (if remaining < writeBytes then remaining else writeBytes) ≤ remaining := by
  split <;> omega

/-- What a lock grants, and the silence that it puts in front when it finds nothing. -/
theorem alLockBuffer_yields (hids : nodeIds.Nodup) (hfuel : nodeIds.length < fuel)
    (h : dev.Mirrors nodeIds q) (hle : dev.voice.index ≤ dev.voice.buffersize) (writeBytes : ℕ)
    (polls : Polls) :
    Yields Misused (alLockBuffer fuel dev writeBytes polls) fun (audioPtr, audioBytes, dev') =>
      (∃ q', dev'.Mirrors nodeIds q') ∧ dev'.source.handed = dev.source.handed ∧
        dev'.voice.buffersize = dev.voice.buffersize ∧ audioPtr = dev'.voice.index ∧
        audioPtr + audioBytes ≤ dev.voice.buffersize ∧
        dev'.voice.working = dev.voice.working ++
          if dev'.source.drained = true ∧ dev.voice.index = 0 then
            List.replicate (dev.voice.buffersize / 4) 0
          else [] := by
  unfold alLockBuffer
  refine (alProcessPlayBuffers_yields hids hfuel h polls).bind fun (bytesQueued, dev₁) h₁ => ?_
  obtain ⟨⟨q₁, hmirrors⟩, hsame, hdrained⟩ := h₁
  by_cases hquiet : bytesQueued = 0 ∧ dev₁.voice.index = 0
  · have hquiet' : dev₁.source.drained = true ∧ dev.voice.index = 0 :=
      ⟨hdrained.mp hquiet.1, hsame.index ▸ hquiet.2⟩
    have hempty : dev.voice.working = [] := by
      rw [ALVoice.working, hquiet'.2]
      rfl
    have hbuffersize : dev₁.voice.quiet.buffersize = dev.voice.buffersize := hsame.buffersize
    have hindex : dev₁.voice.quiet.index ≤ dev₁.voice.quiet.buffersize := by
      simp only [ALVoice.quiet, hquiet.2, Nat.zero_add]
      exact Nat.div_le_self _ _
    simp only [if_pos hquiet]
    refine Yields.ok ⟨⟨q₁, hmirrors.playq, hmirrors.attached, hmirrors.sizes, hmirrors.total,
      hmirrors.handed⟩, hsame.handed, hbuffersize, rfl, ?_, ?_⟩
    · rw [← hbuffersize]
      exact Nat.add_le_of_le_sub' hindex (granted_le _ _)
    · rw [if_pos hquiet', hempty, ← hsame.buffersize]
      exact ALVoice.quiet_working _ hquiet.2
  · have hquiet' : ¬ (dev₁.source.drained = true ∧ dev.voice.index = 0) := by
      rw [← hsame.index, ← hdrained]
      exact hquiet
    have hindex : dev₁.voice.index ≤ dev₁.voice.buffersize := by
      rw [hsame.index, hsame.buffersize]
      exact hle
    simp only [if_neg hquiet]
    refine Yields.ok ⟨⟨q₁, hmirrors⟩, hsame.handed, hsame.buffersize, rfl, ?_, ?_⟩
    · rw [← hsame.buffersize]
      exact Nat.add_le_of_le_sub' hindex (granted_le _ _)
    · rw [if_neg hquiet', List.append_nil]
      exact hsame.working

/-- What is committed joins the working buffer, and that may be handed over. -/
theorem alUnlockBuffer_yields (hids : nodeIds.Nodup) (hfuel : nodeIds.length < fuel)
    (h : dev.Mirrors nodeIds q) {audioBytes : ℕ} (hpositive : 0 < audioBytes)
    (hle : dev.voice.index + audioBytes ≤ dev.voice.buffersize)
    (hfits : dev.voice.buffersize < 2 ^ 31) (polls : Polls) (playback : Playback) :
    Yields Misused (alUnlockBuffer fuel dev audioBytes polls playback) fun dev' =>
      (∃ q', dev'.Mirrors nodeIds q') ∧ dev'.voice.buffersize = dev.voice.buffersize ∧
        dev'.voice.index ≤ dev.voice.buffersize ∧
        dev'.source.handed ++ dev'.voice.working =
          dev.source.handed ++ dev.voice.working ++
            window dev.voice.data dev.voice.index audioBytes := by
  unfold alUnlockBuffer
  refine (alProcessPlayBuffers_yields hids hfuel h polls).bind fun (bytesQueued, dev₁) h₁ => ?_
  obtain ⟨⟨q₁, hmirrors⟩, hsame, -⟩ := h₁
  have hsum : dev₁.voice.index + audioBytes ≤ dev₁.voice.buffersize := by
    rw [hsame.index, hsame.buffersize]
    exact hle
  let dev₂ : Device :=
    { dev₁ with voice := { dev₁.voice with index := dev₁.voice.index + audioBytes } }
  have hmirrors₂ : dev₂.Mirrors nodeIds q₁ :=
    ⟨hmirrors.playq, hmirrors.attached, hmirrors.sizes, hmirrors.total, hmirrors.handed⟩
  have hworking : dev₂.voice.working =
      dev.voice.working ++ window dev.voice.data dev.voice.index audioBytes := by
    have hwindow : dev₂.voice.working =
        window dev.voice.data 0 (dev.voice.index + audioBytes) := by
      simp only [dev₂, ALVoice.working, hsame.data, hsame.index]
    rw [hwindow, ← window_append, Nat.zero_add]
    rfl
  have hkept : Yields Misused (.ok dev₂) fun dev' =>
      (∃ q', dev'.Mirrors nodeIds q') ∧ dev'.voice.buffersize = dev.voice.buffersize ∧
        dev'.voice.index ≤ dev.voice.buffersize ∧
        dev'.source.handed ++ dev'.voice.working =
          dev.source.handed ++ dev.voice.working ++
            window dev.voice.data dev.voice.index audioBytes := by
    refine Yields.ok ⟨⟨q₁, hmirrors₂⟩, hsame.buffersize, hsame.buffersize ▸ hsum, ?_⟩
    rw [hworking, List.append_assoc]
    exact congrArg (· ++ _) hsame.handed
  have hassert : (dev₂.voice.index < dev₂.voice.buffersize ||
      decide (dev₂.voice.index = dev₂.voice.buffersize)) = true := by
    rw [← Bool.decide_or, decide_eq_true_eq]
    exact Nat.lt_or_eq_of_le hsum
  show Yields Misused (assert _ >>= fun _ =>
    if dev₂.voice.buffersize / 4 ≤ bytesQueued then .ok dev₂
    else if !playqCanEnqueue dev₂.voice.playq then .ok dev₂
    else alSubmitBufferToOpenAL dev₂ playback) _
  rw [assert_true hassert, ok_bind]
  split
  · exact hkept
  · split
    · exact hkept
    · rename_i hfree
      rw [Bool.not_eq_true, Bool.not_eq_false'] at hfree
      have hsubmit := alSubmitBufferToOpenAL_yields hids hmirrors₂ hfree
        (Nat.lt_of_lt_of_le hpositive (Nat.le_add_left _ _)) hsum
          (hsame.buffersize ▸ hfits) playback
      refine hsubmit.mono fun dev' h' => ?_
      obtain ⟨hmirrors', hdata, hindex, hbuffersize, hhanded⟩ := h'
      refine ⟨hmirrors', hbuffersize.trans hsame.buffersize,
        by rw [hindex]; exact Nat.zero_le _, ?_⟩
      have hempty : dev'.voice.working = [] := by
        rw [ALVoice.working, hindex]
        rfl
      rw [hempty, List.append_nil, hhanded, hworking, List.append_assoc]
      exact congrArg (· ++ _) hsame.handed

end Process

/-! ## The invariant -/

/-- The voice, its source and the ledger tell of the same stream. -/
structure Session.Ok (nodeIds : List UInt32) (buffersize : ℕ) (s : Session) : Prop where
  mirrors : ∃ q, s.dev.Mirrors nodeIds q
  size : s.dev.voice.buffersize = buffersize
  index_le : s.dev.voice.index ≤ buffersize
  lock : ∀ l, s.lock = some l → l.audioPtr = s.dev.voice.index ∧
    l.audioPtr + l.audioBytes ≤ buffersize ∧
    l.data = window s.dev.voice.data l.audioPtr l.audioBytes
  stream : s.dev.source.handed ++ s.dev.voice.working = s.stream

section Steps
variable {nodeIds : List UInt32} {fuel buffersize : ℕ} {dev : Device} {s : Session}

theorem Session.Ok.getPosition (h : s.Ok nodeIds buffersize) (hids : nodeIds.Nodup)
    (hfuel : nodeIds.length < fuel) (polls : Polls) :
    Yields Misused (step fuel s (.getPosition polls)) (Session.Ok nodeIds buffersize) := by
  obtain ⟨q, hmirrors⟩ := h.mirrors
  refine (alGetPosition_yields hids hfuel hmirrors polls).bind fun (_, dev) h₁ => ?_
  obtain ⟨hmirrors₁, hsame⟩ := h₁
  refine Yields.ok ⟨hmirrors₁, hsame.buffersize.trans h.size, hsame.index ▸ h.index_le, ?_, ?_⟩
  · rw [hsame.index, hsame.data]
    exact h.lock
  · rw [hsame.handed, hsame.working, h.stream]
    simp only [Session.stream, hsame.buffersize]

/-- Nothing waits to be handed over exactly when the working buffer is empty. -/
theorem Session.Ok.handed_iff (h : s.Ok nodeIds buffersize) :
    s.dev.source.handed = s.stream ↔ s.dev.voice.index = 0 := by
  rw [← h.stream, List.self_eq_append_right, ← List.length_eq_zero_iff, ALVoice.working,
    window_length]

theorem Session.Ok.lockBuffer (h : s.Ok nodeIds buffersize) (hids : nodeIds.Nodup)
    (hfuel : nodeIds.length < fuel) (writeBytes : ℕ) (polls : Polls) :
    Yields Misused (step fuel s (.lock writeBytes polls)) (Session.Ok nodeIds buffersize) := by
  obtain ⟨q, hmirrors⟩ := h.mirrors
  refine (alLockBuffer_yields hids hfuel hmirrors (h.size ▸ h.index_le) writeBytes polls).bind
    fun (audioPtr, audioBytes, dev) h₁ => ?_
  obtain ⟨hmirrors₁, hhanded, hbuffersize, rfl, hgrant, hworking⟩ := h₁
  rw [h.size] at hgrant hworking
  refine Yields.ok ⟨hmirrors₁, hbuffersize.trans h.size, by simp only; omega, ?_, ?_⟩
  · intro l hl
    cases hl
    exact ⟨rfl, hgrant, rfl⟩
  · have hunderrun : s.underrun dev.source = true ↔
        dev.source.drained = true ∧ s.dev.voice.index = 0 := by
      rw [Session.underrun, Bool.and_eq_true, decide_eq_true_eq, h.handed_iff]
    simp only [Session.stream, hhanded, hworking, ← List.append_assoc, h.stream, hunderrun,
      hbuffersize]
    split
    · rw [List.flatMap_append, List.flatMap_singleton, Entry.bytes, h.size]
    · rw [List.append_nil]

theorem Session.Ok.fill (h : s.Ok nodeIds buffersize) (data : List UInt8) :
    Yields Misused (step fuel s (.fill data)) (Session.Ok nodeIds buffersize) := by
  unfold step
  cases hlock : s.lock with
  | none => exact Yields.error rfl
  | some l =>
    obtain ⟨hptr, hgrant, hdata⟩ := h.lock l hlock
    simp only
    split
    · rename_i hlength
      obtain ⟨q, hmirrors⟩ := h.mirrors
      refine Yields.ok ⟨⟨q, hmirrors.playq, hmirrors.attached, hmirrors.sizes, hmirrors.total,
        hmirrors.handed⟩, h.size, h.index_le, ?_, ?_⟩
      · intro l' hl'
        cases hl'
        refine ⟨hptr, hgrant, ?_⟩
        simp only
        rw [window_copy _ _ _ hlength, ← hdata]
      · have hworking : window (s.dev.voice.data.copy l.audioPtr (data.getD · 0) data.length) 0
            s.dev.voice.index = s.dev.voice.working := by
          refine window_congr fun i hi => ?_
          exact Buf.copy_outside _ _ _ _ _ (Or.inl (by omega))
        exact (congrArg (s.dev.source.handed ++ ·) hworking).trans h.stream
    · exact Yields.error rfl

theorem Session.Ok.unlock (h : s.Ok nodeIds buffersize) (hids : nodeIds.Nodup)
    (hfuel : nodeIds.length < fuel) (hfits : buffersize < 2 ^ 31) (audioBytes : ℕ) (polls : Polls)
    (playback : Playback) :
    Yields Misused (step fuel s (.unlock audioBytes polls playback))
      (Session.Ok nodeIds buffersize) := by
  unfold step
  cases hlock : s.lock with
  | none => exact Yields.error rfl
  | some l =>
    obtain ⟨hptr, hgrant, hdata⟩ := h.lock l hlock
    simp only
    split
    · rename_i hbytes
      obtain ⟨q, hmirrors⟩ := h.mirrors
      have hle : s.dev.voice.index + audioBytes ≤ s.dev.voice.buffersize := by
        rw [h.size]
        omega
      refine (alUnlockBuffer_yields hids hfuel hmirrors hbytes.1 hle (h.size ▸ hfits) polls
        playback).bind fun dev h₁ => ?_
      obtain ⟨hmirrors₁, hbuffersize, hindex, hstream⟩ := h₁
      refine Yields.ok ⟨hmirrors₁, hbuffersize.trans h.size, h.size ▸ hindex, nofun, ?_⟩
      have hcommitted : l.data.take audioBytes =
          window s.dev.voice.data s.dev.voice.index audioBytes := by
        rw [hdata, hptr, window_take _ _ hbytes.2]
      simp only [Session.stream, hbuffersize]
      rw [hstream, h.stream, List.flatMap_append, List.flatMap_singleton, Entry.bytes, hcommitted]
      rfl
    · exact Yields.error rfl

theorem step_yields (hids : nodeIds.Nodup) (hfuel : nodeIds.length < fuel)
    (hfits : buffersize < 2 ^ 31) (s : Session) (a : Step) (h : s.Ok nodeIds buffersize) :
    Yields Misused (step fuel s a) (Session.Ok nodeIds buffersize) := by
  cases a with
  | getPosition polls => exact h.getPosition hids hfuel polls
  | lock writeBytes polls => exact h.lockBuffer hids hfuel writeBytes polls
  | fill data => exact h.fill data
  | unlock audioBytes polls playback => exact h.unlock hids hfuel hfits audioBytes polls playback

theorem start_ok (hcreate : openalCreateVoice nodeIds buffersize = .ok dev) :
    (start dev).Ok nodeIds buffersize := by
  obtain ⟨playq, hplayq, hdev⟩ := bind_eq_ok.mp hcreate
  cases hdev
  obtain ⟨hok, hcontents⟩ := playqCreatePlayQueue_ok hplayq
  refine ⟨⟨Queue.create nodeIds, ⟨[], _, hok, hcontents⟩, rfl, nofun, rfl, List.suffix_refl _⟩, rfl,
    Nat.zero_le _, nofun, rfl⟩

/-- The estimate of what is queued is within the buffers, so that no `ALint` overflows. -/
theorem Device.Mirrors.total_le {q : Queue} (h : dev.Mirrors nodeIds q) :
    dev.voice.queuedTotalBytes ≤ (nodeIds.length * dev.voice.buffersize : ℕ) := by
  have hlength : q.queued.length ≤ nodeIds.length := by
    have hperm := h.playq.perm.length_eq
    rw [List.length_append, List.length_map] at hperm
    omega
  have hsum : dev.source.attachedBytes.length ≤ q.queued.length * dev.voice.buffersize := by
    rw [Source.attachedBytes, h.attached, List.length_flatMap, List.map_map, ← Nat.nsmul_eq_mul,
      ← List.length_map ((fun bufid => (dev.source.buffers bufid).length) ∘ PlayNode.nodeId)]
    apply List.sum_le_card_nsmul
    intro x hx
    obtain ⟨node, hnode, rfl⟩ := List.mem_map.mp hx
    exact (h.sizes node hnode).2
  rw [h.total_eq]
  exact Int.ofNat_le.mpr (hsum.trans (Nat.mul_le_mul_right _ hlength))

end Steps

/-- **Main.** However the source plays while the voice is used, no assertion fires and no buffer is
refilled that is attached: the play queue holds the attached buffers and knows how much is in each,
and what OpenAL was handed, followed by the working buffer, is the stream of all that was committed,
with a quarter buffer of silence for each lock that found nothing. -/
theorem openal_stream {nodeIds : List UInt32} (hids : nodeIds.Nodup)
    (hcount : nodeIds.length = openalNumBuffers) {buffersize : ℕ}
    (hfits : openalNumBuffers * buffersize < 2 ^ 31) {fuel : ℕ} (hfuel : openalNumBuffers < fuel)
    {dev : Device} (hcreate : openalCreateVoice nodeIds buffersize = .ok dev) (steps : List Step) :
    (∀ fault, run fuel (start dev) steps = .error fault → fault = .misuse) ∧
    ∀ s, run fuel (start dev) steps = .ok s →
      s.dev.voice.index ≤ buffersize ∧
      (∃ q, s.dev.voice.playq.Holds nodeIds q ∧
        s.dev.source.attached = q.queued.map PlayNode.nodeId ∧ s.dev.source.attached.Nodup ∧
        (∀ node ∈ q.queued,
          node.numBytes.toInt = (s.dev.source.buffers node.nodeId).length) ∧
        s.dev.voice.queuedTotalBytes = (q.queued.map fun node => node.numBytes.toInt).sum ∧
        s.dev.voice.queuedTotalBytes < 2 ^ 31) ∧
      s.dev.source.attachedBytes <:+ s.dev.source.handed ∧
      s.dev.source.handed ++ s.dev.voice.working = s.stream := by
  have hfuel' : nodeIds.length < fuel := hcount ▸ hfuel
  have hsize : buffersize < 2 ^ 31 := by
    rw [openalNumBuffers] at hfits
    omega
  have hrun := Yields.run (Session.Ok nodeIds buffersize)
    (fun s a h => step_yields hids hfuel' hsize s a h) (start_ok hcreate) steps
  refine ⟨fun fault hfault => hrun.of_error hfault, fun s hs => ?_⟩
  have hok := hrun.of_ok hs
  obtain ⟨q, hmirrors⟩ := hok.mirrors
  refine ⟨hok.index_le, ⟨q, hmirrors.playq, hmirrors.attached, ?_, ?_, hmirrors.total, ?_⟩,
    hmirrors.handed, hok.stream⟩
  · rw [hmirrors.attached]
    exact (List.nodup_append.mp (hmirrors.playq.nodup hids)).1
  · exact fun node hnode => (hmirrors.sizes node hnode).1
  · have htotal := hmirrors.total_le
    rw [hcount, hok.size] at htotal
    omega

/-- Silence and four bytes fill half of the working buffer and are handed over; when they have been
played, the next lock finds nothing again. -/
def smallSteps : List Step :=
  [.lock 4 ⟨⟨0, 0, .initial⟩, ⟨0, 0, .initial⟩⟩, .fill [1, 2, 3, 4],
    .unlock 4 ⟨⟨0, 0, .initial⟩, ⟨0, 0, .initial⟩⟩ ⟨0, 0, .initial⟩,
    .getPosition ⟨⟨0, 2, .playing⟩, ⟨0, 6, .playing⟩⟩, .lock 0 ⟨⟨1, 8, .stopped⟩, ⟨0, 0, .stopped⟩⟩]

theorem openal_stream_small :
    ∃ dev s, openalCreateVoice [1, 2, 3, 4] 16 = .ok dev ∧
      run 5 (start dev) smallSteps = .ok s ∧
      s.entries = [.silence, .committed [1, 2, 3, 4], .silence] ∧
      s.dev.source.handed = [0, 0, 0, 0, 1, 2, 3, 4] ∧ s.dev.voice.working = [0, 0, 0, 0] ∧
      s.dev.source.handed ++ s.dev.voice.working = s.stream :=
  ⟨_, _, rfl, rfl, rfl, rfl, rfl,
    ((openal_stream (show ([1, 2, 3, 4] : List UInt32).Nodup by decide) rfl
      (show 4 * 16 < 2 ^ 31 by decide) (show 4 < 5 by decide) rfl smallSteps).2 _ rfl).2.2.2⟩

end Apple2ix.OpenAl
