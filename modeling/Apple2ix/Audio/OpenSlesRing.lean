import Mathlib.Algebra.Group.Nat.Defs
import Apple2ix.Audio.OpenSles

/-! The accounting of a voice: where its heads are, and what its two wrap counters make of them. The
heads alone do not tell a full ring from an empty one. -/
namespace Apple2ix.OpenSles
open Runs
set_option autoImplicit false

/-! ## Bounds -/

/-- The heads are in the ring. -/
structure SLVoice.Bounded (voice : SLVoice) : Prop where
  readHead_lt : voice.readHead < voice.bufferSize
  writeHead_lt : voice.writeHead < voice.bufferSize

namespace SLVoice
variable {voice : SLVoice}

@[simp] theorem resync_bufferSize (voice : SLVoice) :
    voice.resync.bufferSize = voice.bufferSize := by
  rw [resync]
  split_ifs <;> rfl

@[simp] theorem resync_readHead (voice : SLVoice) : voice.resync.readHead = voice.readHead := by
  rw [resync]
  split_ifs <;> rfl

@[simp] theorem resync_readWrapCount (voice : SLVoice) :
    voice.resync.readWrapCount = voice.readWrapCount := by
  rw [resync]
  split_ifs <;> rfl

@[simp] theorem resync_ringBuffer (voice : SLVoice) :
    voice.resync.ringBuffer = voice.ringBuffer := by
  rw [resync]
  split_ifs <;> rfl

theorem Bounded.resync (h : voice.Bounded) : voice.resync.Bounded := by
  refine ⟨by simpa using h.readHead_lt, ?_⟩
  rw [SLVoice.resync]
  split_ifs
  · exact h.readHead_lt
  · exact h.writeHead_lt

theorem Bounded.working_le (h : voice.Bounded) : voice.workingBytes ≤ voice.bufferSize := by
  have := h.readHead_lt
  have := h.writeHead_lt
  rw [workingBytes]
  split_ifs <;> omega

end SLVoice

theorem assert_true {condition : Bool} (h : condition = true) : assert condition = .ok () :=
  if_pos h

section
variable {ctx : EngineContext} {voice : SLVoice}

theorem underrunCheckAndManage_ok (h : voice.Bounded) :
    underrunCheckAndManage voice =
      .ok (voice.isUnder, voice.resync.workingBytes, voice.resync) := by
  rw [underrunCheckAndManage, assert_true (decide_eq_true h.readHead_lt), ok_bind,
    assert_true (decide_eq_true h.writeHead_lt), ok_bind]

theorem slGetPosition_ok (h : voice.Bounded) :
    slGetPosition voice = .ok (voice.resync.workingBytes, voice.resync) := by
  rw [slGetPosition, underrunCheckAndManage_ok h, ok_bind]
  simp only
  rw [assert_true (decide_eq_true h.resync.working_le), ok_bind]

/-- What a lock grants. -/
theorem slLockBuffer_ok (h : voice.Bounded) (writeBytes : ℕ) :
    ∃ audioBytes, slLockBuffer ctx voice writeBytes =
        .ok (voice.resync.writeHead, audioBytes, voice.resync) ∧
      audioBytes ≤ voice.bufferSize - voice.resync.workingBytes ∧
      audioBytes ≤ voice.bufferSize + ctx.submitSize - voice.resync.writeHead := by
  rw [slLockBuffer, underrunCheckAndManage_ok h, ok_bind]
  simp only
  rw [assert_true (decide_eq_true h.resync.working_le), ok_bind,
    assert_true (decide_eq_true h.resync.writeHead_lt), ok_bind]
  refine ⟨_, rfl, ?_, ?_⟩
  · rw [SLVoice.resync_bufferSize]
    split_ifs <;> omega
  · rw [SLVoice.resync_bufferSize]
    split_ifs <;> omega

theorem slUnlockBuffer_ok {audioBytes : ℕ}
    (h : voice.writeHead + audioBytes ≤ voice.bufferSize + ctx.submitSize) :
    slUnlockBuffer ctx voice audioBytes = .ok (voice.commit ctx audioBytes) := by
  rw [slUnlockBuffer, assert_true (decide_eq_true h), ok_bind]

/-- Where the writer is behind a commit. -/
theorem SLVoice.commit_heads (ctx : EngineContext) (voice : SLVoice) (audioBytes : ℕ) :
    (voice.commit ctx audioBytes).bufferSize = voice.bufferSize ∧
      (voice.commit ctx audioBytes).readHead = voice.readHead ∧
      (voice.commit ctx audioBytes).readWrapCount = voice.readWrapCount ∧
      (voice.bufferSize ≤ voice.writeHead + audioBytes ∧
          (voice.commit ctx audioBytes).writeHead + voice.bufferSize =
            voice.writeHead + audioBytes ∧
          (voice.commit ctx audioBytes).writeWrapCount = (voice.writeWrapCount + 1) % ctx.ulong ∨
        voice.writeHead + audioBytes < voice.bufferSize ∧
          (voice.commit ctx audioBytes).writeHead = voice.writeHead + audioBytes ∧
          (voice.commit ctx audioBytes).writeWrapCount = voice.writeWrapCount) := by
  rw [commit]
  split_ifs with hwrap
  · exact ⟨rfl, rfl, rfl, Or.inl ⟨hwrap, Nat.sub_add_cancel hwrap, rfl⟩⟩
  · exact ⟨rfl, rfl, rfl, Or.inr ⟨Nat.not_le.mp hwrap, rfl, rfl⟩⟩
  · exact ⟨rfl, rfl, rfl, Or.inr ⟨Nat.not_le.mp hwrap, rfl, rfl⟩⟩

/-- Where the reader is behind a callback. -/
theorem SLVoice.backfill_heads (ctx : EngineContext) (voice : SLVoice) :
    (voice.backfill ctx).bufferSize = voice.bufferSize ∧
      (voice.backfill ctx).writeHead = voice.writeHead ∧
      (voice.backfill ctx).writeWrapCount = voice.writeWrapCount ∧
      (voice.bufferSize ≤ voice.readHead + ctx.submitSize ∧
          (voice.backfill ctx).readHead + voice.bufferSize = voice.readHead + ctx.submitSize ∧
          (voice.backfill ctx).readWrapCount = (voice.readWrapCount + 1) % ctx.ulong ∨
        voice.readHead + ctx.submitSize < voice.bufferSize ∧
          (voice.backfill ctx).readHead = voice.readHead + ctx.submitSize ∧
          (voice.backfill ctx).readWrapCount = voice.readWrapCount) := by
  rw [backfill]
  split_ifs with hwrap
  · exact ⟨rfl, rfl, rfl, Or.inl ⟨hwrap, Nat.sub_add_cancel hwrap, rfl⟩⟩
  · exact ⟨rfl, rfl, rfl, Or.inr ⟨Nat.not_le.mp hwrap, rfl, rfl⟩⟩

end

/-! ## The steps -/

/-- What a successful step is. -/
inductive Stepped (ctx : EngineContext) (s : Session) : Step → Session → Prop
  | getPosition : s.lock = none → Stepped ctx s .getPosition
      { s with voice := s.voice.resync, committed := max s.committed s.played }
  | lock (writeBytes : ℕ) (audioBytes : ℕ) : s.lock = none →
      audioBytes ≤ s.voice.bufferSize - s.voice.resync.workingBytes →
      audioBytes ≤ s.voice.bufferSize + ctx.submitSize - s.voice.resync.writeHead →
      Stepped ctx s (.lock writeBytes)
        { s with
          voice := s.voice.resync
          lock := some ⟨s.voice.resync.writeHead, audioBytes, none⟩
          committed := max s.committed s.played }
  | fill (data : List UInt8) (audioPtr audioBytes : ℕ) :
      s.lock = some ⟨audioPtr, audioBytes, none⟩ → data.length ≤ audioBytes →
      Stepped ctx s (.fill data)
        { s with
          voice := s.voice.fill audioPtr data
          lock := some ⟨audioPtr, audioBytes, some data⟩ }
  | unlock (audioBytes : ℕ) (l : Lock) : s.lock = some l → audioBytes ≤ l.audioBytes →
      Stepped ctx s (.unlock audioBytes)
        { s with
          voice := s.voice.commit ctx audioBytes
          lock := none
          committed := s.committed + audioBytes }
  | callback : Stepped ctx s .callback
      { s with
        voice := s.voice.backfill ctx
        played := s.played + ctx.submitSize
        heard := s.heard ++ s.voice.window ctx.submitSize }

/-- The heads are in the ring, and so is what was granted, with the overflow. -/
structure Session.Bounded (ctx : EngineContext) (bufferSize : ℕ) (s : Session) : Prop where
  size : s.voice.bufferSize = bufferSize
  voice : s.voice.Bounded
  lock : ∀ l, s.lock = some l → l.audioPtr = s.voice.writeHead ∧
    s.voice.writeHead + l.audioBytes ≤ bufferSize + ctx.submitSize

section
variable {ctx : EngineContext} {bufferSize : ℕ} {s t : Session} {a : Step}

/-- **No assertion fails**: a step is one of the above, or it was no step of the protocol. -/
theorem step_cases (h : s.Bounded ctx bufferSize) (a : Step) :
    step ctx s a = .error .misuse ∨ ∃ t, step ctx s a = .ok t ∧ Stepped ctx s a t := by
  cases a with
  | getPosition =>
    cases hlock : s.lock with
    | some l => exact Or.inl (by rw [step, hlock])
    | none =>
      refine Or.inr ⟨_, ?_, .getPosition hlock⟩
      simp only [step, hlock, slGetPosition_ok h.voice, ok_bind]
  | lock writeBytes =>
    cases hlock : s.lock with
    | some l => exact Or.inl (by rw [step, hlock])
    | none =>
      obtain ⟨audioBytes, hgrant, hroom, hend⟩ := @slLockBuffer_ok ctx _ h.voice writeBytes
      refine Or.inr ⟨_, ?_, .lock writeBytes audioBytes hlock hroom hend⟩
      simp only [step, hlock, hgrant, ok_bind]
  | fill data =>
    cases hlock : s.lock with
    | none => exact Or.inl (by rw [step, hlock])
    | some l =>
      obtain ⟨audioPtr, audioBytes, filled⟩ := l
      cases filled with
      | some old => exact Or.inl (by rw [step, hlock])
      | none =>
        by_cases hlength : data.length ≤ audioBytes
        · refine Or.inr ⟨_, ?_, .fill data audioPtr audioBytes hlock hlength⟩
          simp only [step, hlock, hlength, if_true]
        · refine Or.inl ?_
          simp only [step, hlock, hlength, if_false]
  | unlock audioBytes =>
    cases hlock : s.lock with
    | none => exact Or.inl (by rw [step, hlock])
    | some l =>
      by_cases hbytes : audioBytes ≤ l.audioBytes
      · refine Or.inr ⟨_, ?_, .unlock audioBytes l hlock hbytes⟩
        obtain ⟨-, hend⟩ := h.lock l hlock
        have hfits : s.voice.writeHead + audioBytes ≤ s.voice.bufferSize + ctx.submitSize := by
          rw [h.size]
          omega
        simp only [step, hlock, hbytes, if_true, slUnlockBuffer_ok hfits, ok_bind]
      · refine Or.inl ?_
        simp only [step, hlock, hbytes, if_false]
  | callback => exact Or.inr ⟨_, rfl, .callback⟩

theorem step_ok (h : s.Bounded ctx bufferSize) (hstep : step ctx s a = .ok t) :
    Stepped ctx s a t := by
  rcases step_cases h a with herror | ⟨t', ht', hstepped⟩
  · rw [herror] at hstep
    cases hstep
  · rw [ht'] at hstep
    cases hstep
    exact hstepped

theorem Session.Bounded.step (hquarter : 4 * ctx.submitSize ≤ bufferSize)
    (h : s.Bounded ctx bufferSize) (hstepped : Stepped ctx s a t) : t.Bounded ctx bufferSize := by
  obtain ⟨hsize, hvoice, hlock⟩ := h
  have hread := hvoice.readHead_lt
  have hwrite := hvoice.writeHead_lt
  cases hstepped with
  | getPosition hnone =>
    refine ⟨by simpa using hsize, hvoice.resync, ?_⟩
    simp [hnone]
  | lock writeBytes audioBytes hnone hroom hend =>
    have hwrite' := hvoice.resync.writeHead_lt
    rw [SLVoice.resync_bufferSize] at hwrite'
    refine ⟨by simpa using hsize, hvoice.resync, ?_⟩
    intro l hl
    cases hl
    refine ⟨rfl, ?_⟩
    change s.voice.resync.writeHead + audioBytes ≤ _
    omega
  | fill data audioPtr audioBytes hsome hlength =>
    refine ⟨hsize, ⟨hread, hwrite⟩, ?_⟩
    intro l hl
    cases hl
    exact ⟨(hlock _ hsome).1, (hlock _ hsome).2⟩
  | unlock audioBytes l hsome hbytes =>
    obtain ⟨hptr, hend⟩ := hlock l hsome
    obtain ⟨hsize', hread', -, hheads⟩ := s.voice.commit_heads ctx audioBytes
    refine ⟨hsize'.trans hsize, ⟨?_, ?_⟩, by simp⟩
    · change (s.voice.commit ctx audioBytes).readHead < (s.voice.commit ctx audioBytes).bufferSize
      rw [hread', hsize']
      exact hread
    · change (s.voice.commit ctx audioBytes).writeHead < (s.voice.commit ctx audioBytes).bufferSize
      rcases hheads with ⟨_, hhead, _⟩ | ⟨_, hhead, _⟩ <;> omega
  | callback =>
    obtain ⟨hsize', hwrite', -, hheads⟩ := s.voice.backfill_heads ctx
    refine ⟨hsize'.trans hsize, ⟨?_, ?_⟩, ?_⟩
    · change (s.voice.backfill ctx).readHead < (s.voice.backfill ctx).bufferSize
      rcases hheads with ⟨_, hhead, _⟩ | ⟨_, hhead, _⟩ <;> omega
    · change (s.voice.backfill ctx).writeHead < (s.voice.backfill ctx).bufferSize
      rw [hwrite', hsize']
      exact hwrite
    · change ∀ l, s.lock = some l → l.audioPtr = (s.voice.backfill ctx).writeHead ∧
        (s.voice.backfill ctx).writeHead + l.audioBytes ≤ _
      rw [hwrite']
      exact hlock

theorem start_bounded (ctx : EngineContext) {bufferSize : ℕ} (hsize : 0 < bufferSize) :
    (start bufferSize).Bounded ctx bufferSize :=
  ⟨rfl, ⟨hsize, hsize⟩, nofun⟩

end

/-! ## The ledger -/

/-- Two places of the stream that are no more than a ring apart, by their turns and heads. -/
theorem turn_cases {n turn head turn' head' ahead : ℕ} (hhead : head < n) (hhead' : head' < n)
    (hahead : ahead ≤ n) (h : turn' * n + head' = turn * n + head + ahead) :
    turn' = turn ∧ head' = head + ahead ∨ turn' = turn + 1 ∧ head' + n = head + ahead := by
  rcases Nat.lt_trichotomy turn' turn with hlt | rfl | hlt
  · have hmul : (turn' + 1) * n ≤ turn * n := Nat.mul_le_mul_right n hlt
    rw [Nat.add_mul, Nat.one_mul] at hmul
    omega
  · exact Or.inl ⟨rfl, by omega⟩
  · rcases Nat.lt_or_ge (turn + 1) turn' with hmore | hone
    · have hmul : (turn + 1 + 1) * n ≤ turn' * n := Nat.mul_le_mul_right n hmore
      rw [Nat.add_mul, Nat.add_mul, Nat.one_mul] at hmul
      omega
    · obtain rfl : turn' = turn + 1 := by omega
      rw [Nat.add_mul, Nat.one_mul] at h
      exact Or.inr ⟨rfl, by omega⟩

/-- The heads and their wrap counters are where the ledger says, and there is never more than a
ring of data. -/
structure Session.Counted (bufferSize : ℕ) (s : Session) : Prop where
  played : s.played = s.voice.readWrapCount * bufferSize + s.voice.readHead
  committed : s.committed = s.voice.writeWrapCount * bufferSize + s.voice.writeHead
  room : s.committed ≤ s.played + bufferSize
  granted : ∀ l, s.lock = some l → s.committed + l.audioBytes ≤ s.played + bufferSize

/-- The ring is exactly full: the heads are at the same place, the writer one turn ahead. -/
def SLVoice.Full (voice : SLVoice) : Prop :=
  voice.readHead = voice.writeHead ∧ voice.readWrapCount < voice.writeWrapCount

instance (voice : SLVoice) : Decidable voice.Full := inferInstanceAs (Decidable (_ ∧ _))

/-- No lock finds the ring exactly full, and no wrap counter overflows. -/
def Sound (ctx : EngineContext) (s : Session) : Step → Prop
  | .lock _ => ¬ s.voice.Full
  | .unlock audioBytes => s.voice.bufferSize ≤ s.voice.writeHead + audioBytes →
      s.voice.writeWrapCount + 1 < ctx.ulong
  | .callback => s.voice.bufferSize ≤ s.voice.readHead + ctx.submitSize →
      s.voice.readWrapCount + 1 < ctx.ulong
  | _ => True

section
variable {ctx : EngineContext} {bufferSize : ℕ} {s t : Session} {a : Step}

theorem Session.Counted.isUnder_iff (h : s.Counted bufferSize)
    (hbounded : s.Bounded ctx bufferSize) :
    s.voice.isUnder = true ↔ s.committed ≤ s.played := by
  obtain ⟨hplayed, hcommitted, -, -⟩ := h
  obtain ⟨hsize, ⟨hread, hwrite⟩, -⟩ := hbounded
  rw [SLVoice.isUnder, hplayed, hcommitted]
  simp only [Bool.or_eq_true, Bool.and_eq_true, decide_eq_true_eq]
  rcases Nat.lt_trichotomy s.voice.writeWrapCount s.voice.readWrapCount with hlt | heq | hlt
  · have hmul : (s.voice.writeWrapCount + 1) * bufferSize ≤ s.voice.readWrapCount * bufferSize :=
      Nat.mul_le_mul_right _ hlt
    rw [Nat.add_mul, Nat.one_mul] at hmul
    exact iff_of_true (Or.inl hlt) (by omega)
  · rw [heq]
    omega
  · have hmul : (s.voice.readWrapCount + 1) * bufferSize ≤ s.voice.writeWrapCount * bufferSize :=
      Nat.mul_le_mul_right _ hlt
    rw [Nat.add_mul, Nat.one_mul] at hmul
    exact iff_of_false (by omega) (by omega)

/-- Behind the check the writer is not behind the reader. -/
theorem Session.Counted.resync (h : s.Counted bufferSize) (hbounded : s.Bounded ctx bufferSize) :
    max s.committed s.played =
      s.voice.resync.writeWrapCount * bufferSize + s.voice.resync.writeHead := by
  have hunder := h.isUnder_iff hbounded
  rw [SLVoice.resync]
  by_cases hle : s.committed ≤ s.played
  · rw [if_pos (hunder.mpr hle), Nat.max_eq_right hle]
    exact h.played
  · rw [if_neg (fun hu => hle (hunder.mp hu)), Nat.max_eq_left (by omega)]
    exact h.committed

/-- **What the heads say**: how much data there is, except when the ring is exactly full. -/
theorem Session.Counted.working (h : s.Counted bufferSize) (hbounded : s.Bounded ctx bufferSize) :
    s.voice.Full ∧ s.committed = s.played + bufferSize ∧ s.voice.resync.workingBytes = 0 ∨
      ¬ s.voice.Full ∧ s.committed < s.played + bufferSize ∧
        s.voice.resync.workingBytes = s.committed - s.played := by
  have hresync := h.resync hbounded
  have hunder := h.isUnder_iff hbounded
  have hbounds := hbounded.voice.resync.writeHead_lt
  obtain ⟨hplayed, hcommitted, hroom, -⟩ := h
  obtain ⟨hsize, ⟨hread, hwrite⟩, -⟩ := hbounded
  rw [SLVoice.resync_bufferSize, hsize] at hbounds
  rw [hsize] at hread hwrite
  have hahead : max s.committed s.played - s.played ≤ bufferSize := by omega
  have hturn := turn_cases hread hbounds hahead (by rw [← hresync, ← hplayed]; omega)
  rw [SLVoice.workingBytes, SLVoice.resync_readHead, SLVoice.resync_bufferSize, hsize]
  by_cases hle : s.committed ≤ s.played
  · right
    rw [SLVoice.resync, if_pos (hunder.mpr hle)]
    refine ⟨?_, by omega, by simp; omega⟩
    rintro ⟨hheads, hcounts⟩
    have hmul : (s.voice.readWrapCount + 1) * bufferSize ≤ s.voice.writeWrapCount * bufferSize :=
      Nat.mul_le_mul_right _ hcounts
    rw [Nat.add_mul, Nat.one_mul] at hmul
    omega
  · have hsame : s.voice.resync = s.voice := by
      rw [SLVoice.resync, if_neg fun hu => hle (hunder.mp hu)]
    rw [hsame] at hturn ⊢
    rw [Nat.max_eq_left (by omega)] at hturn
    rcases hturn with ⟨hcount, hhead⟩ | ⟨hcount, hhead⟩
    · refine Or.inr ⟨?_, by omega, ?_⟩
      · rintro ⟨-, hcounts⟩
        omega
      · rw [if_pos (by omega)]
        omega
    · by_cases hfull : s.committed = s.played + bufferSize
      · refine Or.inl ⟨⟨by omega, by omega⟩, hfull, ?_⟩
        rw [if_pos (by omega)]
        omega
      · refine Or.inr ⟨?_, by omega, ?_⟩
        · rintro ⟨hheads, -⟩
          omega
        · rw [if_neg (by omega)]
          omega

theorem Session.Counted.step (h : s.Counted bufferSize) (hbounded : s.Bounded ctx bufferSize)
    (hstepped : Stepped ctx s a t) (hsound : Sound ctx s a) : t.Counted bufferSize := by
  have hresync := h.resync hbounded
  have hworking := h.working hbounded
  obtain ⟨hplayed, hcommitted, hroom, hgranted⟩ := h
  obtain ⟨hsize, hvoice, hlock⟩ := hbounded
  cases hstepped with
  | getPosition hnone =>
    refine ⟨by simpa using hplayed, hresync, ?_, by simp [hnone]⟩
    change max s.committed s.played ≤ s.played + bufferSize
    omega
  | lock writeBytes audioBytes hnone hgrant hend =>
    rcases hworking with ⟨hfull, -, -⟩ | ⟨-, hlt, hbytes⟩
    · exact absurd hfull hsound
    · refine ⟨by simpa using hplayed, hresync, ?_, ?_⟩
      · change max s.committed s.played ≤ s.played + bufferSize
        omega
      · intro l hl
        cases hl
        change max s.committed s.played + audioBytes ≤ s.played + bufferSize
        omega
  | fill data audioPtr audioBytes hsome hlength =>
    refine ⟨hplayed, hcommitted, hroom, ?_⟩
    intro l hl
    cases hl
    have hgrant := hgranted _ hsome
    exact hgrant
  | unlock audioBytes l hsome hbytes =>
    have hgrant := hgranted l hsome
    obtain ⟨-, hread, hturn, hheads⟩ := s.voice.commit_heads ctx audioBytes
    refine ⟨?_, ?_, ?_, by simp⟩
    · change s.played = (s.voice.commit ctx audioBytes).readWrapCount * bufferSize +
        (s.voice.commit ctx audioBytes).readHead
      rw [hread, hturn]
      exact hplayed
    · change s.committed + audioBytes =
        (s.voice.commit ctx audioBytes).writeWrapCount * bufferSize +
        (s.voice.commit ctx audioBytes).writeHead
      rcases hheads with ⟨hwrap, hhead, hcount⟩ | ⟨-, hhead, hcount⟩
      · rw [hcount, Nat.mod_eq_of_lt (hsound hwrap), Nat.add_mul, Nat.one_mul]
        omega
      · rw [hcount, hhead]
        omega
    · change s.committed + audioBytes ≤ s.played + bufferSize
      omega
  | callback =>
    obtain ⟨-, hwrite, hturn, hheads⟩ := s.voice.backfill_heads ctx
    refine ⟨?_, ?_, ?_, ?_⟩
    · change s.played + ctx.submitSize = (s.voice.backfill ctx).readWrapCount * bufferSize +
        (s.voice.backfill ctx).readHead
      rcases hheads with ⟨hwrap, hhead, hcount⟩ | ⟨-, hhead, hcount⟩
      · rw [hcount, Nat.mod_eq_of_lt (hsound hwrap), Nat.add_mul, Nat.one_mul]
        omega
      · rw [hcount, hhead]
        omega
    · change s.committed = (s.voice.backfill ctx).writeWrapCount * bufferSize +
        (s.voice.backfill ctx).writeHead
      rw [hwrite, hturn]
      exact hcommitted
    · change s.committed ≤ s.played + ctx.submitSize + bufferSize
      omega
    · intro l hl
      have := hgranted l hl
      change s.committed + l.audioBytes ≤ s.played + ctx.submitSize + bufferSize
      omega

/-- What holds of every run whose steps are sound. -/
theorem run_counted (hquarter : 4 * ctx.submitSize ≤ bufferSize) {steps : List Step}
    (hbounded : s.Bounded ctx bufferSize) (hcounted : s.Counted bufferSize)
    (hsound : Along (OpenSles.step ctx) (Sound ctx) s steps) (hrun : run ctx s steps = .ok t) :
    t.Counted bufferSize := by
  induction steps generalizing s with
  | nil =>
    cases hrun
    exact hcounted
  | cons a steps ih =>
    cases hstep : OpenSles.step ctx s a with
    | error e =>
      rw [run, runM_cons_error _ hstep] at hrun
      cases hrun
    | ok u =>
      rw [run, runM_cons_ok _ hstep] at hrun
      obtain ⟨ha, hrest⟩ := (along_cons hstep).mp hsound
      have hstepped := step_ok hbounded hstep
      exact ih (hbounded.step hquarter hstepped) (hcounted.step hbounded hstepped ha) hrest hrun

theorem run_bounded (hquarter : 4 * ctx.submitSize ≤ bufferSize) {steps : List Step}
    (hbounded : s.Bounded ctx bufferSize) (hrun : run ctx s steps = .ok t) :
    t.Bounded ctx bufferSize :=
  runM_invariant (Session.Bounded ctx bufferSize)
    (fun _ _ _ h hstep => h.step hquarter (step_ok h hstep)) hbounded hrun

theorem start_counted (bufferSize : ℕ) : (start bufferSize).Counted bufferSize := by
  refine ⟨?_, ?_, Nat.zero_le _, nofun⟩
  · simp [start, SLVoice.create]
  · simp [start, SLVoice.create]

/-- What a lock granted holds no byte of the stream that is still to be played, neither in the ring
nor in the overflow. -/
theorem Session.Counted.disjoint (h : s.Counted bufferSize) (hbounded : s.Bounded ctx bufferSize)
    {l : Lock} (hl : s.lock = some l) {p o : ℕ} (hfirst : s.played ≤ p) (hlast : p < s.committed)
    (ho : o = p % bufferSize ∨ o = bufferSize + p % bufferSize) :
    ¬ (l.audioPtr ≤ o ∧ o < l.audioPtr + l.audioBytes) := by
  obtain ⟨-, hcommitted, hroom, hgranted⟩ := h
  obtain ⟨hsize, ⟨-, hwrite⟩, hlock⟩ := hbounded
  rw [hsize] at hwrite
  obtain ⟨hptr, -⟩ := hlock l hl
  have hgrant := hgranted l hl
  rintro ⟨hge, hlt⟩
  -- the byte of the grant is one of the stream at the same place, and less than a ring ahead
  have hplace : (s.committed + (o - l.audioPtr)) % bufferSize = p % bufferSize := by
    have heq : s.committed + (o - l.audioPtr) = s.voice.writeWrapCount * bufferSize + o := by omega
    rw [heq, Nat.mul_add_mod_self_right]
    rcases ho with rfl | rfl
    · exact Nat.mod_mod _ _
    · rw [Nat.add_mod_left, Nat.mod_mod]
  have hahead : s.committed + (o - l.audioPtr) - p < bufferSize := by omega
  have hdvd := Nat.dvd_of_mod_eq_zero (Nat.sub_mod_eq_zero_of_mod_eq hplace)
  have := Nat.eq_zero_of_dvd_of_lt hdvd hahead
  omega

end

/-- **Main.** In every run no assertion fails and the heads stay in the ring. If no lock of the run
finds the ring exactly full (and no wrap counter overflows), then in every state the position is how
much of the stream is still to be played exactly when the ring is not exactly full, and what is
granted holds none of it. -/
theorem ring_accounting {ctx : EngineContext} {bufferSize : ℕ} (hsize : 0 < bufferSize)
    (hquarter : 4 * ctx.submitSize ≤ bufferSize) (steps : List Step) :
    run ctx (start bufferSize) steps ≠ .error .assertion ∧
      ∀ s, run ctx (start bufferSize) steps = .ok s →
        (s.voice.readHead < bufferSize ∧ s.voice.writeHead < bufferSize) ∧
        (Along (step ctx) (Sound ctx) (start bufferSize) steps →
          ((∃ voice, slGetPosition s.voice = .ok (s.committed - s.played, voice)) ↔
            ¬ s.voice.Full) ∧
          ∀ l, s.lock = some l → ∀ p, s.played ≤ p → p < s.committed →
            ∀ o, (o = p % bufferSize ∨ o = bufferSize + p % bufferSize) →
              ¬ (l.audioPtr ≤ o ∧ o < l.audioPtr + l.audioBytes)) := by
  have hstart := start_bounded ctx hsize
  refine ⟨fun herror => ?_, fun s hrun => ?_⟩
  · obtain ⟨before, a, after, t, -, hbefore, ha⟩ := (runM_error_iff _ _ _).mp herror
    rcases step_cases (run_bounded hquarter hstart hbefore) a with hmisuse | ⟨u, hu, -⟩
    · rw [hmisuse] at ha
      cases ha
    · rw [hu] at ha
      cases ha
  · have hbounded := run_bounded hquarter hstart hrun
    have hvoice := hbounded.voice
    refine ⟨⟨hbounded.size ▸ hvoice.readHead_lt, hbounded.size ▸ hvoice.writeHead_lt⟩,
      fun hsound => ?_⟩
    have hcounted := run_counted hquarter hstart (start_counted bufferSize) hsound hrun
    refine ⟨?_, fun l hl p hfirst hlast o ho => hcounted.disjoint hbounded hl hfirst hlast ho⟩
    rw [slGetPosition_ok hvoice]
    rcases hcounted.working hbounded with ⟨hfull, hcommitted, hbytes⟩ | ⟨hfull, -, hbytes⟩
    · rw [hbytes]
      refine iff_of_false ?_ (not_not.mpr hfull)
      rintro ⟨voice, heq⟩
      have := congrArg Prod.fst (Except.ok.inj heq)
      simp only at this
      omega
    · rw [hbytes]
      exact iff_of_true ⟨_, rfl⟩ hfull

/-- A ring of sixteen bytes that are played by four. -/
def smallContext : EngineContext where
  submitSize := 4
  ulong := 2 ^ 32

/-- A write that fills the ring: the position is then zero, and the next lock grants again what has
not been played. -/
theorem full_ring_is_empty :
    ∃ s, run smallContext (start 16) [.lock 0, .unlock 16] = .ok s ∧ s.played = 0 ∧
      s.committed = 16 ∧ slGetPosition s.voice = .ok (0, s.voice) ∧
      slLockBuffer smallContext s.voice 4 = .ok (0, 4, s.voice) :=
  ⟨_, rfl, rfl, rfl, rfl, rfl⟩

theorem ring_accounting_small :
    run smallContext (start 16) [.lock 8, .unlock 8, .callback] ≠ .error .assertion ∧
      ∀ s, run smallContext (start 16) [.lock 8, .unlock 8, .callback] = .ok s →
        (s.voice.readHead < 16 ∧ s.voice.writeHead < 16) ∧
        (Along (step smallContext) (Sound smallContext) (start 16) [.lock 8, .unlock 8, .callback] →
          ((∃ voice, slGetPosition s.voice = .ok (s.committed - s.played, voice)) ↔
            ¬ s.voice.Full) ∧
          ∀ l, s.lock = some l → ∀ p, s.played ≤ p → p < s.committed →
            ∀ o, (o = p % 16 ∨ o = 16 + p % 16) →
              ¬ (l.audioPtr ≤ o ∧ o < l.audioPtr + l.audioBytes)) :=
  ring_accounting (by decide) (by decide) _

end Apple2ix.OpenSles
