import Mathlib.Algebra.Group.Nat.Defs
import Apple2ix.Audio.Speaker

/-! What a flush does with the samples: when the backend takes less than everything, bytes and
samples are mixed up. -/
namespace Apple2ix.Sound
open Speaker
set_option autoImplicit false

theorem assert_true {condition : Bool} (h : condition = true) : assert condition = .ok () :=
  if_pos h

/-! ## The samples that a flush finds -/

/-- What was in the samples buffer is still there, and the buffers are as they were. -/
structure Extends (s s' : Speaker) : Prop where
  idx_le : s.samplesBufferIdx ≤ s'.samplesBufferIdx
  samples : ∀ i, i < sampleBytes * s.samplesBufferIdx → s'.samplesBuffer i = s.samplesBuffer i
  remainderSize : s'.remainderBufferSize = s.remainderBufferSize
  perSample : s'.cyclesPerSample = s.cyclesPerSample

/-- The remainder is less than a sample. -/
structure Ready (s : Speaker) : Prop where
  perSample : s.cyclesPerSample = s.remainderBufferSize
  idx_lt : s.remainderBufferIdx < s.remainderBufferSize

section
variable {s t u : Speaker}

theorem Extends.refl (s : Speaker) : Extends s s := ⟨Nat.le_refl _, fun _ _ => rfl, rfl, rfl⟩

theorem Extends.trans (h : Extends s t) (h' : Extends t u) : Extends s u := by
  refine ⟨h.idx_le.trans h'.idx_le, fun i hi => ?_, h'.remainderSize.trans h.remainderSize,
    h'.perSample.trans h.perSample⟩
  have hle := Nat.mul_le_mul_left sampleBytes h.idx_le
  rw [h'.samples i (Nat.lt_of_lt_of_le hi hle), h.samples i hi]

theorem Extends.buffered (h : Extends s t) : s.buffered <+: t.buffered := by
  have hle := Nat.mul_le_mul_left sampleBytes h.idx_le
  have hsame : s.buffered = window t.samplesBuffer 0 (sampleBytes * s.samplesBufferIdx) := by
    refine window_congr fun i hi => ?_
    rw [Nat.zero_add, h.samples i hi]
  rw [hsame, Speaker.buffered, ← window_take _ _ hle]
  exact List.take_prefix _ _

theorem setSample_before (b : Buf) (j : ℕ) (sample : Int16) (i : ℕ) (hi : i < sampleBytes * j) :
    setSample b j sample i = b i :=
  Buf.copy_outside _ _ _ _ _ (Or.inl hi)

theorem putSample_extends (s : Speaker) (sample : Int16) : Extends s (s.putSample sample) := by
  refine ⟨Nat.le_add_right _ _, fun i hi => ?_, rfl, rfl⟩
  have hnext : i < sampleBytes * (s.samplesBufferIdx + 1) :=
    Nat.lt_of_lt_of_le hi (Nat.mul_le_mul_left _ (Nat.le_succ _))
  exact (setSample_before _ _ _ _ hnext).trans (setSample_before _ _ _ _ hi)

theorem stepSilent_extends (s : Speaker) : Extends s s.stepSilent := by
  unfold stepSilent
  split
  · exact ⟨Nat.le_refl _, fun _ _ => rfl, rfl, rfl⟩
  · exact Extends.refl s

theorem stepSilent_remainder (s : Speaker) :
    s.stepSilent.remainderBufferIdx = s.remainderBufferIdx := by
  unfold stepSilent
  split <;> rfl

theorem putSamples_extends (n : ℕ) (s : Speaker) :
    Extends s (putSamples n s) ∧ (putSamples n s).remainderBufferIdx = s.remainderBufferIdx := by
  induction n generalizing s with
  | zero => exact ⟨Extends.refl s, rfl⟩
  | succ n ih =>
    rw [putSamples]
    split
    · obtain ⟨hextends, hidx⟩ := ih (s.putSample s.speakerData).stepSilent
      refine ⟨((putSample_extends s _).trans (stepSilent_extends _)).trans hextends, ?_⟩
      rw [hidx, stepSilent_remainder]
      rfl
    · exact ⟨Extends.refl s, rfl⟩

theorem putRemainder_extends (n : ℕ) (s : Speaker) :
    Extends s (putRemainder n s) ∧
      (putRemainder n s).remainderBufferIdx = s.remainderBufferIdx + n := by
  induction n generalizing s with
  | zero => exact ⟨Extends.refl s, rfl⟩
  | succ n ih =>
    rw [putRemainder]
    obtain ⟨hextends, hidx⟩ := ih { s with
      remainderBuffer := Function.update s.remainderBuffer s.remainderBufferIdx s.speakerData
      remainderBufferIdx := s.remainderBufferIdx + 1 }
    refine ⟨⟨hextends.idx_le, hextends.samples, hextends.remainderSize, hextends.perSample⟩, ?_⟩
    rw [hidx]
    simp only
    omega

/-- The remainder is topped off as far as the cycles go. -/
theorem topOff_extends (cycles : ℕ) (s : Speaker)
    (h : s.remainderBufferIdx ≤ s.remainderBufferSize) :
    Extends s (topOff cycles s).2 ∧
      (topOff cycles s).2.remainderBufferIdx ≤ s.remainderBufferSize ∧
      ((topOff cycles s).2.remainderBufferIdx = s.remainderBufferSize ∨
        (topOff cycles s).1 = 0) := by
  induction cycles generalizing s with
  | zero => exact ⟨Extends.refl s, h, Or.inr rfl⟩
  | succ cycles ih =>
    rw [topOff]
    split
    · obtain ⟨hextends, hle, hdone⟩ := ih { s with
        remainderBuffer := Function.update s.remainderBuffer s.remainderBufferIdx s.speakerData
        remainderBufferIdx := s.remainderBufferIdx + 1 } ‹_›
      exact ⟨⟨hextends.idx_le, hextends.samples, hextends.remainderSize, hextends.perSample⟩, hle,
        hdone⟩
    · exact ⟨Extends.refl s, h, Or.inl (Nat.le_antisymm h (Nat.not_lt.mp ‹_›))⟩

theorem finishSample_ok (cycles : ℕ) (h : Ready s) :
    ∃ rest t, finishSample cycles s = .ok (rest, t) ∧ Extends s t ∧
      t.remainderBufferIdx < s.remainderBufferSize ∧ (t.remainderBufferIdx = 0 ∨ rest = 0) := by
  unfold finishSample
  split
  · exact ⟨_, _, rfl, Extends.refl s, h.idx_lt, Or.inl ‹_›⟩
  · obtain ⟨hextends, hle, hdone⟩ := topOff_extends cycles s (Nat.le_of_lt h.idx_lt)
    have hpositive : 0 < s.remainderBufferSize := Nat.zero_lt_of_lt h.idx_lt
    simp only
    split
    · have hempty : Extends s { (topOff cycles s).2 with remainderBufferIdx := 0 } :=
        ⟨hextends.idx_le, hextends.samples, hextends.remainderSize, hextends.perSample⟩
      rw [assert_true (decide_eq_true (by rw [hextends.remainderSize]; exact hpositive)), ok_bind]
      split
      · exact ⟨_, _, rfl, hempty.trans (putSample_extends _ _), hpositive, Or.inl rfl⟩
      · exact ⟨_, _, rfl, hempty, hpositive, Or.inl rfl⟩
    · rename_i hpart
      rw [hextends.remainderSize] at hpart
      exact ⟨_, _, rfl, hextends, Nat.lt_of_le_of_ne hle hpart, Or.inr (hdone.resolve_left hpart)⟩

theorem wholeSamples_ok (cycles : ℕ) (h : Ready s)
    (hidle : s.remainderBufferIdx = 0 ∨ cycles = 0) :
    ∃ t, wholeSamples cycles s = .ok t ∧ Extends s t ∧ Ready t := by
  obtain ⟨hextends, hidx⟩ := putSamples_extends (cycles / s.cyclesPerSample) s
  have hpositive : 0 < s.cyclesPerSample := h.perSample ▸ Nat.zero_lt_of_lt h.idx_lt
  have hmod : cycles - cycles / s.cyclesPerSample * s.cyclesPerSample =
      cycles % s.cyclesPerSample := by
    rw [Nat.mul_comm]
    have := Nat.div_add_mod cycles s.cyclesPerSample
    omega
  have hlt : cycles % s.cyclesPerSample < s.remainderBufferSize :=
    h.perSample ▸ Nat.mod_lt _ hpositive
  have hready : Ready (putSamples (cycles / s.cyclesPerSample) s) := by
    refine ⟨?_, ?_⟩
    · rw [hextends.perSample, hextends.remainderSize, h.perSample]
    · rw [hidx, hextends.remainderSize]
      exact h.idx_lt
  unfold wholeSamples
  simp only [hmod]
  split
  · rename_i hrest
    have hzero : s.remainderBufferIdx = 0 := by
      refine hidle.resolve_right fun hcycles => ?_
      rw [hcycles, Nat.zero_mod] at hrest
      exact Nat.lt_irrefl 0 hrest
    rw [assert_true (decide_eq_true (hidx.trans hzero)), ok_bind, hextends.remainderSize,
      if_neg (Nat.not_le.mpr hlt)]
    obtain ⟨hextends', hidx'⟩ := putRemainder_extends (cycles % s.cyclesPerSample)
      (putSamples (cycles / s.cyclesPerSample) s)
    refine ⟨_, rfl, hextends.trans hextends', ?_, ?_⟩
    · rw [hextends'.perSample, hextends'.remainderSize, hready.perSample]
    · rw [hidx', hextends'.remainderSize, hidx, hzero, hextends.remainderSize]
      omega
  · exact ⟨_, rfl, hextends, hready⟩

theorem update_ok (machine : Machine) (h : Ready s) :
    ∃ t, s.update machine = .ok t ∧ Extends s t ∧ Ready t := by
  have hlast : ∀ {t : Speaker}, Extends s t ∧ Ready t →
      Extends s { t with cyclesLastUpdate := machine.cyclesCountTotal } ∧
        Ready { t with cyclesLastUpdate := machine.cyclesCountTotal } := fun ⟨he, hr⟩ =>
    ⟨⟨he.idx_le, he.samples, he.remainderSize, he.perSample⟩, hr.perSample, hr.idx_lt⟩
  unfold update
  split
  · exact ⟨_, rfl, hlast ⟨Extends.refl s, h⟩⟩
  · split
    · exact ⟨_, rfl, hlast ⟨Extends.refl s, h⟩⟩
    · obtain ⟨rest, t, hfinish, hextends, hlt, hidle⟩ :=
        finishSample_ok (machine.cyclesCountTotal - s.cyclesLastUpdate) h
      have hready : Ready t := by
        refine ⟨?_, ?_⟩
        · rw [hextends.perSample, hextends.remainderSize, h.perSample]
        · rw [hextends.remainderSize]
          exact hlt
      obtain ⟨u, hwhole, hextends', hready'⟩ := wholeSamples_ok rest hready hidle
      refine ⟨_, ?_, hlast ⟨hextends.trans hextends', hready'⟩⟩
      rw [hfinish, ok_bind]
      simp only [hwhole, ok_bind]

theorem noteQuiet_same (machine : Machine) (s : Speaker) :
    (s.noteQuiet machine).samplesBuffer = s.samplesBuffer ∧
      (s.noteQuiet machine).samplesBufferIdx = s.samplesBufferIdx ∧
      (s.noteQuiet machine).remainderBufferSize = s.remainderBufferSize ∧
      (s.noteQuiet machine).remainderBufferIdx = s.remainderBufferIdx ∧
      (s.noteQuiet machine).cyclesPerSample = s.cyclesPerSample := by
  unfold noteQuiet
  by_cases hzero : s.cyclesQuietTime = 0 <;> simp only [hzero, if_true, if_false] <;>
    (repeat' split) <;> exact ⟨rfl, rfl, rfl, rfl, rfl⟩

/-- A flush adds samples to those that are there. -/
theorem prepare_ok (machine : Machine) (h : Ready s) :
    ∃ t, s.prepare machine = .ok t ∧ s.buffered <+: t.buffered ∧ Ready t := by
  obtain ⟨hsamples, hidx, hsize, hremainder, hper⟩ := noteQuiet_same machine s
  have hready : Ready (s.noteQuiet machine) := by
    refine ⟨?_, ?_⟩
    · rw [hper, hsize, h.perSample]
    · rw [hremainder, hsize]
      exact h.idx_lt
  obtain ⟨t, hupdate, hextends, hready'⟩ := update_ok machine hready
  refine ⟨t, hupdate, ?_, hready'⟩
  have hbuffered := hextends.buffered
  rw [Speaker.buffered, hsamples, hidx] at hbuffered
  exact hbuffered

end

/-! ## What the backend takes -/

/-- How many bytes the backend takes when it is asked for the `counter`-th time, of `asked` ones. -/
def AudioBuffer.took (buffer : AudioBuffer) (counter limit asked : ℕ) : ℕ :=
  match (buffer.answer counter).room with
  | none => 0
  | some room => if (buffer.answer counter).unlocks then min (min room asked) limit else 0

/-- Whether it takes something, but neither all that it is asked for nor more than there can be. -/
def AudioBuffer.partly (buffer : AudioBuffer) (limit asked : ℕ) : Bool :=
  match (buffer.answer 0).room with
  | none => false
  | some room => (buffer.answer 0).unlocks && (min room asked ≤ limit && room < asked)

namespace Speaker

/-- How many samples a flush hands over, and how many bytes it asks the backend to take, when so
many bytes are free. -/
def usable (speaker : Speaker) (bytesFree : ℕ) : ℕ :=
  if bytesFree < speaker.samplesBufferIdx * sampleBytes then bytesFree / sampleBytes
  else speaker.samplesBufferIdx

def requested (speaker : Speaker) (bytesFree : ℕ) : ℕ :=
  if bytesFree < speaker.samplesBufferIdx * sampleBytes then bytesFree
  else speaker.samplesBufferIdx * sampleBytes

/-- What the first lock takes, and the second one if there is one. -/
def firstTaken (speaker : Speaker) (buffer : AudioBuffer) (bytesFree : ℕ) : ℕ :=
  buffer.took 0 speaker.maxSpeakerBytes (speaker.requested bytesFree)

def secondTaken (speaker : Speaker) (buffer : AudioBuffer) (bytesFree : ℕ) : ℕ :=
  if buffer.partly speaker.maxSpeakerBytes (speaker.requested bytesFree) then
    buffer.took 1 speaker.maxSpeakerBytes
      (speaker.requested bytesFree - speaker.firstTaken buffer bytesFree)
  else 0

/-- The samples come through. The backend tells how much it has queued, and takes all that is used;
the bytes that a second lock gets, from twice the place where they should come from, and those that
the move leaves out, are the same as the right ones. -/
def Keeps (ulong : ℕ) (speaker : Speaker) (buffer : AudioBuffer) : Prop :=
  speaker.samplesBufferIdx = 0 ∨
    ∃ bytesQueued, buffer.position = some bytesQueued ∧
      let bytesFree := speaker.bytesFree ulong bytesQueued
      let used := speaker.usable bytesFree
      let first := speaker.firstTaken buffer bytesFree
      let second := speaker.secondTaken buffer bytesFree
      let kept := speaker.samplesBufferIdx - used
      first + second = sampleBytes * used ∧
        (∀ i, i < second →
          speaker.samplesBuffer (sampleBytes * first + i) = speaker.samplesBuffer (first + i)) ∧
        ∀ i, kept ≤ i → i < sampleBytes * kept →
          speaker.samplesBuffer i = speaker.samplesBuffer (sampleBytes * used + i)

end Speaker

section
variable {s : Speaker} {buffer : AudioBuffer}

theorem window_overwritten (b c : Buf) (n : ℕ) : window (b.copy 0 c n) 0 n = window c 0 n := by
  refine window_eq_iff.mpr fun i hi => ?_
  rw [Buf.copy_inside _ _ _ _ _ hi, Nat.zero_add]

theorem window_from (b : Buf) (off n : ℕ) : window (b.from off) 0 n = window b off n := by
  refine window_eq_iff.mpr fun i _ => ?_
  rw [Nat.zero_add]
  rfl

theorem clamp_eq (limit granted : ℕ) :
    (if (limit < granted : Bool) then limit else granted) = min granted limit := by
  by_cases h : limit < granted
  · rw [if_pos (decide_eq_true h), Nat.min_eq_right (Nat.le_of_lt h)]
  · rw [if_neg (by simpa using h), Nat.min_eq_left (Nat.not_lt.mp h)]

/-- What the last lock hands over. -/
theorem submitLoop_last (s : Speaker) (buffer : AudioBuffer) (counter curr asked idx : ℕ) :
    submitLoop buffer s 1 counter curr asked idx =
      window s.samplesBuffer (sampleBytes * idx) (buffer.took counter s.maxSpeakerBytes curr) := by
  unfold submitLoop AudioBuffer.took
  cases (buffer.answer counter).room with
  | none => rfl
  | some room =>
    cases (buffer.answer counter).unlocks with
    | false => rfl
    | true =>
      simp only [if_true, clamp_eq, submitLoop, ite_self, List.append_nil]
      rw [window_overwritten, window_from]

/-- What the loop hands over. -/
theorem submitLoop_eq (s : Speaker) (buffer : AudioBuffer) (asked : ℕ) :
    submitLoop buffer s 2 0 asked asked 0 =
      window s.samplesBuffer 0 (buffer.took 0 s.maxSpeakerBytes asked) ++
        window s.samplesBuffer (sampleBytes * buffer.took 0 s.maxSpeakerBytes asked)
          (if buffer.partly s.maxSpeakerBytes asked then
            buffer.took 1 s.maxSpeakerBytes (asked - buffer.took 0 s.maxSpeakerBytes asked)
          else 0) := by
  rw [submitLoop]
  cases hroom : (buffer.answer 0).room with
  | none => simp [AudioBuffer.took, AudioBuffer.partly, hroom, window]
  | some room =>
    cases hunlocks : (buffer.answer 0).unlocks with
    | false => simp [AudioBuffer.took, AudioBuffer.partly, hroom, hunlocks, window]
    | true =>
      have htook : buffer.took 0 s.maxSpeakerBytes asked =
          min (min room asked) s.maxSpeakerBytes := by
        rw [AudioBuffer.took, hroom, hunlocks]
        rfl
      have hpartly : buffer.partly s.maxSpeakerBytes asked =
          (decide (min room asked ≤ s.maxSpeakerBytes) && decide (room < asked)) := by
        rw [AudioBuffer.partly, hroom, hunlocks]
        rfl
      simp only [if_true, clamp_eq, submitLoop_last]
      rw [window_overwritten, window_from, htook, hpartly, Nat.zero_add, Nat.mul_zero]
      congr 1
      by_cases hclamped : s.maxSpeakerBytes < min room asked
      · rw [if_neg (by simp [hclamped]; omega), if_neg (by simp; omega)]
        rfl
      · have hbelow : ¬ decide (s.maxSpeakerBytes < min room asked) = true := by
          simpa using hclamped
        rw [if_neg hbelow]
        by_cases hless : room < asked
        · rw [if_pos (by omega), if_pos (by simp; omega)]
        · rw [if_neg (by omega), if_neg (by simp; omega)]
          rfl

/-- The bytes that were handed over and those that are left, against what was there. -/
theorem keeps_iff (b : Buf) (first second used kept : ℕ) :
    window b 0 first ++ window b (sampleBytes * first) second ++
        window (b.copy 0 (b.from (sampleBytes * used)) kept) 0 (sampleBytes * kept) =
      window b 0 (sampleBytes * (used + kept)) ↔
    first + second = sampleBytes * used ∧
      (∀ i, i < second → b (sampleBytes * first + i) = b (first + i)) ∧
      ∀ i, kept ≤ i → i < sampleBytes * kept → b i = b (sampleBytes * used + i) := by
  have hmoved : window (b.copy 0 (b.from (sampleBytes * used)) kept) 0 (sampleBytes * kept) =
        window b (sampleBytes * used) (sampleBytes * kept) ↔
      ∀ i, kept ≤ i → i < sampleBytes * kept → b i = b (sampleBytes * used + i) := by
    rw [window_eq_iff]
    constructor
    · intro h i hge hlt
      rw [← h i hlt, Buf.copy_outside _ _ _ _ _ (Or.inr (by omega)), Nat.zero_add]
    · intro h i hlt
      by_cases hin : i < kept
      · rw [Buf.copy_inside _ _ _ _ _ hin]
        rfl
      · rw [Buf.copy_outside _ _ _ _ _ (Or.inr (by omega)), Nat.zero_add,
          h i (Nat.not_lt.mp hin) hlt]
  rw [← hmoved, ← window_eq_iff (b := b) (c := b)]
  constructor
  · intro h
    have hlength := congrArg List.length h
    simp only [List.length_append, window_length, sampleBytes] at hlength
    have htaken : first + second = sampleBytes * used := by
      rw [sampleBytes]
      omega
    have hwhole : window b 0 first ++ window b first second ++
        window b (sampleBytes * used) (sampleBytes * kept) =
          window b 0 (sampleBytes * (used + kept)) := by
      rw [Nat.mul_add, ← window_append, ← htaken, ← window_append]
      simp only [Nat.zero_add]
    rw [← hwhole] at h
    obtain ⟨hhanded, hleft⟩ := List.append_inj h (by simp [window_length])
    exact ⟨htaken, (List.append_inj hhanded (by simp [window_length])).2, hleft⟩
  · rintro ⟨htaken, hsecond, hleft⟩
    rw [hsecond, hleft, Nat.mul_add, ← window_append, ← htaken, ← window_append]
    simp only [Nat.zero_add]

theorem usable_le (s : Speaker) (bytesFree : ℕ) : s.usable bytesFree ≤ s.samplesBufferIdx := by
  unfold usable
  split
  · rename_i hless
    rw [sampleBytes] at hless ⊢
    omega
  · exact Nat.le_refl _

/-- What is submitted, and what is counted as used. -/
theorem submitSamplesBuffer_ok (ulong bytesQueued : ℕ) (hidx : s.samplesBufferIdx ≠ 0)
    (hposition : buffer.position = some bytesQueued) :
    submitSamplesBuffer ulong buffer s s.samplesBufferIdx =
      .ok (s.usable (s.bytesFree ulong bytesQueued),
        window s.samplesBuffer 0 (s.firstTaken buffer (s.bytesFree ulong bytesQueued)) ++
          window s.samplesBuffer
            (sampleBytes * s.firstTaken buffer (s.bytesFree ulong bytesQueued))
            (s.secondTaken buffer (s.bytesFree ulong bytesQueued)),
        s.adjust bytesQueued) := by
  unfold submitSamplesBuffer
  rw [assert_true (decide_eq_true hidx), ok_bind, hposition]
  simp only
  change (if s.requested (s.bytesFree ulong bytesQueued) ≠ 0 then
      (Except.ok (s.usable (s.bytesFree ulong bytesQueued),
        submitLoop buffer (s.adjust bytesQueued) 2 0 (s.requested (s.bytesFree ulong bytesQueued))
          (s.requested (s.bytesFree ulong bytesQueued)) 0, s.adjust bytesQueued) :
        Except Fault (ℕ × List UInt8 × Speaker))
    else Except.ok (s.usable (s.bytesFree ulong bytesQueued), [], s.adjust bytesQueued)) = _
  by_cases hrequested : s.requested (s.bytesFree ulong bytesQueued) = 0
  · have htook : ∀ counter limit, buffer.took counter limit 0 = 0 := by
      intro counter limit
      unfold AudioBuffer.took
      cases (buffer.answer counter).room with
      | none => rfl
      | some room => simp
    have hfirst : s.firstTaken buffer (s.bytesFree ulong bytesQueued) = 0 := by
      rw [firstTaken, hrequested, htook]
    have hsecond : s.secondTaken buffer (s.bytesFree ulong bytesQueued) = 0 := by
      rw [secondTaken, hrequested, Nat.zero_sub, htook, ite_self]
    rw [if_neg (not_not.mpr hrequested), hfirst, hsecond]
    rfl
  · rw [if_pos hrequested, submitLoop_eq]
    rfl

end

theorem dropSamples_buffered (s : Speaker) (used : ℕ) :
    (s.dropSamples used).buffered =
      window (s.samplesBuffer.copy 0 (s.samplesBuffer.from (sampleBytes * used))
        (s.samplesBufferIdx - used)) 0 (sampleBytes * (s.samplesBufferIdx - used)) := by
  unfold dropSamples
  by_cases hused : used = 0
  · subst hused
    refine window_congr fun i hi => ?_
    simp only [ne_eq, not_true_eq_false, if_false, Nat.mul_zero, Nat.sub_zero, Nat.zero_add]
    by_cases hin : i < s.samplesBufferIdx
    · have hcopy := s.samplesBuffer.copy_inside (s.samplesBuffer.from 0) 0 _ i hin
      simp only [Nat.zero_add, Buf.from] at hcopy
      exact hcopy.symm
    · exact (Buf.copy_outside _ _ _ _ _ (Or.inr (by omega))).symm
  · rw [if_pos hused]
    rfl

/-- What a flush at normal speed does with the samples that it finds. -/
theorem flush_cases {s t : Speaker} {machine : Machine} (hprepare : s.prepare machine = .ok t)
    (havailable : s.speakerIsAvailable = true) (hnormal : machine.isFullspeed = false)
    (buffer : AudioBuffer) : ∃ taken u, s.flush machine buffer = .ok (taken, u) ∧
      (t.samplesBufferIdx = 0 ∧ taken = [] ∧ u = t ∨
      t.samplesBufferIdx ≠ 0 ∧ buffer.position = none ∧ taken = [] ∧
        u = t.dropSamples t.samplesBufferIdx ∨
      ∃ bytesQueued, t.samplesBufferIdx ≠ 0 ∧ buffer.position = some bytesQueued ∧
        taken = window t.samplesBuffer 0
          (t.firstTaken buffer (t.bytesFree machine.ulong bytesQueued)) ++
          window t.samplesBuffer
            (sampleBytes * t.firstTaken buffer (t.bytesFree machine.ulong bytesQueued))
            (t.secondTaken buffer (t.bytesFree machine.ulong bytesQueued)) ∧
        u = (t.adjust bytesQueued).dropSamples
          (t.usable (t.bytesFree machine.ulong bytesQueued))) := by
  by_cases hidx : t.samplesBufferIdx = 0
  · refine ⟨[], t, ?_, Or.inl ⟨hidx, rfl, rfl⟩⟩
    simp only [flush, havailable, Bool.not_true, hprepare, ok_bind, hnormal, hidx]
    rfl
  have hflush : s.flush machine buffer =
      (submitSamplesBuffer machine.ulong buffer t t.samplesBufferIdx >>= fun r => do
        assert (r.1 ≤ r.2.2.samplesBufferIdx)
        .ok (r.2.1, r.2.2.dropSamples r.1)) := by
    simp only [flush, havailable, Bool.not_true, hprepare, ok_bind, hnormal, ne_eq, hidx,
      not_false_eq_true, if_true]
    rfl
  cases hposition : buffer.position with
  | none =>
    refine ⟨[], _, ?_, Or.inr (Or.inl ⟨hidx, rfl, rfl, rfl⟩)⟩
    rw [hflush, submitSamplesBuffer, assert_true (decide_eq_true hidx), ok_bind, hposition]
    simp only [ok_bind]
    rw [assert_true (decide_eq_true (Nat.le_refl _)), ok_bind]
  | some bytesQueued =>
    have hassert : assert (t.usable (t.bytesFree machine.ulong bytesQueued) ≤
        (t.adjust bytesQueued).samplesBufferIdx) = .ok () :=
      assert_true (decide_eq_true (usable_le t _))
    refine ⟨_, _, ?_, Or.inr (Or.inr ⟨bytesQueued, hidx, rfl, rfl, rfl⟩)⟩
    rw [hflush, submitSamplesBuffer_ok machine.ulong bytesQueued hidx hposition, ok_bind]
    simp only
    rw [hassert, ok_bind]

/-- **Main.** What the backend takes in a flush at normal speed, followed by the samples left, is
what was there to submit if and only if the samples come through. -/
theorem flush_keeps_samples {s : Speaker} (h : Ready s) (havailable : s.speakerIsAvailable = true)
    {machine : Machine} (hnormal : machine.isFullspeed = false) (buffer : AudioBuffer) :
    ∃ t taken u, s.prepare machine = .ok t ∧ s.buffered <+: t.buffered ∧
      s.flush machine buffer = .ok (taken, u) ∧
      (taken ++ u.buffered = t.buffered ↔ t.Keeps machine.ulong buffer) := by
  obtain ⟨t, hprepare, hbuffered, -⟩ := prepare_ok machine h
  obtain ⟨taken, u, hflush, hcases⟩ := flush_cases hprepare havailable hnormal buffer
  refine ⟨t, taken, u, hprepare, hbuffered, hflush, ?_⟩
  obtain ⟨hidx, rfl, rfl⟩ | ⟨hidx, hposition, rfl, rfl⟩ |
    ⟨bytesQueued, hidx, hposition, rfl, rfl⟩ :=
    hcases
  · exact iff_of_true rfl (Or.inl hidx)
  · have hempty : (t.dropSamples t.samplesBufferIdx).buffered = [] := by
      simp only [dropSamples, ne_eq, hidx, not_false_eq_true, if_true, Speaker.buffered,
        Nat.sub_self]
      rfl
    rw [hempty]
    refine iff_of_false ?_ ?_
    · intro heq
      have hlength := congrArg List.length heq
      rw [Speaker.buffered, window_length, sampleBytes] at hlength
      simp only [List.append_nil, List.length_nil] at hlength
      omega
    · rintro (hzero | ⟨bytesQueued, hsome, -⟩)
      · exact hidx hzero
      · rw [hposition] at hsome
        cases hsome
  · obtain ⟨free, hfree⟩ : ∃ free, t.bytesFree machine.ulong bytesQueued = free := ⟨_, rfl⟩
    rw [hfree]
    have hwhole : t.buffered = window t.samplesBuffer 0
        (sampleBytes * (t.usable free + (t.samplesBufferIdx - t.usable free))) := by
      rw [Nat.add_sub_of_le (usable_le t free), Speaker.buffered]
    rw [dropSamples_buffered, hwhole]
    refine (keeps_iff t.samplesBuffer _ _ _ _).trans ?_
    constructor
    · intro hkeeps
      refine Or.inr ⟨bytesQueued, hposition, ?_⟩
      rw [hfree]
      exact hkeeps
    · rintro (hzero | ⟨queued, hsome, hkeeps⟩)
      · exact absurd hzero hidx
      · rw [hposition] at hsome
        cases hsome
        rw [hfree] at hkeeps
        exact hkeeps

/-- A machine at normal speed that is where the speaker is. -/
def idleMachine : Machine where
  cyclesCountTotal := 0
  cyclesPersecTarget := 1020484
  isFullspeed := false
  ulong := 2 ^ 64

/-- The samples 1, 2, 3 and 4, and behind them 5 and 6. -/
def fourSamples : Speaker where
  bufferTotalSize := 128
  bufferSizeIdealMin := 32
  bufferSizeIdealMax := 64
  channelsSampleRateHz := 44100
  speakerIsAvailable := true
  samplesBuffer := ([1, 0, 2, 0, 3, 0, 4, 0, 5, 0, 6, 0].getD · 0)
  remainderBuffer := fun _ => 0
  samplesBufferIdx := 4
  remainderBufferSize := 46
  remainderBufferIdx := 0
  speakerData := 0
  cyclesPerSample := 46
  cyclesLastUpdate := 0
  cyclesQuietTime := 0
  speakerAccessedSinceLastFlush := true
  speakerRecentlyActive := true
  speakerGoingSilent := false
  samplesAdjustmentCounter := 0
  cyclesSpeakerFeedback := 0

/-- A backend with so many bytes queued, that has room for so many at a time. -/
def backend (queued room : ℕ) : AudioBuffer where
  position := some queued
  answer := fun _ => ⟨some room, fun _ => 0, true⟩

set_option maxRecDepth 4000 in
/-- With room for two samples, the third sample comes twice and the fourth is lost; when it takes
half of what it is given, the samples behind the second one come from behind the fourth. -/
theorem flush_loses_samples :
    (∃ t u, fourSamples.prepare idleMachine = .ok t ∧ t.buffered = [1, 0, 2, 0, 3, 0, 4, 0] ∧
      fourSamples.flush idleMachine (backend 124 128) = .ok ([1, 0, 2, 0], u) ∧
      u.buffered = [3, 0, 2, 0]) ∧
    ∃ u, fourSamples.flush idleMachine (backend 0 4) = .ok ([1, 0, 2, 0, 5, 0, 6, 0], u) ∧
      u.buffered = [] :=
  ⟨⟨_, _, rfl, rfl, rfl, rfl⟩, _, rfl, rfl⟩

/-- All four samples are taken at once. -/
theorem flush_keeps_samples_small :
    ∃ t taken u, fourSamples.prepare idleMachine = .ok t ∧
      fourSamples.flush idleMachine (backend 0 128) = .ok (taken, u) ∧
      taken ++ u.buffered = t.buffered := by
  have hready : Ready fourSamples := ⟨rfl, by decide⟩
  have hnormal : idleMachine.isFullspeed = false := rfl
  obtain ⟨t, taken, u, hprepare, -, hflush, hiff⟩ :=
    flush_keeps_samples hready rfl hnormal (backend 0 128)
  refine ⟨t, taken, u, hprepare, hflush, hiff.mpr (Or.inr ⟨0, rfl, ?_⟩)⟩
  cases hprepare
  exact ⟨rfl, fun i hi => absurd hi (Nat.not_lt_zero i), fun i _ hi =>
    absurd hi (Nat.not_lt_zero i)⟩

end Apple2ix.Sound
