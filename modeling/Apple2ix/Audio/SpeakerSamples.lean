import Mathlib.Algebra.GroupWithZero.Nat
import Mathlib.Algebra.Ring.Int.Defs
import Apple2ix.Audio.SpeakerFlush
import Apple2ix.Foundations.Chunks
import Apple2ix.Foundations.Runs

/-! The samples that the speaker makes of the cycles: the stream of levels is cut into samples,
however the cycles are split between the calls. -/
namespace Apple2ix.Sound
open Speaker Chunks Runs
set_option autoImplicit false

/-! ## Samples of a buffer -/

/-- `samples_buffer[i]`. -/
def sampleAt (samplesBuffer : Buf) (i : ℕ) : Int16 :=
  (UInt16.ofNat ((samplesBuffer (sampleBytes * i)).toNat +
    256 * (samplesBuffer (sampleBytes * i + 1)).toNat)).toInt16

/-- `samples_buffer[start..start + n)`. -/
def samplesFrom (samplesBuffer : Buf) (start n : ℕ) : List Int16 :=
  (List.range n).map fun k => sampleAt samplesBuffer (start + k)

/-- A sample for each channel. -/
def forChannels (samples : List Int16) : List Int16 :=
  samples.flatMap fun sample => List.replicate numChannels sample

section Buffer
variable {b : Buf} {start m n : ℕ}

theorem sampleAt_setSample (b : Buf) (i : ℕ) (sample : Int16) :
    sampleAt (setSample b i sample) i = sample := by
  have hlow := Buf.copy_inside b (fun k => UInt8.ofNat
    (if k = 0 then sample.toUInt16.toNat else sample.toUInt16.toNat / 256)) (sampleBytes * i)
    sampleBytes 0 (by decide)
  have hhigh := Buf.copy_inside b (fun k => UInt8.ofNat
    (if k = 0 then sample.toUInt16.toNat else sample.toUInt16.toNat / 256)) (sampleBytes * i)
    sampleBytes 1 (by decide)
  have hlt := sample.toUInt16.toNat_lt
  have hword : (UInt8.ofNat sample.toUInt16.toNat).toNat +
      256 * (UInt8.ofNat (sample.toUInt16.toNat / 256)).toNat = sample.toUInt16.toNat := by
    rw [UInt8.toNat_ofNat', UInt8.toNat_ofNat']
    omega
  rw [Nat.add_zero] at hlow
  rw [sampleAt, setSample, hlow, hhigh, if_pos rfl, if_neg Nat.one_ne_zero, hword,
    UInt16.ofNat_toNat]
  rfl

theorem sampleAt_other {i j : ℕ} (h : i ≠ j) (b : Buf) (sample : Int16) :
    sampleAt (setSample b j sample) i = sampleAt b i := by
  have hout :
      ∀ k, k < 2 → setSample b j sample (sampleBytes * i + k) = b (sampleBytes * i + k) := by
    intro k hk
    refine Buf.copy_outside _ _ _ _ _ ?_
    rw [sampleBytes]
    omega
  rw [sampleAt, sampleAt, hout 1 (by decide), ← Nat.add_zero (sampleBytes * i), hout 0 (by decide)]

theorem samplesFrom_append (b : Buf) (start m n : ℕ) :
    samplesFrom b start (m + n) = samplesFrom b start m ++ samplesFrom b (start + m) n := by
  simp only [samplesFrom, List.range_add, List.map_append, List.map_map]
  congr 1
  refine List.map_congr_left fun k _ => ?_
  rw [Function.comp, Nat.add_assoc]

theorem samplesFrom_congr {c : Buf}
    (h : ∀ i, start ≤ i → i < start + n → sampleAt b i = sampleAt c i) :
    samplesFrom b start n = samplesFrom c start n := by
  refine List.map_congr_left fun k hk => ?_
  have hlt := List.mem_range.mp hk
  exact h (start + k) (by omega) (by omega)

end Buffer

/-! ## The levels -/

/-- The mean of some levels, as an `int` divides. -/
def mean (levels : List Int16) : Int16 :=
  Int16.ofInt ((levels.map Int16.toInt).sum.tdiv levels.length)

/-- The level behind a whole sample: a speaker that goes silent comes a step closer to zero. -/
def quieter (silent : Bool) (level : Int16) : Int16 :=
  if silent && level ≠ 0 then
    if level < 0 then level + spkrSilentStep else level - spkrSilentStep
  else level

/-- The levels of whole samples, one after the other. -/
def wholeLevels (perSample : ℕ) (silent : Bool) : ℕ → Int16 → List (List Int16)
  | 0, _ => []
  | samples + 1, level =>
    List.replicate perSample level :: wholeLevels perSample silent samples (quieter silent level)

namespace Speaker

/-- The levels of the cycles that wait for a whole sample. -/
def remainder (speaker : Speaker) : List Int16 :=
  (List.range speaker.remainderBufferIdx).map speaker.remainderBuffer

/-- How many of the next cycles belong to a sample begun before. -/
def straddling (speaker : Speaker) (cycles : ℕ) : ℕ :=
  if speaker.remainderBufferIdx = 0 then 0
  else min cycles (speaker.cyclesPerSample - speaker.remainderBufferIdx)

/-- The level in force in each of the next cycles: the one that the speaker has, which changes only
behind whole samples, and only if it goes silent. -/
def levels (speaker : Speaker) (cycles : ℕ) : List Int16 :=
  let first := speaker.straddling cycles
  let samples := (cycles - first) / speaker.cyclesPerSample
  List.replicate first speaker.speakerData ++
    ((wholeLevels speaker.cyclesPerSample speaker.speakerGoingSilent samples
        speaker.speakerData).flatten ++
      List.replicate ((cycles - first) % speaker.cyclesPerSample)
        ((quieter speaker.speakerGoingSilent)^[samples] speaker.speakerData))

/-- How many samples the next cycles complete. -/
def due (speaker : Speaker) (cycles : ℕ) : ℕ :=
  (speaker.remainderBufferIdx + cycles) / speaker.cyclesPerSample

/-- There is room for them. -/
def Room (speaker : Speaker) (cycles : ℕ) : Prop :=
  speaker.samplesBufferIdx + numChannels * speaker.due cycles ≤ speaker.channelsSampleRateHz

/-- What was appended to the samples since. -/
def appendedSince (before after : Speaker) : List Int16 :=
  samplesFrom after.samplesBuffer before.samplesBufferIdx
    (after.samplesBufferIdx - before.samplesBufferIdx)

end Speaker

section Levels
variable {s : Speaker} {cycles : ℕ}

theorem sum_replicate (n : ℕ) (x : ℤ) : (List.replicate n x).sum = x * n := by
  induction n with
  | zero => exact (Int.mul_zero x).symm
  | succ n ih =>
    have hnext : ((n + 1 : ℕ) : ℤ) = n + 1 := rfl
    rw [List.replicate_succ, List.sum_cons, ih, hnext, Int.mul_add, Int.mul_one, Int.add_comm]

/-- A sample whose cycles have one level has that level. -/
theorem mean_replicate {n : ℕ} (hn : 0 < n) (level : Int16) :
    mean (List.replicate n level) = level := by
  have hne : (n : ℤ) ≠ 0 := by omega
  rw [mean, List.map_replicate, sum_replicate, List.length_replicate, Int.mul_tdiv_cancel _ hne,
    Int16.ofInt_toInt]

theorem wholeLevels_length (perSample : ℕ) (silent : Bool) (samples : ℕ) (level : Int16) :
    (wholeLevels perSample silent samples level).length = samples ∧
      ∀ l ∈ wholeLevels perSample silent samples level, l.length = perSample := by
  induction samples generalizing level with
  | zero => exact ⟨rfl, nofun⟩
  | succ samples ih =>
    obtain ⟨hlength, hall⟩ := ih (quieter silent level)
    refine ⟨by rw [wholeLevels, List.length_cons, hlength], ?_⟩
    intro l hl
    rw [wholeLevels, List.mem_cons] at hl
    obtain rfl | hl := hl
    · exact List.length_replicate
    · exact hall l hl

theorem straddling_le (s : Speaker) (cycles : ℕ) : s.straddling cycles ≤ cycles := by
  unfold straddling
  split
  · exact Nat.zero_le _
  · exact Nat.min_le_left _ _

/-- There is one level for each cycle. -/
theorem levels_length (s : Speaker) (cycles : ℕ) : (s.levels cycles).length = cycles := by
  have hstraddling := straddling_le s cycles
  have hflatten : ∀ samples level, (wholeLevels s.cyclesPerSample s.speakerGoingSilent samples
      level).flatten.length = samples * s.cyclesPerSample := by
    intro samples level
    obtain ⟨hlength, hall⟩ :=
      wholeLevels_length s.cyclesPerSample s.speakerGoingSilent samples level
    rw [List.length_flatten, List.map_congr_left hall, List.map_const', List.sum_replicate_nat,
      hlength]
  have hsplit := Nat.div_add_mod (cycles - s.straddling cycles) s.cyclesPerSample
  rw [Nat.mul_comm] at hsplit
  simp only [Speaker.levels, List.length_append, List.length_replicate, hflatten]
  omega

theorem levels_none (s : Speaker) : s.levels 0 = [] :=
  List.length_eq_zero_iff.mp (levels_length s 0)

end Levels

/-! ## The loops -/

section Loops
variable {s t : Speaker} {cycles n : ℕ}

/-- The remainder with `n` more cycles of a level. -/
def filled (buffer : ℕ → Int16) (start n : ℕ) (level : Int16) : ℕ → Int16 := fun i =>
  if start ≤ i ∧ i < start + n then level else buffer i

theorem filled_succ (buffer : ℕ → Int16) (start n : ℕ) (level : Int16) :
    filled (Function.update buffer start level) (start + 1) n level =
      filled buffer start (n + 1) level := by
  funext i
  unfold filled
  by_cases hi : i = start
  · subst hi
    rw [if_neg (by omega), if_pos (by omega), Function.update_self]
  · rw [Function.update_of_ne hi]
    by_cases hin : start + 1 ≤ i ∧ i < start + 1 + n
    · rw [if_pos hin, if_pos (by omega)]
    · rw [if_neg hin, if_neg (by omega)]

theorem putRemainder_eq (n : ℕ) (s : Speaker) : putRemainder n s =
    { s with
      remainderBuffer := filled s.remainderBuffer s.remainderBufferIdx n s.speakerData
      remainderBufferIdx := s.remainderBufferIdx + n } := by
  induction n generalizing s with
  | zero =>
    have hnone : filled s.remainderBuffer s.remainderBufferIdx 0 s.speakerData =
        s.remainderBuffer := by
      funext i
      exact if_neg (by omega)
    rw [hnone]
    rfl
  | succ n ih =>
    rw [putRemainder, ih]
    simp only [filled_succ, Nat.add_assoc, Nat.add_comm 1 n]

theorem remainder_putRemainder (n : ℕ) (s : Speaker) :
    (putRemainder n s).remainder = s.remainder ++ List.replicate n s.speakerData := by
  rw [putRemainder_eq]
  simp only [Speaker.remainder, List.range_add, List.map_append, List.map_map]
  congr 1
  · refine List.map_congr_left fun i hi => ?_
    have hlt := List.mem_range.mp hi
    exact if_neg (by omega)
  · refine List.ext_getElem (by simp) fun i hi _ => ?_
    rw [List.length_map, List.length_range] at hi
    simp only [List.getElem_map, List.getElem_range, List.getElem_replicate, Function.comp]
    exact if_pos (by omega)

/-- The remainder is topped off with as many cycles as there are, or as it takes. -/
theorem topOff_eq (cycles : ℕ) (s : Speaker) (h : s.remainderBufferIdx ≤ s.remainderBufferSize) :
    topOff cycles s =
      (cycles - min cycles (s.remainderBufferSize - s.remainderBufferIdx),
        putRemainder (min cycles (s.remainderBufferSize - s.remainderBufferIdx)) s) := by
  induction cycles generalizing s with
  | zero => rw [Nat.zero_min]; rfl
  | succ cycles ih =>
    rw [topOff]
    split
    · rename_i hlt
      have hmin : min (cycles + 1) (s.remainderBufferSize - s.remainderBufferIdx) =
          min cycles (s.remainderBufferSize - (s.remainderBufferIdx + 1)) + 1 := by omega
      rw [ih { s with
        remainderBuffer := Function.update s.remainderBuffer s.remainderBufferIdx s.speakerData
        remainderBufferIdx := s.remainderBufferIdx + 1 } hlt, hmin, putRemainder,
        Nat.add_sub_add_right]
    · rename_i hnot
      have hmin : min (cycles + 1) (s.remainderBufferSize - s.remainderBufferIdx) = 0 := by omega
      rw [hmin]
      rfl

theorem stepSilent_eq (s : Speaker) :
    s.stepSilent = { s with speakerData := quieter s.speakerGoingSilent s.speakerData } := by
  unfold stepSilent quieter
  split
  · rfl
  · rfl

/-- Samples are put for each channel, where there is room. -/
structure Put (s : Speaker) (samples : List Int16) (b : Buf) : Prop where
  appended : samplesFrom b s.samplesBufferIdx (numChannels * samples.length) = forChannels samples
  before : ∀ i, i < s.samplesBufferIdx → sampleAt b i = sampleAt s.samplesBuffer i

theorem Put.nil (s : Speaker) : Put s [] s.samplesBuffer := ⟨rfl, fun _ _ => rfl⟩

theorem putSample_put (s : Speaker) (sample : Int16) :
    Put s [sample] (s.putSample sample).samplesBuffer := by
  have hsecond : sampleAt (s.putSample sample).samplesBuffer (s.samplesBufferIdx + 1) = sample :=
    sampleAt_setSample _ _ _
  have hfirst : sampleAt (s.putSample sample).samplesBuffer s.samplesBufferIdx = sample := by
    rw [putSample, sampleAt_other (by omega), sampleAt_setSample]
  refine ⟨?_, fun i hi => ?_⟩
  · change [sampleAt _ (s.samplesBufferIdx + 0), sampleAt _ (s.samplesBufferIdx + 1)] =
      [sample, sample]
    rw [Nat.add_zero, hfirst, hsecond]
  · rw [putSample, sampleAt_other (by omega), sampleAt_other (by omega)]

/-- What is put behind something put before. -/
theorem Put.append {samples more : List Int16} {b c : Buf} (h : Put s samples b)
    (h' : Put t more c)
    (hidx : t.samplesBufferIdx = s.samplesBufferIdx + numChannels * samples.length)
    (hb : t.samplesBuffer = b) : Put s (samples ++ more) c := by
  refine ⟨?_, fun i hi => ?_⟩
  · have hfirst : samplesFrom c s.samplesBufferIdx (numChannels * samples.length) =
        samplesFrom b s.samplesBufferIdx (numChannels * samples.length) := by
      refine samplesFrom_congr fun i _ hi => ?_
      rw [h'.before i (by omega), hb]
    have happended := h'.appended
    rw [hidx] at happended
    rw [List.length_append, Nat.mul_add, samplesFrom_append, hfirst, h.appended, happended,
      forChannels, forChannels, forChannels, List.flatMap_append]
  · rw [h'.before i (by omega), hb, h.before i hi]

/-- The loop over whole samples, with room for all of them. -/
theorem putSamples_eq (n : ℕ) (s : Speaker) (hroom :
    s.samplesBufferIdx + numChannels * n ≤ s.channelsSampleRateHz) (hper : 0 < s.cyclesPerSample) :
    ∃ b, Put s ((wholeLevels s.cyclesPerSample s.speakerGoingSilent n s.speakerData).map mean) b ∧
      putSamples n s =
        { s with
          samplesBuffer := b
          samplesBufferIdx := s.samplesBufferIdx + numChannels * n
          speakerData := (quieter s.speakerGoingSilent)^[n] s.speakerData } := by
  induction n generalizing s with
  | zero => exact ⟨s.samplesBuffer, Put.nil s, rfl⟩
  | succ n ih =>
    rw [Nat.mul_succ] at hroom
    have hlt : s.samplesBufferIdx < s.channelsSampleRateHz := by
      rw [numChannels] at hroom
      omega
    rw [putSamples, if_pos hlt, stepSilent_eq]
    obtain ⟨b, hput, heq⟩ := ih { s.putSample s.speakerData with
      speakerData := quieter s.speakerGoingSilent s.speakerData }
      (by simp only [putSample]; omega) hper
    refine ⟨b, ?_, ?_⟩
    · have hfirst := (putSample_put s s.speakerData).append hput rfl rfl
      rw [wholeLevels, List.map_cons, mean_replicate hper]
      exact hfirst
    · change putSamples n { s.putSample s.speakerData with
        speakerData := quieter s.speakerGoingSilent s.speakerData } = _
      rw [heq]
      simp only [putSample, Nat.mul_succ, Nat.add_assoc, Nat.add_comm numChannels]
      rfl

end Loops

/-! ## An update -/

/-- What no update changes. -/
structure Steady (s t : Speaker) : Prop where
  capacity : t.channelsSampleRateHz = s.channelsSampleRateHz
  available : t.speakerIsAvailable = s.speakerIsAvailable
  perSample : t.cyclesPerSample = s.cyclesPerSample

/-- The samples of a stream are put, and what is left of it is the remainder. -/
structure Accounts (s : Speaker) (stream : List Int16) (t : Speaker) : Prop where
  put : Put s ((chunks s.cyclesPerSample stream).map mean) t.samplesBuffer
  idx : t.samplesBufferIdx =
    s.samplesBufferIdx + numChannels * (chunks s.cyclesPerSample stream).length
  remainder : t.remainder = leftover s.cyclesPerSample stream
  steady : Steady s t

section Update
variable {s t : Speaker} {cycles : ℕ}

theorem remainder_empty (h : s.remainderBufferIdx = 0) : s.remainder = [] := by
  rw [remainder, h]
  rfl

theorem remainder_length (s : Speaker) : s.remainder.length = s.remainderBufferIdx := by
  rw [remainder, List.length_map, List.length_range]

/-- The cycles behind a sample begun before, in the second half of an update. -/
theorem wholeSamples_accounts (h : Ready s) (hempty : s.remainderBufferIdx = 0)
    (hroom : s.samplesBufferIdx + numChannels * (cycles / s.cyclesPerSample) ≤
      s.channelsSampleRateHz) :
    ∃ t, wholeSamples cycles s = .ok t ∧ Accounts s
      ((wholeLevels s.cyclesPerSample s.speakerGoingSilent (cycles / s.cyclesPerSample)
          s.speakerData).flatten ++
        List.replicate (cycles % s.cyclesPerSample)
          ((quieter s.speakerGoingSilent)^[cycles / s.cyclesPerSample] s.speakerData)) t := by
  have hper : 0 < s.cyclesPerSample := h.perSample ▸ Nat.zero_lt_of_lt h.idx_lt
  have hlt := Nat.mod_lt cycles hper
  have hrest : cycles - cycles / s.cyclesPerSample * s.cyclesPerSample =
      cycles % s.cyclesPerSample := by
    rw [Nat.mul_comm, ← Nat.mod_eq_sub_mul_div]
  obtain ⟨hcount, hwhole⟩ := wholeLevels_length s.cyclesPerSample s.speakerGoingSilent
    (cycles / s.cyclesPerSample) s.speakerData
  obtain ⟨hchunks, hleft⟩ := chunks_flatten hper hwhole (m := List.replicate
    (cycles % s.cyclesPerSample)
    ((quieter s.speakerGoingSilent)^[cycles / s.cyclesPerSample] s.speakerData))
    (by rw [List.length_replicate]; exact hlt)
  obtain ⟨b, hput, heq⟩ := putSamples_eq (cycles / s.cyclesPerSample) s hroom hper
  rw [wholeSamples]
  simp only [hrest, heq]
  by_cases hzero : cycles % s.cyclesPerSample = 0
  · rw [if_neg (by omega)]
    refine ⟨_, rfl, ?_, ?_, ?_, rfl, rfl, rfl⟩
    · rw [hchunks]
      exact hput
    · rw [hchunks, hcount]
    · rw [hleft, hzero]
      exact remainder_empty hempty
  · have hfits : ¬ s.remainderBufferSize ≤ cycles % s.cyclesPerSample := by
      rw [← h.perSample]
      omega
    rw [if_pos (by omega), assert_true (decide_eq_true hempty), ok_bind, if_neg hfits]
    refine ⟨_, rfl, ?_, ?_, ?_, ?_⟩
    · rw [hchunks, putRemainder_eq]
      exact hput
    · rw [hchunks, hcount, putRemainder_eq]
    · rw [hleft, remainder_putRemainder]
      exact congrArg (· ++ List.replicate _ _) (remainder_empty hempty)
    · rw [putRemainder_eq]
      exact ⟨rfl, rfl, rfl⟩

theorem Steady.trans {u : Speaker} (h : Steady s t) (h' : Steady t u) : Steady s u :=
  ⟨h'.capacity.trans h.capacity, h'.available.trans h.available, h'.perSample.trans h.perSample⟩

/-- Two parts of a stream, where the second starts with what the first has left. -/
theorem Accounts.trans {u : Speaker} {l m : List Int16} (hper : 0 < s.cyclesPerSample)
    (h : Accounts s l t) (h' : Accounts t (t.remainder ++ m) u) : Accounts s (l ++ m) u := by
  have hidx := h.idx
  have hidx' := h'.idx
  have hput' := h'.put
  have hleft' := h'.remainder
  rw [h.steady.perSample, h.remainder] at hidx' hput' hleft'
  obtain ⟨hchunks, hleft⟩ := chunks_append hper l m
  refine ⟨?_, ?_, ?_, h.steady.trans h'.steady⟩
  · rw [hchunks, List.map_append]
    refine h.put.append hput' ?_ rfl
    rw [hidx, List.length_map]
  · rw [hidx', hidx, hchunks, List.length_append, Nat.mul_add, Nat.add_assoc]
  · rw [hleft', hleft]

theorem accounts_short {l : List Int16} (hl : l.length < s.cyclesPerSample) (hsteady : Steady s t)
    (hb : t.samplesBuffer = s.samplesBuffer) (hidx : t.samplesBufferIdx = s.samplesBufferIdx)
    (hremainder : t.remainder = l) : Accounts s l t := by
  obtain ⟨hchunks, hleft⟩ := chunks_short hl
  refine ⟨?_, ?_, hremainder.trans hleft.symm, hsteady⟩
  · rw [hchunks, hb]
    exact Put.nil s
  · rw [hchunks, hidx]
    rfl

/-- The mean of a remainder that is full. -/
theorem sampleMean_eq (h : s.remainderBufferIdx = s.remainderBufferSize) :
    s.sampleMean = mean s.remainder := by
  rw [mean, remainder_length, remainder, List.map_map, h]
  rfl

/-- The first half of an update: the cycles of a sample begun before. -/
theorem finishSample_accounts (h : Ready s) (hroom : s.Room cycles) :
    ∃ t, finishSample cycles s = .ok (cycles - s.straddling cycles, t) ∧ Ready t ∧
      Accounts s (s.remainder ++ List.replicate (s.straddling cycles) s.speakerData) t ∧
      (t.remainderBufferIdx = 0 ∨ cycles - s.straddling cycles = 0) ∧
      t.speakerData = s.speakerData ∧ t.speakerGoingSilent = s.speakerGoingSilent := by
  have hidx := h.idx_lt
  have hper := h.perSample
  by_cases hzero : s.remainderBufferIdx = 0
  · have hnone : s.straddling cycles = 0 := if_pos hzero
    rw [hnone, finishSample, if_pos hzero]
    refine ⟨s, rfl, h, ?_, Or.inl hzero, rfl, rfl⟩
    refine accounts_short ?_ ⟨rfl, rfl, rfl⟩ rfl rfl (List.append_nil _).symm
    rw [List.replicate_zero, List.append_nil, remainder_length]
    omega
  have hsome : s.straddling cycles = min cycles (s.remainderBufferSize - s.remainderBufferIdx) := by
    rw [straddling, if_neg hzero, hper]
  have hlength : (s.remainder ++ List.replicate (s.straddling cycles) s.speakerData).length =
      s.remainderBufferIdx + s.straddling cycles := by
    rw [List.length_append, remainder_length, List.length_replicate]
  rw [finishSample, if_neg hzero, topOff_eq cycles s hidx.le, ← hsome]
  simp only [putRemainder_eq]
  by_cases hfull : s.remainderBufferIdx + s.straddling cycles = s.remainderBufferSize
  · have hroom' : s.samplesBufferIdx < s.channelsSampleRateHz := by
      have hone : 0 < s.due cycles := by
        rw [due, hper]
        exact Nat.div_pos (by omega) (by omega)
      rw [Room, numChannels] at hroom
      omega
    rw [if_pos hfull, assert_true (decide_eq_true (by omega)), ok_bind, if_pos hroom']
    have hfilled : (putRemainder (s.straddling cycles) s).sampleMean =
        mean (s.remainder ++ List.replicate (s.straddling cycles) s.speakerData) := by
      rw [sampleMean_eq, remainder_putRemainder]
      rw [putRemainder_eq]
      exact hfull
    rw [putRemainder_eq] at hfilled
    obtain ⟨hchunks, hleft⟩ := chunks_one (n := s.cyclesPerSample) (by omega)
      ((hlength.trans hfull).trans hper.symm)
    refine ⟨_, rfl, ⟨hper, ?_⟩, ⟨?_, ?_, ?_, rfl, rfl, rfl⟩, Or.inl rfl, rfl, rfl⟩
    · change 0 < s.remainderBufferSize
      omega
    · rw [hchunks, List.map_singleton, ← hfilled]
      exact putSample_put _ _
    · rw [hchunks]
      rfl
    · rw [hleft]
      rfl
  · rw [if_neg hfull]
    refine ⟨_, rfl, ⟨hper, ?_⟩, ?_, Or.inr (by omega), rfl, rfl⟩
    · change s.remainderBufferIdx + s.straddling cycles < s.remainderBufferSize
      omega
    · refine accounts_short (by omega) ⟨rfl, rfl, rfl⟩ rfl rfl ?_
      have hremainder := remainder_putRemainder (s.straddling cycles) s
      rw [putRemainder_eq] at hremainder
      exact hremainder

theorem wholeSamples_none (s : Speaker) : wholeSamples 0 s = .ok s := by
  simp only [wholeSamples, Nat.zero_div, Nat.zero_mul, Nat.sub_zero, putSamples, Nat.lt_irrefl,
    if_false]

/-- The two halves of an update, one after the other. -/
theorem halves_account (h : Ready s) (hroom : s.Room cycles) :
    ∃ left t u, finishSample cycles s = .ok (left, t) ∧ wholeSamples left t = .ok u ∧ Ready u ∧
      Accounts s (s.remainder ++ s.levels cycles) u := by
  have hper : 0 < s.cyclesPerSample := h.perSample ▸ Nat.zero_lt_of_lt h.idx_lt
  obtain ⟨t, hfinish, hready, hfirst, hidle, hdata, hsilent⟩ := finishSample_accounts h hroom
  obtain ⟨u, hwhole, hreadyU, hall⟩ : ∃ u, wholeSamples (cycles - s.straddling cycles) t = .ok u ∧
      Ready u ∧ Accounts s (s.remainder ++ s.levels cycles) u := by
    obtain ⟨u', hwhole', -, hready'⟩ := wholeSamples_ok _ hready hidle
    by_cases hempty : t.remainderBufferIdx = 0
    · have hroomT : t.samplesBufferIdx +
          numChannels * ((cycles - s.straddling cycles) / t.cyclesPerSample) ≤
            t.channelsSampleRateHz := by
        have hidx := hfirst.idx
        have hle : (s.remainderBufferIdx + s.straddling cycles) / s.cyclesPerSample +
            (cycles - s.straddling cycles) / s.cyclesPerSample ≤
              (s.remainderBufferIdx + s.straddling cycles + (cycles - s.straddling cycles)) /
                s.cyclesPerSample := Nat.div_add_div_le_add_div
        have hsum : s.remainderBufferIdx + s.straddling cycles + (cycles - s.straddling cycles) =
            s.remainderBufferIdx + cycles := by
          have := straddling_le s cycles
          omega
        rw [hsum] at hle
        rw [chunks_length, List.length_append, remainder_length, List.length_replicate] at hidx
        rw [Room, due, numChannels] at hroom
        rw [hidx, hfirst.steady.perSample, hfirst.steady.capacity, numChannels]
        omega
      obtain ⟨u, hwhole, hrest⟩ := wholeSamples_accounts hready hempty hroomT
      obtain rfl : u' = u := Except.ok.inj (hwhole'.symm.trans hwhole)
      refine ⟨u', hwhole, hready', ?_⟩
      have hstart := remainder_empty hempty
      rw [← List.nil_append (List.flatten _ ++ _), ← hstart, hdata, hsilent,
        hfirst.steady.perSample] at hrest
      have hboth := hfirst.trans hper hrest
      rw [List.append_assoc] at hboth
      exact hboth
    · have hnone := hidle.resolve_left hempty
      refine ⟨t, by rw [hnone]; exact wholeSamples_none t, hready, ?_⟩
      have hlevels : s.levels cycles = List.replicate (s.straddling cycles) s.speakerData := by
        simp only [levels, hnone, Nat.zero_div, Nat.zero_mod, wholeLevels]
        exact List.append_nil _
      rw [hlevels]
      exact hfirst
  exact ⟨_, t, u, hfinish, hwhole, hreadyU, hall⟩

/-- The time of an update is nothing to its samples. -/
theorem Accounts.note {l : List Int16} (h : Accounts s l t) (now : ℕ) :
    Accounts s l { t with cyclesLastUpdate := now } :=
  ⟨h.put, h.idx, h.remainder, h.steady.capacity, h.steady.available, h.steady.perSample⟩

/-- **An update** puts the samples of the remainder and the levels of its cycles: those by which the
counter is ahead of the last update, or none if it has wrapped. -/
theorem update_accounts (machine : Machine) (h : Ready s) (hnormal : machine.isFullspeed = false)
    (hcycles : machine.cyclesCountTotal - s.cyclesLastUpdate = cycles) (hroom : s.Room cycles) :
    ∃ t, s.update machine = .ok t ∧ Ready t ∧ Accounts s (s.remainder ++ s.levels cycles) t ∧
      t.cyclesLastUpdate = machine.cyclesCountTotal := by
  have hspeed : ¬ machine.isFullspeed = true := by
    rw [hnormal]
    exact Bool.false_ne_true
  by_cases hwrapped : machine.cyclesCountTotal < s.cyclesLastUpdate
  · obtain rfl : cycles = 0 := by omega
    have hshort : s.remainder.length < s.cyclesPerSample := by
      rw [remainder_length, h.perSample]
      exact h.idx_lt
    have hnone : Accounts s (s.remainder ++ s.levels 0) s := by
      rw [levels_none, List.append_nil]
      exact accounts_short hshort ⟨rfl, rfl, rfl⟩ rfl rfl rfl
    refine ⟨{ s with cyclesLastUpdate := machine.cyclesCountTotal }, ?_, ⟨h.perSample, h.idx_lt⟩,
      hnone.note _, rfl⟩
    unfold update
    rw [if_neg hspeed, if_pos hwrapped, ok_bind]
  · obtain ⟨left, t, u, hfinish, hwhole, hready, hall⟩ := halves_account h hroom
    refine ⟨{ u with cyclesLastUpdate := machine.cyclesCountTotal }, ?_, ⟨hready.perSample,
      hready.idx_lt⟩, hall.note _, rfl⟩
    unfold update
    rw [if_neg hspeed, if_neg hwrapped, hcycles, hfinish, ok_bind]
    simp only [hwhole, ok_bind]

theorem Accounts.appendedSince {l : List Int16} (h : Accounts s l t) :
    s.appendedSince t = forChannels ((chunks s.cyclesPerSample l).map mean) := by
  have happended := h.put.appended
  rw [List.length_map] at happended
  rw [Speaker.appendedSince, h.idx, Nat.add_sub_cancel_left, happended]

/-- What the start of a flush changes. -/
theorem noteQuiet_eq (machine : Machine) (s : Speaker) : ∃ quietTime accessed active silent,
    s.noteQuiet machine = { s with
      cyclesQuietTime := quietTime
      speakerAccessedSinceLastFlush := accessed
      speakerRecentlyActive := active
      speakerGoingSilent := silent } := by
  unfold noteQuiet
  split
  · exact ⟨_, _, _, _, rfl⟩
  split
  · exact ⟨_, _, _, _, rfl⟩
  by_cases hzero : s.cyclesQuietTime = 0
  · simp only [hzero, if_true]
    split
    · exact ⟨_, _, _, _, rfl⟩
    split
    · exact ⟨_, _, _, _, rfl⟩
    · exact ⟨_, _, _, _, rfl⟩
  · simp only [hzero, if_false]
    split
    · exact ⟨_, _, _, _, rfl⟩
    split
    · exact ⟨_, _, _, _, rfl⟩
    · exact ⟨s.cyclesQuietTime, _, _, _, rfl⟩

theorem prepare_accounts (machine : Machine) (h : Ready s) (hnormal : machine.isFullspeed = false)
    (hcycles : machine.cyclesCountTotal - s.cyclesLastUpdate = cycles) (hroom : s.Room cycles) :
    ∃ t, s.prepare machine = .ok t ∧ Ready t ∧
      Accounts s (s.remainder ++ (s.noteQuiet machine).levels cycles) t ∧
      t.cyclesLastUpdate = machine.cyclesCountTotal := by
  obtain ⟨quietTime, accessed, active, silent, hquiet⟩ := noteQuiet_eq machine s
  rw [prepare, hquiet]
  obtain ⟨t, hupdate, hready, haccounts, hlast⟩ := update_accounts (s := { s with
      cyclesQuietTime := quietTime
      speakerAccessedSinceLastFlush := accessed
      speakerRecentlyActive := active
      speakerGoingSilent := silent }) machine ⟨h.perSample, h.idx_lt⟩ hnormal hcycles hroom
  exact ⟨t, hupdate, hready, ⟨⟨haccounts.put.appended, haccounts.put.before⟩, haccounts.idx,
    haccounts.remainder, haccounts.steady.capacity, haccounts.steady.available,
    haccounts.steady.perSample⟩, hlast⟩

/-- What a flush leaves alone behind its update. -/
structure Submitted (t u : Speaker) : Prop where
  remainder : u.remainder = t.remainder
  remainderIdx : u.remainderBufferIdx = t.remainderBufferIdx
  remainderSize : u.remainderBufferSize = t.remainderBufferSize
  steady : Steady t u
  last : u.cyclesLastUpdate = t.cyclesLastUpdate
  idx : u.samplesBufferIdx ≤ t.samplesBufferIdx

theorem Submitted.ready {u : Speaker} (h : Submitted t u) (hready : Ready t) : Ready u := by
  refine ⟨?_, ?_⟩
  · rw [h.steady.perSample, h.remainderSize, hready.perSample]
  · rw [h.remainderIdx, h.remainderSize]
    exact hready.idx_lt

theorem dropSamples_submitted (t : Speaker) (used : ℕ) : Submitted t (t.dropSamples used) := by
  unfold dropSamples
  split
  · exact ⟨rfl, rfl, rfl, ⟨rfl, rfl, rfl⟩, rfl, Nat.sub_le _ _⟩
  · exact ⟨rfl, rfl, rfl, ⟨rfl, rfl, rfl⟩, rfl, Nat.le_refl _⟩

theorem flush_submitted {machine : Machine} (hprepare : s.prepare machine = .ok t)
    (havailable : s.speakerIsAvailable = true) (hnormal : machine.isFullspeed = false)
    (buffer : AudioBuffer) :
    ∃ taken u, s.flush machine buffer = .ok (taken, u) ∧ Submitted t u := by
  obtain ⟨taken, u, hflush, hcases⟩ := flush_cases hprepare havailable hnormal buffer
  refine ⟨taken, u, hflush, ?_⟩
  obtain ⟨-, -, rfl⟩ | ⟨-, -, -, rfl⟩ | ⟨bytesQueued, -, -, -, rfl⟩ := hcases
  · exact ⟨rfl, rfl, rfl, ⟨rfl, rfl, rfl⟩, rfl, Nat.le_refl _⟩
  · exact dropSamples_submitted _ _
  · have h := dropSamples_submitted (t.adjust bytesQueued)
      (t.usable (t.bytesFree machine.ulong bytesQueued))
    exact ⟨h.remainder, h.remainderIdx, h.remainderSize,
      ⟨h.steady.capacity, h.steady.available, h.steady.perSample⟩, h.last, h.idx⟩

end Update

/-! ## Runs -/

/-- A call, so many cycles behind the one before it. -/
inductive Call
  | toggle (cycles : ℕ) (shouldAutoAdjustSpeed : Bool) (speakerAmplitude : Int16)
  | flush (cycles : ℕ) (buffer : AudioBuffer)

def Call.cycles : Call → ℕ
  | .toggle cycles _ _ => cycles
  | .flush cycles _ => cycles

/-- How many cycles the calls see, by a counter that stands at `count` before them and wraps: a call
that finds it below its value at the call before sees none. -/
def cyclesSeen (ulong : ℕ) : ℕ → List Call → ℕ
  | _, [] => 0
  | count, call :: calls =>
    let now := (count + call.cycles) % ulong
    now - count + cyclesSeen ulong now calls

/-- All of them, if the counter never wraps. -/
theorem cyclesSeen_all {ulong count : ℕ} {calls : List Call}
    (h : count + (calls.map Call.cycles).sum < ulong) :
    cyclesSeen ulong count calls = (calls.map Call.cycles).sum := by
  induction calls generalizing count with
  | nil => rfl
  | cons call calls ih =>
    rw [List.map_cons, List.sum_cons] at h ⊢
    have hnow : (count + call.cycles) % ulong = count + call.cycles := Nat.mod_eq_of_lt (by omega)
    rw [cyclesSeen, hnow, ih (by omega), Nat.add_sub_cancel_left]

/-- The machine and its speaker, and what has happened: the level in force in each cycle seen, what
was appended to the samples, and how far `samples_buffer_idx` came in an update. -/
structure Sounding where
  machine : Machine
  speaker : Speaker
  levels : List Int16
  appended : List Int16
  peak : ℕ

namespace Sounding

def start (machine : Machine) (speaker : Speaker) : Sounding :=
  ⟨machine, speaker, [], [], 0⟩

/-- The machine so many cycles later, its counter an `unsigned long`. -/
def later (sounding : Sounding) (cycles : ℕ) : Machine :=
  { sounding.machine with
    cyclesCountTotal := (sounding.machine.cyclesCountTotal + cycles) % sounding.machine.ulong }

/-- The cycles that a call sees. -/
def seen (sounding : Sounding) (cycles : ℕ) : ℕ :=
  (sounding.later cycles).cyclesCountTotal - sounding.machine.cyclesCountTotal

/-- The account of a call: its levels, and what the speaker has after its update. -/
def account (sounding : Sounding) (machine : Machine) (levels : List Int16)
    (updated speaker : Speaker) : Sounding where
  machine := machine
  speaker := speaker
  levels := sounding.levels ++ levels
  appended := sounding.appended ++ sounding.speaker.appendedSince updated
  peak := max sounding.peak updated.samplesBufferIdx

def step (sounding : Sounding) : Call → Except Fault Sounding
  | .toggle cycles shouldAutoAdjustSpeed speakerAmplitude => do
    let machine := sounding.later cycles
    let (isFullspeed, speaker) ←
      sounding.speaker.toggle machine shouldAutoAdjustSpeed speakerAmplitude
    .ok (sounding.account { machine with isFullspeed := isFullspeed }
      (sounding.speaker.levels (sounding.seen cycles)) speaker speaker)
  | .flush cycles buffer => do
    let machine := sounding.later cycles
    let updated ← sounding.speaker.prepare machine
    let (_, speaker) ← sounding.speaker.flush machine buffer
    .ok (sounding.account machine
      ((sounding.speaker.noteQuiet machine).levels (sounding.seen cycles)) updated speaker)

/-- There is room for the samples that a call completes. -/
def HasRoom (sounding : Sounding) (call : Call) : Prop :=
  sounding.speaker.Room (sounding.seen call.cycles)

/-- The speaker is as ready as `_speaker_init_timing` leaves it, at a normal speed. -/
structure Normal (sounding : Sounding) : Prop where
  ready : Ready sounding.speaker
  speed : sounding.machine.isFullspeed = false

/-- What was appended is the samples of all the levels, and the remainder is what is left of
them. -/
structure Accounted (first sounding : Sounding) : Prop where
  normal : Normal sounding
  available : sounding.speaker.speakerIsAvailable = true
  current : sounding.speaker.cyclesLastUpdate = sounding.machine.cyclesCountTotal
  perSample : sounding.speaker.cyclesPerSample = first.speaker.cyclesPerSample
  capacity : sounding.speaker.channelsSampleRateHz = first.speaker.channelsSampleRateHz
  appended : sounding.appended = forChannels ((chunks first.speaker.cyclesPerSample
    (first.speaker.remainder ++ sounding.levels)).map mean)
  remainder : sounding.speaker.remainder = leftover first.speaker.cyclesPerSample
    (first.speaker.remainder ++ sounding.levels)
  peak : sounding.peak ≤ first.speaker.channelsSampleRateHz

section Runs
variable {first sounding next : Sounding} {call : Call}

/-- A toggle at a normal speed: an update, and another level. -/
theorem toggle_eq {machine : Machine} {s t : Speaker} (hnormal : machine.isFullspeed = false)
    (shouldAutoAdjustSpeed : Bool) (speakerAmplitude : Int16)
    (hupdate : (if s.speakerIsAvailable then s.noteAccess.update machine else .ok s.noteAccess) =
      .ok t) :
    s.toggle machine shouldAutoAdjustSpeed speakerAmplitude =
      .ok (false, t.flip speakerAmplitude) := by
  have hmachine : { machine with isFullspeed := false } = machine := by
    rw [← hnormal]
  have havailable : s.noteAccess.speakerIsAvailable = s.speakerIsAvailable := rfl
  cases h : s.speakerIsAvailable with
  | true =>
    rw [h, if_pos rfl] at hupdate
    simp only [toggle, hnormal, Bool.false_and, hmachine, havailable, h, hupdate, ok_bind, if_true,
      Bool.false_eq_true, if_false]
  | false =>
    rw [h, if_neg Bool.false_ne_true] at hupdate
    cases hupdate
    simp only [toggle, hnormal, Bool.false_and, havailable, h, ok_bind, Bool.false_eq_true,
      if_false]

/-- No call stops, whether there is room or not. -/
theorem step_normal (h : Normal sounding) (call : Call) :
    ∃ next, sounding.step call = .ok next ∧ Normal next := by
  cases call with
  | toggle cycles shouldAutoAdjustSpeed speakerAmplitude =>
    have hready : Ready sounding.speaker.noteAccess := ⟨h.ready.perSample, h.ready.idx_lt⟩
    obtain ⟨t, hupdate, hlast⟩ : ∃ t, (if sounding.speaker.speakerIsAvailable then
        sounding.speaker.noteAccess.update (sounding.later cycles)
        else .ok sounding.speaker.noteAccess) = .ok t ∧ Ready t := by
      cases sounding.speaker.speakerIsAvailable with
      | true =>
        obtain ⟨t, hupdate, -, hlast⟩ := update_ok (sounding.later cycles) hready
        exact ⟨t, hupdate, hlast⟩
      | false => exact ⟨_, rfl, hready⟩
    have hspeed : (sounding.later cycles).isFullspeed = false := h.speed
    have htoggle := toggle_eq hspeed shouldAutoAdjustSpeed speakerAmplitude hupdate
    refine ⟨sounding.account { sounding.later cycles with isFullspeed := false }
      (sounding.speaker.levels (sounding.seen cycles)) (t.flip speakerAmplitude)
      (t.flip speakerAmplitude), ?_,
      ⟨hlast.perSample, hlast.idx_lt⟩, rfl⟩
    rw [step, htoggle, ok_bind]
  | flush cycles buffer =>
    obtain ⟨t, hprepare, -, hready⟩ := prepare_ok (sounding.later cycles) h.ready
    obtain ⟨taken, u, hflush, hlast⟩ : ∃ taken u,
        sounding.speaker.flush (sounding.later cycles) buffer = .ok (taken, u) ∧ Ready u := by
      cases havailable : sounding.speaker.speakerIsAvailable with
      | true =>
        obtain ⟨taken, u, hflush, hsubmitted⟩ :=
          flush_submitted hprepare havailable h.speed buffer
        exact ⟨taken, u, hflush, hsubmitted.ready hready⟩
      | false =>
        refine ⟨[], sounding.speaker, ?_, h.ready⟩
        rw [flush, havailable]
        rfl
    refine ⟨sounding.account (sounding.later cycles)
      ((sounding.speaker.noteQuiet (sounding.later cycles)).levels (sounding.seen cycles)) t u, ?_,
      hlast, h.speed⟩
    rw [step, hprepare, ok_bind, hflush, ok_bind]

theorem run_normal (h : Normal sounding) (calls : List Call) :
    ∃ last, runM step sounding calls = .ok last ∧ Normal last := by
  induction calls generalizing sounding with
  | nil => exact ⟨sounding, rfl, h⟩
  | cons call calls ih =>
    obtain ⟨next, hstep, hnext⟩ := step_normal h call
    obtain ⟨last, hrun, hlast⟩ := ih hnext
    exact ⟨last, by rw [runM_cons_ok _ hstep, hrun], hlast⟩

/-- What a call adds to the account. -/
theorem Accounted.add (h : Accounted first sounding) {t u : Speaker} {levels : List Int16}
    {machine : Machine} (hnormal : Normal (sounding.account machine levels t u))
    (haccounts : Accounts sounding.speaker (sounding.speaker.remainder ++ levels) t)
    (hremainder : u.remainder = t.remainder) (hsteady : Steady t u)
    (hcurrent : u.cyclesLastUpdate = machine.cyclesCountTotal)
    (hroom : sounding.speaker.Room levels.length) :
    Accounted first (sounding.account machine levels t u) := by
  have hper : 0 < first.speaker.cyclesPerSample := by
    rw [← h.perSample, h.normal.ready.perSample]
    exact Nat.zero_lt_of_lt h.normal.ready.idx_lt
  obtain ⟨hchunks, hleft⟩ := chunks_append hper (first.speaker.remainder ++ sounding.levels) levels
  rw [← h.remainder, List.append_assoc] at hchunks hleft
  have hsteadyAll := haccounts.steady.trans hsteady
  refine ⟨hnormal, hsteadyAll.available.trans h.available, hcurrent,
    hsteadyAll.perSample.trans h.perSample, hsteadyAll.capacity.trans h.capacity, ?_, ?_, ?_⟩
  · change sounding.appended ++ sounding.speaker.appendedSince t = forChannels ((chunks
      first.speaker.cyclesPerSample
      (first.speaker.remainder ++ (sounding.levels ++ levels))).map mean)
    rw [hchunks, haccounts.appendedSince, h.appended, h.perSample, List.map_append, forChannels,
      forChannels, forChannels, List.flatMap_append]
  · change u.remainder = leftover first.speaker.cyclesPerSample
      (first.speaker.remainder ++ (sounding.levels ++ levels))
    rw [hremainder, haccounts.remainder, h.perSample, hleft]
  · have hidx := haccounts.idx
    rw [chunks_length, List.length_append, remainder_length] at hidx
    rw [Room, due, ← hidx, h.capacity] at hroom
    exact Nat.max_le.mpr ⟨h.peak, hroom⟩

theorem step_accounted (h : Accounted first sounding) (hroom : HasRoom sounding call)
    (hstep : sounding.step call = .ok next) : Accounted first next := by
  obtain ⟨next', hstep', hnormal⟩ := step_normal h.normal call
  obtain rfl : next' = next := Except.ok.inj (hstep'.symm.trans hstep)
  cases call with
  | toggle cycles shouldAutoAdjustSpeed speakerAmplitude =>
    have hcycles : (sounding.later cycles).cyclesCountTotal - sounding.speaker.cyclesLastUpdate =
        sounding.seen cycles := by
      rw [h.current]
      rfl
    obtain ⟨t, hupdate, hready, haccounts, hlast⟩ := update_accounts
      (s := sounding.speaker.noteAccess) (sounding.later cycles)
      ⟨h.normal.ready.perSample, h.normal.ready.idx_lt⟩ h.normal.speed hcycles hroom
    have hcall : (if sounding.speaker.speakerIsAvailable then
        sounding.speaker.noteAccess.update (sounding.later cycles)
        else .ok sounding.speaker.noteAccess) = .ok t := by
      rw [h.available]
      exact hupdate
    have hspeed : (sounding.later cycles).isFullspeed = false := h.normal.speed
    rw [step, toggle_eq hspeed shouldAutoAdjustSpeed speakerAmplitude hcall, ok_bind] at hstep
    have hlevels := levels_length sounding.speaker (sounding.seen cycles)
    have haccounts' : Accounts sounding.speaker
        (sounding.speaker.remainder ++ sounding.speaker.levels (sounding.seen cycles))
        (t.flip speakerAmplitude) :=
      ⟨⟨haccounts.put.appended, haccounts.put.before⟩, haccounts.idx, haccounts.remainder,
        haccounts.steady.capacity, haccounts.steady.available, haccounts.steady.perSample⟩
    cases hstep
    refine h.add hnormal haccounts' rfl ⟨rfl, rfl, rfl⟩ hlast ?_
    rw [hlevels]
    exact hroom
  | flush cycles buffer =>
    have hcycles : (sounding.later cycles).cyclesCountTotal - sounding.speaker.cyclesLastUpdate =
        sounding.seen cycles := by
      rw [h.current]
      rfl
    obtain ⟨t, hprepare, hready, haccounts, hlast⟩ := prepare_accounts (sounding.later cycles)
      h.normal.ready h.normal.speed hcycles hroom
    obtain ⟨taken, u, hflush, hsubmitted⟩ :=
      flush_submitted hprepare h.available h.normal.speed buffer
    rw [step, hprepare, ok_bind, hflush, ok_bind] at hstep
    have hlevels := levels_length (sounding.speaker.noteQuiet (sounding.later cycles))
      (sounding.seen cycles)
    cases hstep
    refine h.add hnormal haccounts hsubmitted.remainder hsubmitted.steady
      (hsubmitted.last.trans hlast) ?_
    rw [hlevels]
    exact hroom

/-- A level for each cycle seen, and the counter goes on. -/
theorem step_cycles (h : sounding.step call = .ok next) :
    next.levels.length = sounding.levels.length + sounding.seen call.cycles ∧
      next.machine.cyclesCountTotal = (sounding.later call.cycles).cyclesCountTotal ∧
      next.machine.ulong = sounding.machine.ulong := by
  cases call with
  | toggle cycles shouldAutoAdjustSpeed speakerAmplitude =>
    obtain ⟨⟨isFullspeed, speaker⟩, -, hnext⟩ := bind_eq_ok.mp h
    cases hnext
    exact ⟨(List.length_append ..).trans (by rw [levels_length]; rfl), rfl, rfl⟩
  | flush cycles buffer =>
    obtain ⟨updated, -, hflush⟩ := bind_eq_ok.mp h
    obtain ⟨⟨taken, speaker⟩, -, hnext⟩ := bind_eq_ok.mp hflush
    cases hnext
    exact ⟨(List.length_append ..).trans (by rw [levels_length]; rfl), rfl, rfl⟩

theorem run_cycles {calls : List Call} (h : runM step sounding calls = .ok next) :
    next.levels.length = sounding.levels.length +
      cyclesSeen sounding.machine.ulong sounding.machine.cyclesCountTotal calls := by
  induction calls generalizing sounding with
  | nil =>
    cases h
    rfl
  | cons call calls ih =>
    cases hstep : sounding.step call with
    | error fault =>
      rw [runM_cons_error _ hstep] at h
      cases h
    | ok middle =>
      obtain ⟨hlevels, hcount, hulong⟩ := step_cycles hstep
      rw [runM_cons_ok _ hstep] at h
      rw [ih h, hlevels, hcount, hulong, cyclesSeen, Nat.add_assoc]
      rfl

theorem accounted_start {machine : Machine} {speaker : Speaker} (h : Ready speaker)
    (havailable : speaker.speakerIsAvailable = true) (hnormal : machine.isFullspeed = false)
    (hcurrent : speaker.cyclesLastUpdate = machine.cyclesCountTotal) :
    Accounted (start machine speaker) (start machine speaker) := by
  have hshort : speaker.remainder.length < speaker.cyclesPerSample := by
    rw [remainder_length, h.perSample]
    exact h.idx_lt
  obtain ⟨hchunks, hleft⟩ := chunks_short hshort
  refine ⟨⟨h, hnormal⟩, havailable, hcurrent, rfl, rfl, ?_, ?_, Nat.zero_le _⟩
  · simp only [start, List.append_nil, hchunks]
    rfl
  · simp only [start, List.append_nil, hleft]

end Runs

end Sounding

open Sounding in
/-- **Accounting of samples.** No run of toggles and flushes at a normal speed stops. With room for
its samples, a run whose calls see `C` cycles has appended one for every `cyclesPerSample` cycles,
each the mean of the levels in force during its cycles, however the cycles are split between the
calls; the last cycles wait in the remainder, and the samples never went behind the end of their
buffer. The calls see all the cycles, unless the counter wraps: these cycles of a call are
ignored. -/
theorem sample_accounting {machine : Machine} {speaker : Speaker} (h : Ready speaker)
    (havailable : speaker.speakerIsAvailable = true) (hnormal : machine.isFullspeed = false)
    (hcurrent : speaker.cyclesLastUpdate = machine.cyclesCountTotal) (calls : List Call) :
    let count := cyclesSeen machine.ulong machine.cyclesCountTotal calls
    (machine.cyclesCountTotal + (calls.map Call.cycles).sum < machine.ulong →
        count = (calls.map Call.cycles).sum) ∧
      ∃ last, runM step (start machine speaker) calls = .ok last ∧ last.levels.length = count ∧
        (Along step HasRoom (start machine speaker) calls →
          let stream := speaker.remainder ++ last.levels
          let samples := (chunks speaker.cyclesPerSample stream).map mean
          samples.length = (speaker.remainderBufferIdx + count) / speaker.cyclesPerSample ∧
            last.appended = forChannels samples ∧
            last.speaker.remainder = leftover speaker.cyclesPerSample stream ∧
            last.peak ≤ speaker.channelsSampleRateHz) := by
  intro count
  refine ⟨cyclesSeen_all, ?_⟩
  have hstart := accounted_start h havailable hnormal hcurrent
  obtain ⟨last, hrun, -⟩ := run_normal hstart.normal calls
  have hcycles : last.levels.length = count := (run_cycles hrun).trans (Nat.zero_add _)
  refine ⟨last, hrun, hcycles, fun hroom => ?_⟩
  have hlast : Accounted (start machine speaker) last := runM_along_invariant
    (Accounted (start machine speaker)) (fun _ _ _ hs hr hstep => step_accounted hs hr hstep)
    hstart hroom hrun
  refine ⟨?_, hlast.appended, hlast.remainder, hlast.peak⟩
  rw [List.length_map, chunks_length, List.length_append, remainder_length, hcycles]

open Sounding in
/-- A toggle after a hundred cycles completes two samples. -/
theorem sample_accounting_small : ∃ last,
    runM step (start idleMachine fourSamples) [.toggle 100 true 4095] = .ok last ∧
      ((chunks 46 last.levels).map mean).length = 2 ∧
      last.appended = forChannels ((chunks 46 last.levels).map mean) ∧ last.peak ≤ 44100 := by
  have hready : Ready fourSamples := ⟨rfl, by decide⟩
  have hnormal : idleMachine.isFullspeed = false := rfl
  obtain ⟨-, last, hrun, -, hroom⟩ :=
    sample_accounting hready rfl hnormal rfl [.toggle 100 true 4095]
  have hfirst : HasRoom (start idleMachine fourSamples) (.toggle 100 true 4095) := by
    unfold HasRoom Speaker.Room
    decide
  have hstart : Normal (start idleMachine fourSamples) := ⟨hready, hnormal⟩
  obtain ⟨next, hstep, -⟩ := step_normal hstart (.toggle 100 true 4095)
  obtain ⟨hlength, happended, -, hpeak⟩ :=
    hroom ((along_cons hstep).mpr ⟨hfirst, along_nil next⟩)
  exact ⟨last, hrun, hlength, happended, hpeak⟩

/-- A machine of 32 bits whose counter is about to wrap. -/
def wrappingMachine : Machine :=
  { idleMachine with
    cyclesCountTotal := 2 ^ 32 - 50
    ulong := 2 ^ 32 }

/-- A speaker that was updated last when the counter stood there. -/
def wrappingSpeaker : Speaker :=
  { fourSamples with cyclesLastUpdate := wrappingMachine.cyclesCountTotal }

open Sounding in
/-- The counter wraps in the hundred cycles before a toggle, which makes no sample of them, although
they are two samples and there is room. -/
theorem wrapped_cycles_ignored : Ready wrappingSpeaker ∧ wrappingSpeaker.Room 100 ∧
    (wrappingSpeaker.remainderBufferIdx + 100) / wrappingSpeaker.cyclesPerSample = 2 ∧
    ∃ last, runM step (start wrappingMachine wrappingSpeaker) [.toggle 100 true 4095] = .ok last ∧
      last.appended = [] ∧ last.speaker.remainder = [] := by
  have hroom : wrappingSpeaker.Room 100 := by
    unfold Speaker.Room
    decide
  exact ⟨⟨rfl, by decide⟩, hroom, rfl, _, rfl, rfl, rfl⟩

end Apple2ix.Sound
