import Mathlib.Algebra.Ring.Int.Defs
import Apple2ix.Foundations.Results
import Apple2ix.Foundations.Windows

/-! The speaker of speaker.c: the samples that it makes of the machine cycles, and how they are
handed to the audio backend. The buffers are seen in bytes, two for a sample. -/
namespace Apple2ix.Sound
set_option autoImplicit false

def soundcoreErrorInc : ℤ := 20

def soundcoreErrorMax : ℤ := 200

/-- `SPKR_SILENT_STEP`. -/
def spkrSilentStep : Int16 := 1

/-- `NUM_CHANNELS`. -/
def numChannels : ℕ := 2

/-- `sizeof(int16_t)`. -/
def sampleBytes : ℕ := 2

inductive Fault
  | assertion
  deriving DecidableEq, Repr

/-- `assert`. -/
def assert (condition : Bool) : Except Fault Unit :=
  if condition then .ok () else .error .assertion

/-- The file's variables. `cyclesPerSample` is a `double` that holds an `unsigned int`. -/
structure Speaker where
  bufferTotalSize : ℕ
  bufferSizeIdealMin : ℕ
  bufferSizeIdealMax : ℕ
  channelsSampleRateHz : ℕ
  speakerIsAvailable : Bool
  samplesBuffer : Buf
  remainderBuffer : ℕ → Int16
  samplesBufferIdx : ℕ
  remainderBufferSize : ℕ
  remainderBufferIdx : ℕ
  speakerData : Int16
  cyclesPerSample : ℕ
  cyclesLastUpdate : ℕ
  cyclesQuietTime : ℕ
  speakerAccessedSinceLastFlush : Bool
  speakerRecentlyActive : Bool
  speakerGoingSilent : Bool
  samplesAdjustmentCounter : ℤ
  cyclesSpeakerFeedback : ℤ

/-- What the speaker reads of the machine, and how many values an `unsigned long` has. -/
structure Machine where
  cyclesCountTotal : ℕ
  cyclesPersecTarget : ℕ
  isFullspeed : Bool
  ulong : ℕ

/-! ## Making samples -/

/-- `samples_buffer[i] = sample`. -/
def setSample (samplesBuffer : Buf) (i : ℕ) (sample : Int16) : Buf :=
  samplesBuffer.copy (sampleBytes * i)
    (fun k => UInt8.ofNat (if k = 0 then sample.toUInt16.toNat else sample.toUInt16.toNat / 256))
    sampleBytes

namespace Speaker

/-- `samples_buffer[samples_buffer_idx++] = sample`, for each channel. -/
def putSample (speaker : Speaker) (sample : Int16) : Speaker :=
  { speaker with
    samplesBuffer := setSample (setSample speaker.samplesBuffer speaker.samplesBufferIdx sample)
      (speaker.samplesBufferIdx + 1) sample
    samplesBufferIdx := speaker.samplesBufferIdx + numChannels }

/-- `speaker_data` is stepped to zero when the speaker goes silent. -/
def stepSilent (speaker : Speaker) : Speaker :=
  if speaker.speakerGoingSilent && speaker.speakerData ≠ 0 then
    { speaker with
      speakerData :=
        if speaker.speakerData < 0 then speaker.speakerData + spkrSilentStep
        else speaker.speakerData - spkrSilentStep }
  else speaker

/-- The loop that tops off the remainder of the last update: the cycles that are left, and the
speaker. -/
def topOff : ℕ → Speaker → ℕ × Speaker
  | 0, speaker => (0, speaker)
  | cyclesDiff + 1, speaker =>
    if speaker.remainderBufferIdx < speaker.remainderBufferSize then
      topOff cyclesDiff { speaker with
        remainderBuffer := Function.update speaker.remainderBuffer speaker.remainderBufferIdx
          speaker.speakerData
        remainderBufferIdx := speaker.remainderBufferIdx + 1 }
    else (cyclesDiff + 1, speaker)

/-- The mean of the remainder. -/
def sampleMean (speaker : Speaker) : Int16 :=
  Int16.ofInt ((((List.range speaker.remainderBufferSize).map fun i =>
    (speaker.remainderBuffer i).toInt).sum).tdiv speaker.remainderBufferSize)

/-- The loop that puts whole samples. -/
def putSamples : ℕ → Speaker → Speaker
  | 0, speaker => speaker
  | numSamples + 1, speaker =>
    if speaker.samplesBufferIdx < speaker.channelsSampleRateHz then
      putSamples numSamples (speaker.putSample speaker.speakerData).stepSilent
    else speaker

/-- The loop that puts the cycles behind the last whole sample. -/
def putRemainder : ℕ → Speaker → Speaker
  | 0, speaker => speaker
  | n + 1, speaker =>
    putRemainder n { speaker with
      remainderBuffer := Function.update speaker.remainderBuffer speaker.remainderBufferIdx
        speaker.speakerData
      remainderBufferIdx := speaker.remainderBufferIdx + 1 }

/-- The part of `_speaker_update` that finishes a sample begun before: the cycles that are left, and
the speaker. -/
def finishSample (cyclesDiff : ℕ) (speaker : Speaker) : Except Fault (ℕ × Speaker) :=
  if speaker.remainderBufferIdx = 0 then .ok (cyclesDiff, speaker)
  else
    let (cyclesDiff, speaker) := topOff cyclesDiff speaker
    if speaker.remainderBufferIdx = speaker.remainderBufferSize then do
      let speaker := { speaker with remainderBufferIdx := 0 }
      assert (0 < speaker.remainderBufferSize)
      if speaker.samplesBufferIdx < speaker.channelsSampleRateHz then
        .ok (cyclesDiff, speaker.putSample speaker.sampleMean)
      else .ok (cyclesDiff, speaker)
    else .ok (cyclesDiff, speaker)

/-- The rest of it: whole samples, and what remains. -/
def wholeSamples (cyclesDiff : ℕ) (speaker : Speaker) : Except Fault Speaker := do
  let numSamples := cyclesDiff / speaker.cyclesPerSample
  let cyclesRemainder := cyclesDiff - numSamples * speaker.cyclesPerSample
  let speaker := putSamples numSamples speaker
  if 0 < cyclesRemainder then do
    assert (speaker.remainderBufferIdx = 0)
    if speaker.remainderBufferSize ≤ cyclesRemainder then .ok speaker
    else .ok (putRemainder cyclesRemainder speaker)
  else .ok speaker

/-- `_speaker_update`. -/
def update (machine : Machine) (speaker : Speaker) : Except Fault Speaker := do
  let speaker ←
    if machine.isFullspeed then .ok speaker
    else if machine.cyclesCountTotal < speaker.cyclesLastUpdate then .ok speaker
    else do
      let (cyclesDiff, speaker) ←
        finishSample (machine.cyclesCountTotal - speaker.cyclesLastUpdate) speaker
      wholeSamples cyclesDiff speaker
  .ok { speaker with cyclesLastUpdate := machine.cyclesCountTotal }

end Speaker

/-! ## The backend -/

/-- What a backend does about one lock and its unlock: how much there is room for, or none if the
lock fails; what stands in the memory that it grants; and whether the unlock succeeds, so that the
bytes are taken. -/
structure Answer where
  room : Option ℕ
  memory : Buf
  unlocks : Bool

/-- `AudioBuffer_s`, as one flush finds it: the bytes it has queued, or none if it cannot tell, and
its answers. -/
structure AudioBuffer where
  position : Option ℕ
  answer : ℕ → Answer

namespace Speaker

/-- `_submit_samples_buffer_fullspeed`: what the backend takes, and the speaker. -/
def submitSamplesBufferFullspeed (buffer : AudioBuffer) (speaker : Speaker) :
    List UInt8 × Speaker :=
  let speaker := { speaker with samplesAdjustmentCounter := 0 }
  match buffer.position with
  | none => ([], speaker)
  | some bytesQueued =>
    if speaker.bufferSizeIdealMax ≤ bytesQueued then ([], speaker)
    else
      let numSamplesPad := (speaker.bufferSizeIdealMax - bytesQueued) / sampleBytes
      if numSamplesPad = 0 then ([], speaker)
      else
        match (buffer.answer 0).room with
        | none => ([], speaker)
        | some room =>
          let systemBufferSize := min room (numSamplesPad * sampleBytes)
          let numSamplesPad := min numSamplesPad (systemBufferSize / sampleBytes)
          let system := (List.range numSamplesPad).foldl
            (fun system i => setSample system i speaker.speakerData) (buffer.answer 0).memory
          (if (buffer.answer 0).unlocks then window system 0 systemBufferSize else [], speaker)

/-- The feedback to the timing of the CPU. -/
def adjust (speaker : Speaker) (bytesQueued : ℕ) : Speaker :=
  let counter :=
    if bytesQueued < speaker.bufferSizeIdealMin then
      speaker.samplesAdjustmentCounter + soundcoreErrorInc
    else if speaker.bufferSizeIdealMax < bytesQueued then
      speaker.samplesAdjustmentCounter - soundcoreErrorInc
    else 0
  let counter :=
    if counter < -soundcoreErrorMax then -soundcoreErrorMax
    else if soundcoreErrorMax < counter then soundcoreErrorMax
    else counter
  { speaker with
    samplesAdjustmentCounter := counter
    cyclesSpeakerFeedback := counter * speaker.cyclesPerSample }

/-- `bytes_free`, in the arithmetic of an `unsigned long`. -/
def bytesFree (ulong : ℕ) (speaker : Speaker) (bytesQueued : ℕ) : ℕ :=
  (speaker.bufferTotalSize + ulong - bytesQueued) % ulong

def maxSpeakerBytes (speaker : Speaker) : ℕ := speaker.channelsSampleRateHz * sampleBytes

/-- The loop that submits, for at most `tries` more times: what the backend takes. `samplesIdx`
counts bytes, and is the index of a sample. -/
def submitLoop (buffer : AudioBuffer) (speaker : Speaker) :
    ℕ → ℕ → ℕ → ℕ → ℕ → List UInt8
  | 0, _, _, _, _ => []
  | tries + 1, counter, currBufferSize, requestedBufferSize, samplesIdx =>
    match (buffer.answer counter).room with
    | none => []
    | some room =>
      let granted := min room currBufferSize
      let overflows : Bool := speaker.maxSpeakerBytes < granted
      let systemBufferSize := if overflows then speaker.maxSpeakerBytes else granted
      let requestedBufferSize := if overflows then speaker.maxSpeakerBytes else requestedBufferSize
      let system := (buffer.answer counter).memory.copy 0
        (speaker.samplesBuffer.from (sampleBytes * samplesIdx)) systemBufferSize
      if (buffer.answer counter).unlocks then
        let currBufferSize := currBufferSize - systemBufferSize
        let samplesIdx := samplesIdx + systemBufferSize
        window system 0 systemBufferSize ++
          if samplesIdx < requestedBufferSize then
            submitLoop buffer speaker tries (counter + 1) currBufferSize requestedBufferSize
              samplesIdx
          else []
      else []

/-- `_submit_samples_buffer`: the number of samples used, what the backend takes, and the
speaker. -/
def submitSamplesBuffer (ulong : ℕ) (buffer : AudioBuffer) (speaker : Speaker)
    (numChannelSamples : ℕ) : Except Fault (ℕ × List UInt8 × Speaker) := do
  assert (numChannelSamples ≠ 0)
  match buffer.position with
  | none => .ok (numChannelSamples, [], speaker)
  | some bytesQueued =>
    let speaker := speaker.adjust bytesQueued
    let bytesFree := speaker.bytesFree ulong bytesQueued
    let requestedBufferSize := numChannelSamples * sampleBytes
    let requestedSamples :=
      if bytesFree < requestedBufferSize then bytesFree / sampleBytes else numChannelSamples
    let requestedBufferSize :=
      if bytesFree < requestedBufferSize then bytesFree else requestedBufferSize
    if requestedBufferSize ≠ 0 then
      .ok (requestedSamples,
        submitLoop buffer speaker 2 0 requestedBufferSize requestedBufferSize 0, speaker)
    else .ok (requestedSamples, [], speaker)

/-- The end of `speaker_flush`: the samples used leave the buffer. -/
def dropSamples (speaker : Speaker) (samplesUsed : ℕ) : Speaker :=
  if samplesUsed ≠ 0 then
    let unsubmittedSize := speaker.samplesBufferIdx - samplesUsed
    { speaker with
      samplesBuffer := speaker.samplesBuffer.copy 0
        (speaker.samplesBuffer.from (sampleBytes * samplesUsed)) unsubmittedSize
      samplesBufferIdx := speaker.samplesBufferIdx - samplesUsed }
  else speaker

/-- The start of `speaker_flush`, up to `_speaker_update`: whether the speaker is quiet. -/
def noteQuiet (machine : Machine) (speaker : Speaker) : Speaker :=
  if machine.isFullspeed then
    { speaker with
      cyclesQuietTime := machine.cyclesCountTotal
      speakerGoingSilent := false
      speakerAccessedSinceLastFlush := false }
  else if speaker.speakerAccessedSinceLastFlush then
    { speaker with
      cyclesQuietTime := 0
      speakerGoingSilent := false
      speakerAccessedSinceLastFlush := false }
  else
    let speaker :=
      if speaker.cyclesQuietTime = 0 then
        { speaker with cyclesQuietTime := machine.cyclesCountTotal }
      else speaker
    let cyclesDiff := machine.cyclesPersecTarget / 10
    let quiet :=
      (machine.cyclesCountTotal + machine.ulong - speaker.cyclesQuietTime) % machine.ulong
    if cyclesDiff * 2 < quiet then { speaker with speakerRecentlyActive := false }
    else if speaker.speakerData ≠ 0 && cyclesDiff < quiet then
      { speaker with speakerGoingSilent := true }
    else speaker

/-- The samples that `speaker_flush` finds when it comes to submit. -/
def prepare (machine : Machine) (speaker : Speaker) : Except Fault Speaker :=
  (speaker.noteQuiet machine).update machine

/-- `speaker_flush`: what the backend takes, and the speaker. -/
def flush (machine : Machine) (buffer : AudioBuffer) (speaker : Speaker) :
    Except Fault (List UInt8 × Speaker) :=
  if !speaker.speakerIsAvailable then .ok ([], speaker)
  else do
    let speaker ← speaker.prepare machine
    if machine.isFullspeed then do
      assert (speaker.samplesBufferIdx = 0)
      .ok (submitSamplesBufferFullspeed buffer speaker)
    else if speaker.samplesBufferIdx ≠ 0 then do
      let (samplesUsed, taken, speaker) ←
        submitSamplesBuffer machine.ulong buffer speaker speaker.samplesBufferIdx
      assert (samplesUsed ≤ speaker.samplesBufferIdx)
      .ok (taken, speaker.dropSamples samplesUsed)
    else .ok ([], speaker)

/-- The speaker is accessed. -/
def noteAccess (speaker : Speaker) : Speaker :=
  { speaker with
    speakerAccessedSinceLastFlush := true
    speakerRecentlyActive := true }

/-- `speaker_data` goes to the other side. -/
def flip (speakerAmplitude : Int16) (speaker : Speaker) : Speaker :=
  { speaker with
    speakerData :=
      if speaker.speakerData = speakerAmplitude then -speakerAmplitude else speakerAmplitude }

/-- `speaker_toggle`, but for the byte that it returns: whether the machine is still at full speed,
and the speaker. -/
def toggle (machine : Machine) (shouldAutoAdjustSpeed : Bool) (speakerAmplitude : Int16)
    (speaker : Speaker) : Except Fault (Bool × Speaker) := do
  let speaker := speaker.noteAccess
  let isFullspeed := machine.isFullspeed && !shouldAutoAdjustSpeed
  let speaker ←
    if speaker.speakerIsAvailable then
      speaker.update { machine with isFullspeed := isFullspeed }
    else .ok speaker
  .ok (isFullspeed, if isFullspeed then speaker else speaker.flip speakerAmplitude)

/-- `samples_buffer[0..samples_buffer_idx)`. -/
def buffered (speaker : Speaker) : List UInt8 :=
  window speaker.samplesBuffer 0 (sampleBytes * speaker.samplesBufferIdx)

end Speaker

end Apple2ix.Sound
