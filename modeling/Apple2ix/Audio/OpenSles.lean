import Apple2ix.Foundations.Bytes
import Apple2ix.Foundations.Results
import Apple2ix.Foundations.Runs
import Apple2ix.Foundations.Windows

/-! The voices of soundcore-opensles.c: a ring buffer between one writer and the callback that plays
it. Behind the end of the ring lies an overflow of `submitSize` bytes, so that the callback can
always read that much in one piece. -/
namespace Apple2ix.OpenSles
open Runs
set_option autoImplicit false

/-! ## Voices -/

/-- `SLVoice`, without its links. -/
structure SLVoice where
  ringBuffer : Buf
  bufferSize : ℕ
  writeHead : ℕ
  writeWrapCount : ℕ
  readHead : ℕ
  readWrapCount : ℕ

/-- What there is of `EngineContext_s`, and how many values an `unsigned long` has. -/
structure EngineContext where
  submitSize : ℕ
  ulong : ℕ

/-- Why a step does not return: a failed `assert`, or it was no step of the protocol. -/
inductive Fault
  | assertion
  | misuse
  deriving DecidableEq, Repr

/-- `assert`. -/
def assert (condition : Bool) : Except Fault Unit :=
  if condition then .ok () else .error .assertion

/-- The voice of `opensl_createSoundBuffer`, in zeroed memory. -/
def SLVoice.create (bufferSize : ℕ) : SLVoice where
  ringBuffer := fun _ => 0
  bufferSize := bufferSize
  writeHead := 0
  writeWrapCount := 0
  readHead := 0
  readWrapCount := 0

namespace SLVoice

/-- `readHead` has advanced beyond `writeHead`. -/
def isUnder (voice : SLVoice) : Bool :=
  voice.writeWrapCount < voice.readWrapCount ||
    (voice.writeHead ≤ voice.readHead && voice.readWrapCount = voice.writeWrapCount)

/-- The writer goes to where the reader is if it is behind. -/
def resync (voice : SLVoice) : SLVoice :=
  if voice.isUnder then
    { voice with writeHead := voice.readHead, writeWrapCount := voice.readWrapCount }
  else voice

def workingBytes (voice : SLVoice) : ℕ :=
  if voice.readHead ≤ voice.writeHead then voice.writeHead - voice.readHead
  else voice.writeHead + (voice.bufferSize - voice.readHead)

/-- What the callback takes from a voice. -/
def window (voice : SLVoice) (submitSize : ℕ) : List UInt8 :=
  (List.range submitSize).map fun i => voice.ringBuffer (voice.readHead + i)

end SLVoice

/-! ## The writer -/

/-- `_underrun_check_and_manage`: whether it is an underrun, the working bytes, and the voice. -/
def underrunCheckAndManage (voice : SLVoice) : Except Fault (Bool × ℕ × SLVoice) := do
  assert (voice.readHead < voice.bufferSize)
  assert (voice.writeHead < voice.bufferSize)
  .ok (voice.isUnder, voice.resync.workingBytes, voice.resync)

/-- `SLGetPosition`: `bytes_queued`, and the voice. -/
def slGetPosition (voice : SLVoice) : Except Fault (ℕ × SLVoice) := do
  let (_, workingBytes, voice) ← underrunCheckAndManage voice
  assert (workingBytes ≤ voice.bufferSize)
  .ok (workingBytes, voice)

/-- `SLLockBuffer`: where `audio_ptr` points to in the ring buffer, `audio_bytes`, and the voice. -/
def slLockBuffer (ctx : EngineContext) (voice : SLVoice) (writeBytes : ℕ) :
    Except Fault (ℕ × ℕ × SLVoice) := do
  let writeBytes := if writeBytes = 0 then voice.bufferSize else writeBytes
  let (_, workingBytes, voice) ← underrunCheckAndManage voice
  let availableBytes := voice.bufferSize - workingBytes
  assert (workingBytes ≤ voice.bufferSize)
  assert (voice.writeHead < voice.bufferSize)
  let writableBytes := min availableBytes ((voice.bufferSize + ctx.submitSize) - voice.writeHead)
  let writeBytes := if writableBytes < writeBytes then writableBytes else writeBytes
  .ok (voice.writeHead, writeBytes, voice)

/-- The part of `SLUnlockBuffer` behind its assertion. -/
def SLVoice.commit (ctx : EngineContext) (voice : SLVoice) (audioBytes : ℕ) : SLVoice :=
  let previousWriteHead := voice.writeHead
  let writeHead := voice.writeHead + audioBytes
  if voice.bufferSize ≤ writeHead then
    -- copy data from overflow into beginning of buffer
    { voice with
      writeHead := writeHead - voice.bufferSize
      writeWrapCount := (voice.writeWrapCount + 1) % ctx.ulong
      ringBuffer := voice.ringBuffer.copy 0 (voice.ringBuffer.from voice.bufferSize)
        (writeHead - voice.bufferSize) }
  else if previousWriteHead < ctx.submitSize then
    -- copy data in beginning of buffer into overflow position
    { voice with
      writeHead := writeHead
      ringBuffer := voice.ringBuffer.copy (voice.bufferSize + previousWriteHead)
        (voice.ringBuffer.from previousWriteHead)
        (min audioBytes (ctx.submitSize - previousWriteHead)) }
  else { voice with writeHead := writeHead }

/-- `SLUnlockBuffer`. Where playback has stopped, `_SLMaybeSubmitAndStart` runs the callback once:
that is a step of the reader. -/
def slUnlockBuffer (ctx : EngineContext) (voice : SLVoice) (audioBytes : ℕ) :
    Except Fault SLVoice := do
  assert (voice.writeHead + audioBytes ≤ voice.bufferSize + ctx.submitSize)
  .ok (voice.commit ctx audioBytes)

/-! ## The reader -/

/-- Quiet backfilling and overflow/wrapping, for one voice. -/
def SLVoice.backfill (ctx : EngineContext) (voice : SLVoice) : SLVoice :=
  let ringBuffer := voice.ringBuffer.copy voice.readHead zeros ctx.submitSize
  let newReadHead := voice.readHead + ctx.submitSize
  if voice.bufferSize ≤ newReadHead then
    { voice with
      ringBuffer := (ringBuffer.copy voice.bufferSize zeros ctx.submitSize).copy 0 zeros
        (newReadHead - voice.bufferSize)
      readHead := newReadHead - voice.bufferSize
      readWrapCount := (voice.readWrapCount + 1) % ctx.ulong }
  else { voice with ringBuffer := ringBuffer, readHead := newReadHead }

/-- `mixBuf[i] += ..`, over samples of two bytes. -/
def mix : List UInt8 → List UInt8 → List UInt8
  | a :: b :: mixBuf, c :: d :: other =>
    let sample := a.toNat + 256 * b.toNat + (c.toNat + 256 * d.toNat)
    UInt8.ofNat sample :: UInt8.ofNat (sample / 256) :: mix mixBuf other
  | mixBuf, _ => mixBuf

/-- `bqPlayerCallback`: the data that is enqueued, and the voices. At most two are mixed. -/
def bqPlayerCallback (ctx : EngineContext) : List SLVoice → Option (List UInt8 × List SLVoice)
  | [] => none
  | [voice0] => some (voice0.window ctx.submitSize, [voice0.backfill ctx])
  | voice0 :: voice1 :: voices =>
    some (mix (voice0.window ctx.submitSize) (voice1.window ctx.submitSize),
      voice0.backfill ctx :: voice1.backfill ctx :: voices)

/-! ## Runs of one writer and the reader -/

/-- A buffer that is locked: where it is, how many bytes were granted, and what was filled in. -/
structure Lock where
  audioPtr : ℕ
  audioBytes : ℕ
  data : Option (List UInt8)

/-- A voice with its writer, and the ledger: up to which byte of the stream there is data, how many
bytes the callback has gone through, and what it has played. -/
structure Session where
  voice : SLVoice
  lock : Option Lock
  committed : ℕ
  played : ℕ
  heard : List UInt8

/-- `memcpy(audio_ptr, data, ..)`. -/
def SLVoice.fill (voice : SLVoice) (audioPtr : ℕ) (data : List UInt8) : SLVoice :=
  { voice with ringBuffer := voice.ringBuffer.copy audioPtr (data.getD · 0) data.length }

inductive Step
  | getPosition
  | lock (writeBytes : ℕ)
  | fill (data : List UInt8)
  | unlock (audioBytes : ℕ)
  | callback
  deriving DecidableEq, Repr

/-- One step. What comes in between a lock and its unlock is a fill, or the callback. -/
def step (ctx : EngineContext) (s : Session) : Step → Except Fault Session
  | .getPosition =>
    match s.lock with
    | some _ => .error .misuse
    | none => do
      let (_, voice) ← slGetPosition s.voice
      .ok { s with voice := voice, committed := max s.committed s.played }
  | .lock writeBytes =>
    match s.lock with
    | some _ => .error .misuse
    | none => do
      let (audioPtr, audioBytes, voice) ← slLockBuffer ctx s.voice writeBytes
      .ok { s with
        voice := voice
        lock := some ⟨audioPtr, audioBytes, none⟩
        committed := max s.committed s.played }
  | .fill data =>
    match s.lock with
    | some ⟨audioPtr, audioBytes, none⟩ =>
      if data.length ≤ audioBytes then
        .ok { s with
          voice := s.voice.fill audioPtr data
          lock := some ⟨audioPtr, audioBytes, some data⟩ }
      else .error .misuse
    | _ => .error .misuse
  | .unlock audioBytes =>
    match s.lock with
    | some lock =>
      if audioBytes ≤ lock.audioBytes then do
        let voice ← slUnlockBuffer ctx s.voice audioBytes
        .ok { s with voice := voice, lock := none, committed := s.committed + audioBytes }
      else .error .misuse
    | none => .error .misuse
  | .callback =>
    .ok { s with
      voice := s.voice.backfill ctx
      played := s.played + ctx.submitSize
      heard := s.heard ++ s.voice.window ctx.submitSize }

def start (bufferSize : ℕ) : Session where
  voice := .create bufferSize
  lock := none
  committed := 0
  played := 0
  heard := []

abbrev run (ctx : EngineContext) (s : Session) (steps : List Step) : Except Fault Session :=
  runM (step ctx) s steps

/-- The callback does to each of its voices what the step does. -/
theorem bqPlayerCallback_step (ctx : EngineContext) (voices : List SLVoice)
    (hvoices : voices ≠ []) :
    ∃ mixBuf, bqPlayerCallback ctx voices =
      some (mixBuf, (voices.take 2).map (SLVoice.backfill ctx) ++ voices.drop 2) := by
  match voices with
  | [] => exact absurd rfl hvoices
  | [_] => exact ⟨_, rfl⟩
  | _ :: _ :: _ => exact ⟨_, rfl⟩

end Apple2ix.OpenSles
