import Apple2ix.Audio.PlayQueue
import Apple2ix.Foundations.Outcomes
import Apple2ix.Foundations.Windows

/-! The voices of soundcore-openal.c. What is committed goes to a working buffer, and from there to
a free OpenAL buffer that is attached to the source of the voice; a play queue keeps track of
those. -/
namespace Apple2ix.OpenAl
open Runs Audio
set_option autoImplicit false

def openalNumBuffers : ℕ := 4

/-- Why a step does not return: a failed `assert`, a loop that is not done, an OpenAL call that the
state of a buffer does not allow, or it was no step of the protocol. -/
inductive Fault
  | assertion
  | unfinished
  | invalid
  | misuse
  deriving DecidableEq, Repr

/-- `assert`. -/
def assert (condition : Bool) : Except Fault Unit :=
  if condition then .ok () else .error .assertion

/-! ## OpenAL -/

inductive SourceState
  | initial
  | playing
  | paused
  | stopped
  deriving DecidableEq, Repr

/-- A source with the buffers. Of those attached to it, the oldest first, the first `processed` are
done with, and `offset` is `AL_BYTE_OFFSET`, counted from the first of them. `handed` is all that
the buffers were ever given, in order. -/
structure Source where
  buffers : UInt32 → List UInt8
  attached : List UInt32
  processed : ℕ
  offset : ℕ
  state : SourceState
  handed : List UInt8

/-- How far playback has got when the source is asked. -/
structure Playback where
  processed : ℕ
  offset : ℕ
  state : SourceState
  deriving DecidableEq, Repr

namespace Source

def attachedBytes (source : Source) : List UInt8 := source.attached.flatMap source.buffers

/-- There is nothing left to play. -/
def drained (source : Source) : Bool := source.offset = source.attachedBytes.length

/-- The source has played on. -/
def play (source : Source) (playback : Playback) : Except Fault Source :=
  if playback.processed ≤ source.attached.length ∧
      playback.offset ≤ source.attachedBytes.length then
    .ok { source with
      processed := playback.processed
      offset := playback.offset
      state := playback.state }
  else .error .misuse

/-- `alSourceUnqueueBuffers`, of one buffer. -/
def alSourceUnqueueBuffers (source : Source) : Except Fault (UInt32 × Source) :=
  match source.attached with
  | [] => .error .invalid
  | bufid :: attached =>
    .ok (bufid, { source with
      attached := attached
      processed := source.processed - 1
      offset := source.offset - (source.buffers bufid).length })

/-- `alBufferData`. A buffer that is attached cannot be given other data. -/
def alBufferData (source : Source) (bufid : UInt32) (data : List UInt8) : Except Fault Source :=
  if bufid ∈ source.attached then .error .invalid
  else .ok { source with
    buffers := Function.update source.buffers bufid data
    handed := source.handed ++ data }

/-- `alSourceQueueBuffers`, of one buffer. -/
def alSourceQueueBuffers (source : Source) (bufid : UInt32) : Source :=
  { source with attached := source.attached ++ [bufid] }

/-- `alSourcePlay`, from the first attached buffer on. -/
def alSourcePlay (source : Source) : Source :=
  { source with processed := 0, offset := 0, state := .playing }

end Source

/-! ## Voices -/

/-- `ALVoice`, without its sample parameters. -/
structure ALVoice where
  playq : PQList
  queuedTotalBytes : ℤ
  data : Buf
  index : ℕ
  buffersize : ℕ

/-- A voice with its source. -/
structure Device where
  voice : ALVoice
  source : Source

/-- What waits in the working buffer. -/
def ALVoice.working (voice : ALVoice) : List UInt8 := window voice.data 0 voice.index

/-- A quarter of the working buffer of silence. -/
def ALVoice.quiet (voice : ALVoice) : ALVoice :=
  let quietSize := voice.buffersize / 4
  { voice with data := voice.data.copy 0 zeros quietSize, index := voice.index + quietSize }

/-- `_openal_createVoice`, with the identities that `alGenBuffers` has given. -/
def openalCreateVoice (bufids : List UInt32) (buffersize : ℕ) : Except Audio.Fault Device := do
  let playq ← playqCreatePlayQueue bufids
  .ok {
    voice := ⟨playq, 0, zeros, 0, buffersize⟩
    source := ⟨fun _ => [], [], 0, 0, .initial, []⟩ }

/-- A call of the play queue. -/
def ofPlayq {α : Type} : Except Audio.Fault α → Except Fault α
  | .ok a => .ok a
  | .error .assertion => .error .assertion
  | .error .unfinished => .error .unfinished

/-- `_playq_removeNode`. -/
def playqRemoveNode (fuel : ℕ) (voice : ALVoice) (playNode : PlayNode) : Except Fault ALVoice := do
  let (playq, playNode, err) ← ofPlayq (playqRemove fuel voice.playq playNode)
  assert (err = 0)
  let queuedTotalBytes := voice.queuedTotalBytes - playNode.numBytes.toInt
  assert (0 ≤ queuedTotalBytes)
  .ok { voice with playq := playq, queuedTotalBytes := queuedTotalBytes }

/-- One pass of the loop in `_ALProcessPlayBuffers`. -/
def unqueue (fuel : ℕ) (dev : Device) : Except Fault Device := do
  let (bufid, source) ← dev.source.alSourceUnqueueBuffers
  let (playNode, err) ← ofPlayq (playqGet fuel dev.voice.playq ⟨bufid, 0, none⟩)
  if err ≠ 0 then .ok { dev with source := source }
  else do
    let voice ← playqRemoveNode fuel dev.voice playNode
    .ok { voice := voice, source := source }

/-- The loop of `_ALProcessPlayBuffers`. -/
def unqueueProcessed (fuel : ℕ) : ℕ → Device → Except Fault Device
  | 0, dev => .ok dev
  | processed + 1, dev => do
    let dev ← unqueue fuel dev
    unqueueProcessed fuel processed dev

/-- Where playback is at the two questions of `_ALProcessPlayBuffers`, for `AL_BUFFERS_PROCESSED`
and for `AL_BYTE_OFFSET`. -/
structure Polls where
  first : Playback
  second : Playback
  deriving DecidableEq, Repr

/-- `_ALProcessPlayBuffers`: `bytes_queued`, and the voice. -/
def alProcessPlayBuffers (fuel : ℕ) (dev : Device) (polls : Polls) :
    Except Fault (ℕ × Device) := do
  let source ← dev.source.play polls.first
  let dev ← unqueueProcessed fuel source.processed { dev with source := source }
  let source ← dev.source.play polls.second
  let q := dev.voice.queuedTotalBytes - source.offset
  .ok (if 0 ≤ q then q.toNat else 0, { dev with source := source })

/-- `ALGetPosition`: `bytes_queued`, and the voice. -/
def alGetPosition (fuel : ℕ) (dev : Device) (polls : Polls) : Except Fault (ℕ × Device) := do
  let (queued, dev) ← alProcessPlayBuffers fuel dev polls
  .ok (queued + dev.voice.index, dev)

/-- `ALLockBuffer`: where `audio_ptr` points to in the working buffer, `audio_bytes`, and the
voice. -/
def alLockBuffer (fuel : ℕ) (dev : Device) (writeBytes : ℕ) (polls : Polls) :
    Except Fault (ℕ × ℕ × Device) := do
  let writeBytes := if writeBytes = 0 then dev.voice.buffersize else writeBytes
  let (bytesQueued, dev) ← alProcessPlayBuffers fuel dev polls
  -- a buffer underrun
  let voice := if bytesQueued = 0 ∧ dev.voice.index = 0 then dev.voice.quiet else dev.voice
  let remaining := voice.buffersize - voice.index
  let writeBytes := if remaining < writeBytes then remaining else writeBytes
  .ok (voice.index, writeBytes, { dev with voice := voice })

/-- `_ALSubmitBufferToOpenAL`. `Enqueue` sets the identity of the node. -/
def alSubmitBufferToOpenAL (dev : Device) (playback : Playback) : Except Fault Device := do
  let voice := dev.voice
  let (playq, playNode, err) := playqEnqueue voice.playq ⟨0, Int32.ofNat voice.index, some 0⟩
  if err ≠ 0 then .ok dev
  else do
    let voice := { voice with
      playq := playq
      queuedTotalBytes := voice.queuedTotalBytes + voice.index
      index := 0 }
    assert (0 < voice.queuedTotalBytes)
    let source ← dev.source.alBufferData playNode.nodeId
      (window voice.data 0 playNode.numBytes.toInt.toNat)
    let source := source.alSourceQueueBuffers playNode.nodeId
    let source ← source.play playback
    if source.state ≠ .playing ∧ source.state ≠ .paused then
      .ok { voice := voice, source := source.alSourcePlay }
    else .ok { voice := voice, source := source }

/-- `ALUnlockBuffer`. -/
def alUnlockBuffer (fuel : ℕ) (dev : Device) (audioBytes : ℕ) (polls : Polls)
    (playback : Playback) : Except Fault Device := do
  let (bytesQueued, dev) ← alProcessPlayBuffers fuel dev polls
  let voice := { dev.voice with index := dev.voice.index + audioBytes }
  let dev := { dev with voice := voice }
  assert (voice.index < voice.buffersize || voice.index = voice.buffersize)
  -- keep accumulating data into the working buffer
  if voice.buffersize / 4 ≤ bytesQueued then .ok dev
  else if !playqCanEnqueue voice.playq then .ok dev
  else alSubmitBufferToOpenAL dev playback

/-! ## Runs of one writer and the source -/

/-- A buffer that is locked: where it is, how many bytes were granted, and what stands in them. -/
structure Lock where
  audioPtr : ℕ
  audioBytes : ℕ
  data : List UInt8

/-- What the stream is made of. -/
inductive Entry
  | committed (data : List UInt8)
  | silence
  deriving DecidableEq, Repr

def Entry.bytes (buffersize : ℕ) : Entry → List UInt8
  | .committed data => data
  | .silence => List.replicate (buffersize / 4) 0

/-- A voice with its writer, and the ledger of what there is to play. -/
structure Session where
  dev : Device
  lock : Option Lock
  entries : List Entry

def Session.stream (s : Session) : List UInt8 :=
  s.entries.flatMap (Entry.bytes s.dev.voice.buffersize)

/-- A lock finds nothing: neither is anything left to play, nor does anything wait to be handed
over. -/
def Session.underrun (s : Session) (source : Source) : Bool :=
  source.drained && s.dev.source.handed = s.stream

inductive Step
  | getPosition (polls : Polls)
  | lock (writeBytes : ℕ) (polls : Polls)
  | fill (data : List UInt8)
  | unlock (audioBytes : ℕ) (polls : Polls) (playback : Playback)
  deriving DecidableEq, Repr

/-- One step. The source plays on whenever it is asked; an unlock needs a lock of its own, and
commits at least one byte. -/
def step (fuel : ℕ) (s : Session) : Step → Except Fault Session
  | .getPosition polls => do
    let (_, dev) ← alGetPosition fuel s.dev polls
    .ok { s with dev := dev }
  | .lock writeBytes polls => do
    let (audioPtr, audioBytes, dev) ← alLockBuffer fuel s.dev writeBytes polls
    .ok {
      dev := dev
      lock := some ⟨audioPtr, audioBytes, window dev.voice.data audioPtr audioBytes⟩
      entries := if s.underrun dev.source then s.entries ++ [.silence] else s.entries }
  | .fill data =>
    match s.lock with
    | none => .error .misuse
    | some lock =>
      if data.length ≤ lock.audioBytes then
        .ok { s with
          dev := { s.dev with voice := { s.dev.voice with
            data := s.dev.voice.data.copy lock.audioPtr (data.getD · 0) data.length } }
          lock := some { lock with data := data ++ lock.data.drop data.length } }
      else .error .misuse
  | .unlock audioBytes polls playback =>
    match s.lock with
    | none => .error .misuse
    | some lock =>
      if 0 < audioBytes ∧ audioBytes ≤ lock.audioBytes then do
        let dev ← alUnlockBuffer fuel s.dev audioBytes polls playback
        .ok {
          dev := dev
          lock := none
          entries := s.entries ++ [.committed (lock.data.take audioBytes)] }
      else .error .misuse

def start (dev : Device) : Session where
  dev := dev
  lock := none
  entries := []

abbrev run (fuel : ℕ) (s : Session) (steps : List Step) : Except Fault Session :=
  runM (step fuel) s steps

end Apple2ix.OpenAl
