import Mathlib.Data.Int.Basic
import Apple2ix.Disk.TrackCodec
import Apple2ix.Misc.StateHelper

/-! The Disk II controller of disk.c: two diskettes, the head of each, and the soft switches
C0E0 - C0EF that move the heads and transfer nibbles. -/
namespace Apple2ix.Disk
open Loops
set_option autoImplicit false

/-! ## The diskette in a drive -/

/-- What `raw_image_data` points at: nothing, the static buffer of the drive, or the mapped
image file. -/
inductive RawPtr
  | mapFailed
  | rawBuffer
  | mapping
  deriving DecidableEq, Repr

/-- What `nib_image_data` points at: nothing, what `raw_image_data` points at, or the static
nibble buffer of the drive. -/
inductive NibPtr
  | null
  | rawImage
  | nibBuffer
  deriving DecidableEq, Repr

/-- An image file. Its pages are shared with the mapping, and keep what was stored in them. -/
structure ImageFile where
  bytes : Buf
  length : ℕ

/-- `diskette_t`, with the memory its pointers reach: the static buffers of its drive and the
file it was last mapped to. -/
structure Diskette where
  fileName : Option (List UInt8)
  fd : ℤ
  rawImageData : RawPtr
  wholeLen : ℕ
  nibImageData : NibPtr
  nibblized : Bool
  isProtected : Bool
  trackValid : Bool
  trackDirty : Bool
  skewTable : Option (List ℕ)
  trackWidth : ℕ
  phase : ℕ
  runByte : ℕ
  nibBuffer : Buf
  rawBuffer : Buf
  file : ImageFile

/-- A pointer that is followed: following NULL or MAP_FAILED stops the program. -/
def deref {α : Type} : Option α → Except Fault α
  | none => .error .badPointer
  | some a => .ok a

namespace Diskette

def raw (d : Diskette) : Option Buf :=
  match d.rawImageData with
  | .mapFailed => none
  | .rawBuffer => some d.rawBuffer
  | .mapping => some d.file.bytes

def nib (d : Diskette) : Option Buf :=
  match d.nibImageData with
  | .null => none
  | .rawImage => d.raw
  | .nibBuffer => some d.nibBuffer

/-- Stores through `raw_image_data`. -/
def setRaw (d : Diskette) (b : Buf) : Diskette :=
  match d.rawImageData with
  | .mapFailed => d
  | .rawBuffer => { d with rawBuffer := b }
  | .mapping => { d with file := { d.file with bytes := b } }

/-- Stores through `nib_image_data`. -/
def setNib (d : Diskette) (b : Buf) : Diskette :=
  match d.nibImageData with
  | .null => d
  | .rawImage => d.setRaw b
  | .nibBuffer => { d with nibBuffer := b }

/-- `phase >> 1`. -/
def track (d : Diskette) : ℕ := d.phase >>> 1

end Diskette

/-! ## Tracks in and out of the nibble image -/

/-- `load_track_data`: the diskette afterwards and the width of the track. -/
def loadTrackData (conformant : Bool) (d : Diskette) : Except Fault (Diskette × ℕ) :=
  if d.nibblized then .ok (d, nibTrackSize)
  else do
    let raw ← deref d.raw
    let nib ← deref d.nib
    let skew ← deref d.skewTable
    let nibs ← nibblizeTrack conformant skew d.track (raw.from (dskTrackSize * d.track))
    return (d.setNib (storeNibbles nib (nibTrackSize * d.track) nibs), nibs.length)

/-- `save_track_data`. -/
def saveTrackData (d : Diskette) : Except Fault Diskette :=
  if d.nibblized then .ok { d with trackDirty := false }
  else do
    let raw ← deref d.raw
    let nib ← deref d.nib
    let skew ← deref d.skewTable
    let decoded ← denibblizeTrack skew d.trackWidth (nib.from (nibTrackSize * d.track))
      (raw.from (dskTrackSize * d.track))
    return { d.setRaw (raw.splice (dskTrackSize * d.track) decoded) with trackDirty := false }

/-! ## The controller -/

/-- `drive_t` and the static `stepper_phases`. -/
structure Disk6 where
  motorOff : ℕ
  drive : ℕ
  ddrw : ℕ
  diskByte : UInt8
  stepperPhases : BitVec 32
  disk : ℕ → Diskette

def Disk6.setDisk (s : Disk6) (drive : ℕ) (d : Diskette) : Disk6 :=
  { s with disk := Function.update s.disk drive d }

/-- The track under the head, loaded if it is not valid; the flag is false when the load gave
a track of another width. -/
def ensureTrack (conformant : Bool) (d : Diskette) : Except Fault (Diskette × Bool) :=
  if d.trackValid then .ok (d, true)
  else do
    assertThat (!d.trackDirty) .trackDirty
    let loaded ← loadTrackData conformant d
    if loaded.2 ≠ d.trackWidth then return (loaded.1, false)
    else return ({ loaded.1 with trackValid := true, runByte := 0 }, true)

/-- `track_idx`, the cell of the nibble image under the head. -/
def Diskette.trackIdx (d : Diskette) : ℕ := nibTrackSize * d.track + d.runByte

/-- The write or read of one nibble of the loaded track. -/
def transferByte (s : Disk6) : Except Fault Disk6 :=
  let d := s.disk s.drive
  if s.ddrw ≠ 0 then
    if d.isProtected then .ok s
    else if s.diskByte < 0x96 then .ok s
    else do
      let nib ← deref d.nib
      return s.setDisk s.drive
        { d.setNib (Function.update nib d.trackIdx s.diskByte) with trackDirty := true }
  else if 99 < s.motorOff then .ok { s with diskByte := 0xFF }
  else do
    let nib ← deref d.nib
    return { s with
      motorOff := if s.motorOff = 0 then 0 else s.motorOff + 1
      diskByte := nib d.trackIdx }

/-- `++run_byte`, back to 0 at the end of the track. -/
def Diskette.advance (d : Diskette) : Diskette :=
  { d with runByte := if d.trackWidth ≤ d.runByte + 1 then 0 else d.runByte + 1 }

/-- The `do { } while (0)` of `_disk_readWriteByte`. -/
def accessByte (conformant : Bool) (s : Disk6) : Except Fault Disk6 :=
  let d := s.disk s.drive
  if d.fd < 0 then .ok { s with diskByte := 0xFF }
  else do
    let loaded ← ensureTrack conformant d
    if loaded.2 then transferByte (s.setDisk s.drive loaded.1)
    else return { s.setDisk s.drive loaded.1 with diskByte := 0xFF }

/-- `_disk_readWriteByte`. -/
def diskReadWriteByte (conformant : Bool) (s : Disk6) : Except Fault Disk6 := do
  let t ← accessByte conformant s
  return t.setDisk t.drive (t.disk t.drive).advance

/-- Magnets next to the cog pull the head; both together do not. -/
def stepDirection (stepperPhases : BitVec 32) (phase : ℕ) : ℤ :=
  (if stepperPhases &&& (1#32 <<< ((phase + 1) &&& 3)) ≠ 0 then 1 else 0) -
    (if stepperPhases &&& (1#32 <<< ((phase + 3) &&& 3)) ≠ 0 then 1 else 0)

/-- `next_phase`, clamped at both ends. -/
def nextPhase (phase : ℕ) (direction : ℤ) : ℕ :=
  (min (max (phase + direction) 0) 69).toNat

/-- The head is about to leave its track, which is saved if it is dirty. -/
def leaveTrack (d : Diskette) : Except Fault Diskette :=
  if d.trackDirty then do
    let saved ← saveTrackData d
    return { saved with trackValid := false }
  else .ok { d with trackValid := false }

/-- The head of one drive under the magnets. -/
def moveHead (stepperPhases : BitVec 32) (d : Diskette) : Except Fault Diskette :=
  let direction := stepDirection stepperPhases d.phase
  let next := nextPhase d.phase direction
  if direction = 0 then .ok d
  else if d.phase >>> 1 ≠ next >>> 1 then do
    let left ← leaveTrack d
    return { left with phase := next }
  else .ok { d with phase := next }

/-- Each of C0E0 - C0E7 switches one magnet off or on. -/
def steppersAfter (stepperPhases : BitVec 32) (ea : UInt16) : BitVec 32 :=
  let phaseBit : BitVec 32 := 1#32 <<< ((ea.toNat >>> 1) &&& 3)
  if ea &&& 1 ≠ 0 then stepperPhases ||| phaseBit else stepperPhases &&& ~~~phaseBit

/-- `_disk6_phaseChange`. -/
def disk6PhaseChange (s : Disk6) (ea : UInt16) : Except Fault Disk6 := do
  let stepperPhases := steppersAfter s.stepperPhases ea
  let d ← moveHead stepperPhases (s.disk s.drive)
  return { s.setDisk s.drive d with stepperPhases := stepperPhases }

/-- `_disk6_motorControl`. -/
def disk6MotorControl (s : Disk6) (ea : UInt16) : Disk6 :=
  { s with motorOff := if ea &&& 1 ≠ 0 then 0 else 1 }

/-- `_disk6_driveSelect`. -/
def disk6DriveSelect (s : Disk6) (ea : UInt16) : Disk6 :=
  { s with drive := if ea &&& 1 ≠ 0 then 1 else 0 }

/-- `_disk_readLatch`. -/
def diskReadLatch (s : Disk6) : Disk6 :=
  if s.motorOff = 0 ∧ s.ddrw = 0 then
    { s with diskByte :=
        if (s.disk s.drive).isProtected then s.diskByte ||| 0x80 else s.diskByte &&& 0x7F }
  else s

/-- `_disk_modeSelect`. -/
def diskModeSelect (s : Disk6) (ea : UInt16) : Disk6 :=
  { s with ddrw := (ea &&& 1).toNat }

/-- The switch over C0E0 - C0EF; only a read runs the handler `readLatch` of C0ED. -/
def disk6Switch (conformant : Bool) (readLatch : Disk6 → Disk6) (s : Disk6) (ea : UInt16) :
    Except Fault Disk6 :=
  let sw := ea &&& 0xF
  if sw ≤ 0x7 then disk6PhaseChange s ea
  else if sw ≤ 0x9 then .ok (disk6MotorControl s ea)
  else if sw ≤ 0xB then .ok (disk6DriveSelect s ea)
  else if sw = 0xC then diskReadWriteByte conformant s
  else if sw = 0xD then .ok (readLatch s)
  else .ok (diskModeSelect s ea)

/-- `disk6_ioRead`: the state afterwards and the byte read. -/
def disk6IoRead (conformant : Bool) (floatingBus : UInt8) (s : Disk6) (ea : UInt16) :
    Except Fault (Disk6 × UInt8) := do
  let t ← disk6Switch conformant diskReadLatch s ea
  return (t, if ea &&& 1 ≠ 0 then floatingBus else t.diskByte)

/-- `disk6_ioWrite`. Any address writes the latch. -/
def disk6IoWrite (conformant : Bool) (s : Disk6) (ea : UInt16) (b : UInt8) :
    Except Fault Disk6 := do
  let t ← disk6Switch conformant id s ea
  return if t.ddrw ≠ 0 then { t with diskByte := b } else t

/-! ## Flush and reset -/

/-- What `disk6_flush` does to the diskette; the `msync` itself changes no byte. -/
def flushDiskette (d : Diskette) : Except Fault Diskette :=
  if d.fd < 0 then .ok d
  else if d.isProtected then .ok d
  else if d.rawImageData = .mapFailed then .ok d
  else if d.trackDirty then saveTrackData d
  else .ok d

/-- `disk6_flush`. -/
def disk6Flush (s : Disk6) (drive : ℕ) : Except Fault Disk6 := do
  let d ← flushDiskette (s.disk drive)
  return s.setDisk drive d

/-- `_init_disk6`, the state the program starts in. -/
def initDisk6 : Disk6 where
  motorOff := 0
  drive := 0
  ddrw := 0
  diskByte := 0
  stepperPhases := 0
  disk := fun _ =>
    { fileName := none, fd := -1, rawImageData := .mapFailed, wholeLen := 0, nibImageData := .null,
      nibblized := false, isProtected := false, trackValid := false, trackDirty := false,
      skewTable := none, trackWidth := 0, phase := 0, runByte := 0, nibBuffer := fun _ => 0,
      rawBuffer := fun _ => 0, file := { bytes := fun _ => 0, length := 0 } }

/-- The fields `disk6_init` resets in each drive. -/
def Diskette.reset (d : Diskette) : Diskette :=
  { d with phase := 0, runByte := 0, trackValid := false, trackDirty := false }

/-- `disk6_init`. -/
def disk6Init (s : Disk6) : Except Fault Disk6 := do
  let s ← disk6Flush s 0
  let s ← disk6Flush s 1
  return { ((s.setDisk 0 (s.disk 0).reset).setDisk 1 (s.disk 1).reset) with
    stepperPhases := 0, motorOff := 1, drive := 0, ddrw := 0, diskByte := 0 }

end Apple2ix.Disk
