import Mathlib.Algebra.Group.Nat.Defs
import Apple2ix.Disk.Controller

/-! Inserting and ejecting disk images, saving the state of the controller, and the operations
that runs of the Disk II module are made of. -/
namespace Apple2ix.Disk
open Loops
set_option autoImplicit false

/-! ## Image types by file name -/

def extGz : List UInt8 := [0x2E, 0x67, 0x7A]
def diskExtNib : List UInt8 := [0x2E, 0x6E, 0x69, 0x62]
def diskExtPo : List UInt8 := [0x2E, 0x70, 0x6F]

def isGz (name : List UInt8) : Bool :=
  extGz.length < name.length && name.drop (name.length - extGz.length) == extGz

/-- The test shared by `is_nib` and `is_po`: the extension may be followed by `.gz`. -/
def hasExtension (ext name : List UInt8) : Bool :=
  if name.length ≤ ext.length then false
  else if isGz name then
    if name.length ≤ ext.length + extGz.length then false
    else (name.drop (name.length - extGz.length - ext.length)).take ext.length == ext
  else name.drop (name.length - ext.length) == ext

def isNib (name : List UInt8) : Bool := hasExtension diskExtNib name
def isPo (name : List UInt8) : Bool := hasExtension diskExtPo name

/-! ## Eject -/

/-- What `zlib_deflate_buffer` returns: its error, the destination buffer and `*dst_size`. -/
structure Deflated where
  err : Option String
  dst : Buf
  dstSize : ℤ

/-- The answers of the host to one `disk6_eject`. -/
structure EjectHost where
  zlibDeflateBuffer : Buf → ℕ → Buf → Deflated
  ftruncateOk : Bool

/-- The image of a `.gz` file is compressed to the raw buffer of the drive, and from there
copied over the mapped image. -/
def recompress (host : EjectHost) (d : Diskette) : Except Fault (Diskette × Option String) := do
  let raw ← deref d.raw
  let deflated := host.zlibDeflateBuffer raw d.wholeLen d.rawBuffer
  let held := { d with rawBuffer := deflated.dst }
  if 0 < deflated.dstSize then
    assertThat (deflated.dstSize < d.wholeLen) .compressedSize
    let packed := held.setRaw (raw.copy 0 deflated.dst deflated.dstSize.toNat)
    let length := if host.ftruncateOk then deflated.dstSize.toNat else d.file.length
    return ({ packed with file := { packed.file with length := length } }, deflated.err)
  else return (held, deflated.err)

/-- The part of `disk6_eject` that gives the mapped image back to its file. -/
def releaseImage (host : EjectHost) (d : Diskette) : Except Fault (Diskette × Option String) :=
  if d.rawImageData = .mapFailed then .ok (d, none)
  else do
    let name ← deref d.fileName
    if isGz name then recompress host d else return (d, none)

/-- The fields of an empty drive; `phase` and `run_byte` are kept. -/
def Diskette.empty (d : Diskette) : Diskette :=
  { d with
    fileName := none, fd := -1, rawImageData := .mapFailed, wholeLen := 0, nibImageData := .null,
    nibblized := false, isProtected := false, trackValid := false, trackDirty := false,
    skewTable := none, trackWidth := 0 }

/-- The part of `disk6_eject` for writable images. -/
def closeImage (host : EjectHost) (d : Diskette) : Except Fault (Diskette × Option String) :=
  if 0 < d.fd ∧ d.isProtected = false then do
    let flushed ← flushDiskette d
    releaseImage host flushed
  else .ok (d, none)

/-- `disk6_eject`, with the error it returns. -/
def ejectDiskette (host : EjectHost) (d : Diskette) : Except Fault (Diskette × Option String) := do
  let closed ← closeImage host d
  return (closed.1.empty, closed.2)

/-! ## Insert -/

def readonlyFd : ℤ := 0x00DEADFD
def errCannotDup : String := "could not dup() disk image file descriptor"
def errMmapFailed : String := "disk image unreadable for mmap"

/-- The answers of the host to one `disk6_insert`: what the file inflates to in a buffer, the
descriptor `dup` returns, the file after it was inflated in place, and whether it can be mapped. -/
structure InsertHost extends EjectHost where
  zlibInflateToBuffer : ℕ → Buf → Option String × Buf
  dup : Option ℕ
  zlibInflateInplace : ℕ → Option String × ImageFile
  mmapOk : Bool

/-- The fields set from the file name. -/
def Diskette.named (d : Diskette) (name : List UInt8) (readonly : Bool) : Diskette :=
  let nibblized := isNib name
  { d with
    fileName := some name
    nibblized := nibblized
    skewTable :=
      if nibblized then d.skewTable else some (if isPo name then skewTable6Po else skewTable6Do)
    isProtected := readonly
    wholeLen := if nibblized then nibSize else dskSize }

/-- The raw image of the inserted file; an error for which the source leaves the loop comes with
the flag false. -/
def openImage (host : InsertHost) (d : Diskette) : Diskette × Option String × Bool :=
  if d.isProtected then
    let inflated := host.zlibInflateToBuffer d.wholeLen d.rawBuffer
    ({ d with fd := readonlyFd, rawImageData := .rawBuffer, rawBuffer := inflated.2 },
      inflated.1, true)
  else
    match host.dup with
    | none => (d, some errCannotDup, false)
    | some fd =>
      let inflated := host.zlibInflateInplace d.wholeLen
      let d := { d with fd := fd, file := inflated.2 }
      match inflated.1 with
      | some err => (d, some err, false)
      | none =>
        if host.mmapOk then ({ d with rawImageData := .mapping }, none, true)
        else (d, some errMmapFailed, false)

/-- One pass of the loop that nibblizes the tracks of the image. -/
def nibblizeStep (conformant : Bool) (trk : ℕ) (d : Diskette) : Except Fault Diskette := do
  let loaded ← loadTrackData conformant { d with phase := trk <<< 1 }
  assertThat (loaded.2 ≤ nibTrackSize) .trackWidth
  if loaded.1.trackWidth = 0 then return { loaded.1 with trackWidth := loaded.2 }
  else
    assertThat (loaded.1.trackWidth = loaded.2) .trackWidth
    return loaded.1

/-- The nibble image of an opened image: the raw image itself, or the 35 tracks nibblized to the
static buffer. -/
def attachNibbles (conformant : Bool) (d : Diskette) : Except Fault Diskette :=
  if d.nibblized then
    .ok { d with nibImageData := .rawImage, trackWidth := nibTrackSize }
  else do
    let attached ← forUpM numTracks (nibblizeStep conformant)
      { d with nibImageData := .nibBuffer, trackWidth := 0 }
    return { attached with phase := d.phase }

/-- `disk6_insert` after the eject it begins with. -/
def insertImage (conformant : Bool) (host : InsertHost) (d : Diskette) (name : List UInt8)
    (readonly : Bool) : Except Fault (Diskette × Option String) := do
  let opened := openImage host (d.named name readonly)
  let attached ← (if opened.2.2 then attachNibbles conformant opened.1 else .ok opened.1)
  match opened.2.1 with
  | none => return (attached, none)
  | some err =>
    let ejected ← ejectDiskette host.toEjectHost attached
    return (ejected.1, some err)

/-- `disk6_insert`, with the error it returns. -/
def insertDiskette (conformant : Bool) (host : InsertHost) (d : Diskette) (name : List UInt8)
    (readonly : Bool) : Except Fault (Diskette × Option String) := do
  let ejected ← ejectDiskette host.toEjectHost d
  insertImage conformant host ejected.1 name readonly

/-! ## disk6_saveState -/

/-- Four bytes, the highest first. -/
def serialize32 (n : ℕ) : List UInt8 :=
  [UInt8.ofNat ((n &&& 0xFF000000) >>> 24), UInt8.ofNat ((n &&& 0xFF0000) >>> 16),
    UInt8.ofNat ((n &&& 0xFF00) >>> 8), UInt8.ofNat (n &&& 0xFF)]

/-- The chunks saved for a drive after its write-protect flag. -/
def driveChunks (s : Disk6) (d : Diskette) : List (List UInt8) :=
  (match d.fileName with
    | some name => [serialize32 (name.length % 2 ^ 32), name]
    | none => [serialize32 0]) ++
  [[UInt8.ofNat s.stepperPhases.toNat], [0], [UInt8.ofNat d.phase],
    [UInt8.ofNat ((d.runByte &&& 0xFF00) >>> 8), UInt8.ofNat (d.runByte &&& 0xFF)]]

/-- One drive of `disk6_saveState`: it is flushed before any of its fields is saved. -/
def saveDrive (s : Disk6) (drive : ℕ) (helper : StateHelper) :
    Except Fault (Disk6 × StateHelper × Bool) := do
  let s ← disk6Flush s drive
  let d := s.disk drive
  let saved := helper.save [if d.isProtected then 1 else 0]
  if saved.2 then
    assertThat ((d.fileName.getD []).length ≤ 0xFFFFFFFF) .nameLength
    return (s, saved.1.saveAll (driveChunks s d))
  else return (s, saved.1, false)

/-- `disk6_saveState`, with the value it returns. -/
def disk6SaveState (s : Disk6) (helper : StateHelper) :
    Except Fault (Disk6 × StateHelper × Bool) := do
  let saved := helper.saveAll
    [[UInt8.ofNat s.motorOff], [UInt8.ofNat s.drive], [UInt8.ofNat s.ddrw], [s.diskByte]]
  if saved.2 then
    let a ← saveDrive s 0 saved.1
    if a.2.2 then saveDrive a.1 1 a.2.1 else return a
  else return (s, saved)

/-! ## Operations -/

/-- The entry points of the module; `drive` is one of the two the source asserts it to be. -/
inductive Op
  | ioRead (ea : UInt16) (floatingBus : UInt8)
  | ioWrite (ea : UInt16) (b : UInt8)
  | init
  | insert (drive : Fin 2) (name : List UInt8) (readonly : Bool) (host : InsertHost)
  | eject (drive : Fin 2) (host : EjectHost)
  | flush (drive : Fin 2)
  | saveState (helper : StateHelper)

/-- The state after one operation. -/
def step (conformant : Bool) (s : Disk6) : Op → Except Fault Disk6
  | .ioRead ea floatingBus => (disk6IoRead conformant floatingBus s ea).map Prod.fst
  | .ioWrite ea b => disk6IoWrite conformant s ea b
  | .init => disk6Init s
  | .insert drive name readonly host => do
    let inserted ← insertDiskette conformant host (s.disk drive) name readonly
    return s.setDisk drive inserted.1
  | .eject drive host => do
    let ejected ← ejectDiskette host (s.disk drive)
    return s.setDisk drive ejected.1
  | .flush drive => disk6Flush s drive
  | .saveState helper => (disk6SaveState s helper).map Prod.fst

end Apple2ix.Disk
