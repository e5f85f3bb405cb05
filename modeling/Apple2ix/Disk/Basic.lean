import Mathlib.Algebra.GroupWithZero.Nat
import Apple2ix.Foundations.Bytes

/-! Sizes and assertions of the Disk II module. -/
namespace Apple2ix.Disk
set_option autoImplicit false

/-! ## disk.h -/

def numTracks : ℕ := 35
def numSectors : ℕ := 16
def dskTrackSize : ℕ := 0x1000
def nibTrackSize : ℕ := 0x1A00
def dskSize : ℕ := numTracks * dskTrackSize
def nibSize : ℕ := numTracks * nibTrackSize
def dskVolume : ℕ := 254

/-- The drives are numbered 0 and 1. -/
instance twoDrives : NeZero 2 := ⟨by decide⟩

/-- The assertions of disk.c that its functions can fail; an execution that fails one aborts.
`loopBound` is no assertion of the source: it is the bound on the iterations of the encoder's
`while` loop, which is never met, and `badPointer` is the read through NULL or MAP_FAILED. -/
inductive Fault
  | loopBound
  | nibblizingCounter
  | unknownNibble
  | invalidBytesCount
  | invalidPreviousNibblization
  | trackDirty
  | trackWidth
  | compressedSize
  | nameLength
  | badPointer
  deriving DecidableEq, Repr

/-- `assert(cond)`. -/
def assertThat (cond : Bool) (fault : Fault) : Except Fault Unit :=
  if cond then .ok () else .error fault

@[simp] theorem assertThat_true (fault : Fault) : assertThat true fault = .ok () := rfl
@[simp] theorem assertThat_false (fault : Fault) : assertThat false fault = .error fault := rfl

end Apple2ix.Disk
