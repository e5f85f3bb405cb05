import Apple2ix.Misc.Loader
import Apple2ix.Disk.Insertion

/-! `disk6_loadState`, and runs of the Disk II module in which states are loaded. -/
namespace Apple2ix.Disk
set_option autoImplicit false

/-! ## Host and format -/

/-- The answers of the host while one drive is loaded: to the eject, to the insert of the image
`helper` has a descriptor of, and to the eject after a load that failed. -/
structure LoadHost where
  eject : EjectHost
  insert : InsertHost
  giveUp : EjectHost

/-- What `namebuf` names as a C string, which the first NUL ends. -/
def cString (namebuf : List UInt8) : List UInt8 := namebuf.takeWhile (· != 0)

/-- The number in four bytes, the highest first. -/
def deserialize32 (serialized : List UInt8) : ℕ :=
  let byte : ℕ → ℕ := fun i => (serialized.getD i 0).toNat
  (((byte 0 <<< 24) ||| (byte 1 <<< 16)) ||| (byte 2 <<< 8)) ||| (byte 3)

/-! ## disk6_loadState -/

/-- `disk6_eject(drive)`. -/
def disk6Eject (host : EjectHost) (drive : ℕ) (s : Disk6) : Except Fault Disk6 := do
  let ejected ← ejectDiskette host (s.disk drive)
  return s.setDisk drive ejected.1

/-- The image named in the file. The load goes on when it cannot be inserted. -/
def loadImage (conformant : Bool) (host : LoadHost) (drive : ℕ) (isProtected : Bool)
    (namelen : ℕ) : Loader Fault Disk6 :=
  if namelen ≠ 0 then
    .field namelen fun namebuf s => do
      let inserted ← insertDiskette conformant host.insert (s.disk drive) (cString namebuf)
        isProtected
      return s.setDisk drive inserted.1
  else .step id

/-- `stepper_phases`, which is in the file once for each drive. -/
def loadSteppers : Loader Fault Disk6 :=
  .field 1 fun state s =>
    .ok { s with stepperPhases := BitVec.ofNat 32 ((state.getD 0 0).toNat &&& 0x3) }

def loadPlaceholder : Loader Fault Disk6 := .field 1 fun _ s => .ok s

def loadPhase (drive : ℕ) : Loader Fault Disk6 :=
  .field 1 fun state s =>
    .ok (s.setDisk drive { s.disk drive with phase := (state.getD 0 0).toNat })

def loadRunByte (drive : ℕ) : Loader Fault Disk6 :=
  .field 2 fun serialized s =>
    .ok (s.setDisk drive { s.disk drive with
      runByte := ((serialized.getD 0 0).toNat <<< 8) ||| (serialized.getD 1 0).toNat })

/-- One pass of the loop over the drives. -/
def loadDrive (conformant : Bool) (host : LoadHost) (drive : ℕ) : Loader Fault Disk6 :=
  .read 1 fun state => .read 4 fun serialized => .all
    [.effect (disk6Eject host.eject drive),
      loadImage conformant host drive (state.getD 0 0 != 0) (deserialize32 serialized),
      loadSteppers, loadPlaceholder, loadPhase drive, loadRunByte drive]

/-- The fields before those of the drives. -/
def loadHeader : Loader Fault Disk6 :=
  .all
    [.field 1 fun state s => .ok { s with motorOff := (state.getD 0 0).toNat },
      .field 1 fun state s => .ok { s with drive := (state.getD 0 0).toNat },
      .field 1 fun state s => .ok { s with ddrw := (state.getD 0 0).toNat },
      .field 1 fun state s => .ok { s with diskByte := state.getD 0 0 }]

/-- The drives; when one of them cannot be loaded both are ejected. -/
def loadDrives (conformant : Bool) (hosts : Fin 2 → LoadHost) : Loader Fault Disk6 :=
  fun s input => do
  let drives ← Loader.all
    [loadDrive conformant (hosts 0) 0, loadDrive conformant (hosts 1) 1] s input
  if drives.2.2 then return drives
  else
    let t ← disk6Eject (hosts 0).giveUp 0 drives.1
    let u ← disk6Eject (hosts 1).giveUp 1 t
    return (u, drives.2.1, false)

/-- `disk6_loadState`, with the value it returns. -/
def disk6LoadState (conformant : Bool) (hosts : Fin 2 → LoadHost) : Loader Fault Disk6 :=
  loadHeader.andThen (loadDrives conformant hosts)

/-! ## Calls -/

/-- All entry points of the module. -/
inductive Call
  | op (op : Op)
  | loadState (hosts : Fin 2 → LoadHost) (input : List UInt8)

/-- The state after one call. -/
def call (conformant : Bool) (s : Disk6) : Call → Except Fault Disk6
  | .op op => step conformant s op
  | .loadState hosts input => (disk6LoadState conformant hosts s input).map Prod.fst

end Apple2ix.Disk
