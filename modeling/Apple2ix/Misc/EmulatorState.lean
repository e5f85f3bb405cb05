import Apple2ix.Cpu.SavedRegisters
import Apple2ix.Misc.Saver
import Apple2ix.Misc.SectionFrames
import Apple2ix.Vm.StateLoader

/-! `emulator_saveState` and `emulator_loadState`: a save-state file as a whole. -/
namespace Apple2ix.SaveState
open Loader
set_option autoImplicit false

/-- The parts of the emulator that a save-state file is about. -/
structure Emulator where
  disk6 : Disk.Disk6
  vm : Vm.Machine
  runArgs : Cpu.Registers
  timing : Timing.Clocked
  card : Mockingboard.Card

inductive Fault where
  | disk6 (fault : Disk.Fault)
  | vm
  | timing (fault : Timing.SpeedFault)
  | mb (fault : Mockingboard.Fault)

/-- What a load meets: the host files of the two drives, and the sound system. -/
structure Host where
  conformant : Bool
  drives : Fin 2 → Disk.LoadHost
  sampleRateHz : ℕ
  sound : Mockingboard.Host

/-! ## Saving -/

/-- `disk6_saveState`, which writes a track back first. -/
def saveDisk6 : Saver Fault Emulator := fun e helper =>
  match Disk.disk6SaveState e.disk6 helper with
  | .error fault => .error (.disk6 fault)
  | .ok (disk6, saved) => .ok ({ e with disk6 := disk6 }, saved)

def saveVm : Saver Fault Emulator := fun e helper =>
  match Vm.vmSaveState helper e.vm with
  | none => .error .vm
  | some saved => .ok (e, saved)

def saveTiming : Saver Fault Emulator := fun e helper =>
  match Timing.timingSaveState helper e.timing.speeds with
  | .error fault => .error (.timing fault)
  | .ok saved => .ok (e, saved)

def saveMb : Saver Fault Emulator := fun e helper =>
  match Mockingboard.mbSaveState helper e.card with
  | .error fault => .error (.mb fault)
  | .ok saved => .ok (e, saved)

def saveHeader : Saver Fault Emulator := .calls fun _ => [saveMagick2]

def saveCpu65 : Saver Fault Emulator := .calls fun e => Cpu.registerChunks e.runArgs

/-- `video_saveState`: a byte that means nothing. -/
def saveVideo : Saver Fault Emulator := .calls fun _ => [[0]]

/-- `emulator_saveState`. -/
def emulatorSaveState : Saver Fault Emulator :=
  .all [saveHeader, saveDisk6, saveVm, saveCpu65, saveTiming, saveVideo, saveMb]

/-! ## Loading -/

def loadDisk6 (host : Host) : Loader Fault Emulator :=
  on (·.disk6) (fun e disk6 => { e with disk6 := disk6 })
    (withErrors .disk6 (Disk.disk6LoadState host.conformant host.drives))

def loadVm : Loader Fault Emulator :=
  on (·.vm) (fun e vm => { e with vm := vm }) (withErrors (fun _ => .vm) Vm.vmLoader)

def loadCpu65 : Loader Fault Emulator :=
  on (·.runArgs) (fun e runArgs => { e with runArgs := runArgs }) Cpu.cpu65LoadState

def loadTiming (host : Host) : Loader Fault Emulator :=
  on (·.timing) (fun e timing => { e with timing := timing })
    (withErrors .timing (Timing.timingLoadState host.sampleRateHz))

/-- `video_loadState`. -/
def loadVideo : Loader Fault Emulator := field 1 fun _ e => .ok e

/-- `timing_initialize` with these factors. -/
def timingAt (host : Host) (scale altscale : Timing.Floating) (e : Emulator) :
    Except Fault Emulator :=
  match ((e.timing.setScaleFactor scale).setAltscaleFactor altscale).timingInitialize
      host.sampleRateHz with
  | .error fault => .error (.timing fault)
  | .ok timing => .ok { e with timing := timing }

/-- What `mb_loadState` does between its changes of the speed. -/
def loadCards (host : Host) : Loader Fault Emulator :=
  among fun e => on (·.card) (fun e card => { e with card := card })
    (withErrors .mb fun card input =>
      Mockingboard.mbLoadState host.sound card e.timing.cyclesCountTotal input)

/-- `mb_loadState`, at the speed of a 6502. The factors are put back however the load ends. -/
def loadMb (host : Host) : Loader Fault Emulator :=
  among fun e => around (timingAt host (.finite 1) (.finite 1))
    (timingAt host e.timing.speeds.cpuScaleFactor e.timing.speeds.cpuAltscaleFactor)
    (loadCards host)

/-- The parts of a file of this version. -/
def loadSections (host : Host) (version : ℕ) : Loader Fault Emulator :=
  all [loadDisk6 host, loadVm, loadCpu65,
    if 2 ≤ version then loadTiming host else step id,
    loadVideo,
    if 2 ≤ version then loadMb host else step id]

/-- `emulator_loadState`. What follows the last part is not looked at. -/
def emulatorLoadState (host : Host) : Loader Fault Emulator := fun e input =>
  match loadMagick input with
  | none => .ok (e, input, false)
  | some (version, rest) => loadSections host version e rest

/-! ## The end of a file -/

theorem framed_loadSections (host : Host) (version : ℕ) : Framed (loadSections host version) := by
  refine framed_all fun load hload => ?_
  simp only [List.mem_cons, List.not_mem_nil, or_false] at hload
  obtain rfl | rfl | rfl | rfl | rfl | rfl := hload
  · exact ((Disk.framed_disk6LoadState _ _).withErrors _).on
  · exact (Vm.framed_vmLoader.withErrors _).on
  · exact Cpu.framed_cpu65LoadState.on
  · split
    · exact ((Timing.framed_timingLoadState _).withErrors _).on
    · exact framed_step id
  · exact framed_field _ _
  · split
    · refine framed_among fun e => Framed.around (framed_among fun e => ?_)
      exact ((Mockingboard.framed_mbLoadState _ _).withErrors _).on
    · exact framed_step id

theorem versionMagick_length (version : ℕ) : (versionMagick version).length = 5 := by
  unfold versionMagick
  split <;> rfl

/-- A file whose header is cut off has no version. -/
theorem loadMagick_short {input : List UInt8} (h : input.length < 5) : loadMagick input = none := by
  cases hload : loadMagick input with
  | none => rfl
  | some result =>
    obtain ⟨-, hinput⟩ := loadMagick_eq_some hload
    rw [hinput, List.length_append, versionMagick_length] at h
    omega

theorem framed_emulatorLoadState (host : Host) : Framed (emulatorLoadState host) := by
  intro e input t rest hload
  unfold emulatorLoadState at hload
  cases hmagick : loadMagick input with
  | none =>
    rw [hmagick] at hload
    cases hload
  | some result =>
    obtain ⟨version, left⟩ := result
    rw [hmagick] at hload
    obtain ⟨hversion, rfl⟩ := loadMagick_eq_some hmagick
    obtain ⟨bytes, rfl, hreads, hcut⟩ := framed_loadSections host version e left t rest hload
    refine ⟨versionMagick version ++ bytes, (List.append_assoc ..).symm, fun more => ?_, ?_⟩
    · rw [List.append_assoc, emulatorLoadState, loadMagick_append hversion]
      exact hreads more
    · intro start missing hbytes hmissing r rest' hload'
      unfold emulatorLoadState at hload'
      obtain ⟨mid, rfl, hmid⟩ | ⟨mid, hmid, hshort⟩ := ends_within hbytes
      · rw [loadMagick_append hversion] at hload'
        exact hcut mid missing hmid hmissing r rest' hload'
      · have hpos := List.length_pos_of_ne_nil hmid
        have hlength := versionMagick_length version
        rw [hshort, List.length_append] at hlength
        rw [loadMagick_short (by omega)] at hload'
        cases hload'

end Apple2ix.SaveState
