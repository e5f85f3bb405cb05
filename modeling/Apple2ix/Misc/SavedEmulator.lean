import Apple2ix.Misc.EmulatorState

/-! Saving the whole emulator and loading it again. -/
namespace Apple2ix
open Loader
set_option autoImplicit false

/-! ## The clock -/

namespace Timing
variable {sampleRateHz : ℕ}

theorem timingSaveState_file {helper saved : StateHelper} {speeds : Speeds}
    (h : timingSaveState helper speeds = .ok (saved, true)) : ∃ k l,
      hundredths speeds.cpuScaleFactor = .ok k ∧ hundredths speeds.cpuAltscaleFactor = .ok l ∧
      saved.file = helper.file ++ savedBytes k l speeds.altSpeedEnabled := by
  have hmap : ∀ {x : Except SpeedFault ℕ} {bytes : List UInt8},
      x.map serialized = .ok bytes → ∃ lVal, x = .ok lVal := by
    intro x bytes hx
    cases x with
    | error fault => cases hx
    | ok lVal => exact ⟨lVal, rfl⟩
  unfold timingSaveState at h
  split at h
  · cases h
  · obtain ⟨chunks, hchunks, hfile⟩ := StateHelper.saveEach_ok h
    obtain ⟨first, more, rfl, hfirst, hmore⟩ := List.map_eq_cons_iff.mp hchunks.symm
    obtain ⟨second, last, rfl, hsecond, hlast⟩ := List.map_eq_cons_iff.mp hmore
    obtain ⟨k, hk⟩ := hmap hfirst.symm
    obtain ⟨l, hl⟩ := hmap hsecond.symm
    refine ⟨k, l, hk, hl, ?_⟩
    rw [hk, hl] at hchunks
    have hsame : [serialized k, serialized l, [if speeds.altSpeedEnabled then 1 else 0]] = _ :=
      List.map_injective_iff.mpr (fun _ _ h => Except.ok.inj h) hchunks
    rw [hfile, ← hsame, savedBytes]
    simp

theorem timingSaveState_host {helper saved : StateHelper} {speeds : Speeds} {written : Bool}
    (h : timingSaveState helper speeds = .ok (saved, written)) : saved.host = helper.host := by
  unfold timingSaveState at h
  split at h
  · cases h
  · exact StateHelper.saveEach_host h

/-- The speaker, if there is one, can be reset at the speed of this clock. -/
def Clocked.CanReset (sampleRateHz : ℕ) (t : Clocked) : Prop :=
  t.speaker.speakerIsAvailable = true → Resettable sampleRateHz t.speeds.cyclesPersecTarget

/-- A speed of the range can be set: up to the pivot it is usable, above it the target stays. -/
theorem Clocked.CanReset.initialize (hpos : 0 < sampleRateHz) (hmax : sampleRateHz ≤ 255121)
    {t : Clocked} (h : t.CanReset sampleRateHz) {lVal : ℕ} (hlow : 25 ≤ lVal)
    (hspeed : t.speeds.speed = factorOf lVal) : ∃ u,
      t.timingInitialize sampleRateHz = .ok u ∧ u.speeds = t.speeds.timingInitialize ∧
      u.cyclesCountTotal = t.cyclesCountTotal ∧ u.CanReset sampleRateHz := by
  obtain ⟨-, htarget⟩ := initialize_target hspeed
  have husable : t.speaker.speakerIsAvailable = true →
      Resettable sampleRateHz t.speeds.timingInitialize.cyclesPersecTarget := by
    intro havailable
    rw [htarget]
    by_cases hfast : 400 < lVal
    · rw [if_pos hfast]
      exact h havailable
    · rw [if_neg hfast]
      obtain ⟨n, hn, -, hle⟩ := usable_factorOf hpos hmax hlow (Nat.le_of_not_lt hfast)
      exact ⟨n, hn, hle⟩
  obtain ⟨after, hafter⟩ := (speakerReset_iff sampleRateHz t.cyclesCountTotal _ _).mpr husable
  have havailable : after.speakerIsAvailable = t.speaker.speakerIsAvailable := by
    unfold speakerReset at hafter
    split at hafter
    · obtain ⟨-, -, -, hsame, -⟩ := speakerInitTiming_ok hafter
      exact hsame
    · cases hafter
      rfl
  refine ⟨{ t with speeds := t.speeds.timingInitialize, speaker := after },
    (timingInitialize_eq sampleRateHz t _).mpr ⟨hafter, rfl⟩, rfl, rfl, fun hafter' => ?_⟩
  exact husable (havailable ▸ hafter')

/-- The hundredths of a file are loaded, whatever follows them. -/
theorem reads_timingLoadState (hpos : 0 < sampleRateHz) (hmax : sampleRateHz ≤ 255121)
    {t : Clocked} (h : t.CanReset sampleRateHz) {k l : ℕ} (hk : 25 ≤ k ∧ k ≤ 406)
    (hl : 25 ≤ l ∧ l ≤ 406) (alt : Bool) : ∃ u,
      Reads (timingLoadState sampleRateHz) t (savedBytes k l alt) u ∧
      u.speeds.cpuScaleFactor = factorOf k ∧ u.speeds.cpuAltscaleFactor = factorOf l ∧
      u.speeds.altSpeedEnabled = alt ∧ u.CanReset sampleRateHz := by
  have hloaded : ∀ rest, t.loaded (savedBytes k l alt ++ rest) = t.loaded (savedBytes k l alt) :=
    fun _ => rfl
  have hfields : t.loaded (savedBytes k l alt) =
      ((t.setScaleFactor (factorOf k)).setAltscaleFactor (factorOf l)).setAltSpeedEnabled alt := by
    have hfirst : (savedBytes k l alt).take 4 = serialized k := rfl
    have hsecond : ((savedBytes k l alt).drop 4).take 4 = serialized l := rfl
    have hthird : decide (((((savedBytes k l alt).drop 8).take 1).getD 0 0) ≠ 0) = alt := by
      cases alt <;> rfl
    rw [Clocked.loaded, hfirst, hsecond, hthird, lValOf_serialized hk.2, lValOf_serialized hl.2]
  obtain ⟨hlength, hactive⟩ := saved_loaded hk.2 hl.2 alt
  have hlow : 25 ≤ activeLVal (savedBytes k l alt) := by
    rw [hactive]
    split_ifs
    · exact hl.1
    · exact hk.1
  have hcan : (t.loaded (savedBytes k l alt)).CanReset sampleRateHz := h
  obtain ⟨u, hu, hspeeds, -, hreset⟩ := hcan.initialize hpos hmax hlow (speed_loaded t _)
  refine ⟨u, fun rest => ?_, ?_, ?_, ?_, hreset⟩
  · rw [timingLoadState_eq sampleRateHz t (by rw [List.length_append]; omega), hloaded, hu]
    rfl
  all_goals
    rw [hspeeds, hfields]
    rfl

theorem factorOf_hundred : factorOf 100 = .finite 1 := by
  have hone : ((100 : ℕ) : ℚ) / 100 = 1 := by norm_num
  have hround : Rounding.roundTo doubleDigits 1 = 1 :=
    Rounding.roundTo_exact one_pos (m := 1) (e := 0) (by decide) (by simp)
  rw [factorOf_eq, loadedFactor, hone, hround]

end Timing

namespace SaveState
open Runs Saver

/-! ## What is saved -/

section Save
variable (s : Emulator)

/-- Saving writes the tracks of the drives back, and changes nothing else. -/
def Flushed (e : Emulator) : Prop := ∃ disk6, e = { s with disk6 := disk6 }

theorem writes_saveDisk6 : Writes (· = s) saveDisk6 (Flushed s) fun bytes =>
    ∃ file : Disk.StateFile, bytes = file.bytes ∧ file.Saves s.disk6 := by
  intro e t helper saved he hsave
  rw [he, saveDisk6] at hsave
  cases hdisk : Disk.disk6SaveState s.disk6 helper with
  | error fault =>
    rw [hdisk] at hsave
    cases hsave
  | ok result =>
    obtain ⟨disk6, saved', written⟩ := result
    rw [hdisk] at hsave
    cases hsave
    obtain ⟨file, hfile, hsaves⟩ := Disk.saved_file hdisk
    exact ⟨⟨disk6, rfl⟩, file.bytes, hfile, file, rfl, hsaves⟩

theorem writes_saveVm (hvm : Vm.MachineOk s.vm) : Writes (Flushed s) saveVm (Flushed s) fun bytes =>
    ∀ start, Reads Vm.vmLoader start bytes (Vm.restored s.vm start) := by
  rintro e t helper saved ⟨disk6, rfl⟩ hsave
  unfold saveVm at hsave
  cases hvmSave : Vm.vmSaveState helper s.vm with
  | none =>
    simp only [hvmSave] at hsave
    cases hsave
  | some result =>
    simp only [hvmSave] at hsave
    cases hsave
    obtain ⟨bytes, hfile, hreads⟩ := hvm.reads_saved hvmSave
    exact ⟨⟨disk6, rfl⟩, bytes, hfile, hreads⟩

theorem writes_saveTiming : Writes (Flushed s) saveTiming (Flushed s) fun bytes => ∃ k l,
    Timing.hundredths s.timing.speeds.cpuScaleFactor = .ok k ∧
    Timing.hundredths s.timing.speeds.cpuAltscaleFactor = .ok l ∧
    bytes = Timing.savedBytes k l s.timing.speeds.altSpeedEnabled := by
  rintro e t helper saved ⟨disk6, rfl⟩ hsave
  unfold saveTiming at hsave
  cases htiming : Timing.timingSaveState helper s.timing.speeds with
  | error fault =>
    simp only [htiming] at hsave
    cases hsave
  | ok result =>
    simp only [htiming] at hsave
    cases hsave
    obtain ⟨k, l, hk, hl, hfile⟩ := Timing.timingSaveState_file htiming
    exact ⟨⟨disk6, rfl⟩, _, hfile, k, l, hk, hl, rfl⟩

theorem writes_saveMb : Writes (Flushed s) saveMb (Flushed s) fun bytes =>
    ∃ helper saved : StateHelper, Mockingboard.mbSaveState helper s.card = .ok (saved, true) ∧
      saved.file = helper.file ++ bytes := by
  rintro e t helper saved ⟨disk6, rfl⟩ hsave
  unfold saveMb at hsave
  cases hmb : Mockingboard.mbSaveState helper s.card with
  | error fault =>
    simp only [hmb] at hsave
    cases hsave
  | ok result =>
    simp only [hmb] at hsave
    cases hsave
    obtain ⟨-, hfile⟩ := Mockingboard.mbSaveState_file hmb
    exact ⟨⟨disk6, rfl⟩, _, hfile, helper, saved, hmb, hfile⟩

end Save

/-- A file of version 2, by its parts. The factors of the speed are in hundredths. -/
structure StateFile where
  disk6 : Disk.StateFile
  vm : List UInt8
  runArgs : Cpu.Registers
  scale : ℕ
  altscale : ℕ
  altSpeedEnabled : Bool
  video : UInt8
  mb : List UInt8

def StateFile.bytes (file : StateFile) : List UInt8 :=
  versionMagick 2 ++ (file.disk6.bytes ++ (file.vm ++ ((Cpu.registerChunks file.runArgs).flatten ++
    (Timing.savedBytes file.scale file.altscale file.altSpeedEnabled ++
      ([file.video] ++ (file.mb ++ []))))))

/-- The file that is saved of the state `s`. -/
structure StateFile.Saves (file : StateFile) (s : Emulator) : Prop where
  disk6 : file.disk6.Saves s.disk6
  vm : ∀ start, Reads Vm.vmLoader start file.vm (Vm.restored s.vm start)
  runArgs : file.runArgs = s.runArgs
  scale : Timing.hundredths s.timing.speeds.cpuScaleFactor = .ok file.scale
  altscale : Timing.hundredths s.timing.speeds.cpuAltscaleFactor = .ok file.altscale
  altSpeedEnabled : file.altSpeedEnabled = s.timing.speeds.altSpeedEnabled
  mb : ∃ helper saved : StateHelper, Mockingboard.mbSaveState helper s.card = .ok (saved, true) ∧
    saved.file = helper.file ++ file.mb

/-- **What is saved is a file of the state.** -/
theorem emulatorSaveState_file {s t : Emulator} (hvm : Vm.MachineOk s.vm)
    {helper saved : StateHelper}
    (h : emulatorSaveState s helper = .ok (t, saved, true)) :
    ∃ file : StateFile, saved.file = helper.file ++ file.bytes ∧ file.Saves s := by
  have hheader : Writes (· = s) saveHeader (· = s) (· = saveMagick2) :=
    writes_calls fun _ _ => List.append_nil _
  have hcpu65 : Writes (Flushed s) saveCpu65 (Flushed s)
      (· = (Cpu.registerChunks s.runArgs).flatten) := by
    refine writes_calls ?_
    rintro e ⟨disk6, rfl⟩
    rfl
  have hvideo : Writes (Flushed s) saveVideo (Flushed s) (· = [0]) := writes_calls fun _ _ => rfl
  have hend : Writes (Flushed s) (.calls fun _ => [] : Saver Fault Emulator) (Flushed s) (· = []) :=
    writes_calls fun _ _ => rfl
  have hall := hheader.andThen ((writes_saveDisk6 s).andThen ((writes_saveVm s hvm).andThen
    (hcpu65.andThen ((writes_saveTiming s).andThen (hvideo.andThen
      ((writes_saveMb s).andThen hend))))))
  obtain ⟨-, bytes, hfile, magick, _, rfl, ⟨_, _, ⟨disk6, rfl, hdisk6⟩, ⟨vm, _, hreads,
    ⟨_, _, rfl, ⟨_, _, ⟨k, l, hk, hl, rfl⟩, ⟨_, _, rfl, ⟨mb, _, hmb, rfl, rfl⟩, rfl⟩, rfl⟩, rfl⟩,
    rfl⟩, rfl⟩, rfl⟩ := hall s t helper saved rfl h
  exact ⟨⟨disk6, vm, s.runArgs, k, l, _, 0, mb⟩, hfile, hdisk6, hreads, rfl, hk, hl, rfl, hmb⟩

/-! ## What is loaded -/

/-- A state that the calls of each module, and a speed of the preferences, lead to. -/
structure Reached (host : Host) (soundcardType : Mockingboard.CardType) (s : Emulator) : Prop where
  disk6 : ∃ calls, runM (Disk.call host.conformant) Disk.initDisk6 calls = .ok s.disk6
  vm : ∃ vm ops, s.vm = Vm.runFrom vm ops
  scale : ∃ k, Timing.HundredthsOf s.timing.speeds.cpuScaleFactor k
  altscale : ∃ l, Timing.HundredthsOf s.timing.speeds.cpuAltscaleFactor l
  card : Mockingboard.Reachable host.sound soundcardType s.card

/-- A state that a file can be loaded in: its images can be given up, its speaker can be reset. -/
structure Ready (host : Host) (soundcardType : Mockingboard.CardType) (u : Emulator) : Prop where
  eject : ∀ (i : Fin 2) fault,
    Disk.ejectDiskette (host.drives i).eject (u.disk6.disk i) ≠ .error fault
  speaker : u.timing.CanReset host.sampleRateHz
  card : Mockingboard.Reachable host.sound soundcardType u.card

/-- The speed that the factor in use sets. At full speed the target is that of a 6502, which the
load of the cards has set. -/
structure Settled (speeds : Timing.Speeds) : Prop where
  isFullspeed : speeds.isFullspeed = speeds.speed.above Timing.cpuScaleFastestPivot
  cyclesPersecTarget : speeds.cyclesPersecTarget =
    (if speeds.isFullspeed then .finite 1 else speeds.speed).times Timing.doubleDigits
      Timing.clk6502

theorem settled_timingInitialize {speeds : Timing.Speeds} (h : speeds.cyclesPersecTarget =
    (Timing.Floating.finite 1).times Timing.doubleDigits Timing.clk6502) :
    Settled speeds.timingInitialize := by
  refine ⟨rfl, ?_⟩
  show (if speeds.speed.above Timing.cpuScaleFastestPivot then speeds.cyclesPersecTarget
      else speeds.speed.times Timing.doubleDigits Timing.clk6502) =
    (if speeds.speed.above Timing.cpuScaleFastestPivot then .finite 1 else speeds.speed).times
      Timing.doubleDigits Timing.clk6502
  rw [h]
  split_ifs <;> rfl

/-- The state `t` after a load in `u` of what was saved of `s`. -/
structure Resumes (s u t : Emulator) : Prop where
  disk6 : Disk.Resumes s.disk6 t.disk6
  restores : Disk.Restores s.disk6 t.disk6 ↔ Disk.HighMagnetsOff s.disk6 ∧ Disk.NamesPlain s.disk6
  vm : t.vm = Vm.restored s.vm u.vm
  runArgs : t.runArgs = s.runArgs
  scale : ∃ k, Timing.hundredths s.timing.speeds.cpuScaleFactor = .ok k ∧
    t.timing.speeds.cpuScaleFactor = Timing.factorOf k
  altscale : ∃ l, Timing.hundredths s.timing.speeds.cpuAltscaleFactor = .ok l ∧
    t.timing.speeds.cpuAltscaleFactor = Timing.factorOf l
  altSpeedEnabled : t.timing.speeds.altSpeedEnabled = s.timing.speeds.altSpeedEnabled
  speeds : Settled t.timing.speeds
  regs : ∀ i < Mockingboard.numSY6522, t.card.regs i = s.card.regs i
  currentRegister : ∀ i < Mockingboard.numSY6522,
    (t.card.mb i).nAYCurrentRegister = (s.card.mb i).nAYCurrentRegister
  timerDevice : t.card.nMBTimerDevice = Mockingboard.derivedTimer s.card

section Load
variable {host : Host} {soundcardType : Mockingboard.CardType} {s u : Emulator} {file : StateFile}

theorem reads_loadDisk6 (hs : Reached host soundcardType s) (hsaves : file.Saves s)
    (hreadable : Disk.Readable host.drives s.disk6) (hu : Ready host soundcardType u) : ∃ disk6,
      Reads (loadDisk6 host) u file.disk6.bytes { u with disk6 := disk6 } ∧
      Disk.Resumes s.disk6 disk6 ∧
      (Disk.Restores s.disk6 disk6 ↔ Disk.HighMagnetsOff s.disk6 ∧ Disk.NamesPlain s.disk6) := by
  obtain ⟨calls, hcalls⟩ := hs.disk6
  have hfits := Disk.calls_fit host.conformant hcalls
  obtain ⟨i, fault, heject, -⟩ | ⟨disk6, hreads, hloaded⟩ :=
    Disk.reads_disk6LoadState host.conformant host.drives u.disk6 file.disk6
  · exact absurd heject (hu.eject i fault)
  · exact ⟨disk6, (hreads.withErrors _).on,
      Disk.resumes_loaded hfits hsaves.disk6 hreadable hloaded,
      Disk.restores_iff hfits hsaves.disk6 hreadable hloaded⟩

theorem reads_loadVm (hsaves : file.Saves s) : Reads loadVm u file.vm
    { u with vm := Vm.restored s.vm u.vm } := by
  have hreads : Reads loadVm u file.vm _ := ((hsaves.vm u.vm).withErrors fun _ => Fault.vm).on
  exact hreads

theorem reads_loadCpu65 (runArgs : Cpu.Registers) : Reads loadCpu65 u
    (Cpu.registerChunks runArgs).flatten { u with runArgs := runArgs } := by
  have hreads : Reads loadCpu65 u _ _ := (Cpu.reads_cpu65LoadState u.runArgs runArgs).on
  exact hreads

/-- The hundredths of a file are those of factors in the range. -/
theorem StateFile.Saves.range (hsaves : file.Saves s) (hs : Reached host soundcardType s) :
    (25 ≤ file.scale ∧ file.scale ≤ 406) ∧ 25 ≤ file.altscale ∧ file.altscale ≤ 406 := by
  obtain ⟨k, hk⟩ := hs.scale
  obtain ⟨l, hl⟩ := hs.altscale
  obtain ⟨hk, -, hkRange⟩ := hk.saved
  obtain ⟨hl, -, hlRange⟩ := hl.saved
  obtain rfl : k = file.scale := Except.ok.inj (hk.symm.trans hsaves.scale)
  obtain rfl : l = file.altscale := Except.ok.inj (hl.symm.trans hsaves.altscale)
  exact ⟨hkRange, hlRange⟩

theorem reads_loadTiming (hpos : 0 < host.sampleRateHz) (hmax : host.sampleRateHz ≤ 255121)
    (hs : Reached host soundcardType s) (hsaves : file.Saves s)
    (hu : u.timing.CanReset host.sampleRateHz) : ∃ timing,
      Reads (loadTiming host) u (Timing.savedBytes file.scale file.altscale file.altSpeedEnabled)
        { u with timing := timing } ∧
      timing.speeds.cpuScaleFactor = Timing.factorOf file.scale ∧
      timing.speeds.cpuAltscaleFactor = Timing.factorOf file.altscale ∧
      timing.speeds.altSpeedEnabled = file.altSpeedEnabled ∧
      timing.CanReset host.sampleRateHz := by
  obtain ⟨hkRange, hlRange⟩ := hsaves.range hs
  obtain ⟨timing, hreads, hfields⟩ :=
    Timing.reads_timingLoadState hpos hmax hu hkRange hlRange file.altSpeedEnabled
  have hload : Reads (loadTiming host) u _ _ := (hreads.withErrors Fault.timing).on
  exact ⟨timing, hload, hfields⟩

/-- The speed can be set to factors of which the one in use is in the range. -/
theorem timingAt_ok (hpos : 0 < host.sampleRateHz) (hmax : host.sampleRateHz ≤ 255121)
    (hu : u.timing.CanReset host.sampleRateHz) {scale altscale : Timing.Floating} {lVal : ℕ}
    (hlow : 25 ≤ lVal)
    (hspeed : (if u.timing.speeds.altSpeedEnabled then altscale else scale) =
      Timing.factorOf lVal) : ∃ timing,
      timingAt host scale altscale u = .ok { u with timing := timing } ∧
      timing.speeds = Timing.Speeds.timingInitialize
        { u.timing.speeds with cpuScaleFactor := scale, cpuAltscaleFactor := altscale } ∧
      timing.cyclesCountTotal = u.timing.cyclesCountTotal ∧
      timing.CanReset host.sampleRateHz := by
  have hcan : ((u.timing.setScaleFactor scale).setAltscaleFactor altscale).CanReset
      host.sampleRateHz := hu
  obtain ⟨timing, htiming, hspeeds, hcycles, hreset⟩ := hcan.initialize hpos hmax hlow hspeed
  refine ⟨timing, ?_, hspeeds, hcycles, hreset⟩
  rw [timingAt, htiming]

theorem reads_loadCards (haudio : host.sound.audioIsAvailable = true)
    (hs : Reached host soundcardType s) (hsaves : file.Saves s)
    (hu : Mockingboard.Reachable host.sound soundcardType u.card) : ∃ card,
      Reads (loadCards host) u file.mb { u with card := card } ∧
      (∀ i < Mockingboard.numSY6522, card.regs i = s.card.regs i) ∧
      (∀ i < Mockingboard.numSY6522,
        (card.mb i).nAYCurrentRegister = (s.card.mb i).nAYCurrentRegister) ∧
      card.nMBTimerDevice = Mockingboard.derivedTimer s.card := by
  obtain ⟨helper, saved, hsave, hfile⟩ := hsaves.mb
  obtain ⟨card, hload, hregs, hcurrent, hdevice, -⟩ :=
    Mockingboard.load_saved haudio hs.card hu u.timing.cyclesCountTotal hsave hfile
  have hframes :=
    (Mockingboard.framed_mbLoadState host.sound u.timing.cyclesCountTotal).frames hload
  exact ⟨card, (hframes.reads.withErrors _).on.among, hregs, hcurrent, hdevice⟩

/-- The cards are loaded at the speed of a 6502, and the factors are put back. -/
theorem reads_loadMb (haudio : host.sound.audioIsAvailable = true)
    (hpos : 0 < host.sampleRateHz) (hmax : host.sampleRateHz ≤ 255121)
    (hs : Reached host soundcardType s) (hsaves : file.Saves s)
    (hu : Mockingboard.Reachable host.sound soundcardType u.card)
    (hcan : u.timing.CanReset host.sampleRateHz)
    (hscale : u.timing.speeds.cpuScaleFactor = Timing.factorOf file.scale)
    (haltscale : u.timing.speeds.cpuAltscaleFactor = Timing.factorOf file.altscale) :
    ∃ card timing, Reads (loadMb host) u file.mb { u with card := card, timing := timing } ∧
      (∀ i < Mockingboard.numSY6522, card.regs i = s.card.regs i) ∧
      (∀ i < Mockingboard.numSY6522,
        (card.mb i).nAYCurrentRegister = (s.card.mb i).nAYCurrentRegister) ∧
      card.nMBTimerDevice = Mockingboard.derivedTimer s.card ∧
      timing.speeds.cpuScaleFactor = u.timing.speeds.cpuScaleFactor ∧
      timing.speeds.cpuAltscaleFactor = u.timing.speeds.cpuAltscaleFactor ∧
      timing.speeds.altSpeedEnabled = u.timing.speeds.altSpeedEnabled ∧
      Settled timing.speeds := by
  obtain ⟨⟨hk, -⟩, hl, -⟩ := hsaves.range hs
  have hone : (if u.timing.speeds.altSpeedEnabled then .finite 1 else .finite 1) =
      Timing.factorOf 100 := by
    rw [Timing.factorOf_hundred, ite_self]
  obtain ⟨slow, hslow, hslowSpeeds, -, hslowCan⟩ := timingAt_ok hpos hmax hcan (by decide) hone
  let a : Emulator := { u with timing := slow }
  obtain ⟨card, hcards, hregs, hcurrent, hdevice⟩ := reads_loadCards (u := a) haudio hs hsaves hu
  let b : Emulator := { a with card := card }
  have henabled : b.timing.speeds.altSpeedEnabled = u.timing.speeds.altSpeedEnabled := by
    show slow.speeds.altSpeedEnabled = _
    rw [hslowSpeeds]
    rfl
  have hactive : (if b.timing.speeds.altSpeedEnabled then u.timing.speeds.cpuAltscaleFactor
      else u.timing.speeds.cpuScaleFactor) =
        Timing.factorOf (if u.timing.speeds.altSpeedEnabled then file.altscale
          else file.scale) := by
    rw [henabled, hscale, haltscale]
    split_ifs <;> rfl
  have hlow : 25 ≤ if u.timing.speeds.altSpeedEnabled then file.altscale else file.scale := by
    split_ifs
    · exact hl
    · exact hk
  obtain ⟨timing, htiming, hspeeds, -, -⟩ := timingAt_ok (u := b) hpos hmax hslowCan hlow hactive
  have htarget : slow.speeds.cyclesPersecTarget =
      (Timing.Floating.finite 1).times Timing.doubleDigits Timing.clk6502 := by
    let speeds : Timing.Speeds :=
      { u.timing.speeds with cpuScaleFactor := .finite 1, cpuAltscaleFactor := .finite 1 }
    have hspeed : speeds.speed = Timing.factorOf 100 := hone
    rw [← Timing.factorOf_hundred, hslowSpeeds]
    exact (Timing.initialize_target hspeed).2
  have hload : Reads (loadMb host) u file.mb { b with timing := timing } :=
    (Reads.around hslow hcards htiming).among
  refine ⟨card, timing, hload, hregs, hcurrent, hdevice, ?_, ?_, ?_, ?_⟩
  · rw [hspeeds]
    rfl
  · rw [hspeeds]
    rfl
  · rw [hspeeds]
    exact henabled
  · rw [hspeeds]
    exact settled_timingInitialize htarget

end Load

/-- **The save-state file.** What `emulator_saveState` has written of the emulator is loaded by
`emulator_loadState` in any other, whatever follows it, and continues there; and no file that ends
within it is loaded. -/
theorem emulator_state_restored {host : Host} (haudio : host.sound.audioIsAvailable = true)
    (hpos : 0 < host.sampleRateHz) (hmax : host.sampleRateHz ≤ 255121)
    {soundcardType : Mockingboard.CardType} {s s' : Emulator} (hs : Reached host soundcardType s)
    (hreadable : Disk.Readable host.drives s.disk6) {helper saved : StateHelper}
    (hsave : emulatorSaveState s helper = .ok (s', saved, true)) :
    ∃ file : List UInt8, saved.file = helper.file ++ file ∧
      ∀ u, Ready host soundcardType u →
        ∃ t, Frames (emulatorLoadState host) u file t ∧ Resumes s u t := by
  have hvm : Vm.MachineOk s.vm := by
    obtain ⟨vm, ops, hvm⟩ := hs.vm
    rw [hvm]
    exact Vm.runFrom_ok vm ops
  obtain ⟨file, hfile, hsaves⟩ := emulatorSaveState_file hvm hsave
  refine ⟨file.bytes, hfile, fun u hu => ?_⟩
  obtain ⟨disk6, hdisk6, hresumes, hrestores⟩ := reads_loadDisk6 hs hsaves hreadable hu
  let a : Emulator := { u with disk6 := disk6 }
  let b : Emulator := { a with vm := Vm.restored s.vm a.vm }
  let c : Emulator := { b with runArgs := file.runArgs }
  obtain ⟨timing, htiming, hscale, haltscale, henabled, hcan⟩ :=
    reads_loadTiming (u := c) hpos hmax hs hsaves hu.speaker
  let d : Emulator := { c with timing := timing }
  have hvideo : Reads loadVideo d [file.video] d := reads_field rfl rfl
  obtain ⟨card, clock, hmb, hregs, hcurrent, hdevice, hscale', haltscale', henabled', hsettled⟩ :=
    reads_loadMb (u := d) haudio hpos hmax hs hsaves hu.card hcan hscale haltscale
  let e : Emulator := { d with card := card, timing := clock }
  have hsections : Reads (loadSections host 2) u _ e :=
    hdisk6.all_cons ((reads_loadVm (u := a) hsaves).all_cons
      ((reads_loadCpu65 (u := b) file.runArgs).all_cons (htiming.all_cons
        (hvideo.all_cons (hmb.all_cons reads_all_nil)))))
  refine ⟨e, ?_, ?_⟩
  · refine (framed_emulatorLoadState host).frames_of_reads fun rest => ?_
    rw [StateFile.bytes, List.append_assoc, emulatorLoadState, loadMagick_append (.inr rfl)]
    exact hsections rest
  · exact ⟨hresumes, hrestores, rfl, hsaves.runArgs,
      ⟨_, hsaves.scale, hscale'.trans hscale⟩, ⟨_, hsaves.altscale, haltscale'.trans haltscale⟩,
      (henabled'.trans henabled).trans hsaves.altSpeedEnabled, hsettled, hregs, hcurrent, hdevice⟩

/-! ## Saves that succeed -/

theorem saveVm_room {s : Emulator} (hvm : Vm.MachineOk s.vm) {helper : StateHelper}
    (hroom : helper.TakesAll) :
    ∃ saved, saveVm s helper = .ok (s, saved, true) ∧ saved.host = helper.host := by
  obtain ⟨chunks, hchunks, -⟩ := hvm.loads Vm.Machine.blank
  have hall : helper.saveAll chunks = ((helper.saveAll chunks).1, true) := by
    rw [← helper.saveAll_room hroom chunks]
  have hsave : Vm.vmSaveState helper s.vm = some ((helper.saveAll chunks).1, true) := by
    rw [← hall, ← Vm.saveEach_some, ← hchunks]
    rfl
  refine ⟨_, ?_, helper.saveAll_host chunks⟩
  rw [saveVm, hsave]

theorem saveTiming_room {s : Emulator} {k l : ℕ}
    (hk : Timing.HundredthsOf s.timing.speeds.cpuScaleFactor k)
    (hl : Timing.HundredthsOf s.timing.speeds.cpuAltscaleFactor l) {helper : StateHelper}
    (hroom : helper.TakesAll) :
    ∃ saved, saveTiming s helper = .ok (s, saved, true) ∧ saved.host = helper.host := by
  obtain ⟨saved, hsave, -⟩ := Timing.timingSaveState_eq hroom hk hl
  refine ⟨saved, ?_, Timing.timingSaveState_host hsave⟩
  rw [saveTiming, hsave]

/-- An emulator without unsaved writes is saved when the file takes everything. -/
theorem emulatorSaveState_room {s : Emulator}
    (hclean : ∀ i : Fin 2, (s.disk6.disk i).trackDirty = false)
    (hname : ∀ i : Fin 2, ((s.disk6.disk i).fileName.getD []).length ≤ 0xFFFFFFFF)
    (hvm : Vm.MachineOk s.vm) {k l : ℕ}
    (hk : Timing.HundredthsOf s.timing.speeds.cpuScaleFactor k)
    (hl : Timing.HundredthsOf s.timing.speeds.cpuAltscaleFactor l)
    (hcount : ∀ i ∈ List.range Mockingboard.numSY6522,
      (s.card.sound.ay i).ayChangeCount ≤ Mockingboard.ayChangeMax)
    {helper : StateHelper} (hroom : helper.TakesAll) :
    ∃ saved, emulatorSaveState s helper = .ok (s, saved, true) := by
  obtain ⟨magick, hmagick, hhost⟩ : ∃ saved, saveHeader s helper = .ok (s, saved, true) ∧ _ :=
    calls_room _ s hroom
  obtain ⟨disk, hdisk, hhost₁⟩ := Disk.disk6SaveState_room hclean hname (hroom.of_host hhost)
  have hdiskSave : saveDisk6 s magick = .ok (s, disk, true) := by
    rw [saveDisk6, hdisk]
  obtain ⟨vm, hvmSave, hhost₂⟩ := saveVm_room hvm (hroom.of_host (hhost₁.trans hhost))
  have hvmHost : vm.host = helper.host := hhost₂.trans (hhost₁.trans hhost)
  obtain ⟨cpu, hcpuSave, hhost₃⟩ : ∃ saved, saveCpu65 s vm = .ok (s, saved, true) ∧ _ :=
    calls_room _ s (hroom.of_host hvmHost)
  obtain ⟨timing, htimingSave, hhost₄⟩ :=
    saveTiming_room hk hl (hroom.of_host (hhost₃.trans hvmHost))
  have htimingHost : timing.host = helper.host := hhost₄.trans (hhost₃.trans hvmHost)
  obtain ⟨video, hvideoSave, hhost₅⟩ : ∃ saved, saveVideo s timing = .ok (s, saved, true) ∧ _ :=
    calls_room _ s (hroom.of_host htimingHost)
  obtain ⟨mb, hmb⟩ : ∃ mb, Mockingboard.mbSaveState video s.card = .ok (mb, true) :=
    Mockingboard.mbSaveState_ok (hroom.of_host (hhost₅.trans htimingHost)) hcount
  have hmbSave : saveMb s video = .ok (s, mb, true) := by
    rw [saveMb, hmb]
  refine ⟨mb, ?_⟩
  rw [emulatorSaveState, Saver.all, andThen_ok hmagick, Saver.all, andThen_ok hdiskSave, Saver.all,
    andThen_ok hvmSave, Saver.all, andThen_ok hcpuSave, Saver.all, andThen_ok htimingSave,
    Saver.all, andThen_ok hvideoSave, Saver.all, andThen_ok hmbSave]
  rfl

/-! ## An emulator with an image -/

/-- A host that opens every image, with sound. -/
def openHost : Host where
  conformant := true
  drives := fun _ => Disk.openHost
  sampleRateHz := 22050
  sound := Mockingboard.quietHost

/-- An emulator that was just started. -/
def fresh : Emulator where
  disk6 := Disk.initDisk6
  vm := Vm.runFrom Vm.Machine.blank []
  runArgs := Cpu.initRegisters
  timing := Timing.started
  card := Mockingboard.mbInitialize Mockingboard.quietHost
    (.static .mockingboardC Mockingboard.silence 0)

theorem fresh_card : Mockingboard.Reachable openHost.sound .mockingboardC fresh.card :=
  ⟨Mockingboard.silence, 0, [], rfl⟩

theorem fresh_ready : Ready openHost .mockingboardC fresh := by
  refine ⟨?_, fun _ => ?_, fresh_card⟩
  · intro i fault heject
    cases heject
  · obtain ⟨hlow, hhigh⟩ := Timing.clk6502_bounds
    have husable : Timing.Usable 22050 (.finite Timing.clk6502) :=
      Timing.usable_of_bounds (by decide) (by decide) (by linarith) (by linarith)
    obtain ⟨n, hn, -, hle⟩ := husable
    exact ⟨n, hn, hle⟩

/-- The preferences of the `float` next to 29 hundredths, and of the fastest speed. -/
def slowed : Timing.Speeds :=
  { Timing.started.speeds with
    cpuScaleFactor := .finite ((9730785 : ℕ) / 2 ^ 25)
    cpuAltscaleFactor := .finite Timing.cpuScaleFastest }

theorem hundredthsOf_slowed : Timing.HundredthsOf slowed.cpuScaleFactor 28 :=
  Timing.HundredthsOf.grid (m := 9730785) (by decide) (by decide)

theorem hundredthsOf_slowed_alt : Timing.HundredthsOf slowed.cpuAltscaleFactor 406 :=
  .fastest

/-- The memory after a store. -/
def storedVm : Vm.Machine := Vm.runFrom Vm.Machine.blank [.store Vm.Bus.quiet 0x0300 0x42]

/-- A program has stored a byte, and read an image. -/
def playing (disk6 : Disk.Disk6) (card : Mockingboard.Card) : Emulator where
  disk6 := disk6
  vm := storedVm
  runArgs := { Cpu.initRegisters with pc := 0x0302, a := 0x42, sp := 0xF0 }
  timing := { Timing.started with speeds := slowed }
  card := card

theorem playing_speeds (disk6 : Disk.Disk6) (card : Mockingboard.Card) :
    (playing disk6 card).timing.speeds = slowed := rfl

theorem playing_vm (disk6 : Disk.Disk6) (card : Mockingboard.Card) :
    (playing disk6 card).vm = storedVm := by
  rw [playing]

theorem storedVm_run :
    storedVm = Vm.runFrom Vm.Machine.blank [.store Vm.Bus.quiet 0x0300 0x42] := rfl

theorem storedVm_ok : Vm.MachineOk storedVm := by
  rw [storedVm_run]
  exact Vm.runFrom_ok Vm.Machine.blank _

/-- A state of the disk controller and one of the cards that are reached make one of an emulator. -/
theorem playing_reached {calls : List Disk.Call} {disk6 : Disk.Disk6}
    (hdisk6 : runM (Disk.call true) Disk.initDisk6 calls = .ok disk6) {card : Mockingboard.Card}
    (hcard : Mockingboard.Reachable Mockingboard.quietHost .mockingboardC card) :
    Reached openHost .mockingboardC (playing disk6 card) where
  disk6 := ⟨calls, hdisk6⟩
  vm := by
    rw [playing_vm]
    exact ⟨Vm.Machine.blank, _, storedVm_run⟩
  scale := by
    rw [playing_speeds]
    exact ⟨28, hundredthsOf_slowed⟩
  altscale := by
    rw [playing_speeds]
    exact ⟨406, hundredthsOf_slowed_alt⟩
  card := hcard

/-- A write-protected image, the registers, the timer and 28 hundredths of the speed come back in an
emulator that was just started. -/
theorem emulator_state_restored_playing : ∃ (s : Emulator) (saved : StateHelper) (t : Emulator),
    emulatorSaveState s Disk.roomyFile = .ok (s, saved, true) ∧
    Frames (emulatorLoadState openHost) fresh saved.file t ∧ Resumes s fresh t ∧
    Disk.Restores s.disk6 t.disk6 ∧
    ((t.disk6.disk 0).fileName, (t.disk6.disk 0).isProtected, (t.disk6.disk 0).runByte) =
      (some Disk.dskName, true, 3) ∧
    (t.runArgs.pc, t.runArgs.a, t.runArgs.sp) = (0x0302, 0x42, 0xF0) ∧
    t.card.nMBTimerDevice = some 0 ∧ t.timing.speeds.cpuScaleFactor = Timing.factorOf 28 := by
  obtain ⟨e, disk6, hrun, hsession, hname, hprot, hbyte, hclean, hother⟩ :=
    Disk.protectedRun_session
  have hdisk : ∀ i : Fin 2, disk6.disk i = if i = 0 then e else Disk.initDisk6.disk 1 :=
    Fin.forall_fin_two.mpr ⟨hsession.disk, hother⟩
  obtain ⟨card, hcardRun, -, hderived, -, -, hcount⟩ := Mockingboard.timerRuns_start
  have hcard : Mockingboard.Reachable Mockingboard.quietHost .mockingboardC card :=
    ⟨Mockingboard.silence, 0, Mockingboard.timerRuns, hcardRun⟩
  obtain ⟨s, hs⟩ : ∃ s, s = playing disk6 card := ⟨_, rfl⟩
  have hsDisk : s.disk6 = disk6 := by rw [hs, playing]
  have hspeeds : s.timing.speeds = slowed := by rw [hs, playing_speeds]
  have hsVm : s.vm = storedVm := by rw [hs, playing_vm]
  have hsCard : s.card = card := by rw [hs, playing]
  have hreached : Reached openHost .mockingboardC s :=
    hs ▸ playing_reached ((Disk.runM_ops true _ _).trans hrun) hcard
  have hclean' : ∀ i : Fin 2, (s.disk6.disk i).trackDirty = false := by
    rw [hsDisk]
    refine Fin.forall_fin_two.mpr ⟨?_, ?_⟩
    · rw [hdisk 0]
      exact hclean
    · rw [hdisk 1]
      rfl
  have hnames : ∀ (i : Fin 2) (name : List UInt8), (s.disk6.disk i).fileName = some name →
      name = Disk.dskName := by
    rw [hsDisk]
    refine Fin.forall_fin_two.mpr ⟨fun name h => ?_, fun name h => ?_⟩
    · rw [hdisk 0, if_pos rfl, hname, Option.some.injEq] at h
      exact h.symm
    · rw [hdisk 1] at h
      cases h
  have hlength : ∀ i : Fin 2, ((s.disk6.disk i).fileName.getD []).length ≤ 0xFFFFFFFF := by
    intro i
    cases hi : (s.disk6.disk i).fileName with
    | none => exact Nat.zero_le _
    | some name =>
      rw [hnames i name hi]
      decide
  have hplain : Disk.NamesPlain s.disk6 := by
    intro i name hi
    rw [hnames i name hi]
    decide
  obtain ⟨saved, hsave⟩ := @emulatorSaveState_room s hclean' hlength
    (hsVm ▸ storedVm_ok) 28 406 (hspeeds ▸ hundredthsOf_slowed)
    (hspeeds ▸ hundredthsOf_slowed_alt) (hsCard ▸ hcount)
    Disk.roomyFile fun _ _ => Nat.le_refl _
  have hreadable : Disk.Readable openHost.drives s.disk6 :=
    fun _ name _ d => Disk.blankHost_opens d name _
  obtain ⟨file, hfile, hload⟩ := @emulator_state_restored openHost rfl (by decide) (by decide)
    _ _ _ hreached hreadable _ _ hsave
  obtain ⟨t, hframes, hresumes⟩ := hload fresh fresh_ready
  have hsame : saved.file = file := hfile
  have hrestores : Disk.Restores s.disk6 t.disk6 := by
    refine hresumes.restores.mpr ⟨?_, hplain⟩
    rw [Disk.HighMagnetsOff, hsDisk, hsession.steppers]
    exact ⟨rfl, rfl⟩
  refine ⟨s, saved, t, hsave, hsame ▸ hframes, hresumes, hrestores, ?_, ?_, ?_, ?_⟩
  · show ((t.disk6.disk (0 : Fin 2)).fileName, (t.disk6.disk (0 : Fin 2)).isProtected,
      (t.disk6.disk (0 : Fin 2)).runByte) = _
    rw [hrestores.fileName 0, hrestores.isProtected 0, hrestores.runByte 0, hsDisk, hdisk 0,
      if_pos rfl, hname, hprot, hbyte]
  · rw [hresumes.runArgs, hs, playing]
  · rw [hresumes.timerDevice, hsCard, hderived]
  · obtain ⟨k, hk, hscale⟩ := hresumes.scale
    rw [hspeeds, hundredthsOf_slowed.saved.1, Except.ok.injEq] at hk
    rw [hscale, ← hk]

end SaveState

end Apple2ix
