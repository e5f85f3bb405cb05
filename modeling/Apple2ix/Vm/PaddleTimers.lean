import Apple2ix.Cpu.Opcodes
import Apple2ix.Foundations.Bytes
import Apple2ix.Foundations.Integers
import Apple2ix.Foundations.Runs
import Apple2ix.Vm.Runs

/-! The paddle timers of vm.c under the instructions of either core: `read_gc_strobe` loads them,
every instruction counts them down, and the reads of C064 and C065 look at their sign. -/
namespace Apple2ix.Vm
open Cpu Runs Switch
set_option autoImplicit false

/-! ## The timers -/

inductive Paddle
  | gc0
  | gc1
  deriving DecidableEq, Repr

/-- The switch at C000 + `softswitch` reads the paddle. -/
def Paddle.softswitch : Paddle → UInt8
  | gc0 => 0x64
  | gc1 => 0x65

def Machine.timer (vm : Machine) : Paddle → ℤ
  | .gc0 => vm.gcCyclesTimer0
  | .gc1 => vm.gcCyclesTimer1

/-- What `read_gc_strobe` would load. -/
def Bus.joyTimer (bus : Bus) : Paddle → ℤ
  | .gc0 => bus.joyTimer0
  | .gc1 => bus.joyTimer1

/-- Both timers after an instruction that took `n` cycles. -/
def Machine.countDown (n : ℕ) (vm : Machine) : Machine :=
  { vm with
    gcCyclesTimer0 := toInt32 (vm.gcCyclesTimer0 - n)
    gcCyclesTimer1 := toInt32 (vm.gcCyclesTimer1 - n) }

@[simp] theorem countDown_timer (n : ℕ) (vm : Machine) (i : Paddle) :
    (vm.countDown n).timer i = toInt32 (vm.timer i - n) := by
  cases i <;> rfl

/-! ## continue -/

inductive Core
  | x86
  | arm
  deriving DecidableEq, Repr

/-- The cycles that `continue` counts for an instruction: those of its opcode and those it left in
`CPU65_OPCYCLES`, added as bytes on x86 and as words on ARM. -/
def Core.cycles : Core → UInt8 → UInt8 → ℕ
  | x86, opcode, opcycles => (cyclesOf opcode + opcycles).toNat
  | arm, opcode, opcycles => (cyclesOf opcode).toNat + opcycles.toNat

/-! ## Accesses -/

/-- The handlers that call `read_gc_strobe`. -/
def Handler.strobes : Handler → Bool
  | readGcStrobe | gcStrobeStatus _ | ioudisOn | ioudisOff => true
  | _ => false

def Op.bus : Op → Bus
  | read bus _ => bus
  | store bus _ _ => bus

/-- An access to C070 - C07F. -/
def Op.Strobes : Op → Prop
  | read _ sw => sw >>> 4 = 0x7
  | store _ ea _ => ea >>> 4 = 0xC07

instance : DecidablePred Op.Strobes := fun op => by
  cases op <;> unfold Op.Strobes <;> infer_instance

section Accesses
variable (bus : Bus) (vm : Machine) (i : Paddle)

@[simp] theorem set_timer (sws : List Switch) : (vm.set sws).timer i = vm.timer i := by
  cases i <;> rfl

@[simp] theorem clear_timer (sws : List Switch) : (vm.clear sws).timer i = vm.timer i := by
  cases i <;> rfl

@[simp] theorem point_timer (bases : List Base) (p : Ptr) :
    (vm.point bases p).timer i = vm.timer i := by
  cases i <;> rfl

@[simp] theorem store_timer (p : Ptr) (ea : UInt16) (b : UInt8) :
    (vm.store p ea b).timer i = vm.timer i := by
  obtain ⟨mem, card, banks, hstore⟩ := store_frame vm p ea b
  rw [hstore]
  cases i <;> rfl

/-- **The strobe loads the timers that have run down.** -/
theorem readGcStrobe_timer : (readGcStrobe bus vm).vm.timer i =
    if vm.timer i ≤ 0 then bus.joyTimer i else vm.timer i := by
  by_cases h0 : vm.gcCyclesTimer0 ≤ 0
  · by_cases h1 : vm.gcCyclesTimer1 ≤ 0
    · cases i <;> simp [readGcStrobe, floats, Machine.timer, Bus.joyTimer, h0, h1]
    · cases i <;> simp [readGcStrobe, floats, Machine.timer, Bus.joyTimer, h0, h1]
  · by_cases h1 : vm.gcCyclesTimer1 ≤ 0
    · cases i <;> simp [readGcStrobe, floats, Machine.timer, Bus.joyTimer, h0, h1]
    · cases i <;> simp [readGcStrobe, floats, Machine.timer, h0, h1]

/-- A handler that does not strobe leaves a timer as it is, or clears it once it has run down. -/
theorem handler_timer (h : Handler) (hstrobe : h.strobes = false) (ea : UInt16) (b : UInt8) :
    (h.run bus ea b vm).vm.timer i = vm.timer i ∨
      vm.timer i ≤ 0 ∧ (h.run bus ea b vm).vm.timer i = 0 := by
  cases h
  case readGcStrobe | gcStrobeStatus | ioudisOn | ioudisOff => cases hstrobe
  case readGc0 =>
    by_cases h0 : vm.gcCyclesTimer0 ≤ 0
    · cases i <;> simp [Handler.run, readGc0, Machine.timer, h0]
    · cases i <;> simp [Handler.run, readGc0, Machine.timer, h0]
  case readGc1 =>
    by_cases h1 : vm.gcCyclesTimer1 ≤ 0
    · cases i <;> simp [Handler.run, readGc1, Machine.timer, h1]
    · cases i <;> simp [Handler.run, readGc1, Machine.timer, h1]
  case readSwitchGraphics | readSwitchText | readSwitchNoMixed | readSwitchMixed | iieDhiresOn
      | iieDhiresOff | iie80colOff | iie80colOn | iieAltcharOff | iieAltcharOn =>
    left
    simp [Handler.run, readSwitchGraphics, readSwitchText, readSwitchNoMixed, readSwitchMixed,
      iieDhiresOn, iieDhiresOff, iie80colOff, iie80colOn, iieAltcharOff, iieAltcharOn, floats,
      returnsZero, switchOff, switchOn, apply_ite Prod.fst, apply_ite (Machine.timer · i)]
  case iiePage2Off | iiePage2On | iieHiresOff | iieHiresOn | iie80storeOff | iie80storeOn
      | iieRamrdMain | iieRamrdAux | iieRamwrtMain | iieRamwrtAux =>
    left
    simp [Handler.run, iiePage2Off, iiePage2On, iieHiresOff, iieHiresOn, iie80storeOff,
      iie80storeOn, iieRamrdMain, iieRamrdAux, iieRamwrtMain, iieRamwrtAux, floats, returnsZero,
      pointText, pointHgr, apply_ite Prod.fst, apply_ite (Machine.timer · i)]
  case iieC080 | iieC081 | lcC082 | iieC083 | iieC088 | iieC089 | lcC08a | iieC08b
      | iieAltzpMain | iieAltzpAux =>
    left
    first
      | rfl
      | simp [Handler.run, iieC080, iieC081, iieC083, iieC088, iieC089, iieC08b, iieAltzpMain,
          iieAltzpAux, lcSecondAccess, lcReadCard, lcReadRom, lcNoWrite, lcFollowAltzp,
          lcToAuxmem, floats, returnsZero, apply_ite Prod.fst, apply_ite (Machine.timer · i)]
  case iieC3romPeripheral | iieCxromPeripheral | iieCxromInternal =>
    left
    first
      | rfl
      | simp [Handler.run, iieC3romPeripheral, iieCxromPeripheral, returnsZero,
          apply_ite (Machine.timer · i)]
  -- what is left reads, or calls outside vm.c
  all_goals exact Or.inl rfl

theorem handler_strobes (h : Handler) (hstrobe : h.strobes = true) (ea : UInt16) (b : UInt8) :
    (h.run bus ea b vm).vm.timer i = if vm.timer i ≤ 0 then bus.joyTimer i else vm.timer i := by
  cases h
  case readGcStrobe | gcStrobeStatus => exact readGcStrobe_timer bus vm i
  case ioudisOn =>
    have h := readGcStrobe_timer bus (vm.set [ssIoudis]) i
    rwa [set_timer] at h
  case ioudisOff =>
    have h := readGcStrobe_timer bus (vm.clear [ssIoudis]) i
    rwa [clear_timer] at h
  all_goals cases hstrobe

theorem readHandler_strobes : ∀ sw : UInt8, (readHandler sw).strobes = true ↔ sw >>> 4 = 0x7 :=
  forall_uint8 (by decide +kernel)

theorem writeHandler_strobes : ∀ sw : UInt8, (writeHandler sw).strobes = true ↔ sw >>> 4 = 0x7 :=
  forall_uint8 (by decide +kernel)

theorem strobe_address (ea : UInt16) :
    ea >>> 4 = 0xC07 ↔ ea >>> 8 = 0xC0 ∧ (ea &&& 0xFF).toUInt8 >>> 4 = 0x7 := by
  have hlow : (ea &&& 0xFF).toUInt8.toNat = ea.toNat % 256 := by
    have hand : ea.toNat &&& (0xFF : UInt16).toNat = ea.toNat % 256 :=
      Nat.and_two_pow_sub_one_eq_mod ea.toNat 8
    rw [UInt16.toNat_toUInt8, UInt16.toNat_and, hand]
    exact Nat.mod_mod _ _
  have h4 : (ea >>> 4).toNat = ea.toNat / 16 := by
    rw [UInt16.toNat_shiftRight]
    exact Nat.shiftRight_eq_div_pow _ 4
  have h8 : (ea >>> 8).toNat = ea.toNat / 256 := by
    rw [UInt16.toNat_shiftRight]
    exact Nat.shiftRight_eq_div_pow _ 8
  have h7 : ((ea &&& 0xFF).toUInt8 >>> 4).toNat = ea.toNat % 256 / 16 := by
    rw [UInt8.toNat_shiftRight, hlow]
    exact Nat.shiftRight_eq_div_pow _ 4
  rw [← UInt16.toNat_inj, ← UInt16.toNat_inj, ← UInt8.toNat_inj, h4, h8, h7]
  change ea.toNat / 16 = 0xC07 ↔ ea.toNat / 256 = 0xC0 ∧ ea.toNat % 256 / 16 = 7
  omega

/-- The handler an access runs, if it runs one, strobes at C070 - C07F only. -/
theorem step_timer (op : Op) :
    (op.Strobes → (step vm op).timer i =
        if vm.timer i ≤ 0 then op.bus.joyTimer i else vm.timer i) ∧
      (¬ op.Strobes → (step vm op).timer i = vm.timer i ∨
        vm.timer i ≤ 0 ∧ (step vm op).timer i = 0) := by
  cases op with
  | read bus sw =>
    have hstrobes := readHandler_strobes sw
    rw [step_read, readSoftswitch, softswitch_low]
    refine ⟨fun h => handler_strobes bus vm i _ (hstrobes.mpr h) _ _, fun h => ?_⟩
    exact handler_timer bus vm i _ (Bool.eq_false_iff.mpr fun ht => h (hstrobes.mp ht)) _ _
  | store bus ea b =>
    have hstrobes := writeHandler_strobes (ea &&& 0xFF).toUInt8
    by_cases hpage : ea >>> 8 = 0xC0
    · rw [step_softswitch vm bus ea b hpage, writeSoftswitch]
      have haddr : ea >>> 4 = 0xC07 ↔ (ea &&& 0xFF).toUInt8 >>> 4 = 0x7 := by
        rw [strobe_address]
        exact and_iff_right hpage
      refine ⟨fun h => handler_strobes bus vm i _ (hstrobes.mpr (haddr.mp h)) _ _, fun h => ?_⟩
      exact handler_timer bus vm i _
        (Bool.eq_false_iff.mpr fun ht => h (haddr.mpr (hstrobes.mp ht))) _ _
    · have hno : ¬ ea >>> 4 = 0xC07 := fun h => hpage ((strobe_address ea).mp h).1
      refine ⟨fun h => absurd h hno, fun _ => Or.inl ?_⟩
      obtain ⟨base, hbase⟩ := StoreHandler.run_store (cpu65VmemW (ea >>> 8).toNat)
        (fun h => hpage ((cpu65VmemW_softswitch ea).mp h)) bus vm ea b
      rw [step_store, hbase, store_timer]

end Accesses

end Apple2ix.Vm
