import Apple2ix.Foundations.Bytes
import Apple2ix.Vm.StoreHandlers

/-! Runs of the virtual machine: softswitch reads and guest stores in any order, from the state
`vm_initialize` leaves. -/
namespace Apple2ix.Vm
open Switch
set_option autoImplicit false

/-- An access of the guest: a read of C000 + `sw`, or a store anywhere. -/
inductive Op
  | read (bus : Bus) (sw : UInt8)
  | store (bus : Bus) (ea : UInt16) (b : UInt8)

def Op.run (vm : Machine) : Op → Access
  | read bus sw => readSoftswitch bus vm (0xC000 ||| sw.toUInt16)
  | store bus ea b => (cpu65VmemW (ea >>> 8).toNat).run bus vm ea b

def step (vm : Machine) (op : Op) : Machine := (op.run vm).vm

/-- The softswitch that a read of C000 + `sw` reaches is `sw`. -/
theorem softswitch_low : ∀ sw : UInt8, ((0xC000 ||| sw.toUInt16) &&& 0xFF).toUInt8 = sw :=
  forall_uint8 (by decide +kernel)

/-- `_initialize_iie_switches`. -/
def initializeIieSwitches (vm : Machine) : Machine :=
  { vm with
    base
      | .stackzp => Ptr.appleIi64k 0
      | .d000Rd => Ptr.appleIi64k 0
      | .d000Wrt => Ptr.languageBanks 0 - (0xD000 : ℤ)
      | .e000Rd => Ptr.appleIi64k 0
      | .e000Wrt => Ptr.languageCard 0 - (0xE000 : ℤ)
      | .ramrd => Ptr.appleIi64k 0
      | .ramwrt => Ptr.appleIi64k 0
      | .textrd => Ptr.appleIi64k 0
      | .textwrt => Ptr.appleIi64k 0
      | .hgrrd => Ptr.appleIi64k 0
      | .hgrwrt => Ptr.appleIi64k 0
      | .c3rom => Ptr.iieReadPeripheralCard
      | .c4rom => Ptr.iieReadPeripheralCard
      | .c5rom => Ptr.iieReadPeripheralCard
      | .cxrom => Ptr.iieReadPeripheralCard
    softswitches := ssText.mask ||| ssBank2.mask }

@[simp] theorem initializeIieSwitches_has (vm : Machine) (sw : Switch) :
    (initializeIieSwitches vm).has sw = decide (sw ∈ [ssText, ssBank2]) := by
  have hhas :
      ∀ sw, Flag.has (ssText.mask ||| ssBank2.mask) sw = decide (sw ∈ [ssText, ssBank2]) := by
    intro sw
    cases sw <;> decide
  exact hhas sw

/-- The machine after a run from `vm_initialize`, which left `vm` but for the switches: memory is
what `_initialize_apple_ii_memory` made of it, partly random. -/
def runFrom (vm : Machine) (ops : List Op) : Machine := ops.foldl step (initializeIieSwitches vm)

/-- A machine to start from, and a bus on which nothing happens. -/
def Machine.blank : Machine := ⟨0, fun _ => Ptr.null, 0, 0, fun _ => 0, fun _ => 0, fun _ => 0⟩
def Bus.quiet : Bus := ⟨0, 0, 0, 0, 0, 0⟩

theorem runFrom_append (vm : Machine) (as bs : List Op) :
    runFrom vm (as ++ bs) = bs.foldl step (runFrom vm as) := List.foldl_append

/-- **The invariant rule.** -/
theorem runFrom_invariant (I : Machine → Prop) (hinit : ∀ vm, I (initializeIieSwitches vm))
    (hstep : ∀ vm op, I vm → I (step vm op)) (vm : Machine) (ops : List Op) :
    I (runFrom vm ops) := by
  induction ops using List.reverseRecOn with
  | nil => exact hinit vm
  | append_singleton ops op ih =>
    rw [runFrom_append]
    exact hstep _ op ih

theorem step_read (vm : Machine) (bus : Bus) (sw : UInt8) :
    step vm (.read bus sw) = (readSoftswitch bus vm (0xC000 ||| sw.toUInt16)).vm := rfl

theorem step_store (vm : Machine) (bus : Bus) (ea : UInt16) (b : UInt8) :
    step vm (.store bus ea b) = ((cpu65VmemW (ea >>> 8).toNat).run bus vm ea b).vm := rfl

theorem step_softswitch (vm : Machine) (bus : Bus) (ea : UInt16) (b : UInt8)
    (hpage : ea >>> 8 = 0xC0) : step vm (.store bus ea b) = (writeSoftswitch bus vm ea b).vm := by
  rw [step_store, (cpu65VmemW_softswitch ea).mpr hpage]
  rfl

/-- A store that is not to a softswitch changes one byte of memory or none. -/
theorem StoreHandler.run_store (handler : StoreHandler) (hne : handler ≠ .writeSoftswitch)
    (bus : Bus) (vm : Machine) (ea : UInt16) (b : UInt8) :
    ∃ base, (handler.run bus vm ea b).vm = vm.store base ea b := by
  have hnop : vm = vm.store Ptr.null ea b := rfl
  cases handler with
  | writeSoftswitch => exact absurd rfl hne
  | writeRamBank =>
    by_cases hnull : vm.base .d000Wrt = Ptr.null
    · exact ⟨Ptr.null, if_pos hnull⟩
    · exact ⟨vm.base .d000Wrt, if_neg hnull⟩
  | writeRamLc =>
    by_cases hnull : vm.base .e000Wrt = Ptr.null
    · exact ⟨Ptr.null, if_pos hnull⟩
    · exact ⟨vm.base .e000Wrt, if_neg hnull⟩
  | writeRamNop => exact ⟨Ptr.null, hnop⟩
  | mbWrite => exact ⟨Ptr.null, hnop⟩
  | _ => exact ⟨_, rfl⟩

/-- Everything an access can do to the machine: a softswitch handler, or one store. -/
theorem step_cases (vm : Machine) (op : Op) :
    (∃ (handler : Handler) (bus : Bus) (ea : UInt16) (b : UInt8),
        step vm op = (handler.run bus ea b vm).vm) ∨
      ∃ base ea b, step vm op = vm.store base ea b := by
  cases op with
  | read bus sw => exact Or.inl ⟨_, bus, _, 0, rfl⟩
  | store bus ea b =>
    rw [step_store]
    by_cases hsw : cpu65VmemW (ea >>> 8).toNat = .writeSoftswitch
    · rw [hsw]
      exact Or.inl ⟨_, bus, ea, b, rfl⟩
    · obtain ⟨base, hbase⟩ := StoreHandler.run_store _ hsw bus vm ea b
      exact Or.inr ⟨base, ea, b, hbase⟩

end Apple2ix.Vm
