import Apple2ix.Vm.SaveState

/-! Reads of the slot roms: the glue calls a pointer or reads through it as CXROM and C3ROM say, and
in every reachable state, saved and loaded ones among them, that is what the pointer is for. -/
namespace Apple2ix.Vm
open Switch
set_option autoImplicit false

/-! ## The glue -/

/-- What the glue does with a pointer: call it as a function, or read the byte at `pointer[ea]`. -/
inductive SlotRead
  | call (pointer : Ptr)
  | data (pointer : Ptr)
  deriving DecidableEq, Repr

/-- `GLUE_BANK_MAYBE_READ_CX`. -/
def glueBankMaybeReadCx (pointer : Base) (vm : Machine) : SlotRead :=
  if vm.has ssCxrom then .data (vm.base pointer) else .call (vm.base pointer)

/-- `GLUE_BANK_MAYBE_READ_C3`. -/
def glueBankMaybeReadC3 (pointer : Base) (vm : Machine) : SlotRead :=
  if vm.has ssCxrom then .data (vm.base pointer)
  else if vm.has ssC3rom then .data (vm.base pointer)
  else .call (vm.base pointer)

def iieReadSlot3 : Machine → SlotRead := glueBankMaybeReadC3 .c3rom
def iieReadSlot4 : Machine → SlotRead := glueBankMaybeReadCx .c4rom
def iieReadSlot5 : Machine → SlotRead := glueBankMaybeReadCx .c5rom
def iieReadSlotx : Machine → SlotRead := glueBankMaybeReadCx .cxrom

/-- Only the peripheral card function is called, and only memory is read. -/
def SlotRead.Sound : SlotRead → Prop
  | call pointer => pointer = Ptr.iieReadPeripheralCard
  | data pointer => pointer = Ptr.appleIi64k 1

/-! ## Reachable machines -/

/-- The states of softswitch accesses, guest stores, and loads of complete saves of such states. -/
inductive Reachable : Machine → Prop
  | initial (vm : Machine) : Reachable (initializeIieSwitches vm)
  | access {vm : Machine} (h : Reachable vm) (op : Op) : Reachable (step vm op)
  | load {saved start vm : Machine} {helper helper' : StateHelper} {bytes rest rest' : List UInt8}
      {loaded : Bool} (h : Reachable saved)
        (hsave : vmSaveState helper saved = some (helper', true))
      (hfile : helper'.file = helper.file ++ bytes)
      (hload : vmLoadState start (bytes ++ rest) = some (vm, rest', loaded)) : Reachable vm

theorem MachineOk.restored {vm : Machine} (h : MachineOk vm) (start : Machine) :
    MachineOk (restored vm start) := by
  have hsame : Changes [] [] vm (Vm.restored vm start) := ⟨fun _ _ => rfl, fun _ _ => rfl⟩
  refine ⟨h.map.frame hsame nofun nofun, h.reads.frame hsame nofun nofun, ⟨h.writes.armed, ?_⟩,
    h.roms.frame hsame nofun nofun⟩
  obtain hmap | ⟨hlcwrt, hd, he⟩ := h.writes.mapped
  · exact Or.inl (hmap.frame hsame nofun nofun)
  · exact Or.inr ⟨hlcwrt, hd, he⟩

theorem Reachable.ok {vm : Machine} (h : Reachable vm) : MachineOk vm := by
  induction h with
  | initial vm => exact initializeIieSwitches_ok vm
  | access _ op ih => exact step_ok ih op
  | @load saved start vm helper helper' bytes rest rest' loaded _ hsave hfile hload ih =>
    obtain ⟨written, hsaves, hloads⟩ := ih.save_load
    obtain ⟨helper'', done, heq, hwritten⟩ := hsaves helper
    rw [hsave, Option.some.injEq, Prod.mk.injEq] at heq
    obtain ⟨rfl, rfl⟩ := heq
    have hbytes : bytes = written := by
      have h := hwritten rfl
      rw [hfile] at h
      exact List.append_cancel_left h
    rw [hbytes, hloads, Option.some.injEq, Prod.mk.injEq] at hload
    rw [← hload.1]
    exact ih.restored start

/-! ## Dispatch -/

/-- The pointers are functions exactly when the switches say so, and the glue takes them so. -/
structure RomDispatchOk (vm : Machine) : Prop where
  c3rom : vm.base .c3rom = Ptr.iieReadPeripheralCard ↔
    vm.has ssCxrom = false ∧ vm.has ssC3rom = false
  c4rom : vm.base .c4rom = Ptr.iieReadPeripheralCard ↔ vm.has ssCxrom = false
  c5rom : vm.base .c5rom = Ptr.iieReadPeripheralCard ↔ vm.has ssCxrom = false
  cxrom : vm.base .cxrom = Ptr.iieReadPeripheralCard ↔ vm.has ssCxrom = false
  glue : ∀ read ∈ [iieReadSlot3, iieReadSlot4, iieReadSlot5, iieReadSlotx], (read vm).Sound

theorem romOf_peripheral (internal : Bool) :
    romOf internal = Ptr.iieReadPeripheralCard ↔ internal = false := by
  cases internal <;> decide

theorem RomMapOk.glue {vm : Machine} (h : RomMapOk vm) :
    ∀ read ∈ [iieReadSlot3, iieReadSlot4, iieReadSlot5, iieReadSlotx], (read vm).Sound := by
  obtain ⟨h3, h4, h5, hx⟩ := h
  cases hcx : vm.has ssCxrom <;> cases hc3 : vm.has ssC3rom <;>
    simp [iieReadSlot3, iieReadSlot4, iieReadSlot5, iieReadSlotx, glueBankMaybeReadC3,
      glueBankMaybeReadCx, SlotRead.Sound, romOf, *]

/-- **Rom dispatch is consistent.** -/
theorem rom_dispatch {vm : Machine} (h : Reachable vm) : RomDispatchOk vm := by
  have hroms := h.ok.roms
  refine ⟨?_, ?_, ?_, ?_, hroms.glue⟩
  · rw [hroms.c3rom, romOf_peripheral, Bool.or_eq_false_iff]
  · rw [hroms.c4rom, romOf_peripheral]
  · rw [hroms.c5rom, romOf_peripheral]
  · rw [hroms.cxrom, romOf_peripheral]

/-- After CXROM was turned on by a write of C007. -/
theorem rom_dispatch_internal :
    RomDispatchOk (step (initializeIieSwitches Machine.blank) (.store Bus.quiet 0xC007 0)) :=
  rom_dispatch ((Reachable.initial Machine.blank).access (.store Bus.quiet 0xC007 0))

end Apple2ix.Vm
