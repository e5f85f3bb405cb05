import Apple2ix.Vm.LanguageCard
import Apple2ix.Vm.MemoryMap

/-! The invariant of the machine: what holds of the switches and bank pointers together, whatever
is accessed in whatever order. -/
namespace Apple2ix.Vm
open Switch
set_option autoImplicit false

/-! ## The slot roms -/

/-- The internal rom or the peripheral cards. -/
def romOf (internal : Bool) : Ptr :=
  if internal then Ptr.appleIi64k 1 else Ptr.iieReadPeripheralCard

/-- CXROM selects for all slots, C3ROM for slot 3 alone. -/
structure RomMapOk (vm : Machine) : Prop where
  c3rom : vm.base .c3rom = romOf (vm.has ssCxrom || vm.has ssC3rom)
  c4rom : vm.base .c4rom = romOf (vm.has ssCxrom)
  c5rom : vm.base .c5rom = romOf (vm.has ssCxrom)
  cxrom : vm.base .cxrom = romOf (vm.has ssCxrom)

section Rom
variable {vm vm' : Machine} (h : RomMapOk vm) (bus : Bus)
include h

theorem RomMapOk.frame {sws : List Switch} {bases : List Base} (hsame : Changes sws bases vm vm')
    (hsws : ∀ sw ∈ Part.rom.switches, sw ∉ sws) (hbases : ∀ base ∈ Part.rom.bases, base ∉ bases) :
    RomMapOk vm' := by
  have hc3 := hsame.has_eq ssC3rom (hsws _ (by decide))
  have hcx := hsame.has_eq ssCxrom (hsws _ (by decide))
  constructor
  · rw [hsame.base_eq _ (hbases _ (by decide)), hc3, hcx]
    exact h.c3rom
  · rw [hsame.base_eq _ (hbases _ (by decide)), hcx]
    exact h.c4rom
  · rw [hsame.base_eq _ (hbases _ (by decide)), hcx]
    exact h.c5rom
  · rw [hsame.base_eq _ (hbases _ (by decide)), hcx]
    exact h.cxrom

theorem rom_romMap (handler : Handler) (hpart : handler.part = .rom) (ea : UInt16) (b : UInt8) :
    RomMapOk (handler.run bus ea b vm).vm := by
  obtain ⟨h3, h4, h5, hx⟩ := h
  cases handler
  case iieC3romPeripheral | iieC3romInternal | iieCxromPeripheral | iieCxromInternal =>
    cases hcx : vm.has ssCxrom <;> cases hc3 : vm.has ssC3rom <;> constructor <;>
      simp [Handler.run, returnsZero, iieC3romPeripheral, iieC3romInternal, iieCxromPeripheral,
        iieCxromInternal, romOf, *]
  all_goals cases hpart

theorem handler_romMap (handler : Handler) (ea : UInt16) (b : UInt8) :
    RomMapOk (handler.run bus ea b vm).vm := by
  have honly := handler_only vm bus handler ea b
  cases hpart : handler.part with
  | display | map | card | zeroPage =>
    rw [hpart] at honly
    exact h.frame honly (by decide) (by decide)
  | rom => exact rom_romMap h bus handler hpart ea b

end Rom

/-! ## All parts -/

/-- The write pointers of the card, which start out as for a card that may be written. -/
structure WritesOk (vm : Machine) : Prop where
  armed : vm.has ssLcwrt = true → vm.has ssLcsec = true
  mapped : WriteMapOk vm ∨ vm.has ssLcwrt = false ∧ WritesUnsettled vm

structure MachineOk (vm : Machine) : Prop where
  map : MemoryMapOk vm
  reads : ReadMapOk vm
  writes : WritesOk vm
  roms : RomMapOk vm

section Steps
variable {vm : Machine} (bus : Bus)

theorem handler_writesOk (h : WritesOk vm) (handler : Handler) (ea : UInt16) (b : UInt8) :
    WritesOk (handler.run bus ea b vm).vm := by
  have hlatch := handler_latch vm bus handler ea b
  constructor
  · intro hwrt
    have hnow : (handler.run bus ea b vm).vm.latch.2 = true := hwrt
    change (handler.run bus ea b vm).vm.latch.1 = true
    rw [hlatch] at hnow ⊢
    cases haccess : handler.cardAccess with
    | none =>
      rw [haccess] at hnow
      exact h.armed hnow
    | some access =>
      cases access with
      | even =>
        rw [haccess] at hnow
        cases hnow
      | odd => rfl
  · obtain hmap | ⟨hlcwrt, hunsettled⟩ := h.mapped
    · exact Or.inl (handler_writeMap bus hmap h.armed handler ea b)
    · by_cases heven : handler.cardAccess = some .even
      · exact Or.inl (even_writeMap bus handler heven ea b)
      · by_cases hodd : handler.cardAccess = some .odd ∧ vm.has ssLcsec = true
        · exact Or.inl (armed_writeMap bus handler hodd.1 hodd.2 ea b)
        · have hfirst : handler.cardAccess = some .odd → vm.has ssLcsec = false :=
            fun hkind => Bool.eq_false_iff.mpr fun hsec => hodd ⟨hkind, hsec⟩
          have hsame := handler_writes_same bus handler heven hfirst hlcwrt ea b
          refine Or.inr ⟨?_, ?_, ?_⟩
          · change (handler.run bus ea b vm).vm.latch.2 = false
            rw [hlatch]
            cases haccess : handler.cardAccess with
            | none => exact hlcwrt
            | some access =>
              cases access with
              | even => rfl
              | odd => simp [Latch.next, Machine.latch, hlcwrt, hfirst haccess]
          · exact (hsame _ (by decide)).trans hunsettled.d000
          · exact (hsame _ (by decide)).trans hunsettled.e000

theorem MachineOk.store (h : MachineOk vm) (base : Ptr) (ea : UInt16) (b : UInt8) :
    MachineOk (vm.store base ea b) := by
  have hsame : Changes [] [] vm (vm.store base ea b) := (Changes.refl [] [] vm).store base ea b
  have hhas : ∀ sw, (vm.store base ea b).has sw = vm.has sw := fun sw => hsame.has_eq sw nofun
  have hbase : ∀ p, (vm.store base ea b).base p = vm.base p := fun p => hsame.base_eq p nofun
  refine ⟨h.map.frame hsame nofun nofun, h.reads.frame hsame nofun nofun, ⟨?_, ?_⟩,
    h.roms.frame hsame nofun nofun⟩
  · rw [hhas, hhas]
    exact h.writes.armed
  · obtain hmap | ⟨hlcwrt, hd, he⟩ := h.writes.mapped
    · exact Or.inl (hmap.frame hsame nofun nofun)
    · exact Or.inr ⟨(hhas _).trans hlcwrt, (hbase _).trans hd, (hbase _).trans he⟩

theorem step_ok (h : MachineOk vm) (op : Op) : MachineOk (step vm op) := by
  obtain ⟨handler, bus, ea, b, hrun⟩ | ⟨base, ea, b, hstore⟩ := step_cases vm op
  · rw [hrun]
    exact ⟨handler_map h.map bus handler ea b, handler_readMap bus h.reads handler ea b,
      handler_writesOk bus h.writes handler ea b, handler_romMap h.roms bus handler ea b⟩
  · rw [hstore]
    exact h.store base ea b

end Steps

theorem initializeIieSwitches_ok (vm : Machine) : MachineOk (initializeIieSwitches vm) := by
  refine ⟨initializeIieSwitches_map vm, initializeIieSwitches_readMap vm, ⟨?_, ?_⟩, ?_⟩
  · simp
  · exact Or.inr ⟨by simp, rfl, rfl⟩
  · constructor <;> simp <;> rfl

/-- Every run keeps the invariant. -/
theorem runFrom_ok (vm : Machine) (ops : List Op) : MachineOk (runFrom vm ops) :=
  runFrom_invariant MachineOk initializeIieSwitches_ok (fun _ op h => step_ok h op) vm ops

end Apple2ix.Vm
