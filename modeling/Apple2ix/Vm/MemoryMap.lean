import Apple2ix.Vm.Frames

/-! The cached memory map: the derived switches are the functions vm.h gives for them, and the
bank pointers below C000 point where the switches say, whatever was accessed in whatever order. -/
namespace Apple2ix.Vm
open Switch
set_option autoImplicit false

/-- Main or auxiliary memory. -/
def bankOf (aux : Bool) : Ptr := Ptr.appleIi64k (if aux then 1 else 0)

@[simp] theorem bankOf_false : bankOf false = Ptr.appleIi64k 0 := rfl
@[simp] theorem bankOf_true : bankOf true = Ptr.appleIi64k 1 := rfl

/-- `addr >> 8`. -/
def pageOf (ea : UInt16) : ℕ := (ea >>> 8).toNat

section Cells
variable {vm : Machine} {ea : UInt16} {b : UInt8}

theorem loadCell_storeCell {size : ℕ} (mem : Fin size → UInt8) {off : ℤ} (h : 0 ≤ off)
    (hlt : off < size) : loadCell (storeCell mem off b) off = b := by
  have hcell : cell size off = some ⟨off.toNat, by omega⟩ := dif_pos ⟨h, hlt⟩
  simp only [loadCell, storeCell, hcell, Function.update_self]

theorem loadCell_storeCell_ne {size : ℕ} (mem : Fin size → UInt8) {off off' : ℤ}
    (h : 0 ≤ off) (h' : 0 ≤ off') (hne : off ≠ off') :
    loadCell (storeCell mem off b) off' = loadCell mem off' := by
  have hcells : ∀ i, cell size off = some i → cell size off' ≠ some i := by
    intro i hi hi'
    unfold cell at hi hi'
    split at hi
    · split at hi'
      · have hval := Fin.mk.inj ((Option.some.inj hi).trans (Option.some.inj hi').symm)
        omega
      · cases hi'
    · cases hi
  unfold loadCell storeCell
  cases hload : cell size off' with
  | none => rfl
  | some j =>
    cases hstore : cell size off with
    | none => rfl
    | some i =>
      refine Function.update_of_ne (fun hij => hcells i hstore ?_) _ _
      rw [hload, hij]

/-- Main and auxiliary memory. -/
theorem load_store_bank (aux aux' : Bool) :
    (vm.store (bankOf aux) ea b).load (bankOf aux') ea =
      if aux' = aux then b else vm.load (bankOf aux') ea := by
  have hea := ea.toNat_lt
  cases aux <;> cases aux' <;>
    simp only [bankOf, Machine.store, Machine.load, Ptr.appleIi64k, if_true, if_false,
      Bool.false_eq_true, reduceCtorEq]
  · exact loadCell_storeCell _ (by omega) (by omega)
  · exact loadCell_storeCell_ne _ (by omega) (by omega) (by omega)
  · exact loadCell_storeCell_ne _ (by omega) (by omega) (by omega)
  · exact loadCell_storeCell _ (by omega) (by omega)

end Cells

/-- The derived switches of vm.h, and the pointers the switches stand for. -/
structure MemoryMapOk (vm : Machine) : Prop where
  screen : vm.has ssScreen = (vm.has ssPage2 && !vm.has ss80store)
  textrd : vm.has ssTextrd =
    (vm.has ssPage2 && vm.has ss80store || vm.has ssRamrd && !vm.has ss80store)
  textwrt : vm.has ssTextwrt =
    (vm.has ssPage2 && vm.has ss80store || vm.has ssRamwrt && !vm.has ss80store)
  hgrrd : vm.has ssHgrrd =
    (vm.has ssPage2 && vm.has ss80store && vm.has ssHires ||
      vm.has ssRamrd && !(vm.has ss80store && vm.has ssHires))
  hgrwrt : vm.has ssHgrwrt =
    (vm.has ssPage2 && vm.has ss80store && vm.has ssHires ||
      vm.has ssRamwrt && !(vm.has ss80store && vm.has ssHires))
  baseTextrd : vm.base .textrd = bankOf (vm.has ssTextrd)
  baseTextwrt : vm.base .textwrt = bankOf (vm.has ssTextwrt)
  baseHgrrd : vm.base .hgrrd = bankOf (vm.has ssHgrrd)
  baseHgrwrt : vm.base .hgrwrt = bankOf (vm.has ssHgrwrt)
  baseRamrd : vm.base .ramrd = bankOf (vm.has ssRamrd)
  baseRamwrt : vm.base .ramwrt = bankOf (vm.has ssRamwrt)
  baseStackzp : vm.base .stackzp = bankOf (vm.has ssAltzp)

section Steps
variable {vm vm' : Machine} (h : MemoryMapOk vm) (bus : Bus)
include h

/-- The switches and pointers of the map decide it. -/
theorem MemoryMapOk.frame {sws : List Switch} {bases : List Base} (hsame : Changes sws bases vm vm')
    (hsws : ∀ sw ∈ ssAltzp :: Part.map.switches, sw ∉ sws)
    (hbases : ∀ base ∈ .stackzp :: Part.map.bases, base ∉ bases) : MemoryMapOk vm' := by
  have hhas : ∀ sw ∈ ssAltzp :: Part.map.switches, vm'.has sw = vm.has sw :=
    fun sw hsw => hsame.has_eq sw (hsws sw hsw)
  have hbase : ∀ base ∈ .stackzp :: Part.map.bases, vm'.base base = vm.base base :=
    fun base hb => hsame.base_eq base (hbases base hb)
  simp only [Part.switches, Part.bases, List.forall_mem_cons] at hhas hbase
  obtain ⟨hz, h1, h2, h3, h4, h5, h6, h7, h8, h9, h10, -⟩ := hhas
  obtain ⟨b0, b1, b2, b3, b4, b5, b6, -⟩ := hbase
  constructor <;> simp [*, h.screen, h.textrd, h.textwrt, h.hgrrd, h.hgrwrt, h.baseTextrd,
    h.baseTextwrt, h.baseHgrrd, h.baseHgrwrt, h.baseRamrd, h.baseRamwrt, h.baseStackzp]

theorem iiePage2Off_map : MemoryMapOk (iiePage2Off bus vm).vm := by
  obtain ⟨screen, textrd, textwrt, hgrrd, hgrwrt, b1, b2, b3, b4, b5, b6, b7⟩ := h
  unfold iiePage2Off floats
  cases hpage2 : vm.has ssPage2 <;> cases h80store : vm.has ss80store <;> cases hhires :
    vm.has ssHires <;>
    constructor <;> simp [pointText, pointHgr, *]

theorem iiePage2On_map : MemoryMapOk (iiePage2On bus vm).vm := by
  obtain ⟨screen, textrd, textwrt, hgrrd, hgrwrt, b1, b2, b3, b4, b5, b6, b7⟩ := h
  unfold iiePage2On floats
  cases hpage2 : vm.has ssPage2 <;> cases h80store : vm.has ss80store <;> cases hhires :
    vm.has ssHires <;>
    constructor <;> simp [pointText, pointHgr, *]

theorem iieHiresOff_map : MemoryMapOk (iieHiresOff bus vm).vm := by
  obtain ⟨screen, textrd, textwrt, hgrrd, hgrwrt, b1, b2, b3, b4, b5, b6, b7⟩ := h
  unfold iieHiresOff floats
  cases hhires : vm.has ssHires <;> cases hramrd : vm.has ssRamrd <;> cases hramwrt :
    vm.has ssRamwrt <;>
    constructor <;> simp [pointHgr, *]

theorem iieHiresOn_map : MemoryMapOk (iieHiresOn bus vm).vm := by
  obtain ⟨screen, textrd, textwrt, hgrrd, hgrwrt, b1, b2, b3, b4, b5, b6, b7⟩ := h
  unfold iieHiresOn floats
  cases hhires : vm.has ssHires <;> cases h80store : vm.has ss80store <;> cases hpage2 :
    vm.has ssPage2 <;>
    constructor <;> simp [pointHgr, *]

theorem iie80storeOff_map : MemoryMapOk (iie80storeOff vm).vm := by
  obtain ⟨screen, textrd, textwrt, hgrrd, hgrwrt, b1, b2, b3, b4, b5, b6, b7⟩ := h
  unfold iie80storeOff returnsZero
  cases h80store : vm.has ss80store <;> cases hramrd : vm.has ssRamrd <;> cases hramwrt :
    vm.has ssRamwrt <;> cases hpage2 : vm.has ssPage2 <;>
    constructor <;> simp [pointText, pointHgr, *]

theorem iie80storeOn_map : MemoryMapOk (iie80storeOn vm).vm := by
  obtain ⟨screen, textrd, textwrt, hgrrd, hgrwrt, b1, b2, b3, b4, b5, b6, b7⟩ := h
  unfold iie80storeOn returnsZero
  cases h80store : vm.has ss80store <;> cases hpage2 : vm.has ssPage2 <;> cases hhires :
    vm.has ssHires <;>
    constructor <;> simp [pointText, pointHgr, *]

theorem iieRamrdMain_map : MemoryMapOk (iieRamrdMain vm).vm := by
  obtain ⟨screen, textrd, textwrt, hgrrd, hgrwrt, b1, b2, b3, b4, b5, b6, b7⟩ := h
  unfold iieRamrdMain returnsZero
  cases hramrd : vm.has ssRamrd <;> cases h80store : vm.has ss80store <;> cases hhires :
    vm.has ssHires <;>
    constructor <;> simp [*]

theorem iieRamrdAux_map : MemoryMapOk (iieRamrdAux vm).vm := by
  obtain ⟨screen, textrd, textwrt, hgrrd, hgrwrt, b1, b2, b3, b4, b5, b6, b7⟩ := h
  unfold iieRamrdAux returnsZero
  cases hramrd : vm.has ssRamrd <;> cases h80store : vm.has ss80store <;> cases hhires :
    vm.has ssHires <;>
    constructor <;> simp [*]

theorem iieRamwrtMain_map : MemoryMapOk (iieRamwrtMain vm).vm := by
  obtain ⟨screen, textrd, textwrt, hgrrd, hgrwrt, b1, b2, b3, b4, b5, b6, b7⟩ := h
  unfold iieRamwrtMain returnsZero
  cases hramwrt : vm.has ssRamwrt <;> cases h80store : vm.has ss80store <;> cases hhires :
    vm.has ssHires <;>
    constructor <;> simp [*]

theorem iieRamwrtAux_map : MemoryMapOk (iieRamwrtAux vm).vm := by
  obtain ⟨screen, textrd, textwrt, hgrrd, hgrwrt, b1, b2, b3, b4, b5, b6, b7⟩ := h
  unfold iieRamwrtAux returnsZero
  cases hramwrt : vm.has ssRamwrt <;> cases h80store : vm.has ss80store <;> cases hhires :
    vm.has ssHires <;>
    constructor <;> simp [*]

theorem iieAltzpMain_map : MemoryMapOk (iieAltzpMain vm).vm := by
  obtain ⟨screen, textrd, textwrt, hgrrd, hgrwrt, b1, b2, b3, b4, b5, b6, b7⟩ := h
  unfold iieAltzpMain returnsZero
  cases haltzp : vm.has ssAltzp <;> cases hlcram : vm.has ssLcram <;>
    cases hlcwrt : vm.has ssLcwrt <;> constructor <;> simp [*]

theorem iieAltzpAux_map : MemoryMapOk (iieAltzpAux vm).vm := by
  obtain ⟨screen, textrd, textwrt, hgrrd, hgrwrt, b1, b2, b3, b4, b5, b6, b7⟩ := h
  unfold iieAltzpAux lcToAuxmem returnsZero
  cases haltzp : vm.has ssAltzp <;> cases hlcram : vm.has ssLcram <;>
    cases hlcwrt : vm.has ssLcwrt <;> constructor <;> simp [*]

theorem handler_map (handler : Handler) (ea : UInt16) (b : UInt8) :
    MemoryMapOk (handler.run bus ea b vm).vm := by
  have honly := handler_only vm bus handler ea b
  cases hpart : handler.part with
  | display | card | rom =>
    rw [hpart] at honly
    exact h.frame honly (by decide) (by decide)
  | map =>
    cases handler with
    | iiePage2Off => exact iiePage2Off_map h bus
    | iiePage2On => exact iiePage2On_map h bus
    | iieHiresOff => exact iieHiresOff_map h bus
    | iieHiresOn => exact iieHiresOn_map h bus
    | iie80storeOff => exact iie80storeOff_map h
    | iie80storeOn => exact iie80storeOn_map h
    | iieRamrdMain => exact iieRamrdMain_map h
    | iieRamrdAux => exact iieRamrdAux_map h
    | iieRamwrtMain => exact iieRamwrtMain_map h
    | iieRamwrtAux => exact iieRamwrtAux_map h
    | _ => cases hpart
  | zeroPage =>
    cases handler with
    | iieAltzpMain => exact iieAltzpMain_map h
    | iieAltzpAux => exact iieAltzpAux_map h
    | _ => cases hpart

theorem step_map (op : Op) : MemoryMapOk (step vm op) := by
  obtain ⟨handler, bus, ea, b, hrun⟩ | ⟨base, ea, b, hstore⟩ := step_cases vm op
  · rw [hrun]
    exact handler_map h bus handler ea b
  · rw [hstore]
    have hsame : Changes [] [] vm vm := Changes.refl [] [] vm
    exact h.frame (hsame.store base ea b) (by decide) (by decide)

end Steps

theorem initializeIieSwitches_map (vm : Machine) : MemoryMapOk (initializeIieSwitches vm) := by
  constructor <;> simp <;> rfl

theorem runFrom_map (vm : Machine) (ops : List Op) : MemoryMapOk (runFrom vm ops) :=
  runFrom_invariant MemoryMapOk initializeIieSwitches_map (fun _ op h => step_map h op) vm ops

/-- **The cached memory map is right after every run.** -/
theorem memory_map (vm : Machine) (ops : List Op) : MemoryMapOk (runFrom vm ops) :=
  runFrom_map vm ops

end Apple2ix.Vm
