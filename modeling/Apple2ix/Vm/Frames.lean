import Apple2ix.Vm.Runs

/-! What a handler can change. Parts of the machine move independently: what is only displayed, the
map of the memory below C000, the language card, the zero page, and the slot roms. -/
namespace Apple2ix.Vm
open Switch
set_option autoImplicit false

/-! ## Frames -/

/-- Of the switches only `sws` differ, and of the bank pointers only `bases`. -/
structure Changes (sws : List Switch) (bases : List Base) (vm vm' : Machine) : Prop where
  has_eq : ∀ sw, sw ∉ sws → vm'.has sw = vm.has sw
  base_eq : ∀ base, base ∉ bases → vm'.base base = vm.base base

namespace Changes
variable {sws : List Switch} {bases : List Base} {vm vm' vm'' : Machine}

theorem refl (sws : List Switch) (bases : List Base) (vm : Machine) : Changes sws bases vm vm :=
  ⟨fun _ _ => rfl, fun _ _ => rfl⟩

theorem trans (h : Changes sws bases vm vm') (h' : Changes sws bases vm' vm'') :
    Changes sws bases vm vm'' :=
  ⟨fun sw hsw => (h'.has_eq sw hsw).trans (h.has_eq sw hsw),
    fun base hbase => (h'.base_eq base hbase).trans (h.base_eq base hbase)⟩

theorem set (h : Changes sws bases vm vm') {now : List Switch} (hnow : ∀ sw ∈ now, sw ∈ sws) :
    Changes sws bases vm (vm'.set now) := by
  refine ⟨fun sw hsw => ?_, h.base_eq⟩
  have hnot : sw ∉ now := fun hmem => hsw (hnow sw hmem)
  simp [hnot, h.has_eq sw hsw]

theorem clear (h : Changes sws bases vm vm') {now : List Switch} (hnow : ∀ sw ∈ now, sw ∈ sws) :
    Changes sws bases vm (vm'.clear now) := by
  refine ⟨fun sw hsw => ?_, h.base_eq⟩
  have hnot : sw ∉ now := fun hmem => hsw (hnow sw hmem)
  simp [hnot, h.has_eq sw hsw]

theorem point (h : Changes sws bases vm vm') {now : List Base} (p : Ptr)
    (hnow : ∀ base ∈ now, base ∈ bases) : Changes sws bases vm (vm'.point now p) := by
  refine ⟨h.has_eq, fun base hbase => ?_⟩
  have hnot : base ∉ now := fun hmem => hbase (hnow base hmem)
  simp [hnot, h.base_eq base hbase]

theorem store (h : Changes sws bases vm vm') (p : Ptr) (ea : UInt16) (b : UInt8) :
    Changes sws bases vm (vm'.store p ea b) := by
  obtain ⟨mem, card, banks, hstore⟩ := store_frame vm' p ea b
  rw [hstore]
  exact ⟨h.has_eq, h.base_eq⟩

theorem ite {c : Prop} [Decidable c] (h : Changes sws bases vm vm')
    (h' : Changes sws bases vm vm'') : Changes sws bases vm (if c then vm' else vm'') := by
  split
  · exact h
  · exact h'

end Changes

/-! ## The parts -/

inductive Part
  | display
  | map
  | card
  | zeroPage
  | rom
  deriving DecidableEq, Repr

namespace Part

def switches : Part → List Switch
  | display => [ssText, ssMixed, ss80col, ssDhires, ssAltchar, ssIoudis]
  | map => [ssPage2, ss80store, ssHires, ssRamrd, ssRamwrt, ssScreen, ssTextrd, ssTextwrt, ssHgrrd,
      ssHgrwrt]
  | card => [ssLcram, ssBank2, ssLcsec, ssLcwrt]
  | zeroPage => [ssAltzp]
  | rom => [ssC3rom, ssCxrom]

/-- The pointers that move with a part. The language card follows the zero page. -/
def bases : Part → List Base
  | display => []
  | map => [.ramrd, .ramwrt, .textrd, .textwrt, .hgrrd, .hgrwrt]
  | card => [.d000Rd, .e000Rd, .d000Wrt, .e000Wrt]
  | zeroPage => [.stackzp, .d000Rd, .e000Rd, .d000Wrt, .e000Wrt]
  | rom => [.c3rom, .c4rom, .c5rom, .cxrom]

/-- Nothing but the part moves. -/
abbrev Only (part : Part) : Machine → Machine → Prop := Changes part.switches part.bases

end Part

def Handler.part : Handler → Part
  | iiePage2Off | iiePage2On | iieHiresOff | iieHiresOn | iie80storeOff | iie80storeOn
  | iieRamrdMain | iieRamrdAux | iieRamwrtMain | iieRamwrtAux => .map
  | iieC080 | iieC081 | lcC082 | iieC083 | iieC088 | iieC089 | lcC08a | iieC08b => .card
  | iieAltzpMain | iieAltzpAux => .zeroPage
  | iieC3romPeripheral | iieC3romInternal | iieCxromPeripheral | iieCxromInternal => .rom
  | _ => .display

/-! ## The handlers -/

section Handlers
variable {part : Part} (vm : Machine) (bus : Bus)

theorem switchOff_only {sw : Switch} (hsw : sw ∈ part.switches) :
    part.Only vm (switchOff sw vm).1 := by
  unfold switchOff
  split
  · exact (Changes.refl _ _ vm).clear fun s hs => List.mem_singleton.mp hs ▸ hsw
  · exact Changes.refl _ _ vm

theorem switchOn_only {sw : Switch} (hsw : sw ∈ part.switches) :
    part.Only vm (switchOn sw vm).1 := by
  unfold switchOn
  split
  · exact Changes.refl _ _ vm
  · exact (Changes.refl _ _ vm).set fun s hs => List.mem_singleton.mp hs ▸ hsw

theorem readGcStrobe_only : part.Only vm (readGcStrobe bus vm).vm := by
  simp only [readGcStrobe, floats]
  split_ifs <;> exact ⟨fun _ _ => rfl, fun _ _ => rfl⟩

theorem readKeyboardStrobe_only : part.Only vm (readKeyboardStrobe vm).vm := by
  simp only [readKeyboardStrobe]
  apply Changes.store
  apply Changes.store
  exact Changes.refl _ _ vm

/-- **A handler moves its own part only.** -/
theorem handler_only (h : Handler) (ea : UInt16) (b : UInt8) :
    h.part.Only vm (h.run bus ea b vm).vm := by
  have hsame := Changes.refl h.part.switches h.part.bases vm
  cases h
  case readSwitchGraphics | readSwitchNoMixed | iieDhiresOff | iie80colOff =>
    exact switchOff_only vm (by decide)
  case readSwitchText | readSwitchMixed | iieDhiresOn | iie80colOn =>
    exact switchOn_only vm (by decide)
  case readGcStrobe | gcStrobeStatus => exact readGcStrobe_only vm bus
  case ioudisOn => exact (hsame.set (by decide)).trans (readGcStrobe_only _ bus)
  case ioudisOff => exact (hsame.clear (by decide)).trans (readGcStrobe_only _ bus)
  case readKeyboardStrobe => exact readKeyboardStrobe_only vm
  case readGc0 | readGc1 =>
    simp only [Handler.run, readGc0, readGc1]
    split <;> exact ⟨fun _ _ => rfl, fun _ _ => rfl⟩
  case iieAltcharOff =>
    simp only [Handler.run, iieAltcharOff, returnsZero]
    split
    · exact hsame.clear (by decide)
    · exact hsame
  case iieAltcharOn =>
    simp only [Handler.run, iieAltcharOn, returnsZero]
    split
    · exact hsame
    · exact hsame.set (by decide)
  case iiePage2Off | iiePage2On | iieHiresOff | iieHiresOn | iie80storeOff | iie80storeOn
      | iieRamrdMain | iieRamrdAux | iieRamwrtMain | iieRamwrtAux =>
    simp only [Handler.run, iiePage2Off, iiePage2On, iieHiresOff, iieHiresOn, iie80storeOff,
      iie80storeOn, iieRamrdMain, iieRamrdAux, iieRamwrtMain, iieRamwrtAux, floats, returnsZero,
      pointText, pointHgr, apply_ite Prod.fst]
    repeat' first
      | exact hsame
      | apply Changes.ite
      | refine Changes.set ?_ (by decide)
      | refine Changes.clear ?_ (by decide)
      | refine Changes.point ?_ _ (by decide)
  case iieC080 | iieC081 | lcC082 | iieC083 | iieC088 | iieC089 | lcC08a | iieC08b
      | iieAltzpMain | iieAltzpAux =>
    simp only [Handler.run, iieC080, iieC081, lcC082, iieC083, iieC088, iieC089, lcC08a, iieC08b,
      iieAltzpMain, iieAltzpAux, lcSecondAccess, lcReadCard, lcReadRom, lcNoWrite, lcFollowAltzp,
      lcToAuxmem, floats, returnsZero, apply_ite Prod.fst]
    repeat' first
      | exact hsame
      | apply Changes.ite
      | refine Changes.set ?_ (by decide)
      | refine Changes.clear ?_ (by decide)
      | refine Changes.point ?_ _ (by decide)
  case iieC3romPeripheral | iieC3romInternal | iieCxromPeripheral | iieCxromInternal =>
    simp only [Handler.run, iieC3romPeripheral, iieC3romInternal, iieCxromPeripheral,
      iieCxromInternal, returnsZero]
    repeat' first
      | exact hsame
      | apply Changes.ite
      | refine Changes.set ?_ (by decide)
      | refine Changes.clear ?_ (by decide)
      | refine Changes.point ?_ _ (by decide)
  -- what is left reads, or calls outside vm.c
  all_goals exact hsame

end Handlers

end Apple2ix.Vm
