import Mathlib.Data.List.GetD
import Mathlib.Tactic.IntervalCases
import Apple2ix.Misc.StateHelper
import Apple2ix.Vm.Reachable

/-! `vm_saveState` and `vm_loadState`: pointers are saved as tags, and loading what was saved of a
reachable machine restores it. -/
namespace Apple2ix.Vm
open Switch
set_option autoImplicit false

/-! ## Steps of a save and of a load -/

/-- The bytes of the calls of `helper->save` in turn; `none` is an assertion that fails. -/
def saveEach (helper : StateHelper) : List (Option (List UInt8)) → Option (StateHelper × Bool)
  | [] => some (helper, true)
  | none :: _ => none
  | some bytes :: rest =>
    let saved := helper.save bytes
    if saved.2 then saveEach saved.1 rest else some (saved.1, false)

/-- A call of `helper->load`, and what is done with its bytes; `none` is an assertion that fails. -/
structure LoadStep where
  size : ℕ
  apply : List UInt8 → Machine → Option Machine

def loadEach : List LoadStep → Machine → List UInt8 → Option (Machine × List UInt8 × Bool)
  | [], vm, input => some (vm, input, true)
  | step :: steps, vm, input =>
    match loadState input step.size with
    | none => some (vm, input, false)
    | some (bytes, rest) =>
      match step.apply bytes vm with
      | none => none
      | some vm => loadEach steps vm rest

/-! ## The fields -/

/-- The switches, the most significant byte first. -/
def softswitchBytes (softswitches : BitVec 32) : List UInt8 :=
  [UInt8.ofBitVec (((softswitches &&& 0xFF000000) >>> 24).setWidth 8),
    UInt8.ofBitVec (((softswitches &&& 0xFF0000) >>> 16).setWidth 8),
    UInt8.ofBitVec (((softswitches &&& 0xFF00) >>> 8).setWidth 8),
    UInt8.ofBitVec (((softswitches &&& 0xFF) >>> 0).setWidth 8)]

def softswitchesOf (serialized : List UInt8) : BitVec 32 :=
  let byte := fun i => (serialized.getD i 0).toBitVec.setWidth 32
  byte 0 <<< 24 ||| byte 1 <<< 16 ||| byte 2 <<< 8 ||| byte 3 <<< 0

def arrayOf {size : ℕ} (bytes : List UInt8) : Fin size → UInt8 := fun i => bytes.getD i 0

def bankTag (p : Ptr) : UInt8 := if p = Ptr.appleIi64k 0 then 0x0 else 0x1
def bankOfTag (state : UInt8) : Ptr := if state = 0x0 then Ptr.appleIi64k 0 else Ptr.appleIi64k 1

def romTag (p : Ptr) : UInt8 := if p = Ptr.iieReadPeripheralCard then 0x0 else 0x1
def romOfTag (state : UInt8) : Ptr :=
  if state = 0 then Ptr.iieReadPeripheralCard else Ptr.appleIi64k 1

/-- The tags at D000, where `absent` is the rom for reads and no target for writes. -/
def d000Tag (absent p : Ptr) : Option UInt8 :=
  if p = absent then some 0x0
  else if p = Ptr.languageBanks 0 - (0xD000 : ℤ) then some 0x2
  else if p = Ptr.languageBanks 0 - (0xC000 : ℤ) then some 0x3
  else if p = Ptr.languageBanks 1 - (0xD000 : ℤ) then some 0x4
  else if p = Ptr.languageBanks 1 - (0xC000 : ℤ) then some 0x5
  else none

def d000OfTag (absent : Ptr) (state : UInt8) : Option Ptr :=
  if state = 0 then some absent
  else if state = 2 then some (Ptr.languageBanks 0 - (0xD000 : ℤ))
  else if state = 3 then some (Ptr.languageBanks 0 - (0xC000 : ℤ))
  else if state = 4 then some (Ptr.languageBanks 1 - (0xD000 : ℤ))
  else if state = 5 then some (Ptr.languageBanks 1 - (0xC000 : ℤ))
  else none

/-- The tags at E000. -/
def e000Tag (absent p : Ptr) : Option UInt8 :=
  if p = absent then some 0x0
  else if p = Ptr.languageCard 0 - (0xE000 : ℤ) then some 0x2
  else if p = Ptr.languageCard 0 - (0xC000 : ℤ) then some 0x3
  else none

def e000OfTag (absent : Ptr) (state : UInt8) : Option Ptr :=
  if state = 0 then some absent
  else if state = 2 then some (Ptr.languageCard 0 - (0xE000 : ℤ))
  else if state = 3 then some (Ptr.languageCard 0 - (0xC000 : ℤ))
  else none

/-! ## The two functions -/

def saveSteps (vm : Machine) : List (Option (List UInt8)) :=
  [some (softswitchBytes vm.softswitches),
    some (List.ofFn vm.appleIi64k),
    some (List.ofFn vm.languageCard),
    some (List.ofFn vm.languageBanks),
    some [bankTag (vm.base .ramrd)],
    some [bankTag (vm.base .ramwrt)],
    some [bankTag (vm.base .textrd)],
    some [bankTag (vm.base .textwrt)],
    some [bankTag (vm.base .hgrrd)],
    some [bankTag (vm.base .hgrwrt)],
    some [bankTag (vm.base .stackzp)],
    some [romTag (vm.base .c3rom)],
    some [romTag (vm.base .cxrom)],
    (d000Tag (Ptr.appleIi64k 0) (vm.base .d000Rd)).map fun tag => [tag],
    (d000Tag Ptr.null (vm.base .d000Wrt)).map fun tag => [tag],
    (e000Tag (Ptr.appleIi64k 0) (vm.base .e000Rd)).map fun tag => [tag],
    (e000Tag Ptr.null (vm.base .e000Wrt)).map fun tag => [tag]]

def vmSaveState (helper : StateHelper) (vm : Machine) : Option (StateHelper × Bool) :=
  saveEach helper (saveSteps vm)

/-- One byte `state` for the pointers `bases`. -/
def loadTag (bases : List Base) (ptrOf : UInt8 → Option Ptr) : LoadStep where
  size := 1
  apply bytes vm := (ptrOf (bytes.getD 0 0)).map fun p => vm.point bases p

def loadSteps : List LoadStep :=
  [⟨4, fun bytes vm => some { vm with softswitches := softswitchesOf bytes }⟩,
    ⟨0x20000, fun bytes vm => some { vm with appleIi64k := arrayOf bytes }⟩,
    ⟨0x4000, fun bytes vm => some { vm with languageCard := arrayOf bytes }⟩,
    ⟨0x4000, fun bytes vm => some { vm with languageBanks := arrayOf bytes }⟩,
    loadTag [.ramrd] fun state => some (bankOfTag state),
    loadTag [.ramwrt] fun state => some (bankOfTag state),
    loadTag [.textrd] fun state => some (bankOfTag state),
    loadTag [.textwrt] fun state => some (bankOfTag state),
    loadTag [.hgrrd] fun state => some (bankOfTag state),
    loadTag [.hgrwrt] fun state => some (bankOfTag state),
    loadTag [.stackzp] fun state => some (bankOfTag state),
    loadTag [.c3rom] fun state => some (romOfTag state),
    loadTag [.cxrom, .c4rom, .c5rom] fun state => some (romOfTag state),
    loadTag [.d000Rd] (d000OfTag (Ptr.appleIi64k 0)),
    loadTag [.d000Wrt] (d000OfTag Ptr.null),
    loadTag [.e000Rd] (e000OfTag (Ptr.appleIi64k 0)),
    loadTag [.e000Wrt] (e000OfTag Ptr.null)]

def vmLoadState (vm : Machine) (input : List UInt8) : Option (Machine × List UInt8 × Bool) :=
  loadEach loadSteps vm input

/-! ## Reading back -/

theorem saveEach_some (helper : StateHelper) (chunks : List (List UInt8)) :
    saveEach helper (chunks.map some) = some (helper.saveAll chunks) := by
  induction chunks generalizing helper with
  | nil => rfl
  | cons bytes rest ih =>
    rw [List.map_cons, saveEach, StateHelper.saveAll, ih]
    split <;> rfl

/-- The chunks fit the steps, and leave `vm'`. -/
inductive LoadsTo : List LoadStep → List (List UInt8) → Machine → Machine → Prop
  | nil (vm : Machine) : LoadsTo [] [] vm vm
  | cons {step : LoadStep} {steps : List LoadStep} {bytes : List UInt8}
      {chunks : List (List UInt8)} {vm vm' vm'' : Machine} (hsize : bytes.length = step.size)
      (happly : step.apply bytes vm = some vm') (hrest : LoadsTo steps chunks vm' vm'') :
      LoadsTo (step :: steps) (bytes :: chunks) vm vm''

theorem LoadsTo.loadEach {steps : List LoadStep} {chunks : List (List UInt8)} {vm vm' : Machine}
    (h : LoadsTo steps chunks vm vm') (rest : List UInt8) :
    loadEach steps vm (chunks.flatten ++ rest) = some (vm', rest, true) := by
  induction h with
  | nil vm => rfl
  | cons hsize happly _ ih =>
    rw [Vm.loadEach, List.flatten_cons, List.append_assoc, ← hsize, loadState_append]
    simp only [happly]
    exact ih

theorem softswitchesOf_bytes (softswitches : BitVec 32) :
    softswitchesOf (softswitchBytes softswitches) = softswitches := by
  apply BitVec.eq_of_getLsbD_eq
  intro i hi
  interval_cases i <;> simp [softswitchesOf, softswitchBytes]

theorem arrayOf_ofFn {size : ℕ} (mem : Fin size → UInt8) : arrayOf (List.ofFn mem) = mem := by
  funext i
  rw [arrayOf, List.getD_eq_getElem _ _ (by rw [List.length_ofFn]; exact i.isLt), List.getElem_ofFn]

@[simp] theorem bankOfTag_tag (aux : Bool) : bankOfTag (bankTag (bankOf aux)) = bankOf aux := by
  cases aux <;> decide

@[simp] theorem romOfTag_tag (internal : Bool) :
    romOfTag (romTag (romOf internal)) = romOf internal := by
  cases internal <;> decide

/-- What the D000 tags stand for. -/
theorem d000OfTag_tag {absent p : Ptr} (habsent : absent = Ptr.appleIi64k 0 ∨ absent = Ptr.null)
    (hp : p = absent ∨ ∃ bank2 altzp, p = d000Ram bank2 altzp) :
    ∃ tag, d000Tag absent p = some tag ∧ d000OfTag absent tag = some p := by
  obtain rfl | ⟨bank2, altzp, rfl⟩ := hp
  · exact ⟨0, if_pos rfl, rfl⟩
  · obtain rfl | rfl := habsent
    all_goals
      cases bank2 <;> cases altzp <;> exact ⟨_, rfl, rfl⟩

theorem e000OfTag_tag {absent p : Ptr} (habsent : absent = Ptr.appleIi64k 0 ∨ absent = Ptr.null)
    (hp : p = absent ∨ ∃ altzp, p = e000Ram altzp) :
    ∃ tag, e000Tag absent p = some tag ∧ e000OfTag absent tag = some p := by
  obtain rfl | ⟨altzp, rfl⟩ := hp
  · exact ⟨0, if_pos rfl, rfl⟩
  · obtain rfl | rfl := habsent
    all_goals
      cases altzp <;> exact ⟨_, rfl, rfl⟩

/-! ## The round trip -/

/-- What a load of a saved `vm` leaves: the paddle timers are not part of the file. -/
def restored (vm start : Machine) : Machine :=
  { vm with gcCyclesTimer0 := start.gcCyclesTimer0, gcCyclesTimer1 := start.gcCyclesTimer1 }

theorem MachineOk.d000Wrt {vm : Machine} (h : MachineOk vm) :
    vm.base .d000Wrt = Ptr.null ∨ ∃ bank2 altzp, vm.base .d000Wrt = d000Ram bank2 altzp := by
  obtain hmap | ⟨-, hunsettled⟩ := h.writes.mapped
  · rw [hmap.d000]
    split
    · exact Or.inr ⟨_, _, rfl⟩
    · exact Or.inl rfl
  · exact Or.inr ⟨true, false, hunsettled.d000⟩

theorem MachineOk.e000Wrt {vm : Machine} (h : MachineOk vm) :
    vm.base .e000Wrt = Ptr.null ∨ ∃ altzp, vm.base .e000Wrt = e000Ram altzp := by
  obtain hmap | ⟨-, hunsettled⟩ := h.writes.mapped
  · rw [hmap.e000]
    split
    · exact Or.inr ⟨_, rfl⟩
    · exact Or.inl rfl
  · exact Or.inr ⟨false, hunsettled.e000⟩

theorem MachineOk.d000Rd {vm : Machine} (h : MachineOk vm) : vm.base .d000Rd = Ptr.appleIi64k 0 ∨
    ∃ bank2 altzp, vm.base .d000Rd = d000Ram bank2 altzp := by
  rw [h.reads.d000]
  split
  · exact Or.inr ⟨_, _, rfl⟩
  · exact Or.inl rfl

theorem MachineOk.e000Rd {vm : Machine} (h : MachineOk vm) : vm.base .e000Rd = Ptr.appleIi64k 0 ∨
    ∃ altzp, vm.base .e000Rd = e000Ram altzp := by
  rw [h.reads.e000]
  split
  · exact Or.inr ⟨_, rfl⟩
  · exact Or.inl rfl

theorem loadsTo_nil {vm vm' : Machine} (h : vm = vm') : LoadsTo [] [] vm vm' := h ▸ .nil vm

theorem loadsTo_tag {bases : List Base} {ptrOf : UInt8 → Option Ptr} {steps : List LoadStep}
    {chunks : List (List UInt8)} {vm vm'' : Machine} {tag : UInt8} {p : Ptr}
    (hptr : ptrOf tag = some p) (hrest : LoadsTo steps chunks (vm.point bases p) vm'') :
    LoadsTo (loadTag bases ptrOf :: steps) ([tag] :: chunks) vm vm'' := by
  refine .cons rfl ?_ hrest
  simp only [loadTag, List.getD_cons_zero, hptr, Option.map_some]

/-- The calls of a save, when the tags of the card are known. -/
def savedChunks (vm : Machine) (dr dw er ew : UInt8) : List (List UInt8) :=
  [softswitchBytes vm.softswitches, List.ofFn vm.appleIi64k, List.ofFn vm.languageCard,
    List.ofFn vm.languageBanks, [bankTag (vm.base .ramrd)], [bankTag (vm.base .ramwrt)],
    [bankTag (vm.base .textrd)], [bankTag (vm.base .textwrt)], [bankTag (vm.base .hgrrd)],
    [bankTag (vm.base .hgrwrt)], [bankTag (vm.base .stackzp)], [romTag (vm.base .c3rom)],
    [romTag (vm.base .cxrom)], [dr], [dw], [er], [ew]]

theorem MachineOk.loads {vm : Machine} (h : MachineOk vm) (start : Machine) :
    ∃ chunks, saveSteps vm = chunks.map some ∧
      LoadsTo loadSteps chunks start (restored vm start) := by
  obtain ⟨dr, hdr, hdrLoad⟩ := d000OfTag_tag (Or.inl rfl) h.d000Rd
  obtain ⟨dw, hdw, hdwLoad⟩ := d000OfTag_tag (Or.inr rfl) h.d000Wrt
  obtain ⟨er, her, herLoad⟩ := e000OfTag_tag (Or.inl rfl) h.e000Rd
  obtain ⟨ew, hew, hewLoad⟩ := e000OfTag_tag (Or.inr rfl) h.e000Wrt
  refine ⟨savedChunks vm dr dw er ew, ?_, ?_⟩
  · unfold saveSteps
    rw [hdr, hdw, her, hew]
    rfl
  · unfold loadSteps savedChunks
    refine .cons rfl rfl (.cons List.length_ofFn rfl (.cons List.length_ofFn rfl
      (.cons List.length_ofFn rfl ?_)))
    -- the pointers in the order of the file
    refine loadsTo_tag rfl (loadsTo_tag rfl (loadsTo_tag rfl (loadsTo_tag rfl (loadsTo_tag rfl
      (loadsTo_tag rfl (loadsTo_tag rfl (loadsTo_tag rfl (loadsTo_tag rfl ?_))))))))
    refine loadsTo_tag hdrLoad (loadsTo_tag hdwLoad (loadsTo_tag herLoad (loadsTo_tag hewLoad ?_)))
    apply loadsTo_nil
    simp only [Machine.point, restored, Machine.mk.injEq]
    refine ⟨softswitchesOf_bytes _, ?_, trivial, trivial, arrayOf_ofFn _, arrayOf_ofFn _,
      arrayOf_ofFn _⟩
    funext base
    cases base <;>
      simp [h.map.baseRamrd, h.map.baseRamwrt, h.map.baseTextrd, h.map.baseTextwrt,
        h.map.baseHgrrd, h.map.baseHgrwrt, h.map.baseStackzp, h.roms.c3rom, h.roms.c4rom,
        h.roms.c5rom, h.roms.cxrom]

/-- What a save and a load of a reachable machine do, wherever the load starts from. -/
theorem MachineOk.save_load {vm : Machine} (h : MachineOk vm) : ∃ bytes : List UInt8,
    (∀ helper, ∃ helper' saved, vmSaveState helper vm = some (helper', saved) ∧
      (saved = true → helper'.file = helper.file ++ bytes)) ∧
    ∀ start rest, vmLoadState start (bytes ++ rest) = some (restored vm start, rest, true) := by
  obtain ⟨chunks, hsave, -⟩ := h.loads vm
  refine ⟨chunks.flatten, fun helper => ?_, fun start rest => ?_⟩
  · refine ⟨_, _, ?_, fun hsaved => helper.saveAll_ok chunks hsaved⟩
    rw [vmSaveState, hsave, saveEach_some]
  · obtain ⟨chunks', hsave', hloads⟩ := h.loads start
    have hsame : chunks' = chunks := by
      rw [hsave] at hsave'
      exact (List.map_injective_iff.mpr (Option.some_injective _) hsave').symm
    rw [hsame] at hloads
    exact hloads.loadEach rest

/-- A host that takes every byte it is given has the whole machine. -/
theorem MachineOk.save_room {vm : Machine} (h : MachineOk vm) {helper : StateHelper}
    (hroom : helper.TakesAll) : ∃ helper', vmSaveState helper vm = some (helper', true) := by
  obtain ⟨chunks, hsave, -⟩ := h.loads vm
  have hall : (helper.saveAll chunks).2 = true := helper.saveAll_room hroom chunks
  refine ⟨(helper.saveAll chunks).1, ?_⟩
  rw [vmSaveState, hsave, saveEach_some, ← hall]

/-- **Save and load.** No assertion fails for a reachable machine. The save is complete unless the
host does not take all bytes, and then has added to the file the bytes that a load takes, and
restores the machine from. -/
theorem save_state_round_trip (vm : Machine) (ops : List Op) : ∃ bytes : List UInt8,
    (∀ helper : StateHelper, ∃ helper' saved,
      vmSaveState helper (runFrom vm ops) = some (helper', saved) ∧
        (saved = true → helper'.file = helper.file ++ bytes) ∧
        (helper.TakesAll → saved = true)) ∧
    ∀ start rest, vmLoadState start (bytes ++ rest) =
      some (restored (runFrom vm ops) start, rest, true) := by
  have hok := runFrom_ok vm ops
  obtain ⟨bytes, hsaves, hloads⟩ := hok.save_load
  refine ⟨bytes, fun helper => ?_, hloads⟩
  obtain ⟨helper', saved, hsave, hbytes⟩ := hsaves helper
  refine ⟨helper', saved, hsave, hbytes, fun hroom => ?_⟩
  obtain ⟨helper'', hcomplete⟩ := hok.save_room hroom
  rw [hsave, Option.some.injEq, Prod.mk.injEq] at hcomplete
  exact hcomplete.2

end Apple2ix.Vm
