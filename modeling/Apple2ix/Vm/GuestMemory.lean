import Apple2ix.Vm.RomDispatch

/-! Guest loads, and what one reads right after a guest store to the same address. -/
namespace Apple2ix.Vm
open Switch Loops
set_option autoImplicit false

/-! ## The handlers of `cpu65_vmem_r` -/

inductive LoadHandler
  | iieReadRamDefault
  | iieReadRamZpageAndStack
  | iieReadRamTextPage0
  | iieReadRamHiresPage0
  | readRamBank
  | readRamLc
  | readSoftswitch
  | iieReadSlotx
  | iieReadSlot3
  | iieReadSlot4
  | iieReadSlot5
  | iieReadSlotExpansion
  deriving DecidableEq, Repr

/-- `GLUE_BANK_READ`. -/
def glueBankRead (pointer : Base) (vm : Machine) (ea : UInt16) : Access :=
  ⟨vm, [], vm.load (vm.base pointer) ea⟩

/-- The byte of a slot rom; `card` answers for `iie_read_peripheral_card`. -/
def SlotRead.access (card : UInt16 → UInt8) (vm : Machine) (ea : UInt16) : SlotRead → Access
  | call _ => ⟨vm, [], card ea⟩
  | data pointer => ⟨vm, [], vm.load pointer ea⟩

def iieReadSlotExpansion (bus : Bus) (vm : Machine) (ea : UInt16) : Access :=
  if ea = 0xCFFF then ⟨vm, [], floatingBus bus vm⟩ else ⟨vm, [], vm.load (Ptr.appleIi64k 1) ea⟩

def LoadHandler.run (bus : Bus) (card : UInt16 → UInt8) (vm : Machine) (ea : UInt16) :
    LoadHandler → Access
  | iieReadRamDefault => glueBankRead .ramrd vm ea
  | iieReadRamZpageAndStack => glueBankRead .stackzp vm ea
  | iieReadRamTextPage0 => glueBankRead .textrd vm ea
  | iieReadRamHiresPage0 => glueBankRead .hgrrd vm ea
  | readRamBank => glueBankRead .d000Rd vm ea
  | readRamLc => glueBankRead .e000Rd vm ea
  | readSoftswitch => Vm.readSoftswitch bus vm ea
  | iieReadSlotx => (Vm.iieReadSlotx vm).access card vm ea
  | iieReadSlot3 => (Vm.iieReadSlot3 vm).access card vm ea
  | iieReadSlot4 => (Vm.iieReadSlot4 vm).access card vm ea
  | iieReadSlot5 => (Vm.iieReadSlot5 vm).access card vm ea
  | iieReadSlotExpansion => Vm.iieReadSlotExpansion bus vm ea

/-- `cpu65_vmem_r`, by page. -/
abbrev LoadTable := ℕ → LoadHandler

/-- A loop over the pages `start`, …, `start + n - 1`. -/
def readPages (start n : ℕ) (handler : LoadHandler) (table : LoadTable) : LoadTable :=
  forUp n (fun i table => Function.update table (start + i) handler) table

/-- `cpu65_vmem_r` after `_initialize_tables`. -/
def cpu65VmemR : LoadTable :=
  let table : LoadTable := fun _ => .iieReadRamDefault
  let table := readPages 0xD0 0x10 .readRamBank table
  let table := readPages 0xE0 0x20 .readRamLc table
  let table := Function.update table 0 .iieReadRamZpageAndStack
  let table := Function.update table 1 .iieReadRamZpageAndStack
  let table := Function.update table 4 .iieReadRamTextPage0
  let table := Function.update table 5 .iieReadRamTextPage0
  let table := Function.update table 6 .iieReadRamTextPage0
  let table := Function.update table 7 .iieReadRamTextPage0
  let table := readPages 0x20 0x20 .iieReadRamHiresPage0 table
  let table := Function.update table 0xC0 .readSoftswitch
  let table := Function.update table 0xC1 .iieReadSlotx
  let table := Function.update table 0xC2 .iieReadSlotx
  let table := Function.update table 0xC3 .iieReadSlot3
  let table := Function.update table 0xC4 .iieReadSlot4
  let table := Function.update table 0xC5 .iieReadSlot5
  let table := Function.update table 0xC6 .iieReadSlotx
  let table := Function.update table 0xC7 .iieReadSlotx
  readPages 0xC8 8 .iieReadSlotExpansion table

/-! ## Guest accesses -/

def guestStore (bus : Bus) (vm : Machine) (ea : UInt16) (b : UInt8) : Machine :=
  ((cpu65VmemW (pageOf ea)).run bus vm ea b).vm

def guestLoad (bus : Bus) (card : UInt16 → UInt8) (vm : Machine) (ea : UInt16) : UInt8 :=
  ((cpu65VmemR (pageOf ea)).run bus card vm ea).byte

/-! ## What the accesses should do -/

/-- A byte of one of the three arrays. -/
abbrev Cell := Fin 0x20000 ⊕ Fin 0x4000 ⊕ Fin 0x4000

def Machine.byte (vm : Machine) : Cell → UInt8 :=
  Sum.elim vm.appleIi64k (Sum.elim vm.languageCard vm.languageBanks)

/-- Whether a page below C000 is in auxiliary memory. `ram` is the switch of the default bank, RAMRD
or RAMWRT. -/
def pageAux (vm : Machine) (page : ℕ) (ram : Switch) : Bool :=
  if page < 0x02 then vm.has ssAltzp
  else if 0x04 ≤ page ∧ page < 0x08 ∧ vm.has ss80store then vm.has ssPage2
  else if 0x20 ≤ page ∧ page < 0x40 ∧ vm.has ss80store ∧ vm.has ssHires then vm.has ssPage2
  else vm.has ram

/-- The switches select for reads what they select for writes. -/
def BanksAgree (vm : Machine) (page : ℕ) : Prop :=
  if page < 0xC0 then pageAux vm page ssRamrd = pageAux vm page ssRamwrt
  else vm.has ssLcram = true ∧ vm.has ssLcwrt = true

instance (vm : Machine) (page : ℕ) : Decidable (BanksAgree vm page) := by
  unfold BanksAgree
  infer_instance

/-- **Coherence** of a store with the load that follows it. -/
structure Coherent (bus : Bus) (card : UInt16 → UInt8) (vm : Machine) (ea : UInt16) (b : UInt8) :
    Prop where
  stored : pageOf ea < 0xC0 ∨ 0xD0 ≤ pageOf ea → guestLoad bus card (guestStore bus vm ea b) ea =
    if BanksAgree vm (pageOf ea) then b else guestLoad bus card vm ea
  one : pageOf ea ≠ 0xC0 → ∀ c c', (guestStore bus vm ea b).byte c ≠ vm.byte c →
    (guestStore bus vm ea b).byte c' ≠ vm.byte c' → c = c'
  slots : 0xC0 < pageOf ea → pageOf ea < 0xD0 → (guestStore bus vm ea b).byte = vm.byte
  readOnly : 0xD0 ≤ pageOf ea → vm.has ssLcwrt = false →
    (guestStore bus vm ea b).byte = vm.byte

/-! ## The tables -/

/-- The pointer a load goes through, unless it is of the slots. -/
def loadBase (page : ℕ) : Option Base :=
  if page < 0x02 then some .stackzp
  else if page < 0x04 then some .ramrd
  else if page < 0x08 then some .textrd
  else if page < 0x20 then some .ramrd
  else if page < 0x40 then some .hgrrd
  else if page < 0xC0 then some .ramrd
  else if page < 0xD0 then none
  else if page < 0xE0 then some .d000Rd
  else some .e000Rd

def storeBase (page : ℕ) : Option Base :=
  if page < 0x02 then some .stackzp
  else if page < 0x04 then some .ramwrt
  else if page < 0x08 then some .textwrt
  else if page < 0x20 then some .ramwrt
  else if page < 0x40 then some .hgrwrt
  else if page < 0xC0 then some .ramwrt
  else if page < 0xD0 then none
  else if page < 0xE0 then some .d000Wrt
  else some .e000Wrt

def LoadHandler.base : LoadHandler → Option Base
  | iieReadRamDefault => some .ramrd
  | iieReadRamZpageAndStack => some .stackzp
  | iieReadRamTextPage0 => some .textrd
  | iieReadRamHiresPage0 => some .hgrrd
  | readRamBank => some .d000Rd
  | readRamLc => some .e000Rd
  | _ => none

def StoreHandler.base : StoreHandler → Option Base
  | iieWriteRamDefault | videoWrite2eText1 | videoWrite2eText1Mixed | videoWrite2eHgr1
      | videoWrite2eHgr1Mixed => some .ramwrt
  | iieWriteRamZpageAndStack => some .stackzp
  | videoWrite2eText0 | videoWrite2eText0Mixed => some .textwrt
  | videoWrite2eHgr0 | videoWrite2eHgr0Mixed => some .hgrwrt
  | writeRamBank => some .d000Wrt
  | writeRamLc => some .e000Wrt
  | writeRamNop | writeSoftswitch | mbWrite => none

theorem pageOf_lt (ea : UInt16) : pageOf ea < 0x100 := by
  rw [pageOf, UInt16.toNat_shiftRight, Nat.shiftRight_eq_div_pow]
  exact Nat.div_lt_of_lt_mul ea.toNat_lt

theorem pageOf_eq (ea : UInt16) : pageOf ea = ea.toNat / 0x100 := by
  rw [pageOf, UInt16.toNat_shiftRight, Nat.shiftRight_eq_div_pow]
  rfl

theorem cpu65VmemR_base : ∀ page, page < 0x100 → (cpu65VmemR page).base = loadBase page := by
  decide +kernel

theorem cpu65VmemW_base (page : ℕ) (hpage : page < 0x100) :
    (cpu65VmemW page).base = storeBase page := by
  have hbase : ∀ page, page < 0x100 → (pageHandler page).base = storeBase page := by
    decide +kernel
  rw [cpu65VmemW_eq page hpage, hbase page hpage]

section Handlers
variable (bus : Bus) (card : UInt16 → UInt8) (vm : Machine) (ea : UInt16) (b : UInt8)

theorem LoadHandler.run_base {handler : LoadHandler} {base : Base}
    (hbase : handler.base = some base) :
    (handler.run bus card vm ea).byte = vm.load (vm.base base) ea := by
  cases handler <;> cases hbase <;> rfl

/-- A store through the null pointer is none. -/
theorem ite_store_null (p : Ptr) : (if p = Ptr.null then vm else vm.store p ea b) =
    vm.store p ea b := by
  split
  · next hnull =>
    rw [hnull]
    rfl
  · rfl

theorem StoreHandler.run_base {handler : StoreHandler} {base : Base}
    (hbase : handler.base = some base) :
    (handler.run bus vm ea b).vm = vm.store (vm.base base) ea b := by
  cases handler <;> cases hbase
  case writeRamBank | writeRamLc => exact ite_store_null vm ea b _
  all_goals rfl

theorem StoreHandler.run_none {handler : StoreHandler} (hbase : handler.base = none)
    (hne : handler ≠ .writeSoftswitch) : (handler.run bus vm ea b).vm = vm := by
  cases handler
  case writeRamNop | mbWrite => rfl
  case writeSoftswitch => exact absurd rfl hne
  all_goals cases hbase

theorem guestLoad_base {base : Base} (hbase : loadBase (pageOf ea) = some base) :
    guestLoad bus card vm ea = vm.load (vm.base base) ea :=
  LoadHandler.run_base bus card vm ea ((cpu65VmemR_base _ (pageOf_lt ea)).trans hbase)

theorem guestStore_base {base : Base} (hbase : storeBase (pageOf ea) = some base) :
    guestStore bus vm ea b = vm.store (vm.base base) ea b :=
  StoreHandler.run_base bus vm ea b ((cpu65VmemW_base _ (pageOf_lt ea)).trans hbase)

theorem guestStore_slots (hlo : 0xC0 < pageOf ea) (hhi : pageOf ea < 0xD0) :
    guestStore bus vm ea b = vm := by
  have hnone : ∀ page, page < 0x100 → 0xC0 < page → page < 0xD0 → storeBase page = none ∧
      pageHandler page ≠ .writeSoftswitch := by
    decide +kernel
  have h := hnone _ (pageOf_lt ea) hlo hhi
  refine StoreHandler.run_none bus vm ea b ((cpu65VmemW_base _ (pageOf_lt ea)).trans h.1) ?_
  rw [cpu65VmemW_eq _ (pageOf_lt ea)]
  exact h.2

end Handlers

/-! ## One store and one load -/

section Cells
variable {vm : Machine} {ea : UInt16} {b : UInt8}

theorem storeCell_eq {size : ℕ} {mem : Fin size → UInt8} {off : ℤ} {i : Fin size}
    (h : storeCell mem off b i ≠ mem i) : cell size off = some i := by
  unfold storeCell at h
  cases hcell : cell size off with
  | none =>
    simp only [hcell] at h
    exact absurd rfl h
  | some j =>
    simp only [hcell] at h
    by_cases hij : i = j
    · rw [hij]
    · rw [Function.update_of_ne hij] at h
      exact absurd rfl h

/-- A store changes at most one byte. -/
theorem store_one (p : Ptr) {c c' : Cell} (h : (vm.store p ea b).byte c ≠ vm.byte c)
    (h' : (vm.store p ea b).byte c' ≠ vm.byte c') : c = c' := by
  have hone : ∀ {size : ℕ} {mem : Fin size → UInt8} {off : ℤ} {i j : Fin size},
      storeCell mem off b i ≠ mem i → storeCell mem off b j ≠ mem j → i = j := by
    intro size mem off i j hi hj
    exact Option.some.inj ((storeCell_eq hi).symm.trans (storeCell_eq hj))
  unfold Machine.store at h h'
  cases hobj : p.obj <;> simp only [hobj] at h h'
  case null | iieReadPeripheralCard => exact absurd rfl h
  case appleIi64k =>
    obtain i | i | i := c <;> obtain j | j | j := c'
    case inl.inl => exact congrArg _ (hone h h')
    all_goals first | exact absurd rfl h | exact absurd rfl h'
  case languageCard =>
    obtain i | i | i := c <;> obtain j | j | j := c'
    case inr.inl.inr.inl => exact congrArg _ (congrArg _ (hone h h'))
    all_goals first | exact absurd rfl h | exact absurd rfl h'
  case languageBanks =>
    obtain i | i | i := c <;> obtain j | j | j := c'
    case inr.inr.inr.inr => exact congrArg _ (congrArg _ (hone h h'))
    all_goals first | exact absurd rfl h | exact absurd rfl h'

/-- RAM of the card is not the rom. -/
theorem load_store_rom {p : Ptr} (h : p.obj ≠ .appleIi64k) :
    (vm.store p ea b).load (Ptr.appleIi64k 0) ea = vm.load (Ptr.appleIi64k 0) ea := by
  unfold Machine.store
  cases hobj : p.obj with
  | appleIi64k => exact absurd hobj h
  | null | languageCard | languageBanks | iieReadPeripheralCard => rfl

theorem d000Ram_eq (bank2 altzp : Bool) : d000Ram bank2 altzp =
    ⟨.languageBanks, (if altzp then 0x2000 else 0) - (if bank2 then 0xD000 else 0xC000)⟩ := by
  cases bank2 <;> cases altzp <;> rfl

theorem e000Ram_eq (altzp : Bool) : e000Ram altzp =
    ⟨.languageCard, if altzp then -0xC000 else -0xE000⟩ := by
  cases altzp <;> rfl

theorem load_store_d000 (bank2 altzp : Bool) (hlo : 0xD000 ≤ ea.toNat) (hhi : ea.toNat < 0xE000) :
    (vm.store (d000Ram bank2 altzp) ea b).load (d000Ram bank2 altzp) ea = b := by
  rw [d000Ram_eq]
  refine loadCell_storeCell _ ?_ ?_ <;> dsimp only <;> split_ifs <;> omega

theorem load_store_e000 (altzp : Bool) (hlo : 0xE000 ≤ ea.toNat) :
    (vm.store (e000Ram altzp) ea b).load (e000Ram altzp) ea = b := by
  have hea := ea.toNat_lt
  rw [e000Ram_eq]
  refine loadCell_storeCell _ ?_ ?_ <;> dsimp only <;> split_ifs <;> omega

end Cells

/-! ## Below C000 -/

section Below
variable {vm : Machine} {page : ℕ} (ram : Switch)

theorem pageAux_zpage (hpage : page < 0x02) : pageAux vm page ram = vm.has ssAltzp := if_pos hpage

theorem pageAux_text (hlo : 0x04 ≤ page) (hhi : page < 0x08) : pageAux vm page ram =
    (vm.has ssPage2 && vm.has ss80store || vm.has ram && !vm.has ss80store) := by
  have hz : ¬ page < 0x02 := by omega
  have hhgr : ¬ 0x20 ≤ page := by omega
  simp only [pageAux, if_neg hz, hlo, hhi, true_and, hhgr, false_and, if_false]
  cases vm.has ss80store <;> simp

theorem pageAux_hgr (hlo : 0x20 ≤ page) (hhi : page < 0x40) : pageAux vm page ram =
    (vm.has ssPage2 && vm.has ss80store && vm.has ssHires ||
      vm.has ram && !(vm.has ss80store && vm.has ssHires)) := by
  have hz : ¬ page < 0x02 := by omega
  have htext : ¬ page < 0x08 := by omega
  simp only [pageAux, if_neg hz, hlo, hhi, true_and, htext, false_and, and_false, if_false]
  cases vm.has ss80store <;> cases vm.has ssHires <;> simp

theorem pageAux_ram (hz : ¬ page < 0x02) (htext : ¬ (0x04 ≤ page ∧ page < 0x08))
    (hhgr : ¬ (0x20 ≤ page ∧ page < 0x40)) : pageAux vm page ram = vm.has ram := by
  rw [pageAux, if_neg hz, if_neg fun h => htext ⟨h.1, h.2.1⟩,
    if_neg fun h => hhgr ⟨h.1, h.2.1⟩]

/-- The pointers of a page are the ones its switches select. -/
theorem page_bases (h : MemoryMapOk vm) (hpage : page < 0xC0) : ∃ r w, loadBase page = some r ∧
    storeBase page = some w ∧ vm.base r = bankOf (pageAux vm page ssRamrd) ∧
      vm.base w = bankOf (pageAux vm page ssRamwrt) := by
  have hlt : ∀ n, page < n ∨ ¬ page < n := fun n => lt_or_ge page n |>.imp_right not_lt.mpr
  by_cases hz : page < 0x02
  · refine ⟨.stackzp, .stackzp, if_pos hz, if_pos hz, ?_, ?_⟩
    · rw [pageAux_zpage ssRamrd hz, h.baseStackzp]
    · rw [pageAux_zpage ssRamwrt hz, h.baseStackzp]
  by_cases htext : 0x04 ≤ page ∧ page < 0x08
  · have h4 : ¬ page < 0x04 := by omega
    refine ⟨.textrd, .textwrt, ?_, ?_, ?_, ?_⟩
    · simp only [loadBase, if_neg hz, if_neg h4, if_pos htext.2]
    · simp only [storeBase, if_neg hz, if_neg h4, if_pos htext.2]
    · rw [pageAux_text ssRamrd htext.1 htext.2, h.baseTextrd, h.textrd]
    · rw [pageAux_text ssRamwrt htext.1 htext.2, h.baseTextwrt, h.textwrt]
  by_cases hhgr : 0x20 ≤ page ∧ page < 0x40
  · have h4 : ¬ page < 0x04 := by omega
    have h8 : ¬ page < 0x08 := by omega
    have h20 : ¬ page < 0x20 := by omega
    refine ⟨.hgrrd, .hgrwrt, ?_, ?_, ?_, ?_⟩
    · simp only [loadBase, if_neg hz, if_neg h4, if_neg h8, if_neg h20, if_pos hhgr.2]
    · simp only [storeBase, if_neg hz, if_neg h4, if_neg h8, if_neg h20, if_pos hhgr.2]
    · rw [pageAux_hgr ssRamrd hhgr.1 hhgr.2, h.baseHgrrd, h.hgrrd]
    · rw [pageAux_hgr ssRamwrt hhgr.1 hhgr.2, h.baseHgrwrt, h.hgrwrt]
  · refine ⟨.ramrd, .ramwrt, ?_, ?_, ?_, ?_⟩
    · simp only [loadBase]
      split_ifs <;> first | rfl | omega
    · simp only [storeBase]
      split_ifs <;> first | rfl | omega
    · rw [pageAux_ram ssRamrd hz htext hhgr, h.baseRamrd]
    · rw [pageAux_ram ssRamwrt hz htext hhgr, h.baseRamwrt]

end Below

/-! ## One access -/

section Access
variable {vm : Machine} (h : MachineOk vm) (bus : Bus) (card : UInt16 → UInt8) (ea : UInt16)
  (b : UInt8)
include h

theorem coherent_below (hpage : pageOf ea < 0xC0) :
    guestLoad bus card (guestStore bus vm ea b) ea =
      if BanksAgree vm (pageOf ea) then b else guestLoad bus card vm ea := by
  obtain ⟨r, w, hr, hw, hbaseR, hbaseW⟩ := page_bases h.map hpage
  obtain ⟨mem, lc, banks, hframe⟩ := store_frame vm (vm.base w) ea b
  have hsame : (vm.store (vm.base w) ea b).base r = vm.base r := by
    rw [hframe]
  rw [guestStore_base bus vm ea b hw, guestLoad_base bus card _ ea hr,
    guestLoad_base bus card vm ea hr, hsame, hbaseR, hbaseW, load_store_bank]
  simp only [BanksAgree, if_pos hpage]

/-- From D000 on, where LCWRT is as the write pointers are. -/
theorem coherent_card (hwrites : WriteMapOk vm) (hpage : 0xD0 ≤ pageOf ea) :
    guestLoad bus card (guestStore bus vm ea b) ea =
        (if BanksAgree vm (pageOf ea) then b else guestLoad bus card vm ea) ∧
      (vm.has ssLcwrt = false → guestStore bus vm ea b = vm) := by
  have hagree : BanksAgree vm (pageOf ea) ↔ vm.has ssLcram = true ∧ vm.has ssLcwrt = true := by
    rw [BanksAgree, if_neg (by omega)]
  obtain ⟨r, w, ramPtr, hr, hw, hrd, hwrt, hself, hobj⟩ : ∃ r w p, loadBase (pageOf ea) = some r ∧
      storeBase (pageOf ea) = some w ∧
      vm.base r = (if vm.has ssLcram then p else Ptr.appleIi64k 0) ∧
      vm.base w = (if vm.has ssLcwrt then p else Ptr.null) ∧
      (vm.store p ea b).load p ea = b ∧ p.obj ≠ .appleIi64k := by
    rw [pageOf_eq] at hpage ⊢
    by_cases hd000 : ea.toNat / 0x100 < 0xE0
    · refine ⟨.d000Rd, .d000Wrt, d000Ram (vm.has ssBank2) (vm.has ssAltzp), ?_, ?_,
        h.reads.d000, hwrites.d000, load_store_d000 _ _ (by omega) (by omega), ?_⟩
      · simp only [loadBase]
        split_ifs <;> first | rfl | omega
      · simp only [storeBase]
        split_ifs <;> first | rfl | omega
      · rw [d000Ram_eq]
        nofun
    · refine ⟨.e000Rd, .e000Wrt, e000Ram (vm.has ssAltzp), ?_, ?_, h.reads.e000, hwrites.e000,
        load_store_e000 _ (by omega), ?_⟩
      · simp only [loadBase]
        split_ifs <;> first | rfl | omega
      · simp only [storeBase]
        split_ifs <;> first | rfl | omega
      · rw [e000Ram_eq]
        nofun
  obtain ⟨mem, lc, banks, hframe⟩ := store_frame vm (vm.base w) ea b
  have hsame : (vm.store (vm.base w) ea b).base r = vm.base r := by
    rw [hframe]
  rw [guestStore_base bus vm ea b hw]
  refine ⟨?_, fun hlcwrt => ?_⟩
  · rw [guestLoad_base bus card _ ea hr, guestLoad_base bus card vm ea hr, hsame, hrd, hwrt]
    simp only [hagree]
    cases hlcwrt : vm.has ssLcwrt with
    | false =>
      simp only [Bool.false_eq_true, if_false, and_false]
      rfl
    | true =>
      cases hlcram : vm.has ssLcram with
      | false =>
        simp only [Bool.false_eq_true, if_false, if_true, false_and]
        exact load_store_rom hobj
      | true =>
        simp only [if_true, and_self]
        exact hself
  · rw [hwrt, hlcwrt]
    rfl

omit h in
theorem guestStore_one (vm : Machine) (hpage : pageOf ea ≠ 0xC0) {c c' : Cell}
    (hc : (guestStore bus vm ea b).byte c ≠ vm.byte c)
    (hc' : (guestStore bus vm ea b).byte c' ≠ vm.byte c') : c = c' := by
  by_cases hslots : 0xC0 < pageOf ea ∧ pageOf ea < 0xD0
  · rw [guestStore_slots bus vm ea b hslots.1 hslots.2] at hc
    exact absurd rfl hc
  · obtain ⟨w, hw⟩ : ∃ w, storeBase (pageOf ea) = some w := by
      simp only [storeBase]
      split_ifs <;> first | exact ⟨_, rfl⟩ | omega
    rw [guestStore_base bus vm ea b hw] at hc hc'
    exact store_one _ hc hc'

theorem coherent (hwrites : 0xD0 ≤ pageOf ea → WriteMapOk vm) : Coherent bus card vm ea b := by
  refine ⟨fun hpage => ?_, fun hpage c c' hc hc' => guestStore_one bus ea b vm hpage hc hc',
    fun hlo hhi => ?_, fun hpage hlcwrt => ?_⟩
  · obtain hlt | hge := hpage
    · exact coherent_below h bus card ea b hlt
    · exact (coherent_card h bus card ea b (hwrites hge) hge).1
  · rw [guestStore_slots bus vm ea b hlo hhi]
  · rw [(coherent_card h bus card ea b (hwrites hpage) hpage).2 hlcwrt]

end Access

/-! ## Where LCWRT is clear and the write pointers are not -/

theorem load_congr {vm vm' : Machine} (h : vm'.byte = vm.byte) (p : Ptr) (ea : UInt16) :
    vm'.load p ea = vm.load p ea := by
  have h64k : vm'.appleIi64k = vm.appleIi64k := funext fun i => congrFun h (.inl i)
  have hcard : vm'.languageCard = vm.languageCard := funext fun i => congrFun h (.inr (.inl i))
  have hbanks : vm'.languageBanks = vm.languageBanks := funext fun i => congrFun h (.inr (.inr i))
  unfold Machine.load
  rw [h64k, hcard, hbanks]

/-- The store reaches the card. -/
theorem unsettled_stores {vm : Machine} (h : WritesUnsettled vm) (bus : Bus) (ea : UInt16)
    (hpage : 0xD0 ≤ pageOf ea) : ∃ p, ∀ b, (guestStore bus vm ea b).load p ea = b := by
  have hea : 0xD000 ≤ ea.toNat := by
    rw [pageOf_eq] at hpage
    omega
  by_cases hd000 : ea.toNat < 0xE000
  · have hw : storeBase (pageOf ea) = some .d000Wrt := by
      rw [pageOf_eq]
      simp only [storeBase]
      split_ifs <;> first | rfl | omega
    refine ⟨d000Ram true false, fun b => ?_⟩
    rw [guestStore_base bus vm ea b hw, h.d000]
    exact load_store_d000 true false hea hd000
  · have hw : storeBase (pageOf ea) = some .e000Wrt := by
      rw [pageOf_eq]
      simp only [storeBase]
      split_ifs <;> first | rfl | omega
    refine ⟨e000Ram false, fun b => ?_⟩
    rw [guestStore_base bus vm ea b hw, h.e000]
    exact load_store_e000 false (by omega)

theorem unsettled_incoherent {vm : Machine} (h : WritesUnsettled vm)
    (hlcwrt : vm.has ssLcwrt = false)
    (bus : Bus) (card : UInt16 → UInt8) (ea : UInt16) (hpage : 0xD0 ≤ pageOf ea) :
    ∃ b, ¬ Coherent bus card vm ea b := by
  obtain ⟨p, hp⟩ := unsettled_stores h bus ea hpage
  refine ⟨vm.load p ea + 1, fun hcoherent => ?_⟩
  have hload := load_congr (hcoherent.readOnly hpage hlcwrt) p ea
  rw [hp] at hload
  exact absurd hload (by simp)

/-! ## Runs -/

/-- **Main.** After every run from `vm_initialize` guest memory is coherent at an address exactly
when the address is below the language card, or the card's write pointers are settled. -/
theorem guest_memory_coherent (start : Machine) (ops : List Op) (ea : UInt16) :
    (∀ bus card b, Coherent bus card (runFrom start ops) ea b) ↔
      pageOf ea < 0xD0 ∨ Settled ops := by
  constructor
  · intro hcoherent
    by_contra hnot
    obtain ⟨hpage, hsettled⟩ := not_or.mp hnot
    have hlcwrt : (runFrom start ops).has ssLcwrt = false :=
      congrArg Prod.snd (unsettled_latch start hsettled)
    obtain ⟨b, hb⟩ := unsettled_incoherent ((runFrom_tracked start ops).unsettled hsettled) hlcwrt
      Bus.quiet (fun _ => 0) ea (not_lt.mp hpage)
    exact hb (hcoherent Bus.quiet (fun _ => 0) b)
  · intro hor bus card b
    refine coherent (runFrom_ok start ops) bus card ea b fun hpage => ?_
    obtain hlt | hsettled := hor
    · omega
    · exact (runFrom_tracked start ops).settled hsettled

/-- Right after `vm_initialize` LCWRT is clear, and a store to D000 changes the card. -/
theorem guest_store_protected : ¬ ∀ (start : Machine) (ops : List Op) (ea : UInt16) (bus : Bus)
    (card : UInt16 → UInt8) (b : UInt8), Coherent bus card (runFrom start ops) ea b := by
  intro h
  have hlcwrt : (runFrom Machine.blank []).has ssLcwrt = false :=
    initializeIieSwitches_has Machine.blank ssLcwrt
  have hunsettled : WritesUnsettled (runFrom Machine.blank []) := ⟨rfl, rfl⟩
  obtain ⟨b, hb⟩ := unsettled_incoherent hunsettled hlcwrt Bus.quiet (fun _ => 0) 0xD000 (by decide)
  exact hb (h Machine.blank [] 0xD000 Bus.quiet (fun _ => 0) b)

end Apple2ix.Vm
