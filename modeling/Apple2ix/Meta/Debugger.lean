import Apple2ix.Vm.GuestMemory

/-! The debugger's view of memory: `get_current_opcode`, `dump_mem` and `disasm` work out the bank
from the switches, where the CPU reads through the bank pointers. -/
namespace Apple2ix.Meta
open Vm Switch
set_option autoImplicit false

/-! ## The arrays -/

def appleIi64k (vm : Machine) (bank : ℕ) (i : ℤ) : UInt8 :=
  loadCell vm.appleIi64k (0x10000 * bank + i)
def languageCard (vm : Machine) (bank : ℕ) (i : ℤ) : UInt8 :=
  loadCell vm.languageCard (0x2000 * bank + i)
def languageBanks (vm : Machine) (bank : ℕ) (i : ℤ) : UInt8 :=
  loadCell vm.languageBanks (0x2000 * bank + i)

/-! ## The opcode -/

def cGetCurrentRambank (vm : Machine) (addrs : ℤ) : ℕ :=
  if addrs ≥ 0x200 ∧ addrs < 0xD000 then
    if addrs ≥ 0xC100 ∧ addrs < 0xD000 then
      if addrs ≥ 0xC800 ∧ addrs < 0xD000 then 1
      else if vm.has ssCxrom then 1
      else if addrs ≥ 0xC300 ∧ addrs < 0xC400 then (vm.has ssC3rom).toNat
      else 0
    else if addrs ≥ 0x400 ∧ addrs < 0x800 then (vm.has ssTextrd).toNat
    else if addrs ≥ 0x2000 ∧ addrs < 0x4000 then (vm.has ssHgrrd).toNat
    else (vm.has ssRamrd).toNat
  else (vm.has ssAltzp).toNat

def getCurrentOpcode (vm : Machine) (pc : UInt16) : UInt8 :=
  let pc : ℤ := pc.toNat
  let bank := cGetCurrentRambank vm pc
  if pc < 0xD000 then appleIi64k vm bank pc
  else if pc ≥ 0xE000 then
    if vm.has ssLcram then languageCard vm bank (pc - 0xE000) else appleIi64k vm bank pc
  else
    let lcbank := if vm.has ssBank2 then 0x1000 else 0
    if vm.has ssLcram then languageBanks vm bank (pc - 0xD000 + lcbank) else appleIi64k vm bank pc

/-! ## The listings -/

/-- What `dump_mem` and `disasm` make of their arguments: the bank, the language card if it is not
0, and the address to read at next to the one to show. -/
structure Listing where
  rambank : ℕ
  lc : ℤ
  addrs : ℤ
  origAddrs : ℤ

/-- How both begin. -/
def listing (vm : Machine) (pc : UInt16) (addrs lc rambank : ℤ) : Listing :=
  let rambank := if rambank = -1 then cGetCurrentRambank vm addrs else rambank.toNat
  -- read lc anyway
  let lc :=
    if lc = 0 ∧ vm.has ssLcram ∧ addrs ≥ 0xD000 then 1 + ((vm.has ssBank2).toNat : ℤ) else lc
  let addrs := if addrs < 0 ∨ addrs > 0xFFFF then (pc.toNat : ℤ) else addrs
  let origAddrs := addrs
  if lc ≠ 0 then
    let addrs := if addrs ≥ 0xD000 ∧ addrs ≤ 0xFFFF then addrs - 0xD000 else addrs
    let addrs := if addrs < 0 ∨ addrs > 0x2FFF then 0 else addrs
    ⟨rambank, lc, addrs, origAddrs⟩
  else ⟨rambank, lc, addrs, origAddrs⟩

namespace Listing

def stop (l : Listing) : ℤ := if l.lc ≠ 0 then 0x3000 else 0x10000

/-- `op`, at `j`. -/
def op (vm : Machine) (l : Listing) (j : ℤ) : UInt8 :=
  if l.lc ≠ 0 then
    if j ≥ 0x1000 then languageCard vm l.rambank (j - 0x1000)
    else if l.lc = 1 then languageBanks vm l.rambank j
    else languageBanks vm l.rambank (0x1000 + j)
  else appleIi64k vm l.rambank j

/-- `arg1`, `arg2`: the byte after `j`, in the array of the byte at `j`. -/
def arg (vm : Machine) (l : Listing) (j : ℤ) : UInt8 :=
  if l.lc ≠ 0 then
    if j ≥ 0x1000 then languageCard vm l.rambank (j + 1 - 0x1000)
    else if l.lc = 1 then languageBanks vm l.rambank (j + 1)
    else languageBanks vm l.rambank (j + 1 + 0x1000)
  else appleIi64k vm l.rambank (j + 1)

end Listing

/-- The bytes `dump_mem` shows, each with its address. -/
def dumpMem (vm : Machine) (pc : UInt16) (addrs len lc : ℤ) (doAscii : Bool) (rambank : ℤ) :
    List (ℤ × UInt8) :=
  let l := listing vm pc addrs lc rambank
  let len := if len < 1 ∨ len > 256 then 256 else len
  let len := if doAscii ∧ len > 128 then 128 else len
  (List.range (min len (l.stop - l.addrs)).toNat).map fun j =>
    (l.origAddrs + j, l.op vm (l.addrs + j))

/-- `addressing_mode_t`. -/
inductive AddressingMode
  | implied
  | accumulator
  | immediate
  | zeropage
  | zeropageX
  | zeropageY
  | absolute
  | absoluteX
  | absoluteY
  | indirect
  | indirectX
  | indirectY
  | jIndirect
  | jIndirectX
  | relative
  deriving DecidableEq, Repr

/-- The bytes of an instruction. -/
def AddressingMode.size : AddressingMode → ℕ
  | implied | accumulator => 1
  | immediate | zeropage | zeropageX | zeropageY | indirect | indirectX | indirectY | relative => 2
  | absolute | absoluteX | absoluteY | jIndirect | jIndirectX => 3

/-- A line of `disasm`; the mnemonic and the operand are formatted from its bytes. -/
structure DisasmLine where
  rambank : ℕ
  address : ℤ
  bytes : List UInt8

/-- The loop of `disasm`, for the `n` lines that are left; the opcode table is `mode`. -/
def disasmLines (vm : Machine) (mode : UInt8 → AddressingMode) (l : Listing) :
    ℕ → ℤ → ℤ → List DisasmLine
  | 0, _, _ => []
  | n + 1, j, k =>
    if j < l.stop then
      let op := l.op vm j
      match mode op with
      | .implied | .accumulator => ⟨l.rambank, k, [op]⟩ :: disasmLines vm mode l n (j + 1) (k + 1)
      | .immediate | .zeropage | .zeropageX | .zeropageY | .indirect | .indirectX | .indirectY
        | .relative =>
        if k = 0xFFFF then []
        else ⟨l.rambank, k, [op, l.arg vm j]⟩ :: disasmLines vm mode l n (j + 2) (k + 2)
      | .absolute | .absoluteX | .absoluteY | .jIndirect | .jIndirectX =>
        if k ≥ 0xFFFE then []
        else ⟨l.rambank, k, [op, l.arg vm j, l.arg vm (j + 1)]⟩ ::
          disasmLines vm mode l n (j + 3) (k + 3)
    else []

/-- `BUF_Y`. -/
def bufY : ℤ := 22

/-- The lines `disasm` goes through. -/
def disasmRoom (numBufferLines len : ℤ) : ℕ :=
  let len := if len > bufY - 2 then bufY - 2 - numBufferLines else len
  (len - numBufferLines).toNat

def disasm (vm : Machine) (pc : UInt16) (mode : UInt8 → AddressingMode) (numBufferLines : ℤ)
    (addrs len lc rambank : ℤ) : List DisasmLine :=
  let l := listing vm pc addrs lc rambank
  disasmLines vm mode l (disasmRoom numBufferLines len) l.addrs l.origAddrs

/-! ## What they show of the address they are given -/

section First
variable (vm : Machine) (pc : UInt16)

/-- The listing of an address that is not read from the card. -/
theorem listing_ram (h : (pc.toNat : ℤ) < 0xD000 ∨ vm.has ssLcram = false) :
    listing vm pc pc.toNat 0 (-1) = ⟨cGetCurrentRambank vm pc.toNat, 0, pc.toNat, pc.toNat⟩ := by
  have hpc := pc.toNat_lt
  have hlc : ¬ (vm.has ssLcram = true ∧ (pc.toNat : ℤ) ≥ 0xD000) := by
    rintro ⟨hlcram, hge⟩
    obtain hlt | hoff := h
    · omega
    · rw [hoff] at hlcram
      cases hlcram
  have hvalid : ¬ ((pc.toNat : ℤ) < 0 ∨ (pc.toNat : ℤ) > 0xFFFF) := by omega
  simp only [listing, if_true, true_and, if_neg hlc, if_neg hvalid, ne_eq, not_true_eq_false,
    if_false]

theorem listing_card (hpc : 0xD000 ≤ pc.toNat) (h : vm.has ssLcram = true) :
    listing vm pc pc.toNat 0 (-1) = ⟨cGetCurrentRambank vm pc.toNat, 1 + (vm.has ssBank2).toNat,
      pc.toNat - 0xD000, pc.toNat⟩ := by
  have hlt := pc.toNat_lt
  have hlc : vm.has ssLcram = true ∧ (pc.toNat : ℤ) ≥ 0xD000 := ⟨h, by omega⟩
  have hvalid : ¬ ((pc.toNat : ℤ) < 0 ∨ (pc.toNat : ℤ) > 0xFFFF) := by omega
  have hcard : (pc.toNat : ℤ) ≥ 0xD000 ∧ (pc.toNat : ℤ) ≤ 0xFFFF := by omega
  have hinside : ¬ ((pc.toNat : ℤ) - 0xD000 < 0 ∨ (pc.toNat : ℤ) - 0xD000 > 0x2FFF) := by omega
  have hne : 1 + ((vm.has ssBank2).toNat : ℤ) ≠ 0 := by omega
  simp only [listing, if_true, true_and, if_pos hlc, if_neg hvalid, if_pos hne, if_pos hcard,
    if_neg hinside]

/-- Below the card, and with its RAM not read. -/
theorem getCurrentOpcode_ram (h : (pc.toNat : ℤ) < 0xD000 ∨ vm.has ssLcram = false) :
    getCurrentOpcode vm pc = appleIi64k vm (cGetCurrentRambank vm pc.toNat) pc.toNat := by
  unfold getCurrentOpcode
  dsimp only
  split
  · rfl
  · next hpc =>
    rw [h.resolve_left hpc, if_neg Bool.false_ne_true, if_neg Bool.false_ne_true, ite_self]

theorem getCurrentOpcode_card (hpc : 0xE000 ≤ pc.toNat) (h : vm.has ssLcram = true) :
    getCurrentOpcode vm pc =
      languageCard vm (cGetCurrentRambank vm pc.toNat) (pc.toNat - 0xE000) := by
  unfold getCurrentOpcode
  dsimp only
  rw [if_neg (by omega), if_pos (by omega), if_pos h]

/-- The second half of the banks is taken for BANK2. -/
theorem getCurrentOpcode_bank (hlo : 0xD000 ≤ pc.toNat) (hhi : pc.toNat < 0xE000)
    (h : vm.has ssLcram = true) : getCurrentOpcode vm pc =
      languageBanks vm (cGetCurrentRambank vm pc.toNat)
        (pc.toNat - 0xD000 + if vm.has ssBank2 then 0x1000 else 0) := by
  unfold getCurrentOpcode
  dsimp only
  rw [if_neg (by omega), if_neg (by omega), if_pos h]

theorem Listing.op_ram (rambank : ℕ) (addrs origAddrs j : ℤ) :
    Listing.op vm ⟨rambank, 0, addrs, origAddrs⟩ j = appleIi64k vm rambank j := by
  unfold Listing.op
  dsimp only
  rw [if_neg (not_not.mpr rfl)]

theorem Listing.op_card (rambank : ℕ) (bank2 : Bool) (addrs origAddrs j : ℤ) :
    Listing.op vm ⟨rambank, 1 + bank2.toNat, addrs, origAddrs⟩ j =
      if j ≥ 0x1000 then languageCard vm rambank (j - 0x1000)
      else languageBanks vm rambank (j + if bank2 then 0x1000 else 0) := by
  unfold Listing.op
  dsimp only
  rw [if_pos (by omega)]
  cases bank2 with
  | false => simp
  | true => simp [add_comm]

/-- What a listing of the address the PC is at starts from. -/
structure StartsAt (l : Listing) : Prop where
  op : l.op vm l.addrs = getCurrentOpcode vm pc
  address : l.origAddrs = pc.toNat
  left : l.stop - l.addrs = 0x10000 - pc.toNat

theorem listing_startsAt : StartsAt vm pc (listing vm pc pc.toNat 0 (-1)) := by
  by_cases hram : (pc.toNat : ℤ) < 0xD000 ∨ vm.has ssLcram = false
  · rw [listing_ram vm pc hram]
    refine ⟨?_, rfl, ?_⟩
    · rw [getCurrentOpcode_ram vm pc hram, Listing.op_ram]
    · unfold Listing.stop
      dsimp only
      rw [if_neg (not_not.mpr rfl)]
  · obtain ⟨hpc, hlcram⟩ := not_or.mp hram
    rw [Bool.not_eq_false] at hlcram
    rw [listing_card vm pc (by omega) hlcram]
    refine ⟨?_, rfl, ?_⟩
    · rw [Listing.op_card]
      by_cases hcard : 0xE000 ≤ pc.toNat
      · have hoff : (pc.toNat : ℤ) - 0xD000 - 0x1000 = pc.toNat - 0xE000 := by omega
        rw [getCurrentOpcode_card vm pc hcard hlcram, if_pos (by dsimp only; omega), hoff]
      · rw [getCurrentOpcode_bank vm pc (by omega) (by omega) hlcram, if_neg (by dsimp only; omega)]
    · unfold Listing.stop
      dsimp only
      rw [if_pos (by omega)]
      omega

/-- `dump_mem` starts with the byte `get_current_opcode` returns. -/
theorem dumpMem_head (len : ℤ) (doAscii : Bool) :
    (dumpMem vm pc pc.toNat len 0 doAscii (-1)).head? =
      some ((pc.toNat : ℤ), getCurrentOpcode vm pc) := by
  obtain ⟨hop, haddress, hleft⟩ := listing_startsAt vm pc
  have hpc := pc.toNat_lt
  unfold dumpMem
  generalize listing vm pc pc.toNat 0 (-1) = l at hop haddress hleft
  dsimp only
  have hpos :
      ∃ n, (min (if doAscii = true ∧ (if len < 1 ∨ len > 256 then 256 else len) > 128 then 128
      else if len < 1 ∨ len > 256 then 256 else len) (l.stop - l.addrs)).toNat = n + 1 := by
    refine Nat.exists_eq_add_one.mpr ?_
    rw [hleft]
    split_ifs <;> omega
  obtain ⟨n, hn⟩ := hpos
  rw [hn, List.range_succ_eq_map]
  simp [hop, haddress]

/-- The first line of the loop. -/
theorem disasmLines_shown (mode : UInt8 → AddressingMode) (l : Listing) (n : ℕ) {j k : ℤ}
    (hinside : j < l.stop) (hfits : k + (mode (l.op vm j)).size ≤ 0x10000) :
    ∃ line rest, disasmLines vm mode l (n + 1) j k = line :: rest ∧ line.address = k ∧
      line.bytes.head? = some (l.op vm j) := by
  rw [disasmLines, if_pos hinside]
  cases hmode : mode (l.op vm j) <;> simp only [hmode, AddressingMode.size] at hfits ⊢
  case implied | accumulator => exact ⟨_, _, rfl, rfl, rfl⟩
  all_goals
    rw [if_neg (by omega)]
    exact ⟨_, _, rfl, rfl, rfl⟩

/-- An instruction that would wrap ends the loop. -/
theorem disasmLines_wraps (mode : UInt8 → AddressingMode) (l : Listing) (n : ℕ) {j k : ℤ}
    (hinside : j < l.stop) (hk : k ≤ 0xFFFF)
    (hwraps : ¬ k + (mode (l.op vm j)).size ≤ 0x10000) :
    disasmLines vm mode l (n + 1) j k = [] := by
  rw [disasmLines, if_pos hinside]
  cases hmode : mode (l.op vm j) <;> simp only [hmode, AddressingMode.size] at hwraps ⊢
  case implied | accumulator => omega
  all_goals rw [if_pos (by omega)]

/-- So does `disasm`, unless it has no line left or the instruction would wrap. -/
theorem disasm_head (mode : UInt8 → AddressingMode) (numBufferLines len : ℤ) :
    (disasm vm pc mode numBufferLines pc.toNat len 0 (-1)).head?.map
        (fun line => (line.address, line.bytes.head?)) =
      if 0 < disasmRoom numBufferLines len ∧
          pc.toNat + (mode (getCurrentOpcode vm pc)).size ≤ 0x10000
      then some ((pc.toNat : ℤ), some (getCurrentOpcode vm pc)) else none := by
  obtain ⟨hop, haddress, hleft⟩ := listing_startsAt vm pc
  have hpc := pc.toNat_lt
  unfold disasm
  generalize listing vm pc pc.toNat 0 (-1) = l at hop haddress hleft
  dsimp only
  cases hroom : disasmRoom numBufferLines len with
  | zero => simp [disasmLines]
  | succ n =>
    have hinside : l.addrs < l.stop := by omega
    rw [haddress]
    by_cases hfits : pc.toNat + (mode (getCurrentOpcode vm pc)).size ≤ 0x10000
    · obtain ⟨line, rest, hlines, hline, hbyte⟩ := disasmLines_shown vm mode l n hinside
        (k := pc.toNat) (by rw [hop]; omega)
      rw [hlines, if_pos ⟨n.succ_pos, hfits⟩, List.head?_cons, Option.map_some, hline, hbyte, hop]
    · have hlines := disasmLines_wraps vm mode l n hinside (k := pc.toNat) (by omega)
        (by rw [hop]; omega)
      rw [hlines, if_neg fun h => hfits h.2]
      rfl

end First

/-! ## What the CPU reads -/

section Cpu
variable {vm : Machine} (h : MachineOk vm) (bus : Bus) (card : UInt16 → UInt8) {pc : UInt16}

theorem load_bankOf (aux : Bool) : vm.load (bankOf aux) pc = appleIi64k vm aux.toNat pc.toNat := by
  cases aux <;> rfl

include h

/-- The banks the debugger knows are the ones the pointers are for. -/
theorem cGetCurrentRambank_below (hpc : pc.toNat < 0xC000) :
    cGetCurrentRambank vm pc.toNat = (pageAux vm (pageOf pc) ssRamrd).toNat := by
  have hpage := pageOf_eq pc
  by_cases hz : pageOf pc < 0x02
  · rw [pageAux_zpage ssRamrd hz, cGetCurrentRambank, if_neg (by omega)]
  rw [cGetCurrentRambank, if_pos (by omega), if_neg (by omega)]
  by_cases htext : 0x04 ≤ pageOf pc ∧ pageOf pc < 0x08
  · rw [pageAux_text ssRamrd htext.1 htext.2, if_pos (by omega), h.map.textrd]
  by_cases hhgr : 0x20 ≤ pageOf pc ∧ pageOf pc < 0x40
  · rw [pageAux_hgr ssRamrd hhgr.1 hhgr.2, if_neg (by omega), if_pos (by omega), h.map.hgrrd]
  · rw [pageAux_ram ssRamrd hz htext hhgr, if_neg (by omega), if_neg (by omega)]

theorem guestLoad_below (hpc : pc.toNat < 0xC000) :
    guestLoad bus card vm pc = appleIi64k vm (cGetCurrentRambank vm pc.toNat) pc.toNat := by
  have hpage := pageOf_eq pc
  have hmapped : pageOf pc < 0xC0 := by omega
  obtain ⟨r, w, hr, -, hbase, -⟩ := page_bases h.map hmapped
  rw [guestLoad_base bus card vm pc hr, hbase, load_bankOf, cGetCurrentRambank_below h hpc]

theorem guestLoad_card (hpc : 0xE000 ≤ pc.toNat) : guestLoad bus card vm pc =
    if vm.has ssLcram then languageCard vm (vm.has ssAltzp).toNat (pc.toNat - 0xE000)
    else appleIi64k vm 0 pc.toNat := by
  have hpage := pageOf_eq pc
  have hbase : loadBase (pageOf pc) = some .e000Rd := by
    simp only [loadBase]
    split_ifs <;> first | rfl | omega
  rw [guestLoad_base bus card vm pc hbase, h.reads.e000]
  cases vm.has ssLcram with
  | false =>
    rw [if_neg Bool.false_ne_true, if_neg Bool.false_ne_true]
    exact load_bankOf false
  | true =>
    rw [if_pos rfl, if_pos rfl, e000Ram_eq]
    refine congrArg (loadCell vm.languageCard) ?_
    cases vm.has ssAltzp <;> simp only [Bool.toNat_true, Bool.toNat_false, if_true, if_false,
      Bool.false_eq_true] <;> omega

theorem guestLoad_bank (hlo : 0xD000 ≤ pc.toNat) (hhi : pc.toNat < 0xE000) :
    guestLoad bus card vm pc =
      if vm.has ssLcram then languageBanks vm (vm.has ssAltzp).toNat
        (pc.toNat - 0xD000 + if vm.has ssBank2 then 0 else 0x1000)
      else appleIi64k vm 0 pc.toNat := by
  have hpage := pageOf_eq pc
  have hbase : loadBase (pageOf pc) = some .d000Rd := by
    simp only [loadBase]
    split_ifs <;> first | rfl | omega
  rw [guestLoad_base bus card vm pc hbase, h.reads.d000]
  cases vm.has ssLcram with
  | false =>
    rw [if_neg Bool.false_ne_true, if_neg Bool.false_ne_true]
    exact load_bankOf false
  | true =>
    rw [if_pos rfl, if_pos rfl, d000Ram_eq]
    refine congrArg (loadCell vm.languageBanks) ?_
    cases vm.has ssAltzp <;> cases vm.has ssBank2 <;> simp only [Bool.toNat_true, Bool.toNat_false,
      if_true, if_false, Bool.false_eq_true] <;> omega

end Cpu

/-! ## The two views -/

/-- The debugger sees at `pc` what the CPU sees. -/
structure DebuggerAgrees (vm : Machine) (pc : UInt16) : Prop where
  opcode : ∀ bus card, getCurrentOpcode vm pc = guestLoad bus card vm pc
  dumpMem : ∀ bus card len doAscii, (dumpMem vm pc pc.toNat len 0 doAscii (-1)).head? =
    some ((pc.toNat : ℤ), guestLoad bus card vm pc)
  disasm : ∀ bus card mode numBufferLines len,
    (disasm vm pc mode numBufferLines pc.toNat len 0 (-1)).head?.map
        (fun line => (line.address, line.bytes.head?)) =
      if 0 < disasmRoom numBufferLines len ∧
          pc.toNat + (mode (guestLoad bus card vm pc)).size ≤ 0x10000
      then some ((pc.toNat : ℤ), some (guestLoad bus card vm pc)) else none

/-- From D000 on the debugger takes the other bank of the card, and the rom of the bank that ALTZP
selects. -/
def SameBytes (vm : Machine) (pc : UInt16) : Prop :=
  pc.toNat < 0xC000 ∨
    if vm.has ssLcram then
      0xE000 ≤ pc.toNat ∨ languageBanks vm (vm.has ssAltzp).toNat (pc.toNat - 0xD000 + 0x1000) =
        languageBanks vm (vm.has ssAltzp).toNat (pc.toNat - 0xD000)
    else vm.has ssAltzp = false ∨ appleIi64k vm 1 pc.toNat = appleIi64k vm 0 pc.toNat

section Views
variable {vm : Machine} (h : MachineOk vm) {pc : UInt16}

/-- All three listings hang on the opcode. -/
theorem debuggerAgrees_iff (bus : Bus) (card : UInt16 → UInt8)
    (hsame : ∀ bus' card', guestLoad bus' card' vm pc = guestLoad bus card vm pc) :
    DebuggerAgrees vm pc ↔ getCurrentOpcode vm pc = guestLoad bus card vm pc := by
  constructor
  · intro hagrees
    exact hagrees.opcode bus card
  · intro hopcode
    refine ⟨?_, ?_, ?_⟩
    · intro bus' card'
      rw [hsame, hopcode]
    · intro bus' card' len doAscii
      rw [dumpMem_head, hsame, hopcode]
    · intro bus' card' mode numBufferLines len
      rw [disasm_head, hsame, hopcode]

include h

theorem getCurrentOpcode_iff (bus : Bus) (card : UInt16 → UInt8)
    (hpc : pc.toNat < 0xC000 ∨ 0xD000 ≤ pc.toNat) :
    getCurrentOpcode vm pc = guestLoad bus card vm pc ↔ SameBytes vm pc := by
  obtain hlo | hhi := hpc
  · rw [getCurrentOpcode_ram vm pc (Or.inl (by omega)), guestLoad_below h bus card hlo]
    exact iff_of_true rfl (Or.inl hlo)
  have hnot : ¬ pc.toNat < 0xC000 := by omega
  have hbank : cGetCurrentRambank vm pc.toNat = (vm.has ssAltzp).toNat := by
    rw [cGetCurrentRambank, if_neg (by omega)]
  unfold SameBytes
  rw [or_iff_right hnot]
  cases hlcram : vm.has ssLcram with
  | false =>
    have hrom : guestLoad bus card vm pc = appleIi64k vm 0 pc.toNat := by
      by_cases hcard : 0xE000 ≤ pc.toNat
      · rw [guestLoad_card h bus card hcard, hlcram, if_neg Bool.false_ne_true]
      · rw [guestLoad_bank h bus card hhi (by omega), hlcram, if_neg Bool.false_ne_true]
    rw [getCurrentOpcode_ram vm pc (Or.inr hlcram), hrom, hbank, if_neg Bool.false_ne_true]
    cases vm.has ssAltzp with
    | false => exact iff_of_true rfl (Or.inl rfl)
    | true => exact (or_iff_right (by decide)).symm
  | true =>
    rw [if_pos rfl]
    by_cases hcard : 0xE000 ≤ pc.toNat
    · rw [getCurrentOpcode_card vm pc hcard hlcram, guestLoad_card h bus card hcard, hlcram, hbank]
      exact iff_of_true rfl (Or.inl hcard)
    · rw [getCurrentOpcode_bank vm pc hhi (by omega) hlcram,
        guestLoad_bank h bus card hhi (by omega),
        hlcram, hbank, or_iff_right hcard, if_pos rfl]
      cases vm.has ssBank2 with
      | false =>
        rw [if_neg Bool.false_ne_true, if_neg Bool.false_ne_true, add_zero]
        exact eq_comm
      | true => rw [if_pos rfl, if_pos rfl, add_zero]

end Views

/-- Any contents of memory. -/
def withMemory (vm : Machine) (mem : Fin 0x20000 → UInt8) (card banks : Fin 0x4000 → UInt8) :
    Machine :=
  { vm with appleIi64k := mem, languageCard := card, languageBanks := banks }

theorem withMemory_ok {vm : Machine} (h : MachineOk vm) (mem : Fin 0x20000 → UInt8)
    (card banks : Fin 0x4000 → UInt8) : MachineOk (withMemory vm mem card banks) := by
  have hsame : Changes [] [] vm (withMemory vm mem card banks) := ⟨fun _ _ => rfl, fun _ _ => rfl⟩
  refine ⟨h.map.frame hsame nofun nofun, h.reads.frame hsame nofun nofun, ⟨h.writes.armed, ?_⟩,
    h.roms.frame hsame nofun nofun⟩
  obtain hmap | ⟨hlcwrt, hd, he⟩ := h.writes.mapped
  · exact Or.inl (hmap.frame hsame nofun nofun)
  · exact Or.inr ⟨hlcwrt, hd, he⟩

/-- What the CPU reads outside of the slots depends on neither the bus nor the cards. -/
theorem guestLoad_same {vm : Machine} {pc : UInt16} (hpc : pc.toNat < 0xC000 ∨ 0xD000 ≤ pc.toNat)
    (bus bus' : Bus) (card card' : UInt16 → UInt8) :
    guestLoad bus card vm pc = guestLoad bus' card' vm pc := by
  have hpage := pageOf_eq pc
  have hbase : ∃ base, loadBase (pageOf pc) = some base := by
    simp only [loadBase]
    split_ifs <;> first | exact ⟨_, rfl⟩ | omega
  obtain ⟨base, hbase⟩ := hbase
  rw [guestLoad_base bus card vm pc hbase, guestLoad_base bus' card' vm pc hbase]

/-- **The debugger sees what the CPU sees** where the banks it takes for each other hold the same
byte. -/
theorem debugger_sees {vm : Machine} (h : Reachable vm) (mem : Fin 0x20000 → UInt8)
    (card banks : Fin 0x4000 → UInt8) (pc : UInt16) (hpc : pc.toNat < 0xC000 ∨ 0xD000 ≤ pc.toNat) :
    DebuggerAgrees (withMemory vm mem card banks) pc ↔
      SameBytes (withMemory vm mem card banks) pc := by
  rw [debuggerAgrees_iff Bus.quiet (fun _ => 0) fun bus' card' => guestLoad_same hpc bus' _ card' _]
  exact getCurrentOpcode_iff (withMemory_ok h.ok mem card banks) Bus.quiet _ hpc

/-- In the RAM of the language card, which a read of C080 has switched on. -/
theorem debugger_sees_card :
    let vm := withMemory (step (initializeIieSwitches Machine.blank) (.read Bus.quiet 0x80))
      (fun _ => 0) (fun i => if i.val = 0x123 then 0xEA else 0) fun _ => 0
    DebuggerAgrees vm 0xE123 ∧ getCurrentOpcode vm 0xE123 = 0xEA :=
  have hreach := (Reachable.initial Machine.blank).access (.read Bus.quiet 0x80)
  ⟨(debugger_sees hreach (fun _ => 0) (fun i => if i.val = 0x123 then 0xEA else 0) (fun _ => 0)
    0xE123 (Or.inr (by decide))).mpr (by unfold SameBytes; decide +kernel), by decide +kernel⟩

/-- After a read of C080 the CPU runs from the first half of the banks, the debugger shows the
second. -/
theorem debugger_other_bank :
    ¬ ∀ vm, Reachable vm → ∀ mem card banks (pc : UInt16), pc.toNat < 0xC000 ∨ 0xD000 ≤ pc.toNat →
      DebuggerAgrees (withMemory vm mem card banks) pc := by
  intro hall
  have hreach := (Reachable.initial Machine.blank).access (.read Bus.quiet 0x80)
  have hagrees := hall _ hreach (fun _ => 0) (fun _ => 0) (fun i => if i.val = 0 then 0xEA else 0)
    0xD000 (Or.inr (by decide))
  have hopcode := hagrees.opcode Bus.quiet fun _ => 0
  revert hopcode
  decide +kernel

end Apple2ix.Meta
