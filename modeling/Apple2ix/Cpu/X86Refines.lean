import Apple2ix.Cpu.X86Flags

/-! The x86 core on a memory of 64K does what the instructions of the 65c02 do. -/
namespace Apple2ix.Cpu.X86
open Cpu Processor
set_option autoImplicit false

/-! ## The registers of the core as registers of a processor -/

def State.view (s : State Ram) : Processor where
  a := s.a
  x := s.x
  y := s.y
  sp := s.sp
  pc := s.pc
  p := flagX86.status s.f
  cycles := s.opcycles
  ram := s.mem

/-- What an instruction has fetched, which `view` leaves out. -/
def State.byte (s : State Ram) : UInt8 := s.mem.cell s.ea

section Helpers
variable (s : State Ram)

theorem getFromPcB_ram : getFromPcB ramBus s =
    { s with al := s.mem.cell s.pc, ea := s.pc, pc := s.pc + 1 } := rfl

theorem getFromPcW_ram : getFromPcW ramBus s =
    { s with
      al := s.mem.cell s.pc
      ah := s.mem.cell (s.pc + 1)
      ea := s.pc + 1
      pc := s.pc + 2 } := rfl

theorem getFromEaW_ram : getFromEaW ramBus s =
    { s with al := s.mem.cell s.ea, ah := s.mem.cell (s.ea + 1) } := by
  have hea : s.ea + 1 - 1 = s.ea := UInt16.add_sub_cancel _ _
  have hload : getFromEaW ramBus s =
      { s with al := s.mem.cell (s.ea + 1 - 1), ah := s.mem.cell (s.ea + 1), ea := s.ea + 1 - 1 } :=
        rfl
  rw [hload, hea]

theorem getFromEaB_ram : getFromEaB ramBus s = { s with al := s.byte, rw := s.rw ||| 1 } := rfl

end Helpers

/-! ## Addresses -/

/-- An index added to the low byte of a word, with its carry. -/
theorem join_add (hi lo index : UInt8) : join hi lo + index.toUInt16 =
    if (addb index lo).flags.cf then join (hi + 1) (addb index lo).value
    else join hi (addb index lo).value := by
  have hvalue : (addb index lo).value.toNat = (lo.toNat + index.toNat) % 0x100 := by
    rw [addb, adcb_value, UInt8.toNat_ofNat']
    rfl
  have hcf : (addb index lo).flags.cf = decide (0x100 ≤ lo.toNat + index.toNat) := rfl
  have hhi := hi.toNat_lt
  have hlo := lo.toNat_lt
  have hindex := index.toNat_lt
  have hnext : (hi + 1).toNat = (hi.toNat + 1) % 0x100 := UInt8.toNat_add hi 1
  rw [hcf]
  by_cases hcarry : 0x100 ≤ lo.toNat + index.toNat
  · rw [if_pos (decide_eq_true hcarry), ← UInt16.toNat_inj, UInt16.toNat_add, join_toNat,
      join_toNat,
      hvalue, hnext, UInt8.toNat_toUInt16]
    omega
  · rw [if_neg (by simpa using hcarry), ← UInt16.toNat_inj, UInt16.toNat_add, join_toNat,
      join_toNat,
      hvalue, UInt8.toNat_toUInt16]
    omega

theorem crossing_join (hi lo index : UInt8) : crossing (join hi lo) index =
    if (addb index lo).flags.cf then 1 else 0 := by
  have hne : hi + 1 ≠ hi := by
    have hhi := hi.toNat_lt
    rw [ne_eq, ← UInt8.toNat_inj, UInt8.toNat_add]
    change ¬(hi.toNat + 1) % 2 ^ 8 = hi.toNat
    omega
  rw [crossing, join_add]
  by_cases hcf : (addb index lo).flags.cf = true
  · rw [if_pos hcf, if_pos hcf, hiByte_join, hiByte_join, if_neg hne]
  · rw [if_neg hcf, if_neg hcf, hiByte_join, hiByte_join, if_pos rfl]

/-- An index added to `%ax`. -/
theorem addIndex_eq (index : UInt8) (boundary : State Ram → State Ram) (s : State Ram) :
    addIndex index boundary s =
      eaFromAx (if (addb index s.al).flags.cf then
        boundary { s with al := (addb index s.al).value, ah := s.ah + 1 }
      else { s with al := (addb index s.al).value }) := rfl

section Index
variable (index : UInt8) (s : State Ram)

theorem addIndex_id : (addIndex index id s).view = s.view ∧
    (addIndex index id s).ea = s.ax + index.toUInt16 := by
  rw [addIndex_eq, State.ax, join_add]
  by_cases hcf : (addb index s.al).flags.cf = true
  · rw [if_pos hcf, if_pos hcf]
    exact ⟨rfl, rfl⟩
  · rw [if_neg hcf, if_neg hcf]
    exact ⟨rfl, rfl⟩

theorem addIndex_countCycle :
    (addIndex index countCycle s).view = s.view.spend (crossing s.ax index) ∧
      (addIndex index countCycle s).ea = s.ax + index.toUInt16 := by
  rw [addIndex_eq, State.ax, crossing_join, join_add]
  by_cases hcf : (addb index s.al).flags.cf = true
  · rw [if_pos hcf, if_pos hcf, if_pos hcf]
    exact ⟨rfl, rfl⟩
  · rw [if_neg hcf, if_neg hcf, if_neg hcf]
    refine ⟨?_, rfl⟩
    simp [spend, eaFromAx, State.view]

end Index

/-- Going back to the low byte of a pointer does not leave page zero. -/
theorem pointer_low (at0 : UInt8) : ((at0 + 1).toUInt16 - 1) &&& 0xFF = at0.toUInt16 := by
  have hlt := at0.toNat_lt
  have hand (w : UInt16) : (w &&& 0xFF).toNat = w.toNat % 0x100 :=
    (UInt16.toNat_and w 0xFF).trans (Nat.and_two_pow_sub_one_eq_mod w.toNat 8)
  rw [← UInt16.toNat_inj, hand, UInt16.toNat_sub, UInt8.toNat_toUInt16, UInt8.toNat_add,
    UInt8.toNat_toUInt16]
  change (2 ^ 16 - 1 + (at0.toNat + 1) % 2 ^ 8) % 2 ^ 16 % 0x100 = at0.toNat
  omega

theorem view_getFromEaB (s : State Ram) : (getFromEaB ramBus s).view = s.view := rfl

theorem view_indZPage (s : State Ram) : (indZPage ramBus s).view = s.view := by
  have hpointer : ∀ (t : State Ram) (ah : UInt8) (ea : UInt16),
    ({ t with ah := ah, ea := ea } : State Ram).view = t.view := fun _ _ _ => rfl
  rw [indZPage, view_getFromEaB, hpointer, view_getFromEaB]
  rfl

theorem indZPage_ram (s : State Ram) (h : s.ah = 0) : (indZPage ramBus s).view = s.view ∧
    (indZPage ramBus s).ax = s.view.pointer s.al := by
  refine ⟨view_indZPage s, ?_⟩
  change join (s.mem.cell (join s.ah (s.al + 1)))
    (s.mem.cell ((join s.ah (s.al + 1) - 1) &&& 0xFF)) = _
  rw [h, join_zero, pointer_low]
  rfl

/-- Past an operand whose index crosses no page. -/
theorem skip_eq (mode : Mode) (s : Processor) (h : s.modeCycles mode = 0) :
    { s with pc := s.pc + operandLength mode } = s.skip mode := by
  rw [skip, h, UInt8.add_zero]

/-- **Addressing.** The macros find the effective address of the 65c02, and the cycles it takes. -/
theorem getMode_ram (mode : Mode) (s : State Ram) (h : s.ah = 0) :
    (getMode ramBus mode s).view = s.view.skip mode ∧
      (getMode ramBus mode s).ea = s.view.address mode := by
  have hzero : ∀ lo : UInt8, join s.ah lo = lo.toUInt16 := fun lo => by rw [h, join_zero]
  have hpointer := indZPage_ram (getFromPcB ramBus s) h
  -- the index register is read behind the pointer
  have hindex : (indZPage ramBus (getFromPcB ramBus s)).y = s.y :=
    congrArg Processor.y hpointer.1
  cases mode with
  | imm => exact ⟨skip_eq .imm s.view rfl, rfl⟩
  | zpage => exact ⟨skip_eq .zpage s.view rfl, hzero _⟩
  | zpageX => exact ⟨skip_eq .zpageX s.view rfl, hzero _⟩
  | zpageY => exact ⟨skip_eq .zpageY s.view rfl, hzero _⟩
  | abs => exact ⟨skip_eq .abs s.view rfl, rfl⟩
  | absX => exact addIndex_countCycle s.x (getFromPcW ramBus s)
  | absXStx =>
    obtain ⟨hview, hea⟩ := addIndex_id s.x (getFromPcW ramBus s)
    exact ⟨hview.trans (skip_eq .absXStx s.view rfl), hea⟩
  | absY => exact addIndex_countCycle s.y (getFromPcW ramBus s)
  | absYSta =>
    obtain ⟨hview, hea⟩ := addIndex_id s.y (getFromPcW ramBus s)
    exact ⟨hview.trans (skip_eq .absYSta s.view rfl), hea⟩
  | indX =>
    obtain ⟨hview, hax⟩ := indZPage_ram (addAl s.x (getFromPcB ramBus s)) h
    exact ⟨hview.trans (skip_eq .indX s.view rfl), hax⟩
  | indY =>
    have hmode : getMode ramBus .indY s =
        addIndex s.y countCycle (indZPage ramBus (getFromPcB ramBus s)) := by
      rw [← hindex]
      rfl
    obtain ⟨hview, hea⟩ := addIndex_countCycle s.y (indZPage ramBus (getFromPcB ramBus s))
    rw [hpointer.2] at hview hea
    rw [hpointer.1] at hview
    rw [hmode]
    exact ⟨hview, hea⟩
  | indYSta =>
    have hmode : getMode ramBus .indYSta s =
        addIndex s.y id (indZPage ramBus (getFromPcB ramBus s)) := by
      rw [← hindex]
      rfl
    obtain ⟨hview, hea⟩ := addIndex_id s.y (indZPage ramBus (getFromPcB ramBus s))
    rw [hpointer.2] at hea
    rw [hpointer.1] at hview
    rw [hmode]
    exact ⟨hview.trans (skip_eq .indYSta s.view rfl), hea⟩
  | indZpage => exact ⟨hpointer.1.trans (skip_eq .indZpage s.view rfl), hpointer.2⟩

/-! ## Flags -/

section Flags
variable (flags : HostFlags) (s : State Ram)

theorem view_flagZ : (flagZ flags s).view =
    { s.view with p := { s.view.p with z := flags.zf } } :=
  congrArg (fun p => { s.view with p := p }) (status_flagZ s.f flags)

theorem view_flagNZ : (flagNZ flags s).view =
    { s.view with p := { s.view.p with n := flags.sf, z := flags.zf } } :=
  congrArg (fun p => { s.view with p := p }) (status_flagNZ s.f flags)

theorem view_flagNZC : (flagNZC flags s).view =
    { s.view with p := { s.view.p with n := flags.sf, z := flags.zf, c := flags.cf } } :=
  congrArg (fun p => { s.view with p := p }) (status_flagNZC s.f flags)

theorem view_flagNVZC : (flagNVZC flags s).view =
    { s.view with
      p := { s.view.p with n := flags.sf, v := flags.ovf, z := flags.zf, c := flags.cf } } :=
  congrArg (fun p => { s.view with p := p }) (status_flagNVZC s.f flags)

theorem view_orFlags (value : UInt8) : (orFlags value s).view =
    { s.view with p := setNZ value s.view.p } := by
  rw [orFlags, view_flagNZ, setNZ, ← signBit_eq]
  rfl

end Flags

/-! ## Operations -/

section Operations
variable (s : State Ram)

theorem view_doAdcB : (doAdcB ramBus s).view = addBinary s.byte s.view := by
  rw [doAdcB, getFromEaB_ram]
  simp only [view_flagNVZC, adcb_sf, adcb_zf, adcb_cf, adcb_ovf, adcb_value]
  rfl

theorem view_doSbcB : (doSbcB ramBus s).view = addBinary (~~~s.byte) s.view := by
  rw [doSbcB, getFromEaB_ram]
  simp only [view_flagNVZC, adcb_sf, adcb_zf, adcb_cf, adcb_ovf, adcb_value]
  rfl

theorem view_doAnd : (doAnd ramBus s).view = loadA (s.a &&& s.byte) s.view :=
  view_orFlags { getFromEaB ramBus s with a := s.a &&& s.byte } _

theorem view_doEor : (doEor ramBus s).view = loadA (s.a ^^^ s.byte) s.view :=
  view_orFlags { getFromEaB ramBus s with a := s.a ^^^ s.byte } _

theorem view_doOra : (doOra ramBus s).view = loadA (s.a ||| s.byte) s.view :=
  view_orFlags { getFromEaB ramBus s with a := s.a ||| s.byte } _

theorem view_doLda : (doLda ramBus s).view = loadA s.byte s.view :=
  view_orFlags { getFromEaB ramBus s with a := s.byte } _

theorem view_doLdx : (doLdx ramBus s).view = loadX s.byte s.view :=
  view_orFlags { getFromEaB ramBus s with x := s.byte } _

theorem view_doLdy : (doLdy ramBus s).view = loadY s.byte s.view :=
  view_orFlags { getFromEaB ramBus s with y := s.byte } _

theorem view_compare (reg : UInt8) : (compare reg s).view = Processor.compare reg s.al s.view := by
  rw [compare, view_flagNZC, HostFlags.cmc]
  simp only [subb_sf, subb_zf, subb_cf, Processor.compare, ← decide_not, Nat.not_lt]
  rfl

theorem view_doCmp : (doCmp ramBus s).view = Processor.compare s.a s.byte s.view :=
  view_compare (getFromEaB ramBus s) s.a

theorem view_doCpx : (doCpx ramBus s).view = Processor.compare s.x s.byte s.view :=
  view_compare (getFromEaB ramBus s) s.x

theorem view_doCpy : (doCpy ramBus s).view = Processor.compare s.y s.byte s.view :=
  view_compare (getFromEaB ramBus s) s.y

theorem sarb3_mask (v : UInt8) : sarb3 v &&& 0x88 =
    (if negative v then 0x80 else 0) ||| if v &&& 0x40 != 0 then 0x08 else 0 := by
  revert v
  exact forall_uint8 (by decide)

/-- What `sarb` and the masks leave of the operand and of ZF. -/
theorem doBit_bits (v : UInt8) (z sf : Bool) :
    let bits := sarb3 v &&& 0x88 ||| lahf ⟨false, z, sf, false, false⟩ &&& 0x40
    bits &&& (flagX86.n ||| flagX86.v ||| flagX86.z) = bits ∧
      (flagX86.status bits).n = negative v ∧ (flagX86.status bits).v = (v &&& 0x40 != 0) ∧
      (flagX86.status bits).z = z := by
  rw [sarb3_mask]
  cases negative v <;> cases v &&& 0x40 != 0 <;> cases z <;> cases sf <;>
    exact ⟨rfl, rfl, rfl, rfl⟩

/-- N, V and Z put into F. -/
theorem status_nvz (f bits : UInt8)
    (hmask : bits &&& (flagX86.n ||| flagX86.v ||| flagX86.z) = bits) :
    flagX86.status (f &&& ~~~(flagX86.n ||| flagX86.v ||| flagX86.z) ||| bits) =
      { flagX86.status f with
        n := (flagX86.status bits).n
        v := (flagX86.status bits).v
        z := (flagX86.status bits).z } := by
  have hbits : f &&& ~~~(flagX86.n ||| flagX86.v ||| flagX86.z) ||| bits =
      f &&& ~~~(flagX86.n ||| flagX86.v ||| flagX86.z) |||
        bits &&& (flagX86.n ||| flagX86.v ||| flagX86.z) := by rw [hmask]
  rw [hbits]
  simp (disch := decide) only [Layout.status, select_in, select_out]

theorem view_doBit : (doBit ramBus s).view = testBits s.byte s.view := by
  obtain ⟨hmask, hn, hv, hz⟩ :=
    doBit_bits s.byte (s.a &&& s.byte == 0) (signBit (s.a &&& s.byte))
  have hstatus := status_nvz s.f _ hmask
  rw [hn, hv, hz, ← UInt8.or_assoc] at hstatus
  exact congrArg (fun p => { s.view with p := p }) hstatus

theorem view_opBitImm :
    (opBitImm ramBus s).view = testZero (s.view.operand .imm) (s.view.skip .imm) := by
  rw [← skip_eq .imm s.view rfl]
  exact view_flagZ _ (getFromEaB ramBus (getImm s))

/-- An operation on a byte of memory whose flags are N, Z and C. -/
theorem view_modify_nzc {f : UInt8 → State Ram → Result} {g : Shift}
    (h : (f s.byte (getFromEaB ramBus s)).nzc s.view.p = g s.byte s.view.p) :
    (modify ramBus f flagNZC s).view = onCell g s.ea s.view := by
  have hstore : (modify ramBus f flagNZC s).view =
      storeCell (f s.byte (getFromEaB ramBus s)).value s.ea
        (flagNZC (f s.byte (getFromEaB ramBus s)).flags (getFromEaB ramBus s)).view := rfl
  have hcell : s.view.ram.cell s.ea = s.byte := rfl
  rw [hstore, view_flagNZC, onCell, hcell, ← h]
  rfl

/-- The same without C. -/
theorem view_modify_nz {f : UInt8 → State Ram → Result} {g : Shift}
    (h : (f s.byte (getFromEaB ramBus s)).nz s.view.p = g s.byte s.view.p) :
    (modify ramBus f flagNZ s).view = onCell g s.ea s.view := by
  have hstore : (modify ramBus f flagNZ s).view =
      storeCell (f s.byte (getFromEaB ramBus s)).value s.ea
        (flagNZ (f s.byte (getFromEaB ramBus s)).flags (getFromEaB ramBus s)).view := rfl
  have hcell : s.view.ram.cell s.ea = s.byte := rfl
  rw [hstore, view_flagNZ, onCell, hcell, ← h]
  rfl

theorem view_modifyAcc_nzc {f : UInt8 → State Ram → Result} {g : Shift}
    (h : (f s.a s).nzc s.view.p = g s.a s.view.p) :
    (modifyAcc f flagNZC s).view = onAcc g s.view := by
  have hacc : s.view.a = s.a := rfl
  rw [modifyAcc, view_flagNZC, onAcc, hacc, ← h]
  rfl

theorem view_modifyAcc_nz {f : UInt8 → State Ram → Result} {g : Shift}
    (h : (f s.a s).nz s.view.p = g s.a s.view.p) :
    (modifyAcc f flagNZ s).view = onAcc g s.view := by
  have hacc : s.view.a = s.a := rfl
  rw [modifyAcc, view_flagNZ, onAcc, hacc, ← h]
  rfl

theorem view_indexX {r : Result} {value : UInt8}
    (h : r.nz s.view.p = (value, setNZ value s.view.p)) :
    (flagNZ r.flags { s with x := r.value }).view = loadX value s.view := by
  have hp := congrArg Prod.snd h
  obtain rfl : r.value = value := congrArg Prod.fst h
  rw [view_flagNZ]
  exact congrArg (fun p => { s.view with x := r.value, p := p }) hp

theorem view_indexY {r : Result} {value : UInt8}
    (h : r.nz s.view.p = (value, setNZ value s.view.p)) :
    (flagNZ r.flags { s with y := r.value }).view = loadY value s.view := by
  have hp := congrArg Prod.snd h
  obtain rfl : r.value = value := congrArg Prod.fst h
  rw [view_flagNZ]
  exact congrArg (fun p => { s.view with y := r.value, p := p }) hp

theorem view_doStore (value : UInt8) :
    (doStore ramBus value s).view = storeCell value s.ea s.view := rfl

theorem view_opRorAcc : (opRorAcc s).view = onAcc ror s.view := by
  have hcarry : flagX86.status (s.f &&& ~~~flagX86.c ||| s.a &&& flagX86.c) =
      { flagX86.status s.f with c := s.a &&& 1 != 0 } := by
    simp (disch := decide) only [Layout.status, select_in, select_out]
    rfl
  rw [opRorAcc_eq, view_orFlags, State.view]
  simp only [hcarry, low_bit]
  rfl

theorem view_testZero : (flagZ (logic (s.byte &&& s.a)).flags (getFromEaB ramBus s)).view =
    testZero s.byte s.view := by
  have hcomm : s.view.a &&& s.byte = s.byte &&& s.a := UInt8.and_comm _ _
  rw [view_flagZ, testZero, hcomm]
  rfl

theorem view_doTrb : (doTrb ramBus s).view =
    storeCell (s.byte &&& ~~~s.a) s.ea (testZero s.byte s.view) := by
  rw [← view_testZero]
  rfl

theorem view_doTsb : (doTsb ramBus s).view =
    storeCell (s.byte ||| s.a) s.ea (testZero s.byte s.view) := by
  rw [← view_testZero]
  rfl

end Operations

/-! ## Branches, flags and the stack -/

section Control
variable (s : State Ram)

theorem cbw_eq (al : UInt8) : cbw al = offset al := by
  rw [cbw, offset, signBit_eq]

theorem view_branch {taken : State Ram → Bool} {b : Bool}
    (h : taken (getFromPcB ramBus s) = b) :
    (X86.branch ramBus taken s).view = Processor.branch b s.view := by
  rw [X86.branch, h, Processor.branch]
  cases b with
  | false => rfl
  | true =>
    simp only [if_true, branchXCycles, getFromPcB_ram, cbw_eq, State.setAx, State.ax, join_bytes,
      countCycle]
    have htarget : offset (s.mem.cell s.pc) + (s.pc + 1) = s.pc + 1 + offset (s.mem.cell s.pc) :=
      UInt16.add_comm _ _
    rw [htarget]
    by_cases hpage : hiByte (s.pc + 1 + offset (s.mem.cell s.pc)) = hiByte (s.pc + 1)
    · rw [if_pos hpage]
      simp only [State.view, hpage, if_true]
    · rw [if_neg hpage]
      simp only [State.view, hpage, if_false, UInt8.add_assoc]
      rfl

theorem status_setFlag (f : UInt8) :
    flagX86.status (f ||| flagX86.c) = { flagX86.status f with c := true } ∧
    flagX86.status (f ||| flagX86.d) = { flagX86.status f with d := true } ∧
    flagX86.status (f ||| flagX86.i) = { flagX86.status f with i := true } ∧
    flagX86.status (f ||| flagX86.x) = { flagX86.status f with x := true } ∧
    flagX86.status (f ||| (flagX86.b ||| flagX86.x)) =
      { flagX86.status f with b := true, x := true } := by
  refine ⟨?_, ?_, ?_, ?_, ?_⟩ <;>
  · rw [orr_select]
    simp (disch := decide) only [Layout.status, select_in, select_out]
    rfl

theorem status_clearFlag (f : UInt8) :
    flagX86.status (f &&& ~~~flagX86.c) = { flagX86.status f with c := false } ∧
    flagX86.status (f &&& ~~~flagX86.d) = { flagX86.status f with d := false } ∧
    flagX86.status (f &&& ~~~flagX86.i) = { flagX86.status f with i := false } ∧
    flagX86.status (f &&& ~~~flagX86.v) = { flagX86.status f with v := false } := by
  refine ⟨?_, ?_, ?_, ?_⟩ <;>
  · rw [bic_select]
    simp (disch := decide) only [Layout.status, select_in, select_out]
    rfl

theorem encode_eq_statusByte : flagX86.encode s.f = s.view.statusByte :=
  encode_status _ s.f

theorem view_opPhp : (opPhp ramBus s).view = Processor.push s.view.statusByte s.view := by
  rw [← encode_eq_statusByte]
  rfl

theorem view_popFlags : (popFlags ramBus s).view = s.view.pullFlags := by
  have hstatus : flagX86.status (flagX86.decode s.view.top ||| (flagX86.b ||| flagX86.x)) =
      { flag6502.status s.view.top with b := true, x := true } := by
    rw [(status_setFlag _).2.2.2.2, status_decode isBits_x86]
  exact congrArg (fun p => { s.view.drop with p := p }) hstatus

theorem view_pushAx (w : UInt16) :
    (pushAx ramBus (s.setAx w)).view = Processor.pushWord w s.view := rfl

theorem view_interruptVector : (interruptVector ramBus s).view =
    { s.view with pc := join (s.view.ram.cell 0xFFFF) (s.view.ram.cell 0xFFFE) } := by
  have hnext : (0xFFFE : UInt16) + 1 = 0xFFFF := by decide
  rw [interruptVector, getFromEaW_ram, hnext]
  rfl

theorem view_breakFlags : (setFlag (flagX86.b ||| flagX86.x) s).view =
    { s.view with p := { s.view.p with b := true, x := true } } :=
  congrArg (fun p => { s.view with p := p }) (status_setFlag s.f).2.2.2.2

theorem view_disable : (setFlag flagX86.i s).view =
    { s.view with p := { s.view.p with i := true } } :=
  congrArg (fun p => { s.view with p := p }) (status_setFlag s.f).2.2.1

theorem view_pushFlags : (push ramBus (encodeFlags s).al (encodeFlags s)).view =
    Processor.push s.view.statusByte s.view := by
  rw [← encode_eq_statusByte]
  rfl

theorem view_opBrk : (opBrk ramBus s).view = Processor.brk s.view := by
  have hah : ∀ t : State Ram, ({ t with ah := 0 } : State Ram).view = t.view := fun _ => rfl
  rw [opBrk, view_interruptVector, view_disable, brkFrame, view_pushFlags, hah, view_breakFlags,
    view_pushAx]
  rfl

/-- The byte after the last of a page is the first of that page. -/
theorem page_wrap (w : UInt16) : join (hiByte w) (loByte w + 1) =
    if loByte w = 0xFF then w - 0xFF else w + 1 := by
  have hw := w.toNat_lt
  have hlo := loByte_toNat w
  have hnext : (loByte w + 1).toNat = (w.toNat % 0x100 + 1) % 0x100 := by
    rw [UInt8.toNat_add, hlo]
    rfl
  rw [← UInt16.toNat_inj, join_toNat, hiByte_toNat, hnext]
  by_cases hlast : loByte w = 0xFF
  · have h255 : w.toNat % 0x100 = 0xFF := by rw [← hlo, hlast]; rfl
    rw [if_pos hlast, UInt16.toNat_sub]
    change _ = (2 ^ 16 - 0xFF + w.toNat) % 2 ^ 16
    omega
  · have h255 : w.toNat % 0x100 ≠ 0xFF := fun heq =>
      hlast (UInt8.toNat_inj.mp (hlo.trans heq))
    rw [if_neg hlast, UInt16.toNat_add]
    change _ = (w.toNat + 1) % 2 ^ 16
    omega

theorem view_opJmpInd : (opJmpInd ramBus s).view = Processor.jmpInd s.view := by
  have hback : ∀ w : UInt16, w - 0xFF + 0xFF = w := fun w => UInt16.sub_add_cancel _ _
  have hlow : loByte (s.view.word) = s.mem.cell s.pc := loByte_join _ _
  rw [Processor.jmpInd, page_wrap, hlow, opJmpInd, getFromPcW_ram]
  by_cases hlast : s.mem.cell s.pc = 0xFF
  · simp only [hlast, if_true, getFromMemB, vmemR, ramBus, hback, State.ax]
    have hat : join (s.mem.cell (s.pc + 1)) 0xFF = s.view.word := by rw [word, ← hlast]; rfl
    rw [hat]
    rfl
  · simp only [hlast, if_false, getFromMemW, getFromEaW_ram]
    rfl

theorem view_opJmpAbsIndX : (opJmpAbsIndX ramBus s).view = Processor.jmpAbsIndX s.view := by
  rw [opJmpAbsIndX, Processor.jmpAbsIndX, getFromPcW_ram]
  simp only [getFromMemW, getFromEaW_ram, State.setAx, State.ax, join_bytes]
  rfl

theorem view_opJsr : (opJsr ramBus s).view =
    { Processor.pushWord (s.pc + 1) s.view with pc := s.view.word } := by
  have hpc : s.pc + 2 - 1 = s.pc + 1 := by
    have htwo : s.pc + 1 + 1 = s.pc + 2 := UInt16.add_assoc _ _ _
    rw [← htwo, UInt16.add_sub_cancel]
  have habs : getAbs ramBus s =
      { s with
        al := s.mem.cell s.pc
        ah := s.mem.cell (s.pc + 1)
        ea := s.view.word
        pc := s.pc + 2 } := rfl
  rw [opJsr, habs]
  simp only [hpc]
  rfl

theorem view_opRti : (opRti ramBus s).view = Processor.rti s.view := by
  have hsp : ∀ sp : UInt8, sp + 1 + 1 = sp + 2 := fun sp => by rw [UInt8.add_assoc]; rfl
  rw [Processor.rti, ← view_popFlags, ← hsp]
  rfl

theorem view_opRts : (opRts ramBus s).view =
    { s.view with pc := s.view.topWord + 1, sp := s.sp + 2 } := by
  have hsp : ∀ sp : UInt8, sp + 1 + 1 = sp + 2 := fun sp => by rw [UInt8.add_assoc]; rfl
  rw [← hsp, opRts]
  simp only [State.setAx, State.ax, join_bytes]
  rfl

end Control

end Apple2ix.Cpu.X86
