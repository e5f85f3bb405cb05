import Apple2ix.Cpu.X86Decimal
import Apple2ix.Cpu.X86Loop

/-! Each handler of the x86 core is the instruction of the 65c02. -/
namespace Apple2ix.Cpu
open Processor
set_option autoImplicit false

/-- The operands of an addition or subtraction in decimal mode are decimal digits. -/
def Processor.Bcd (op : Op) (s : Processor) : Prop :=
  ∀ mode, op = .adc mode ∨ op = .sbc mode → s.p.d = true → IsBcd s.a ∧ IsBcd (s.operand mode)

/-- The instruction with this opcode does not add or subtract digits that are none. -/
def Processor.Digits (opcode : UInt8) (s : Processor) : Prop :=
  ∀ op, opOf opcode = some op → s.Bcd op

/-! ## The table of handlers -/

/-- What does nothing but take its cycles. -/
def Op.isIdle : Op → Bool
  | .bbr _ | .bbs _ | .rmb _ | .smb _ | .nop | .stp65c02 | .unk65c02 | .wai65c02 => true
  | _ => false

/-- The table gives each opcode its instruction, and the others a handler that does nothing. -/
theorem opOf_handlerOf (opcode : UInt8) : opOf opcode = some (handlerOf opcode) ∨
    opOf opcode = none ∧ (handlerOf opcode).isIdle = true := by
  revert opcode
  exact forall_uint8 (by decide +kernel)

theorem exec_idle {op : Op} (h : op.isIdle = true) (s : Processor) : s.exec op = s := by
  cases op with
  | bbr | bbs | rmb | smb | nop | stp65c02 | unk65c02 | wai65c02 => rfl
  | _ => cases h

theorem exec_handlerOf (opcode : UInt8) (s : Processor) :
    s.exec (handlerOf opcode) = s.instruction opcode := by
  rw [instruction]
  obtain hop | ⟨hop, hidle⟩ := opOf_handlerOf opcode
  · rw [hop]
  · rw [hop, exec_idle hidle]

theorem digits_iff (opcode : UInt8) (s : Processor) :
    s.Digits opcode ↔ s.Bcd (handlerOf opcode) := by
  obtain hop | ⟨hop, hidle⟩ := opOf_handlerOf opcode
  · rw [Digits, hop]
    exact ⟨fun h => h _ rfl, fun h op hsome => Option.some.inj hsome ▸ h⟩
  · rw [Digits, hop]
    refine iff_of_true nofun fun mode hmode => ?_
    obtain hadc | hsbc := hmode
    · rw [hadc] at hidle
      cases hidle
    · rw [hsbc] at hidle
      cases hidle

/-! ## What an operation leaves alone -/

/-- The cell an operation writes. -/
def Processor.written (s : Processor) : Op → Option UInt16
  | .asl m | .dec m | .inc m | .lsr m | .rol m | .ror m => some (s.address m)
  | .sta m | .stx m | .sty m | .stz m | .trb m | .tsb m => some (s.address m)
  | _ => none

/-- The instructions of `dataOp`. -/
def Op.isData : Op → Bool
  | .bcc | .bcs | .beq | .bmi | .bne | .bpl | .bra | .bvc | .bvs => false
  | .clc | .cld | .cli | .clv | .sec | .sed | .sei => false
  | .brk | .jmpAbs | .jmpInd | .jmpAbsIndX | .jsr | .rti | .rts => false
  | .pha | .php | .phx | .phy | .pla | .plp | .plx | .ply => false
  | .bbr _ | .bbs _ | .rmb _ | .smb _ | .nop | .stp65c02 | .unk65c02 | .wai65c02 => false
  | _ => true

theorem isData_dataOp {opcode : UInt8} {op : Op} (h : dataOp opcode = some op) :
    op.isData = true := by
  have hall : ∀ opcode : UInt8, (dataOp opcode).all Op.isData = true :=
    forall_uint8 (by decide +kernel)
  have hop := hall opcode
  rw [h] at hop
  exact hop

/-- The flags other than N, V, Z and C stay, SP unless it is the destination, and memory but for the
cell that is written. -/
structure Processor.Frame (op : Op) (s t : Processor) : Prop where
  b : t.p.b = s.p.b
  x : t.p.x = s.p.x
  d : t.p.d = s.p.d
  i : t.p.i = s.p.i
  sp : op ≠ .txs → t.sp = s.sp
  ram : ∀ ea, s.written op ≠ some ea → t.ram.cell ea = s.ram.cell ea

theorem Processor.frame_of_ram {op : Op} {s t : Processor} (hram : t.ram = s.ram)
    (hsp : op ≠ .txs → t.sp = s.sp) (hb : t.p.b = s.p.b) (hx : t.p.x = s.p.x) (hd : t.p.d = s.p.d)
    (hi : t.p.i = s.p.i) : Frame op s t where
  b := hb
  x := hx
  d := hd
  i := hi
  sp := hsp
  ram := fun _ _ => by rw [hram]

theorem Processor.frame_write {op : Op} {s t : Processor} {ea : UInt16} {v : UInt8}
    (hram : t.ram = s.ram.write ea v) (hea : s.written op = some ea) (hsp : t.sp = s.sp)
    (hb : t.p.b = s.p.b) (hx : t.p.x = s.p.x) (hd : t.p.d = s.p.d) (hi : t.p.i = s.p.i) :
    Frame op s t where
  b := hb
  x := hx
  d := hd
  i := hi
  sp := fun _ => hsp
  ram := fun at0 hne => by
    rw [hram]
    refine Function.update_of_ne ?_ _ _
    rintro rfl
    exact hne hea

theorem Processor.exec_frame {op : Op} (h : op.isData = true) (s : Processor) :
    Frame op s (s.exec op) := by
  cases op with
  | adc m =>
    change Frame (.adc m) s (Processor.adc (s.operand m) (s.skip m))
    rw [Processor.adc]
    split <;> exact frame_of_ram rfl (fun _ => rfl) rfl rfl rfl rfl
  | sbc m =>
    change Frame (.sbc m) s (Processor.sbc (s.operand m) (s.skip m))
    rw [Processor.sbc]
    split <;> exact frame_of_ram rfl (fun _ => rfl) rfl rfl rfl rfl
  | asl m | dec m | inc m | lsr m | rol m | ror m => exact frame_write rfl rfl rfl rfl rfl rfl rfl
  | sta m | stx m | sty m | stz m | trb m | tsb m => exact frame_write rfl rfl rfl rfl rfl rfl rfl
  | txs => exact frame_of_ram rfl (fun hne => absurd rfl hne) rfl rfl rfl rfl
  | bcc | bcs | beq | bmi | bne | bpl | bra | bvc | bvs => cases h
  | clc | cld | cli | clv | sec | sed | sei => cases h
  | brk | jmpAbs | jmpInd | jmpAbsIndX | jsr | rti | rts => cases h
  | pha | php | phx | phy | pla | plp | plx | ply => cases h
  | bbr | bbs | rmb | smb | nop | stp65c02 | unk65c02 | wai65c02 => cases h
  | _ => exact frame_of_ram rfl (fun _ => rfl) rfl rfl rfl rfl

namespace X86

section Modes
variable (mode : Mode) (s : State Ram) (h : s.ah = 0)
include h

theorem getMode_view : (getMode ramBus mode s).view = s.view.skip mode := (getMode_ram mode s h).1

theorem getMode_ea : (getMode ramBus mode s).ea = s.view.address mode := (getMode_ram mode s h).2

theorem getMode_byte : (getMode ramBus mode s).byte = s.view.operand mode := by
  have hmem : (getMode ramBus mode s).mem = s.mem := congrArg Processor.ram (getMode_view mode s h)
  rw [State.byte, getMode_ea mode s h, hmem]
  rfl

theorem getMode_a : (getMode ramBus mode s).a = s.a := congrArg Processor.a (getMode_view mode s h)

theorem getMode_x : (getMode ramBus mode s).x = s.x := congrArg Processor.x (getMode_view mode s h)

theorem getMode_y : (getMode ramBus mode s).y = s.y := congrArg Processor.y (getMode_view mode s h)

/-- An operation on the operand. -/
theorem view_operandMode {f : State Ram → State Ram} (g : UInt8 → Processor → Processor)
    (hf : ∀ t : State Ram, (f t).view = g t.byte t.view) :
    (f (getMode ramBus mode s)).view = g (s.view.operand mode) (s.view.skip mode) := by
  rw [hf, getMode_view mode s h, getMode_byte mode s h]

/-- An operation on the cell at the effective address. -/
theorem view_cellMode {f : State Ram → State Ram} (g : UInt16 → Processor → Processor)
    (hf : ∀ t : State Ram, (f t).view = g t.ea t.view) :
    (f (getMode ramBus mode s)).view = g (s.view.address mode) (s.view.skip mode) := by
  rw [hf, getMode_view mode s h, getMode_ea mode s h]

theorem view_storeMode {value stored : UInt8} (hvalue : value = stored) :
    (doStore ramBus value (getMode ramBus mode s)).view =
      Processor.storeCell stored (s.view.address mode) (s.view.skip mode) := by
  rw [view_doStore, getMode_view mode s h, getMode_ea mode s h, hvalue]

/-- An operation that needs digits in decimal mode, on the operand. -/
theorem view_decimalMode {f : State Ram → State Ram} {g : UInt8 → Processor → Processor}
    (hf : ∀ t : State Ram, (t.view.p.d = true → IsBcd t.a ∧ IsBcd t.byte) →
      (f t).view = g t.byte t.view)
    (hbcd : s.view.p.d = true → IsBcd s.a ∧ IsBcd (s.view.operand mode)) :
    (f (getMode ramBus mode s)).view = g (s.view.operand mode) (s.view.skip mode) := by
  have hview := getMode_view mode s h
  have hd : (getMode ramBus mode s).view.p.d = s.view.p.d := (congrArg (fun t => t.p.d) hview :)
  have hdigits : (getMode ramBus mode s).view.p.d = true →
      IsBcd (getMode ramBus mode s).a ∧ IsBcd (getMode ramBus mode s).byte := by
    rw [hd, getMode_a mode s h, getMode_byte mode s h]
    exact hbcd
  rw [hf _ hdigits, hview, getMode_byte mode s h]

end Modes

section Decimal
variable (s : State Ram) (hbcd : s.view.p.d = true → IsBcd s.a ∧ IsBcd s.byte)
include hbcd

theorem view_doAdc : (doAdc ramBus s).view = Processor.adc s.byte s.view := by
  have hd : s.has flagX86.d = s.view.p.d := rfl
  rw [doAdc, Processor.adc, hd]
  cases hdec : s.view.p.d with
  | false => exact view_doAdcB s
  | true =>
    obtain ⟨ha, hv⟩ := hbcd hdec
    exact view_opAdcDec s ha hv

theorem view_doSbc : (doSbc ramBus s).view = Processor.sbc s.byte s.view := by
  have hd : s.has flagX86.d = s.view.p.d := rfl
  rw [doSbc, Processor.sbc, hd]
  cases hdec : s.view.p.d with
  | false => exact view_doSbcB s
  | true =>
    obtain ⟨ha, hv⟩ := hbcd hdec
    exact view_opSbcDec s ha hv

end Decimal

open Processor in
/-- The handlers of the instructions that work on data. -/
theorem run_data {op : Op} (hdata : op.isData = true) (s : State Ram) (h : s.ah = 0)
    (hbcd : s.view.Bcd op) : (run ramBus op s).view = s.view.exec op := by
  cases op with
  | adc m => exact view_decimalMode m s h view_doAdc (hbcd m (.inl rfl))
  | sbc m => exact view_decimalMode m s h view_doSbc (hbcd m (.inr rfl))
  | and m => exact view_operandMode m s h (fun v t => loadA (t.a &&& v) t) view_doAnd
  | eor m => exact view_operandMode m s h (fun v t => loadA (t.a ^^^ v) t) view_doEor
  | ora m => exact view_operandMode m s h (fun v t => loadA (t.a ||| v) t) view_doOra
  | bit m => exact view_operandMode m s h testBits view_doBit
  | bitImm => exact view_opBitImm s
  | cmp m => exact view_operandMode m s h (fun v t => Processor.compare t.a v t) view_doCmp
  | cpx m => exact view_operandMode m s h (fun v t => Processor.compare t.x v t) view_doCpx
  | cpy m => exact view_operandMode m s h (fun v t => Processor.compare t.y v t) view_doCpy
  | lda m => exact view_operandMode m s h loadA view_doLda
  | ldx m => exact view_operandMode m s h loadX view_doLdx
  | ldy m => exact view_operandMode m s h loadY view_doLdy
  -- a byte of memory, or the accumulator
  | asl m =>
    exact view_cellMode m s h (onCell asl) fun t => view_modify_nzc t (nzc_aslb _ _ _)
  | aslAcc => exact view_modifyAcc_nzc s (nzc_aslb _ _ _)
  | lsr m =>
    exact view_cellMode m s h (onCell lsr) fun t => view_modify_nzc t (nzc_lsrb _ _ _)
  | lsrAcc => exact view_modifyAcc_nzc s (nzc_lsrb _ _ _)
  | rol m =>
    exact view_cellMode m s h (onCell rol) fun t => view_modify_nzc t (nzc_rolb _ _ _ rfl)
  | rolAcc => exact view_modifyAcc_nzc s (nzc_rolb _ _ _ rfl)
  | ror m =>
    exact view_cellMode m s h (onCell ror) fun t => view_modify_nzc t (nzc_rorb _ _ _ rfl)
  | rorAcc => exact view_opRorAcc s
  | dec m => exact view_cellMode m s h (onCell dec) fun t => view_modify_nz t (nz_decb _ _ _)
  | dea => exact view_modifyAcc_nz s (nz_decb _ _ _)
  | dex => exact view_indexX s (nz_decb _ _ _)
  | dey => exact view_indexY s (nz_decb _ _ _)
  | inc m => exact view_cellMode m s h (onCell inc) fun t => view_modify_nz t (nz_incb _ _ _)
  | ina => exact view_modifyAcc_nz s (nz_incb _ _ _)
  | inx => exact view_indexX s (nz_incb _ _ _)
  | iny => exact view_indexY s (nz_incb _ _ _)
  | sta m => exact view_storeMode m s h (getMode_a m s h)
  | stx m => exact view_storeMode m s h (getMode_x m s h)
  | sty m => exact view_storeMode m s h (getMode_y m s h)
  | stz m => exact view_storeMode m s h rfl
  | trb m =>
    exact view_cellMode m s h
      (fun ea t => storeCell (t.ram.cell ea &&& ~~~t.a) ea (testZero (t.ram.cell ea) t)) view_doTrb
  | tsb m =>
    exact view_cellMode m s h
      (fun ea t => storeCell (t.ram.cell ea ||| t.a) ea (testZero (t.ram.cell ea) t)) view_doTsb
  | tax => exact view_orFlags { s with x := s.a } s.a
  | tay => exact view_orFlags { s with y := s.a } s.a
  | tsx => exact view_orFlags { s with x := s.sp } s.sp
  | txa => exact view_orFlags { s with a := s.x } s.x
  | txs => rfl
  | tya => exact view_orFlags { s with a := s.y } s.y
  | bcc | bcs | beq | bmi | bne | bpl | bra | bvc | bvs => cases hdata
  | clc | cld | cli | clv | sec | sed | sei => cases hdata
  | brk | jmpAbs | jmpInd | jmpAbsIndX | jsr | rti | rts => cases hdata
  | pha | php | phx | phy | pla | plp | plx | ply => cases hdata
  | bbr | bbs | rmb | smb | nop | stp65c02 | unk65c02 | wai65c02 => cases hdata

/-- The handlers of the other instructions: branches, single flags, jumps and the stack. -/
theorem run_control {op : Op} (hdata : op.isData = false) (s : State Ram) :
    (run ramBus op s).view = s.view.exec op := by
  cases op with
  | bcc | bcs | beq | bmi | bne | bpl | bra | bvc | bvs => exact view_branch s rfl
  | clc => exact congrArg (fun p => { s.view with p := p }) (status_clearFlag s.f).1
  | cld => exact congrArg (fun p => { s.view with p := p }) (status_clearFlag s.f).2.1
  | cli => exact congrArg (fun p => { s.view with p := p }) (status_clearFlag s.f).2.2.1
  | clv => exact congrArg (fun p => { s.view with p := p }) (status_clearFlag s.f).2.2.2
  | sec => exact congrArg (fun p => { s.view with p := p }) (status_setFlag s.f).1
  | sed => exact congrArg (fun p => { s.view with p := p }) (status_setFlag s.f).2.1
  | sei => exact congrArg (fun p => { s.view with p := p }) (status_setFlag s.f).2.2.1
  | brk => exact view_opBrk s
  | jmpAbs => rfl
  | jmpInd => exact view_opJmpInd s
  | jmpAbsIndX => exact view_opJmpAbsIndX s
  | jsr => exact view_opJsr s
  | rti => exact view_opRti s
  | rts => exact view_opRts s
  | pha => rfl
  | php => exact view_opPhp s
  | phx => rfl
  | phy => rfl
  | pla => exact view_orFlags { s with a := s.view.top, sp := s.sp + 1 } s.view.top
  | plp => exact view_popFlags s
  | plx => exact view_orFlags { s with x := s.view.top, sp := s.sp + 1 } s.view.top
  | ply => exact view_orFlags { s with y := s.view.top, sp := s.sp + 1 } s.view.top
  | bbr | bbs | rmb | smb | nop | stp65c02 | unk65c02 | wai65c02 => rfl
  | _ => cases hdata

/-- **Instructions.** A handler, entered with `%ah` clear, does what the instruction does. -/
theorem run_ram (op : Op) (s : State Ram) (h : s.ah = 0) (hbcd : s.view.Bcd op) :
    (run ramBus op s).view = s.view.exec op := by
  cases hdata : op.isData with
  | true => exact run_data hdata s h hbcd
  | false => exact run_control hdata s

/-! ## Instructions of a run -/

theorem start_ah {entry : Entry Ram} {t : State Ram} (h : entry.start ramBus = some t)
    (hnext : ∀ s, entry = .next s → s.ah = 0) : t.ah = 0 := by
  cases entry with
  | next s =>
    obtain rfl := Option.some.inj h
    exact hnext s rfl
  | irq s =>
    obtain rfl := Option.some.inj h
    rfl
  | reset s =>
    obtain rfl := Option.some.inj h
    rfl
  | reinit => cases h

/-- The core clears `%ah` wherever it goes from `continue2`. -/
theorem continue2_ah {buttons : Buttons} {s t : State Ram}
    (h : (continue2 buttons s).start ramBus = some t) : t.ah = 0 := by
  refine start_ah h ?_
  intro u hu
  simp only [continue2, exIrq] at hu
  split at hu
  · cases hu
    rfl
  split at hu
  · split at hu
    · cases hu
      rfl
    · cases hu
  split at hu
  · cases hu
  · cases hu

theorem entry_ah {event : Event Ram} {core : Core Ram} {entry : Entry Ram} {t : State Ram}
    (hentry : event.entry core = some entry) (h : entry.start ramBus = some t) : t.ah = 0 := by
  cases event with
  | call buttons n =>
    obtain rfl := Option.some.inj hentry
    rw [enter] at h
    split at h
    · exact continue2_ah h
    · exact start_ah h fun u hu => by cases hu
  | instruction buttons =>
    obtain rfl := Option.some.inj hentry
    exact continue2_ah h
  | interrupt reason => cases hentry
  | uninterrupt reason => cases hentry
  | memory mem => cases hentry

/-- The opcode is fetched from PC, and is no part of the operand. -/
theorem jumpNextInstruction_ram (t : State Ram) (h : t.ah = 0)
    (hbcd : Bcd (handlerOf (t.mem.cell t.pc)) { t.view with pc := t.pc + 1 }) :
    (jumpNextInstruction ramBus t).view =
      exec (handlerOf (t.mem.cell t.pc)) { t.view with pc := t.pc + 1 } :=
  run_ram (handlerOf (t.mem.cell t.pc)) (fetch ramBus t) h hbcd

/-- The opcode table gives each of these opcodes its instruction. -/
theorem handlerOf_dataOp {opcode : UInt8} {op : Op} (h : dataOp opcode = some op) :
    handlerOf opcode = op := by
  have hall : ∀ opcode : UInt8, dataOp opcode = none ∨ dataOp opcode = some (handlerOf opcode) :=
    forall_uint8 (by decide +kernel)
  obtain hnone | hsome := hall opcode
  · rw [hnone] at h
    cases h
  · exact Option.some.inj (hsome.symm.trans h)

/-- **The data instructions.** Wherever the core goes next, an instruction of this kind does to the
registers, the flags and memory what it does on the 65c02, and nothing else. -/
theorem data_instruction {event : Event Ram} {core : Core Ram} {entry : Entry Ram}
    {t : State Ram} {op : Op} (hentry : event.entry core = some entry)
    (hstart : entry.start ramBus = some t) (hop : dataOp (t.mem.cell t.pc) = some op)
    (hbinary : ∀ mode, op = .adc mode ∨ op = .sbc mode → t.view.p.d = false) :
    let fetched := { t.view with pc := t.pc + 1 }
    (jumpNextInstruction ramBus t).view = fetched.exec op ∧ fetched.Frame op (fetched.exec op) := by
  intro fetched
  have hrun := jumpNextInstruction_ram t (entry_ah hentry hstart)
  rw [handlerOf_dataOp hop] at hrun
  refine ⟨hrun ?_, exec_frame (isData_dataOp hop) fetched⟩
  intro mode hmode hd
  exact absurd (hd.symm.trans (hbinary mode hmode)) Bool.noConfusion

/-- At `ADC #$7F` with 1 in A and the carry set. -/
def overflowing : State Ram where
  a := 0x01
  f := flagX86.c
  x := 0
  y := 0
  pc := 0x300
  ea := 0
  al := 0
  ah := 0
  sp := 0xFF
  opcode := 0
  opcycles := 0
  rw := 0
  d := 0
  cycleCount := 0
  cyclesToExecute := 1
  signal := 0
  emulReinitialize := 0
  mem := ⟨fun ea => if ea = 0x300 then 0x69 else 0x7F, []⟩

theorem data_instruction_adc :
    (jumpNextInstruction ramBus (cpuStatsReset overflowing)).view.a = 0x81 ∧
      (jumpNextInstruction ramBus (cpuStatsReset overflowing)).view.p.v = true ∧
      (jumpNextInstruction ramBus (cpuStatsReset overflowing)).view.p.c = false := by
  have hadc := (@data_instruction (.instruction ⟨0, 0⟩)
    ⟨true, ⟨0, 0, 0, 0, 0, 0⟩, overflowing⟩ _ (cpuStatsReset overflowing) (.adc .imm) rfl rfl
    (by decide +kernel) (fun _ _ => by decide +kernel)).1
  rw [hadc]
  exact ⟨by decide +kernel, by decide +kernel, by decide +kernel⟩

end X86

end Apple2ix.Cpu
