import Mathlib.Logic.Function.Basic
import Apple2ix.Cpu.Bus
import Apple2ix.Cpu.Flags
import Apple2ix.Cpu.Opcodes

/-! What the instructions of the 65c02 do, apart from how a core computes it: on the registers, the
flags and a memory of 64K. -/
namespace Apple2ix.Cpu
set_option autoImplicit false

/-! ## Opcodes -/

/-- The operations of the accumulator, by the upper three bits of the opcode. -/
def accumulatorOp (row : UInt8) (mode : Mode) : Op :=
  match row.toNat with
  | 0 => .ora mode
  | 1 => .and mode
  | 2 => .eor mode
  | 3 => .adc mode
  | 4 => .sta mode
  | 5 => .lda mode
  | 6 => .cmp mode
  | _ => .sbc mode

/-- Their modes, by the middle three bits. A store takes the same time in every page. -/
def accumulatorMode (column : UInt8) (store : Bool) : Mode :=
  match column.toNat, store with
  | 0, _ => .indX
  | 1, _ => .zpage
  | 2, _ => .imm
  | 3, _ => .abs
  | 4, false => .indY
  | 4, true => .indYSta
  | 5, _ => .zpageX
  | 6, false => .absY
  | 6, true => .absYSta
  | _, false => .absX
  | _, true => .absXStx

/-- The shifts, increments, and loads and stores of X. -/
def memoryOp (row column : UInt8) : Option Op :=
  let inMemory (op : Mode → Op) (indexed : Mode) : Option Op :=
    match column.toNat with
    | 1 => some (op .zpage)
    | 3 => some (op .abs)
    | 5 => some (op .zpageX)
    | 7 => some (op indexed)
    | _ => none
  match row.toNat with
  | 0 => if column = 2 then some .aslAcc else if column = 6 then some .ina else inMemory .asl .absX
  | 1 => if column = 2 then some .rolAcc else if column = 6 then some .dea else inMemory .rol .absX
  | 2 => if column = 2 then some .lsrAcc else inMemory .lsr .absX
  | 3 => if column = 2 then some .rorAcc else inMemory .ror .absX
  | 4 =>
    match column.toNat with
    | 1 => some (.stx .zpage)
    | 2 => some .txa
    | 3 => some (.stx .abs)
    | 5 => some (.stx .zpageY)
    | 6 => some .txs
    | 7 => some (.stz .absXStx)
    | _ => none
  | 5 =>
    match column.toNat with
    | 0 => some (.ldx .imm)
    | 1 => some (.ldx .zpage)
    | 2 => some .tax
    | 3 => some (.ldx .abs)
    | 5 => some (.ldx .zpageY)
    | 6 => some .tsx
    | 7 => some (.ldx .absY)
    | _ => none
  | 6 => if column = 2 then some .dex else inMemory .dec .absXStx
  | _ => inMemory .inc .absXStx

/-- The tests of bits, and the loads, stores and comparisons of the index registers. -/
def indexOp (row column : UInt8) : Option Op :=
  match row.toNat, column.toNat with
  | 0, 1 => some (.tsb .zpage)
  | 0, 3 => some (.tsb .abs)
  | 0, 5 => some (.trb .zpage)
  | 0, 7 => some (.trb .abs)
  | 1, 1 => some (.bit .zpage)
  | 1, 3 => some (.bit .abs)
  | 1, 5 => some (.bit .zpageX)
  | 1, 7 => some (.bit .absX)
  | 3, 1 => some (.stz .zpage)
  | 3, 5 => some (.stz .zpageX)
  | 4, 1 => some (.sty .zpage)
  | 4, 2 => some .dey
  | 4, 3 => some (.sty .abs)
  | 4, 5 => some (.sty .zpageX)
  | 4, 6 => some .tya
  | 4, 7 => some (.stz .abs)
  | 5, 0 => some (.ldy .imm)
  | 5, 1 => some (.ldy .zpage)
  | 5, 2 => some .tay
  | 5, 3 => some (.ldy .abs)
  | 5, 5 => some (.ldy .zpageX)
  | 5, 7 => some (.ldy .absX)
  | 6, 0 => some (.cpy .imm)
  | 6, 1 => some (.cpy .zpage)
  | 6, 2 => some .iny
  | 6, 3 => some (.cpy .abs)
  | 7, 0 => some (.cpx .imm)
  | 7, 1 => some (.cpx .zpage)
  | 7, 2 => some .inx
  | 7, 3 => some (.cpx .abs)
  | _, _ => none

/-- The instruction of the 65c02 with this opcode, if it is a load, store, transfer, comparison,
increment, decrement, logical operation, shift, test of bits, addition or subtraction. -/
def dataOp (opcode : UInt8) : Option Op :=
  let row := opcode >>> 5
  let column := (opcode >>> 2) &&& 7
  match (opcode &&& 3).toNat with
  | 0 => indexOp row column
  | 1 =>
    if opcode = 0x89 then some .bitImm
    else some (accumulatorOp row (accumulatorMode column (row = 4)))
  | 2 => if column = 4 then some (accumulatorOp row .indZpage) else memoryOp row column
  | _ => none

/-- The jumps and branches, and the instructions of the flags and the stack. -/
def controlOp (opcode : UInt8) : Option Op :=
  match opcode.toNat with
  | 0x00 => some .brk
  | 0x20 => some .jsr
  | 0x40 => some .rti
  | 0x60 => some .rts
  | 0x4C => some .jmpAbs
  | 0x6C => some .jmpInd
  | 0x7C => some .jmpAbsIndX
  | 0x80 => some .bra
  | 0x10 => some .bpl
  | 0x30 => some .bmi
  | 0x50 => some .bvc
  | 0x70 => some .bvs
  | 0x90 => some .bcc
  | 0xB0 => some .bcs
  | 0xD0 => some .bne
  | 0xF0 => some .beq
  | 0x18 => some .clc
  | 0x38 => some .sec
  | 0x58 => some .cli
  | 0x78 => some .sei
  | 0xB8 => some .clv
  | 0xD8 => some .cld
  | 0xF8 => some .sed
  | 0x08 => some .php
  | 0x28 => some .plp
  | 0x48 => some .pha
  | 0x68 => some .pla
  | 0x5A => some .phy
  | 0x7A => some .ply
  | 0xDA => some .phx
  | 0xFA => some .plx
  | 0xEA => some .nop
  | _ => none

/-- The instruction of the 65c02 with this opcode, if there is one. -/
def opOf (opcode : UInt8) : Option Op := (dataOp opcode).or (controlOp opcode)

/-! ## Processors -/

/-- The bytes, and the writes so far. -/
structure Ram where
  cell : UInt16 → UInt8
  writes : List (UInt16 × UInt8)

def Ram.write (ram : Ram) (ea : UInt16) (b : UInt8) : Ram where
  cell := Function.update ram.cell ea b
  writes := ram.writes ++ [(ea, b)]

/-- The stack is page one. -/
def stackCell (sp : UInt8) : UInt16 := join 0x01 sp

def ramBus : Bus Ram where
  load := fun ram ea => (ram.cell ea, ram)
  store := Ram.write
  stackLoad := fun ram sp => ram.cell (stackCell sp)
  stackStore := fun ram sp b => ram.write (stackCell sp) b
  tick := fun ram _ => ram

/-- The registers, the cycles an instruction takes beyond those of its opcode, and memory. -/
@[ext] structure Processor where
  a : UInt8
  x : UInt8
  y : UInt8
  sp : UInt8
  pc : UInt16
  p : Status
  cycles : UInt8
  ram : Ram

namespace Processor

def spend (n : UInt8) (s : Processor) : Processor := { s with cycles := s.cycles + n }

/-! ## Operands -/

/-- The operand word at PC. -/
def word (s : Processor) : UInt16 := join (s.ram.cell (s.pc + 1)) (s.ram.cell s.pc)

/-- A pointer in page zero, which does not leave it. -/
def pointer (s : Processor) (at0 : UInt8) : UInt16 :=
  join (s.ram.cell (at0 + 1).toUInt16) (s.ram.cell at0.toUInt16)

/-- One cycle more where the index carries into the next page. -/
def crossing (base : UInt16) (index : UInt8) : UInt8 :=
  if hiByte (base + index.toUInt16) = hiByte base then 0 else 1

/-- The effective address. -/
def address (s : Processor) : Mode → UInt16
  | .imm => s.pc
  | .zpage => (s.ram.cell s.pc).toUInt16
  | .zpageX => (s.ram.cell s.pc + s.x).toUInt16
  | .zpageY => (s.ram.cell s.pc + s.y).toUInt16
  | .abs => s.word
  | .absX | .absXStx => s.word + s.x.toUInt16
  | .absY | .absYSta => s.word + s.y.toUInt16
  | .indX => s.pointer (s.ram.cell s.pc + s.x)
  | .indY | .indYSta => s.pointer (s.ram.cell s.pc) + s.y.toUInt16
  | .indZpage => s.pointer (s.ram.cell s.pc)

/-- The bytes of the operand. -/
def operandLength : Mode → UInt16
  | .abs | .absX | .absXStx | .absY | .absYSta => 2
  | _ => 1

def modeCycles (s : Processor) : Mode → UInt8
  | .absX => crossing s.word s.x
  | .absY => crossing s.word s.y
  | .indY => crossing (s.pointer (s.ram.cell s.pc)) s.y
  | _ => 0

/-- Past the operand. -/
def skip (mode : Mode) (s : Processor) : Processor :=
  { s with pc := s.pc + operandLength mode, cycles := s.cycles + s.modeCycles mode }

/-- The byte an instruction reads. -/
def operand (s : Processor) (mode : Mode) : UInt8 := s.ram.cell (s.address mode)

/-! ## Flags -/

def negative (value : UInt8) : Bool := decide (0x80 ≤ value.toNat)

theorem and_sign (value : UInt8) : (value &&& 0x80 != 0) = negative value := by
  have hv := value.toNat_lt
  rw [and_bit (k := 7) rfl, negative, decide_eq_decide]
  omega

def setNZ (value : UInt8) (p : Status) : Status := { p with n := negative value, z := value == 0 }

/-! ## Arithmetic -/

/-- The value of a byte in two's complement. -/
def signed (value : UInt8) : ℤ := if negative value then value.toNat - 0x100 else value.toNat

def carry (p : Status) : ℕ := p.c.toNat

/-- Binary addition; V says that the signed sum does not fit. -/
def addBinary (v : UInt8) (s : Processor) : Processor :=
  let sum := s.a.toNat + v.toNat + carry s.p
  let total := signed s.a + signed v + carry s.p
  let value := UInt8.ofNat sum
  { s with
    a := value
    p :=
      { setNZ value s.p with
        c := decide (0x100 ≤ sum)
        v := decide (total < -0x80 ∨ 0x7F < total) } }

/-- A byte of two decimal digits, and its value. -/
def IsBcd (value : UInt8) : Prop := value.toNat / 0x10 ≤ 9 ∧ value.toNat % 0x10 ≤ 9

instance (value : UInt8) : Decidable (IsBcd value) :=
  inferInstanceAs (Decidable (_ ∧ _))

def fromBcd (value : UInt8) : ℕ := 10 * (value.toNat / 0x10) + value.toNat % 0x10
def toBcd (n : ℕ) : UInt8 := UInt8.ofNat (0x10 * (n / 10 % 10) + n % 10)

/-- The tens and the units of a number. -/
theorem toBcd_digits {tens units : ℕ} (h : units < 10) :
    (toBcd (10 * tens + units)).toNat = 0x10 * (tens % 10) + units := by
  have htens : (10 * tens + units) / 10 = tens := by omega
  have hunits : (10 * tens + units) % 10 = units := by omega
  rw [toBcd, UInt8.toNat_ofNat', htens, hunits]
  omega

/-- Decimal addition, for which V is clear. -/
def addDecimal (v : UInt8) (s : Processor) : Processor :=
  let sum := fromBcd s.a + fromBcd v + carry s.p
  let value := toBcd sum
  { s with
    a := value
    p := { setNZ value s.p with c := decide (100 ≤ sum), v := false }
    cycles := s.cycles + 1 }

/-- Decimal subtraction; the carry is that there was no borrow. -/
def subDecimal (v : UInt8) (s : Processor) : Processor :=
  let sum := 100 + fromBcd s.a + carry s.p - (fromBcd v + 1)
  let value := toBcd sum
  { s with
    a := value
    p := { setNZ value s.p with c := decide (100 ≤ sum), v := false }
    cycles := s.cycles + 1 }

def adc (v : UInt8) (s : Processor) : Processor := if s.p.d then addDecimal v s else addBinary v s

/-- Binary subtraction adds the complement. -/
def sbc (v : UInt8) (s : Processor) : Processor :=
  if s.p.d then subDecimal v s else addBinary (~~~v) s

def compare (reg v : UInt8) (s : Processor) : Processor :=
  { s with p := { setNZ (reg - v) s.p with c := decide (v.toNat ≤ reg.toNat) } }

/-! ## Shifts -/

/-- What an operation on one byte gives, with the flags. -/
abbrev Shift := UInt8 → Status → UInt8 × Status

def asl : Shift := fun v p =>
  let value := v <<< 1
  (value, { setNZ value p with c := negative v })

def lsr : Shift := fun v p =>
  let value := v >>> 1
  (value, { setNZ value p with c := decide (v.toNat % 2 = 1) })

def rol : Shift := fun v p =>
  let value := v <<< 1 ||| p.c.toUInt8
  (value, { setNZ value p with c := negative v })

def ror : Shift := fun v p =>
  let value := v >>> 1 ||| p.c.toUInt8 <<< 7
  (value, { setNZ value p with c := decide (v.toNat % 2 = 1) })

def dec : Shift := fun v p => (v - 1, setNZ (v - 1) p)
def inc : Shift := fun v p => (v + 1, setNZ (v + 1) p)

/-- On the accumulator. -/
def onAcc (f : Shift) (s : Processor) : Processor :=
  { s with a := (f s.a s.p).1, p := (f s.a s.p).2 }

/-- On the byte at an address. -/
def onCell (f : Shift) (ea : UInt16) (s : Processor) : Processor :=
  { s with ram := s.ram.write ea (f (s.ram.cell ea) s.p).1, p := (f (s.ram.cell ea) s.p).2 }

/-! ## Loads and stores -/

def loadA (v : UInt8) (s : Processor) : Processor := { s with a := v, p := setNZ v s.p }
def loadX (v : UInt8) (s : Processor) : Processor := { s with x := v, p := setNZ v s.p }
def loadY (v : UInt8) (s : Processor) : Processor := { s with y := v, p := setNZ v s.p }

def storeCell (v : UInt8) (ea : UInt16) (s : Processor) : Processor :=
  { s with ram := s.ram.write ea v }

def testBits (v : UInt8) (s : Processor) : Processor :=
  { s with p := { s.p with n := negative v, v := v &&& 0x40 != 0, z := s.a &&& v == 0 } }

def testZero (v : UInt8) (s : Processor) : Processor :=
  { s with p := { s.p with z := s.a &&& v == 0 } }

/-! ## Branches and the stack -/

/-- The offset of a branch. -/
def offset (v : UInt8) : UInt16 := if negative v then 0xFF00 ||| v.toUInt16 else v.toUInt16

def branch (taken : Bool) (s : Processor) : Processor :=
  let next := s.pc + 1
  if taken then
    let target := next + offset (s.ram.cell s.pc)
    { s with
      pc := target
      cycles := s.cycles + (if hiByte target = hiByte next then 1 else 2) }
  else { s with pc := next }

def push (v : UInt8) (s : Processor) : Processor :=
  { s with ram := s.ram.write (stackCell s.sp) v, sp := s.sp - 1 }

def pushWord (w : UInt16) (s : Processor) : Processor := push (loByte w) (push (hiByte w) s)

/-- The byte the next pull takes. -/
def top (s : Processor) : UInt8 := s.ram.cell (stackCell (s.sp + 1))

def drop (s : Processor) : Processor := { s with sp := s.sp + 1 }

/-- The word the next two pulls take. -/
def topWord (s : Processor) : UInt16 := join s.drop.top s.top

/-- Pulled flags have B and X set. -/
def pullFlags (s : Processor) : Processor :=
  { s.drop with p := { flag6502.status s.top with b := true, x := true } }

def statusByte (s : Processor) : UInt8 := flag6502.ofStatus s.p

/-- D stays, as on the 6502. -/
def brk (s : Processor) : Processor :=
  let s := pushWord (s.pc + 1) s
  let s := { s with p := { s.p with b := true, x := true } }
  let s := push s.statusByte s
  { s with p := { s.p with i := true }, pc := join (s.ram.cell 0xFFFF) (s.ram.cell 0xFFFE) }

/-- The high byte of the target comes from the page of the low byte, as on the 6502. -/
def jmpInd (s : Processor) : Processor :=
  let at0 := s.word
  { s with pc := join (s.ram.cell (join (hiByte at0) (loByte at0 + 1))) (s.ram.cell at0) }

def jmpAbsIndX (s : Processor) : Processor :=
  let at0 := s.word + s.x.toUInt16
  { s with pc := join (s.ram.cell (at0 + 1)) (s.ram.cell at0) }

def rti (s : Processor) : Processor :=
  let s := s.pullFlags
  { s with pc := s.topWord, sp := s.sp + 2 }

/-! ## Instructions -/

/-- An instruction, its opcode fetched. -/
def exec (op : Op) (s : Processor) : Processor :=
  match op with
  | .adc m => adc (s.operand m) (s.skip m)
  | .and m => loadA (s.a &&& s.operand m) (s.skip m)
  | .asl m => onCell asl (s.address m) (s.skip m)
  | .aslAcc => onAcc asl s
  | .bcc => branch (!s.p.c) s
  | .bcs => branch s.p.c s
  | .beq => branch s.p.z s
  | .bit m => testBits (s.operand m) (s.skip m)
  | .bitImm => testZero (s.operand .imm) (s.skip .imm)
  | .bmi => branch s.p.n s
  | .bne => branch (!s.p.z) s
  | .bpl => branch (!s.p.n) s
  | .bra => branch true s
  | .brk => brk s
  | .bvc => branch (!s.p.v) s
  | .bvs => branch s.p.v s
  | .clc => { s with p := { s.p with c := false } }
  | .cld => { s with p := { s.p with d := false } }
  | .cli => { s with p := { s.p with i := false } }
  | .clv => { s with p := { s.p with v := false } }
  | .cmp m => compare s.a (s.operand m) (s.skip m)
  | .cpx m => compare s.x (s.operand m) (s.skip m)
  | .cpy m => compare s.y (s.operand m) (s.skip m)
  | .dea => onAcc dec s
  | .dec m => onCell dec (s.address m) (s.skip m)
  | .dex => loadX (s.x - 1) s
  | .dey => loadY (s.y - 1) s
  | .eor m => loadA (s.a ^^^ s.operand m) (s.skip m)
  | .ina => onAcc inc s
  | .inc m => onCell inc (s.address m) (s.skip m)
  | .inx => loadX (s.x + 1) s
  | .iny => loadY (s.y + 1) s
  | .jmpAbs => { s with pc := s.word }
  | .jmpInd => jmpInd s
  | .jmpAbsIndX => jmpAbsIndX s
  | .jsr => { pushWord (s.pc + 1) s with pc := s.word }
  | .lda m => loadA (s.operand m) (s.skip m)
  | .ldx m => loadX (s.operand m) (s.skip m)
  | .ldy m => loadY (s.operand m) (s.skip m)
  | .lsr m => onCell lsr (s.address m) (s.skip m)
  | .lsrAcc => onAcc lsr s
  | .ora m => loadA (s.a ||| s.operand m) (s.skip m)
  | .pha => push s.a s
  | .php => push s.statusByte s
  | .phx => push s.x s
  | .phy => push s.y s
  | .pla => loadA s.top s.drop
  | .plp => s.pullFlags
  | .plx => loadX s.top s.drop
  | .ply => loadY s.top s.drop
  | .rol m => onCell rol (s.address m) (s.skip m)
  | .rolAcc => onAcc rol s
  | .ror m => onCell ror (s.address m) (s.skip m)
  | .rorAcc => onAcc ror s
  | .rti => rti s
  | .rts => { s with pc := s.topWord + 1, sp := s.sp + 2 }
  | .sbc m => sbc (s.operand m) (s.skip m)
  | .sec => { s with p := { s.p with c := true } }
  | .sed => { s with p := { s.p with d := true } }
  | .sei => { s with p := { s.p with i := true } }
  | .sta m => storeCell s.a (s.address m) (s.skip m)
  | .stx m => storeCell s.x (s.address m) (s.skip m)
  | .sty m => storeCell s.y (s.address m) (s.skip m)
  | .stz m => storeCell 0 (s.address m) (s.skip m)
  | .tax => loadX s.a s
  | .tay => loadY s.a s
  | .trb m => storeCell (s.operand m &&& ~~~s.a) (s.address m) (testZero (s.operand m) (s.skip m))
  | .tsb m => storeCell (s.operand m ||| s.a) (s.address m) (testZero (s.operand m) (s.skip m))
  | .tsx => loadX s.sp s
  | .txa => loadA s.x s
  | .txs => { s with sp := s.x }
  | .tya => loadA s.y s
  | .bbr _ | .bbs _ | .rmb _ | .smb _ | .nop | .stp65c02 | .unk65c02 | .wai65c02 => s

/-- The instruction with an opcode that was fetched. An opcode that has none does nothing. -/
def instruction (opcode : UInt8) (s : Processor) : Processor :=
  match opOf opcode with
  | some op => s.exec op
  | none => s

end Processor

/-! ## A program -/

/-- `LDX #5`, `PHX` and `PLA` all over the memory. The vectors point to a `PHX`. -/
def pushing (ea : UInt16) : UInt8 := [0xA2, 0x05, 0xDA, 0x68].getD (ea.toNat % 4) 0

/-- Its opcodes. -/
def isPushing (opcode : UInt8) : Bool := opcode = 0xA2 || opcode = 0xDA || opcode = 0x68

theorem handlerOf_pushing {opcode : UInt8} (h : isPushing opcode = true) :
    handlerOf opcode = .ldx .imm ∨ handlerOf opcode = .phx ∨ handlerOf opcode = .pla := by
  simp only [isPushing, Bool.or_eq_true, decide_eq_true_iff] at h
  obtain (rfl | rfl) | rfl := h
  · exact .inl (by decide +kernel)
  · exact .inr (.inl (by decide +kernel))
  · exact .inr (.inr (by decide +kernel))

end Apple2ix.Cpu
