import Apple2ix.Cpu.Bus
import Apple2ix.Cpu.Flags
import Apple2ix.Cpu.Opcodes

/-! x86/cpu.S for x86_64: registers, macros and instructions, in the order of the source. -/
namespace Apple2ix.Cpu.X86
open Cpu
set_option autoImplicit false

universe u
variable {σ : Type u}

/-! ## Flags of the host -/

/-- CF, ZF, SF, OF and AF after an instruction. -/
structure HostFlags where
  cf : Bool
  zf : Bool
  sf : Bool
  ovf : Bool
  af : Bool

/-- The destination of an instruction and the flags. -/
structure Result where
  value : UInt8
  flags : HostFlags

def signBit (value : UInt8) : Bool := value &&& 0x80 != 0

/-- `adcb src, dst`. -/
def adcb (src dst : UInt8) (cf : Bool) : Result :=
  let value := dst + src + cf.toUInt8
  { value := value
    flags :=
      { cf := decide (0x100 ≤ dst.toNat + src.toNat + cf.toNat)
        zf := value == 0
        sf := signBit value
        ovf := signBit ((dst ^^^ value) &&& (src ^^^ value))
        af := decide (0x10 ≤ dst.toNat % 0x10 + src.toNat % 0x10 + cf.toNat) } }

def addb (src dst : UInt8) : Result := adcb src dst false

/-- `sbbb src, dst`. -/
def sbbb (src dst : UInt8) (cf : Bool) : Result :=
  let value := dst - src - cf.toUInt8
  { value := value
    flags :=
      { cf := decide (dst.toNat < src.toNat + cf.toNat)
        zf := value == 0
        sf := signBit value
        ovf := signBit ((dst ^^^ src) &&& (dst ^^^ value))
        af := decide (dst.toNat % 0x10 < src.toNat % 0x10 + cf.toNat) } }

/-- `subb src, dst`, and `cmpb` without its destination. -/
def subb (src dst : UInt8) : Result := sbbb src dst false

/-- The flags of `andb`, `orb`, `xorb` and `testb`. -/
def logic (value : UInt8) : Result :=
  ⟨value, { cf := false, zf := value == 0, sf := signBit value, ovf := false, af := false }⟩

/-- `shrb $1, x`. -/
def shrb (x : UInt8) : Result :=
  let r := logic (x >>> 1)
  { r with flags := { r.flags with cf := x &&& 1 != 0 } }

/-- `cmc`. -/
def HostFlags.cmc (flags : HostFlags) : HostFlags := { flags with cf := !flags.cf }

/-- `sarb $3, x`. -/
def sarb3 (x : UInt8) : UInt8 := x >>> 3 ||| (if signBit x then 0xE0 else 0)

/-! ## Registers -/

/-- The registers A, F, X, Y, PC and EffectiveAddr, the low word of `_XAX`, the fields of
`cpu65_run_args_s` that the core uses while it runs, and memory. -/
structure State (σ : Type u) where
  a : UInt8
  f : UInt8
  x : UInt8
  y : UInt8
  pc : UInt16
  ea : UInt16
  al : UInt8
  ah : UInt8
  sp : UInt8
  opcode : UInt8
  opcycles : UInt8
  rw : UInt8
  d : UInt8
  cycleCount : Int32
  cyclesToExecute : Int32
  signal : UInt8
  emulReinitialize : UInt8
  mem : σ

namespace State

def ax (s : State σ) : UInt16 := join s.ah s.al

def setAx (w : UInt16) (s : State σ) : State σ := { s with al := loByte w, ah := hiByte w }

/-- A flag of F_Reg. -/
def has (s : State σ) (flag : UInt8) : Bool := s.f &&& flag != 0

end State

/-! ## Helper routines -/

section Macros
variable (bus : Bus σ)

/-- `VMEM_RW_ACCESS(CPU65_VMEM_R)`. -/
def vmemR (s : State σ) : State σ :=
  { s with al := (bus.load s.mem s.ea).1, mem := (bus.load s.mem s.ea).2 }

/-- `VMEM_RW_ACCESS(CPU65_VMEM_W)`. -/
def vmemW (s : State σ) : State σ := { s with mem := bus.store s.mem s.ea s.al }

def getFromPcB (s : State σ) : State σ := vmemR bus { s with ea := s.pc, pc := s.pc + 1 }

def getFromPcW (s : State σ) : State σ :=
  let s := vmemR bus { s with ea := s.pc, pc := s.pc + 2 }
  let s := vmemR bus { s with ah := s.al, ea := s.ea + 1 }
  { s with al := s.ah, ah := s.al }

def getFromEaB (s : State σ) : State σ := vmemR bus { s with rw := s.rw ||| 1 }

def getFromEaW (s : State σ) : State σ :=
  let s := vmemR bus { s with ea := s.ea + 1 }
  vmemR bus { s with ea := s.ea - 1, ah := s.al }

def putToEaB (s : State σ) : State σ := vmemW bus { s with rw := s.rw ||| 2, d := s.al }

def getFromMemB (x : UInt16) (s : State σ) : State σ := vmemR bus { s with ea := x }

def getFromMemW (x : UInt16) (s : State σ) : State σ := getFromEaW bus { s with ea := x }

def countCycle (s : State σ) : State σ := { s with opcycles := s.opcycles + 1 }

/-- `cbw`. -/
def cbw (al : UInt8) : UInt16 := if signBit al then 0xFF00 ||| al.toUInt16 else al.toUInt16

def branchXCycles (s : State σ) : State σ :=
  let s := countCycle s
  let bx := s.pc
  let s := s.setAx (cbw s.al + bx)
  let s := { s with pc := s.ax }
  if s.ah = hiByte bx then s else countCycle s

/-- `lahf`, the parity and adjust flags aside, which every mask drops. -/
def lahf (flags : HostFlags) : UInt8 :=
  (0x02 : UInt8) ||| flags.cf.toUInt8 ||| flags.zf.toUInt8 <<< 6 ||| flags.sf.toUInt8 <<< 7

/-- The body of the `Flag…` macros that use `lahf`. -/
def takeFlags (mask : UInt8) (flags : HostFlags) (s : State σ) : State σ :=
  { s with ah := lahf flags &&& mask, f := s.f &&& ~~~mask ||| lahf flags &&& mask }

def flagZ : HostFlags → State σ → State σ := takeFlags flagX86.z
def flagNZ : HostFlags → State σ → State σ := takeFlags (flagX86.n ||| flagX86.z)
def flagNZC : HostFlags → State σ → State σ := takeFlags (flagX86.n ||| flagX86.z ||| flagX86.c)

/-- OF is bit 11 of the flags that `pushf` pushes. -/
def flagNVZC (flags : HostFlags) (s : State σ) : State σ :=
  let al := lahf flags &&& (flagX86.n ||| flagX86.z ||| flagX86.c)
  let ah := flags.ovf.toUInt8 <<< 3 &&& flagX86.v
  { s with
    al := al
    ah := ah
    f := s.f &&& ~~~(flagX86.n ||| flagX86.v ||| flagX86.z ||| flagX86.c) ||| ah ||| al }

def push (x : UInt8) (s : State σ) : State σ :=
  { s with mem := bus.stackStore s.mem s.sp x, sp := s.sp - 1 }

/-- `Pop`, up to the register it loads. -/
def pop (s : State σ) : UInt8 × State σ :=
  (bus.stackLoad s.mem (s.sp + 1), { s with sp := s.sp + 1 })

/-! ## Addressing -/

def getImm (s : State σ) : State σ := { s with ea := s.pc, pc := s.pc + 1 }

/-- `movLQ _XAX, EffectiveAddr_X`. -/
def eaFromAx (s : State σ) : State σ := { s with ea := s.ax }

def getAbs (s : State σ) : State σ := eaFromAx (getFromPcW bus s)

def getZPage (s : State σ) : State σ := eaFromAx (getFromPcB bus s)

def addAl (index : UInt8) (s : State σ) : State σ := { s with al := s.al + index }

def getZPageX (s : State σ) : State σ :=
  let s := getFromPcB bus s
  eaFromAx (addAl s.x s)

def getZPageY (s : State σ) : State σ :=
  let s := getFromPcB bus s
  eaFromAx (addAl s.y s)

/-- An index added to `%ax`; `boundary` is what is done when there is a carry. -/
def addIndex (index : UInt8) (boundary : State σ → State σ) (s : State σ) : State σ :=
  let r := addb index s.al
  let s := { s with al := r.value }
  eaFromAx (if r.flags.cf then boundary { s with ah := s.ah + 1 } else s)

def getAbsX (s : State σ) : State σ :=
  let s := getFromPcW bus s
  addIndex s.x countCycle s

def getAbsXStx (s : State σ) : State σ :=
  let s := getFromPcW bus s
  addIndex s.x id s

def getAbsY (s : State σ) : State σ :=
  let s := getFromPcW bus s
  addIndex s.y countCycle s

def getAbsYSta (s : State σ) : State σ :=
  let s := getFromPcW bus s
  addIndex s.y id s

/-- The pointer at `%al` in page zero, its high byte first. -/
def indZPage (s : State σ) : State σ :=
  let s := eaFromAx (addAl 1 s)
  let s := getFromEaB bus s
  let s := { s with ah := s.al, ea := (s.ea - 1) &&& 0xFF }
  getFromEaB bus s

def getIndZPage (s : State σ) : State σ := eaFromAx (indZPage bus (getFromPcB bus s))

def getIndZPageX (s : State σ) : State σ :=
  let s := getFromPcB bus s
  eaFromAx (indZPage bus (addAl s.x s))

def getIndZPageY (s : State σ) : State σ :=
  let s := indZPage bus (getFromPcB bus s)
  addIndex s.y countCycle s

def getIndZPageYSta (s : State σ) : State σ :=
  let s := indZPage bus (getFromPcB bus s)
  addIndex s.y id s

def getMode : Mode → State σ → State σ
  | .imm => getImm
  | .zpage => getZPage bus
  | .zpageX => getZPageX bus
  | .zpageY => getZPageY bus
  | .abs => getAbs bus
  | .absX => getAbsX bus
  | .absXStx => getAbsXStx bus
  | .absY => getAbsY bus
  | .absYSta => getAbsYSta bus
  | .indX => getIndZPageX bus
  | .indY => getIndZPageY bus
  | .indYSta => getIndZPageYSta bus
  | .indZpage => getIndZPage bus

/-! ## Operations -/

/-- `bt $C_Flag_Bit, AF_Reg_X`. -/
def btC (s : State σ) : Bool := s.has flagX86.c

def doAdcB (s : State σ) : State σ :=
  let s := getFromEaB bus s
  let r := adcb s.al s.a (btC s)
  flagNVZC r.flags { s with a := r.value }

/-- The end of both decimal routines: N, Z and A from `%al`. -/
def decFinish (s : State σ) : State σ :=
  let s := if s.al &&& 0x80 != 0 then { s with f := s.f ||| flagX86.n } else s
  let s := if s.al != 0 then s else { s with f := s.f ||| flagX86.z }
  { s with a := s.al }

/-- `op_ADC_dec`, once the operand is in `%al`. -/
def addLoaded (s : State σ) : State σ :=
  let r := adcb s.a s.al (btC s)
  let f := s.f &&& ~~~(flagX86.n ||| flagX86.v ||| flagX86.z ||| flagX86.c)
  let lo := if 9 < r.value &&& 0x0F ∨ r.flags.af then addb 6 r.value
    else ⟨r.value, ⟨false, false, false, false, false⟩⟩
  if lo.flags.cf ∨ r.flags.cf ∨ 0x99 < lo.value then
    decFinish { s with al := lo.value + 0x60, f := f ||| flagX86.c }
  else decFinish { s with al := lo.value, f := f }

def opAdcDec (s : State σ) : State σ := addLoaded (getFromEaB bus (countCycle s))

/-- `maybe_DoADC_d`, and the binary addition. -/
def doAdc (s : State σ) : State σ := if s.has flagX86.d then opAdcDec bus s else doAdcB bus s

/-- Loads of A, X and Y and the transfers: the flags of the value. -/
def orFlags (value : UInt8) (s : State σ) : State σ := flagNZ (logic value).flags s

def doAnd (s : State σ) : State σ :=
  let s := getFromEaB bus s
  let r := logic (s.a &&& s.al)
  flagNZ r.flags { s with a := r.value }

def doEor (s : State σ) : State σ :=
  let s := getFromEaB bus s
  let r := logic (s.a ^^^ s.al)
  flagNZ r.flags { s with a := r.value }

def doOra (s : State σ) : State σ :=
  let s := getFromEaB bus s
  let r := logic (s.a ||| s.al)
  flagNZ r.flags { s with a := r.value }

def doBit (s : State σ) : State σ :=
  let s := getFromEaB bus s
  let al := sarb3 s.al &&& 0x88
  let ah := lahf (logic (s.a &&& s.al)).flags &&& 0x40
  { s with
    al := al
    ah := ah
    f := s.f &&& ~~~(flagX86.n ||| flagX86.v ||| flagX86.z) ||| al ||| ah }

def opBitImm (s : State σ) : State σ :=
  let s := getFromEaB bus (getImm s)
  flagZ (logic (s.a &&& s.al)).flags s

def compare (reg : UInt8) (s : State σ) : State σ := flagNZC (subb s.al reg).flags.cmc s

def doCmp (s : State σ) : State σ :=
  let s := getFromEaB bus s
  compare s.a s

def doCpx (s : State σ) : State σ :=
  let s := getFromEaB bus s
  compare s.x s

def doCpy (s : State σ) : State σ :=
  let s := getFromEaB bus s
  compare s.y s

def doLda (s : State σ) : State σ :=
  let s := getFromEaB bus s
  orFlags s.al { s with a := s.al }

def doLdx (s : State σ) : State σ :=
  let s := getFromEaB bus s
  orFlags s.al { s with x := s.al }

def doLdy (s : State σ) : State σ :=
  let s := getFromEaB bus s
  orFlags s.al { s with y := s.al }

/-- An operation on a byte of memory. -/
def modify (f : UInt8 → State σ → Result) (flag : HostFlags → State σ → State σ) (s : State σ) :
    State σ :=
  let s := getFromEaB bus s
  let r := f s.al s
  putToEaB bus (flag r.flags { s with al := r.value })

/-- The same on the accumulator. -/
def modifyAcc (f : UInt8 → State σ → Result) (flag : HostFlags → State σ → State σ) (s : State σ) :
    State σ :=
  let r := f s.a s
  flag r.flags { s with a := r.value }

def aslb (x : UInt8) (_ : State σ) : Result := addb x x
def decb (x : UInt8) (_ : State σ) : Result := subb 1 x
def incb (x : UInt8) (_ : State σ) : Result := addb 1 x
def lsrb (x : UInt8) (_ : State σ) : Result := shrb x
def rolb (x : UInt8) (s : State σ) : Result := adcb x x (btC s)

/-- `rorLQ $1, _XAX` with F in `%ah`, whose carry it moves into `%al`, and the old bit 0 into bit 63
of `_XAX`; `btr` takes it from there and leaves the flags of `orb %al, %al`. -/
def rorb (x : UInt8) (s : State σ) : Result :=
  let rax := (join s.f x).toUInt64
  let rax := rax >>> 1 ||| rax <<< 63
  let r := logic rax.toUInt8
  { r with flags := { r.flags with cf := rax >>> 63 != 0 } }

def opRorAcc (s : State σ) : State σ :=
  let cx := join s.f s.a
  let cf := cx &&& 1 != 0
  let cx := cx >>> 1 ||| cx <<< 15
  let s := { s with a := loByte cx, f := hiByte cx }
  let s := { s with f := (adcb s.f s.f cf).value }
  orFlags s.a s

def doSbcB (s : State σ) : State σ :=
  let s := getFromEaB bus s
  let r := adcb (~~~s.al) s.a (btC s)
  flagNVZC r.flags { s with a := r.value }

/-- `op_SBC_dec`, once the operand is in `%al`. -/
def subLoaded (s : State σ) : State σ :=
  let r := sbbb s.al s.a (!btC s)
  let f := s.f &&& ~~~(flagX86.n ||| flagX86.v ||| flagX86.z) ||| flagX86.c
  let lo := if 9 < r.value &&& 0x0F ∨ r.flags.af then subb 6 r.value
    else ⟨r.value, ⟨false, false, false, false, false⟩⟩
  if lo.flags.cf ∨ r.flags.cf ∨ 0x99 < lo.value then
    decFinish { s with al := lo.value - 0x60, f := f &&& ~~~flagX86.c }
  else decFinish { s with al := lo.value, f := f }

def opSbcDec (s : State σ) : State σ := subLoaded (getFromEaB bus (countCycle s))

def doSbc (s : State σ) : State σ := if s.has flagX86.d then opSbcDec bus s else doSbcB bus s

/-- `DoSTA` and the like. -/
def doStore (value : UInt8) (s : State σ) : State σ := putToEaB bus { s with al := value }

def doTrb (s : State σ) : State σ :=
  let s := getFromEaB bus s
  let s := flagZ (logic (s.al &&& s.a)).flags s
  putToEaB bus { s with al := s.al &&& ~~~s.a }

def doTsb (s : State σ) : State σ :=
  let s := getFromEaB bus s
  let s := flagZ (logic (s.al &&& s.a)).flags s
  putToEaB bus { s with al := s.al ||| s.a }

/-- The branches: `taken` looks at F after the operand is fetched. -/
def branch (taken : State σ → Bool) (s : State σ) : State σ :=
  let s := getFromPcB bus s
  if taken s then branchXCycles s else s

def setFlag (flag : UInt8) (s : State σ) : State σ := { s with f := s.f ||| flag }
def clearFlag (flag : UInt8) (s : State σ) : State σ := { s with f := s.f &&& ~~~flag }

/-- `MOVB_IND(CPU65_FLAGS_ENCODE,_XAX,%al)` of F. -/
def encodeFlags (s : State σ) : State σ := { s with al := flagX86.encode s.f }

/-- `%ax` is pushed, the high byte first. -/
def pushAx (s : State σ) : State σ :=
  let s := push bus s.ah s
  push bus s.al s

/-- PC from the vector at FFFE. -/
def interruptVector (s : State σ) : State σ :=
  let s := getFromEaW bus { s with ea := 0xFFFE }
  { s with pc := s.ax }

/-- `op_BRK` up to its last `Push`, which is of `%al`. -/
def brkFrame (s : State σ) : State σ :=
  let s := { s with pc := s.pc + 1 }
  let s := pushAx bus (s.setAx s.pc)
  let s := setFlag (flagX86.b ||| flagX86.x) s
  encodeFlags { s with ah := 0 }

def opBrk (s : State σ) : State σ :=
  let s := brkFrame bus s
  let s := push bus s.al s
  interruptVector bus (setFlag flagX86.i s)

def opJmpAbs (s : State σ) : State σ :=
  let s := getAbs bus s
  { s with pc := s.ea }

def opJmpInd (s : State σ) : State σ :=
  let s := getFromPcW bus s
  if s.al = 0xFF then
    let s := { s with pc := s.ax }
    let s := { s with pc := s.pc - 0xFF }
    let s := getFromMemB bus s.pc s
    let s := { s with al := s.ah, ah := s.al }
    let s := { s with pc := s.pc + 0xFF }
    let s := getFromMemB bus s.pc s
    { s with pc := s.ax }
  else
    let s := getFromMemW bus s.ax s
    { s with pc := s.ax }

def opJmpAbsIndX (s : State σ) : State σ :=
  let s := getFromPcW bus s
  let s := { s with ea := s.ax }
  let s := s.setAx s.x.toUInt16
  let s := { s with ea := s.ea + s.ax }
  let s := getFromMemW bus s.ea s
  { s with pc := s.ax }

def opJsr (s : State σ) : State σ :=
  let s := getAbs bus s
  let s := pushAx bus (s.setAx (s.pc - 1))
  { s with pc := s.ea }

def opPhp (s : State σ) : State σ :=
  let s := encodeFlags { s with al := s.f }
  push bus s.al s

/-- F from a byte of the stack. -/
def popFlags (s : State σ) : State σ :=
  let (al, s) := pop bus s
  setFlag (flagX86.b ||| flagX86.x) { s with al := al, f := flagX86.decode al }

/-- `%ax` from the stack, the low byte first. -/
def popAx (s : State σ) : State σ :=
  let (al, s) := pop bus s
  let (ah, s) := pop bus { s with al := al }
  { s with ah := ah }

def opPla (s : State σ) : State σ :=
  let (a, s) := pop bus s
  orFlags a { s with a := a }

def opPlx (s : State σ) : State σ :=
  let (x, s) := pop bus s
  orFlags x { s with x := x }

def opPly (s : State σ) : State σ :=
  let (y, s) := pop bus s
  orFlags y { s with y := y }

def opRti (s : State σ) : State σ :=
  let s := popAx bus (popFlags bus s)
  { s with pc := s.ax }

def opRts (s : State σ) : State σ :=
  let s := popAx bus s
  let s := s.setAx (s.ax + 1)
  { s with pc := s.ax }

/-! ## Handlers -/

def run (op : Op) (s : State σ) : State σ :=
  match op with
  | .adc mode => doAdc bus (getMode bus mode s)
  | .and mode => doAnd bus (getMode bus mode s)
  | .asl mode => modify bus aslb flagNZC (getMode bus mode s)
  | .aslAcc => modifyAcc aslb flagNZC s
  | .bcc => branch bus (fun s => !s.has flagX86.c) s
  | .bcs => branch bus (fun s => s.has flagX86.c) s
  | .beq => branch bus (fun s => s.has flagX86.z) s
  | .bit mode => doBit bus (getMode bus mode s)
  | .bitImm => opBitImm bus s
  | .bmi => branch bus (fun s => signBit s.f) s
  | .bne => branch bus (fun s => !s.has flagX86.z) s
  | .bpl => branch bus (fun s => !signBit s.f) s
  | .bra => branch bus (fun _ => true) s
  | .brk => opBrk bus s
  | .bvc => branch bus (fun s => !s.has flagX86.v) s
  | .bvs => branch bus (fun s => s.has flagX86.v) s
  | .clc => clearFlag flagX86.c s
  | .cld => clearFlag flagX86.d s
  | .cli => clearFlag flagX86.i s
  | .clv => clearFlag flagX86.v s
  | .cmp mode => doCmp bus (getMode bus mode s)
  | .cpx mode => doCpx bus (getMode bus mode s)
  | .cpy mode => doCpy bus (getMode bus mode s)
  | .dea => modifyAcc decb flagNZ s
  | .dec mode => modify bus decb flagNZ (getMode bus mode s)
  | .dex =>
    let r := decb s.x s
    flagNZ r.flags { s with x := r.value }
  | .dey =>
    let r := decb s.y s
    flagNZ r.flags { s with y := r.value }
  | .eor mode => doEor bus (getMode bus mode s)
  | .ina => modifyAcc incb flagNZ s
  | .inc mode => modify bus incb flagNZ (getMode bus mode s)
  | .inx =>
    let r := incb s.x s
    flagNZ r.flags { s with x := r.value }
  | .iny =>
    let r := incb s.y s
    flagNZ r.flags { s with y := r.value }
  | .jmpAbs => opJmpAbs bus s
  | .jmpInd => opJmpInd bus s
  | .jmpAbsIndX => opJmpAbsIndX bus s
  | .jsr => opJsr bus s
  | .lda mode => doLda bus (getMode bus mode s)
  | .ldx mode => doLdx bus (getMode bus mode s)
  | .ldy mode => doLdy bus (getMode bus mode s)
  | .lsr mode => modify bus lsrb flagNZC (getMode bus mode s)
  | .lsrAcc => modifyAcc lsrb flagNZC s
  | .ora mode => doOra bus (getMode bus mode s)
  | .pha => push bus s.a s
  | .php => opPhp bus s
  | .phx => push bus s.x s
  | .phy => push bus s.y s
  | .pla => opPla bus s
  | .plp => popFlags bus s
  | .plx => opPlx bus s
  | .ply => opPly bus s
  | .rol mode => modify bus rolb flagNZC (getMode bus mode s)
  | .rolAcc => modifyAcc rolb flagNZC s
  | .ror mode => modify bus rorb flagNZC (getMode bus mode s)
  | .rorAcc => opRorAcc s
  | .rti => opRti bus s
  | .rts => opRts bus s
  | .sbc mode => doSbc bus (getMode bus mode s)
  | .sec => setFlag flagX86.c s
  | .sed => setFlag flagX86.d s
  | .sei => setFlag flagX86.i s
  | .sta mode =>
    let s := getMode bus mode s
    doStore bus s.a s
  | .stx mode =>
    let s := getMode bus mode s
    doStore bus s.x s
  | .sty mode =>
    let s := getMode bus mode s
    doStore bus s.y s
  | .stz mode => doStore bus 0 (getMode bus mode s)
  | .tax => orFlags s.a { s with x := s.a }
  | .tay => orFlags s.a { s with y := s.a }
  | .trb mode => doTrb bus (getMode bus mode s)
  | .tsb mode => doTsb bus (getMode bus mode s)
  | .tsx => orFlags s.sp { s with x := s.sp }
  | .txa => orFlags s.x { s with a := s.x }
  | .txs => { s with sp := s.x }
  | .tya => orFlags s.y { s with a := s.y }
  | .bbr _ | .bbs _ | .rmb _ | .smb _ | .nop | .stp65c02 | .unk65c02 | .wai65c02 => s

end Macros

end Apple2ix.Cpu.X86
