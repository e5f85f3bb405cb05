import Apple2ix.Cpu.Bus
import Apple2ix.Cpu.Flags
import Apple2ix.Cpu.Opcodes

/-! arm/cpu.S: registers, macros and instructions, in the order of the source. The registers of the
65c02 are in words of the host. -/
namespace Apple2ix.Cpu.Arm
open Cpu
set_option autoImplicit false

universe u
variable {σ : Type u}

/-! ## Host instructions -/

/-- `__aarch64__` or not. -/
inductive Arch
  | aarch64
  | arm32
  deriving DecidableEq, Repr

/-- The flags in APSR. -/
structure Nzcv where
  n : Bool
  z : Bool
  c : Bool
  v : Bool
  deriving DecidableEq, Repr

/-- The destination of an instruction and the flags. -/
structure Result where
  value : UInt32
  flags : Nzcv

def signBit (w : UInt32) : Bool := w &&& 0x80000000 != 0

/-- `adcs`; `adds` has no carry in. -/
def adcs (x y : UInt32) (c : Bool) : Result :=
  let value := x + y + (if c then 1 else 0)
  { value := value
    flags :=
      { n := signBit value
        z := value == 0
        c := decide (2 ^ 32 ≤ x.toNat + y.toNat + c.toNat)
        v := signBit ((x ^^^ value) &&& (y ^^^ value)) } }

def adds (x y : UInt32) : Result := adcs x y false

/-- `subs`, and `cmp` without its destination: the carry is that there is no borrow. -/
def subs (x y : UInt32) : Result := adcs x (~~~y) true

/-- The flags of `ands` and `tst`. Only aarch64 clears C and V. -/
def logic (arch : Arch) (value : UInt32) (old : Nzcv) : Nzcv :=
  match arch with
  | .aarch64 => { n := signBit value, z := value == 0, c := false, v := false }
  | .arm32 => { old with n := signBit value, z := value == 0 }

/-- `ror`. -/
def ror (x n : UInt32) : UInt32 := x >>> n ||| x <<< (32 - n)

/-- `mrs` of APSR. -/
def mrs (flags : Nzcv) : UInt32 :=
  flags.n.toUInt32 <<< 31 ||| flags.z.toUInt32 <<< 30 ||| flags.c.toUInt32 <<< 29 |||
    flags.v.toUInt32 <<< 28

/-! ## Registers -/

/-- A_Reg and the like, `wr0`, the host flags, the fields of `cpu65_run_args_s` that the core uses
while it runs, and memory. -/
structure State (σ : Type u) where
  a : UInt32
  f : UInt32
  x : UInt32
  y : UInt32
  sp : UInt32
  pc : UInt32
  ea : UInt32
  r0 : UInt32
  apsr : Nzcv
  opcode : UInt8
  opcycles : UInt8
  rw : UInt8
  d : UInt8
  cycleCount : Int32
  cyclesToExecute : Int32
  signal : UInt8
  emulReinitialize : UInt8
  mem : σ

/-- Memory as this core sees it: the registers go to the handlers and into the stack page as they
are. A handler that reads leaves a byte in `wr0`, and one that writes takes the low byte. -/
structure WideBus (σ : Type u) where
  load : σ → UInt32 → UInt8 × σ
  store : σ → UInt32 → UInt8 → σ
  stackLoad : σ → UInt32 → UInt8
  stackStore : σ → UInt32 → UInt8 → σ
  tick : σ → UInt32 → σ

/-- The same memory, for registers that are in range. -/
def wide (bus : Bus σ) : WideBus σ where
  load := fun mem ea => bus.load mem ea.toUInt16
  store := fun mem ea b => bus.store mem ea.toUInt16 b
  stackLoad := fun mem sp => bus.stackLoad mem sp.toUInt8
  stackStore := fun mem sp b => bus.stackStore mem sp.toUInt8 b
  tick := fun mem cycles => bus.tick mem cycles.toUInt8

/-! ## Helper macros -/

def addUint16 (x amt : UInt32) : UInt32 := (x + amt) &&& ~~~0xFF0000

def incUint16 (x : UInt32) : UInt32 := addUint16 x 1

def incUint8 (x : UInt32) : UInt32 := (x + 1) &&& 0xFF

def decUint8 (x : UInt32) : UInt32 := (x - 1) &&& 0xFF

section Macros
variable (bus : WideBus σ)

/-- The handler of `reg_vmem_r` at the page of EffectiveAddr. -/
def vmemR (s : State σ) : State σ :=
  { s with r0 := (bus.load s.mem s.ea).1.toUInt32, mem := (bus.load s.mem s.ea).2 }

def getFromPcB (s : State σ) : State σ := vmemR bus { s with ea := s.pc, pc := incUint16 s.pc }

/-- The second byte of a word: PC_Reg holds PC above the first. -/
def hiByteToWord (s : State σ) : State σ :=
  let s := vmemR bus { s with pc := s.pc ||| s.r0, ea := incUint16 s.ea }
  { s with r0 := (s.pc ||| s.r0 <<< 8) <<< 16 >>> 16, pc := s.pc >>> 16 }

def getFromPcW (s : State σ) : State σ :=
  hiByteToWord bus (vmemR bus { s with ea := s.pc, pc := addUint16 s.pc 2 <<< 16 })

def getFromEaB (s : State σ) : State σ := vmemR bus { s with rw := s.rw ||| 1 }

def getFromEaW (s : State σ) : State σ :=
  hiByteToWord bus (vmemR bus { s with pc := s.pc <<< 16 })

def putToEaB (s : State σ) : State σ :=
  { s with d := s.r0.toUInt8, rw := s.rw ||| 2, mem := bus.store s.mem s.ea s.r0.toUInt8 }

def getFromMemB (x : UInt32) (s : State σ) : State σ := vmemR bus { s with ea := x }

def getFromMemW (x : UInt32) (s : State σ) : State σ := getFromEaW bus { s with ea := x }

/-- `cbw`. -/
def cbw (x : UInt32) : UInt32 := ((x <<< 24).toInt32 >>> 24).toUInt32

def addOpCycles (x : UInt32) (s : State σ) : State σ :=
  { s with opcycles := (s.opcycles.toUInt32 + x).toUInt8 }

def flagNotZero (flags : Nzcv) : UInt32 := ((mrs flags >>> 30) &&& 1) ^^^ 1

/-- `cmp x, #0`. -/
def cmpZero (x : UInt32) (s : State σ) : State σ := { s with apsr := (subs x 0).flags }

def branchXCycles (s : State σ) : State σ :=
  let scratchCount := s.opcycles.toUInt32 + 1
  let pcHiPrev := s.pc >>> 8
  let s := { s with r0 := cbw s.r0 }
  let s : State σ := { s with pc := (s.pc + s.r0) &&& ~~~0xFF0000 }
  let pcHiNext := s.pc >>> 8
  let s := { s with r0 := pcHiNext ^^^ pcHiPrev }
  let s := cmpZero s.r0 s
  { s with opcycles := (scratchCount + flagNotZero s.apsr).toUInt8 }

def lahf (flags : Nzcv) : UInt32 := mrs flags >>> 28

/-- `bic` and `orr` of F_Reg. -/
def bicF (mask : UInt8) (s : State σ) : State σ := { s with f := s.f &&& ~~~mask.toUInt32 }
def orrF (w : UInt32) (s : State σ) : State σ := { s with f := s.f ||| w }

/-- `FlagZ` and the like. -/
def takeFlags (mask : UInt8) (s : State σ) : State σ :=
  orrF (lahf s.apsr &&& mask.toUInt32) (bicF mask s)

def flagZ : State σ → State σ := takeFlags flagArm.z
def flagNZ : State σ → State σ := takeFlags (flagArm.n ||| flagArm.z)
def flagNZC : State σ → State σ := takeFlags (flagArm.n ||| flagArm.z ||| flagArm.c)

/-- `tst F_Reg, #flag`, where a branch depends on it. -/
def State.has (s : State σ) (flag : UInt8) : Bool := s.f &&& flag.toUInt32 != 0

def push (x : UInt32) (s : State σ) : State σ :=
  { s with mem := bus.stackStore s.mem s.sp x.toUInt8, sp := decUint8 s.sp }

/-- `Pop`, up to the register it loads. -/
def pop (s : State σ) : UInt32 × State σ :=
  let s := { s with sp := incUint8 s.sp }
  ((bus.stackLoad s.mem s.sp).toUInt32, s)

/-! ## Addressing -/

/-- `mov EffectiveAddr, wr0`. -/
def eaFromR0 (s : State σ) : State σ := { s with ea := s.r0 }

def getImm (s : State σ) : State σ := { s with ea := s.pc, pc := incUint16 s.pc }

def getAbs (s : State σ) : State σ := eaFromR0 (getFromPcW bus s)

def getZPage (s : State σ) : State σ := eaFromR0 (getFromPcB bus s)

def getZPageX (s : State σ) : State σ :=
  let s := getFromPcB bus s
  eaFromR0 { s with r0 := (s.r0 + s.x) &&& ~~~0x100 }

def getZPageY (s : State σ) : State σ :=
  let s := getFromPcB bus s
  eaFromR0 { s with r0 := (s.r0 + s.y) &&& ~~~0x100 }

/-- `AddIndexReg` and what follows where a page boundary takes no cycle. -/
def addIndexReg (index : UInt32) (s : State σ) : State σ :=
  eaFromR0 { s with r0 := (s.r0 + index) &&& ~~~0x10000 }

/-- The same with `TestPageBoundary` and `AddOpCycles`. -/
def addIndexRegTest (index : UInt32) (s : State σ) : State σ :=
  let eaHiPrev := s.r0 >>> 8
  let s : State σ := { s with r0 := (s.r0 + index) &&& ~~~0x10000 }
  let eaHiNext := s.r0 >>> 8
  let s := cmpZero (eaHiPrev ^^^ eaHiNext) s
  eaFromR0 (addOpCycles (flagNotZero s.apsr) s)

def getAbsX (s : State σ) : State σ :=
  let s := getFromPcW bus s
  addIndexRegTest s.x s

def getAbsXStx (s : State σ) : State σ :=
  let s := getFromPcW bus s
  addIndexReg s.x s

def getAbsY (s : State σ) : State σ :=
  let s := getFromPcW bus s
  addIndexRegTest s.y s

def getAbsYSta (s : State σ) : State σ :=
  let s := getFromPcW bus s
  addIndexReg s.y s

/-- The pointer at EffectiveAddr, its low byte first. -/
def indZPage (s : State σ) : State σ :=
  let s := getFromEaB bus s
  let lo := s.r0
  let s := getFromEaB bus { s with ea := (s.ea + 1) &&& ~~~0x100 }
  { s with r0 := lo ||| s.r0 <<< 8 }

def getIndZPage (s : State σ) : State σ := eaFromR0 (indZPage bus (getZPage bus s))

def getIndZPageX (s : State σ) : State σ :=
  let s := getZPage bus s
  eaFromR0 (indZPage bus { s with ea := (s.ea + s.x) &&& ~~~0x100 })

def getIndZPageY (s : State σ) : State σ :=
  let s := indZPage bus (getZPage bus s)
  addIndexRegTest s.y s

def getIndZPageYSta (s : State σ) : State σ :=
  let s := indZPage bus (getZPage bus s)
  addIndexReg s.y s

def getMode : Mode → State σ → State σ
  | .imm => getImm
  | .zpage => getZPage bus
  | .zpageX => getZPageX bus
  | .zpageY => getZPageY bus
  | .abs => getAbs bus
  | .absX => getAbsX bus
  | .absXStx => getAbsXStx bus
  | .absY => getAbsY bus
  | .absYSta => getAbsYSta bus
  | .indX => getIndZPageX bus
  | .indY => getIndZPageY bus
  | .indYSta => getIndZPageYSta bus
  | .indZpage => getIndZPage bus

end Macros

/-! ## Operations -/

section Operations
variable (arch : Arch) (bus : WideBus σ)

/-- `ands wr1, x, #0xFF` and `FlagZ`. -/
def zeroByte (x : UInt32) (s : State σ) : State σ :=
  flagZ { s with apsr := logic arch (x &&& 0xFF) s.apsr }

/-- N_Flag from bit 7. -/
def negByte (x : UInt32) (s : State σ) : State σ := orrF ((x &&& 0x80) >>> 4) s

/-- C_Flag as 0 or 1. -/
def carryIn (s : State σ) : UInt32 := (s.f &&& flagArm.c.toUInt32) >>> 1

def nvzcFlags : UInt8 := flagArm.n ||| flagArm.v ||| flagArm.z ||| flagArm.c

/-- `merge nybbles` and the flags, at the end of both decimal routines. -/
def mergeNybbles (loNyb : UInt32) (s : State σ) : State σ :=
  let s := { s with a := s.r0 <<< 4 ||| loNyb, r0 := s.r0 <<< 4 }
  let s := negByte s.a s
  zeroByte arch s.a s

def opAdcDec (s : State σ) : State σ :=
  let s := getFromEaB bus (addOpCycles 1 s)
  let loNyb := s.a &&& 0x0F
  let r9 := s.r0 &&& 0x0F
  let loNyb := loNyb + (r9 + carryIn s)
  let s := bicF nvzcFlags s
  let loNyb := if loNyb ≤ 0x09 then loNyb else loNyb + 6
  let carry := loNyb >>> 4
  let loNyb := loNyb &&& 0x0F
  let s := { s with a := s.a >>> 4, r0 := s.r0 >>> 4 + carry }
  let s := { s with r0 := s.a + s.r0 }
  let s := if s.r0 ≤ 0x09 then s else orrF flagArm.c.toUInt32 { s with r0 := s.r0 + 6 }
  mergeNybbles arch loNyb s

/-- V_Flag where the signs of the operands agree, and that of the result does not. -/
def overflow (signA signO signRes : UInt32) : UInt32 :=
  (signA ^^^ signRes) &&& (~~~(signA ^^^ signO) &&& 1)

def doAdcB (s : State σ) : State σ :=
  if s.has flagArm.d then opAdcDec arch bus s
  else
    let s := getFromEaB bus s
    let signA := s.a >>> 7
    let signO := s.r0 >>> 7
    let s := { s with a := s.a + carryIn s + s.r0 }
    let s := bicF nvzcFlags s
    let carry := s.a &&& 0x100
    let s := orrF (carry >>> 7) { s with a := s.a &&& ~~~0x100 }
    let s := negByte s.a s
    let s := orrF (overflow signA signO (s.a >>> 7)) s
    zeroByte arch s.a s

def doAnd (s : State σ) : State σ :=
  let s := getFromEaB bus s
  let s := { s with r0 := s.r0 <<< 24, a := s.a <<< 24 }
  let s := { s with a := s.a &&& s.r0 }
  let s := flagNZ { s with apsr := logic arch s.a s.apsr }
  { s with a := s.a >>> 24 }

/-- What an operation on one register leaves there. -/
abbrev OnReg (σ : Type u) := UInt32 → State σ → UInt32 × State σ

def doAsl : OnReg σ := fun x s =>
  let x := x <<< 24
  let r := adcs x x s.apsr.c
  (r.value >>> 24, flagNZC { s with apsr := r.flags })

/-- An operation on a byte of memory. -/
def modify (f : OnReg σ) (s : State σ) : State σ :=
  let s := getFromEaB bus s
  let (r0, s) := f s.r0 s
  putToEaB bus { s with r0 := r0 }

/-- The same on the accumulator. -/
def modifyAcc (f : OnReg σ) (s : State σ) : State σ :=
  let (a, s) := f s.a s
  { s with a := a }

def modifyX (f : OnReg σ) (s : State σ) : State σ :=
  let (x, s) := f s.x s
  { s with x := x }

def modifyY (f : OnReg σ) (s : State σ) : State σ :=
  let (y, s) := f s.y s
  { s with y := y }

/-- The branches: `taken` looks at F_Reg after the operand is fetched. -/
def branch (taken : State σ → Bool) (s : State σ) : State σ :=
  let s := getFromPcB bus s
  if taken s then branchXCycles s else s

def doBit (s : State σ) : State σ :=
  let s := getFromEaB bus s
  let r1 := s.a &&& s.r0
  let s := bicF flagArm.v (bicF (flagArm.n ||| flagArm.z) s)
  let s := zeroByte arch r1 s
  let s := orrF ((s.r0 &&& 0x40) >>> 6) s
  negByte s.r0 s

def opBitImm (s : State σ) : State σ :=
  let s := getFromEaB bus (getImm s)
  zeroByte arch (s.a &&& s.r0) s

def encodeFlags (s : State σ) : State σ := { s with r0 := (flagArm.encode s.f.toUInt8).toUInt32 }

/-- A word is pushed, its high byte first, by rotating the low byte away. -/
def pushR0 (s : State σ) : State σ :=
  let s := push bus s.r0 s
  let s := { s with r0 := s.r0 >>> 24 }
  push bus s.r0 s

/-- PC from the vector at FFFE, the value that `cpu65_init` gives `interrupt_vector`. -/
def interruptVector (s : State σ) : State σ :=
  let s := getFromEaW bus { s with ea := 0xFFFE }
  { s with pc := s.r0 }

def opBrk (s : State σ) : State σ :=
  let s := { s with pc := incUint16 s.pc }
  let s := pushR0 bus { s with r0 := ror s.pc 8 }
  let s := orrF flagArm.x.toUInt32 (orrF flagArm.b.toUInt32 s)
  let s := encodeFlags s
  let s := push bus s.r0 s
  interruptVector bus (orrF flagArm.i.toUInt32 s)

def compare (reg : UInt32) (s : State σ) : State σ :=
  let s := getFromEaB bus s
  let s := { s with r0 := s.r0 <<< 24 }
  flagNZC { s with apsr := (subs (reg <<< 24) s.r0).flags }

def doCmp (s : State σ) : State σ := compare bus s.a s
def doCpx (s : State σ) : State σ := compare bus s.x s
def doCpy (s : State σ) : State σ := compare bus s.y s

def doDec : OnReg σ := fun x s =>
  let r1 := (1 : UInt32) <<< 24
  let r := subs (x <<< 24) r1
  (r.value >>> 24, flagNZ { s with apsr := r.flags })

def doEor (s : State σ) : State σ :=
  let s := getFromEaB bus s
  let s := { s with r0 := s.r0 <<< 24, a := s.a <<< 24 }
  let s := { s with a := s.a ^^^ s.r0 }
  let s := flagNZ (cmpZero s.a s)
  { s with a := s.a >>> 24 }

def doInc : OnReg σ := fun x s =>
  let r1 := (1 : UInt32) <<< 24
  let r := adds (x <<< 24) r1
  (r.value >>> 24, flagNZ { s with apsr := r.flags })

def opJmpAbs (s : State σ) : State σ :=
  let s := getAbs bus s
  { s with pc := s.ea }

def jmpSpecial (s : State σ) : State σ :=
  let s := { s with pc := s.r0 - 0xFF }
  let s := { s with pc := s.pc <<< 16 >>> 16 }
  let s := getFromMemB bus s.pc s
  let r9 := s.r0 <<< 8
  let s := { s with pc := (s.pc + 0xFF) &&& ~~~0x10000 }
  let s := getFromMemB bus s.pc s
  let s := { s with r0 := r9 ||| s.r0 }
  { s with pc := s.r0 }

def opJmpInd (s : State σ) : State σ :=
  let s := getFromPcW bus s
  if (s.r0 <<< 24) ^^^ 0xFF000000 = 0 then jmpSpecial bus s
  else
    let s := getFromMemW bus s.r0 s
    { s with pc := s.r0, ea := s.ea - 1 }

def opJmpAbsIndX (s : State σ) : State σ :=
  let s := getFromPcW bus s
  let s := { s with ea := s.r0, r0 := s.x }
  let s := { s with ea := (s.ea + s.r0) <<< 16 >>> 16 }
  let s := getFromMemW bus s.ea s
  { s with pc := s.r0 }

def opJsr (s : State σ) : State σ :=
  let s := getAbs bus s
  let s := pushR0 bus { s with r0 := ror ((s.pc - 1) <<< 16) 24 }
  { s with pc := s.ea }

/-- The flags of a byte that goes into a register; `orr wr0, wr0, wr0` changes nothing. -/
def orFlags (value : UInt32) (s : State σ) : State σ :=
  let s := { s with r0 := value <<< 24 }
  flagNZ (cmpZero s.r0 s)

def doLda (s : State σ) : State σ :=
  let s := getFromEaB bus s
  orFlags s.r0 { s with a := s.r0 }

def doLdx (s : State σ) : State σ :=
  let s := getFromEaB bus s
  orFlags s.r0 { s with x := s.r0 }

def doLdy (s : State σ) : State σ :=
  let s := getFromEaB bus s
  orFlags s.r0 { s with y := s.r0 }

def doLsr : OnReg σ := fun x s =>
  match arch with
  | .aarch64 =>
    let r1 := (x &&& 1) <<< 1
    let s := orrF r1 (bicF flagArm.c s)
    let x := x >>> 1
    (x, flagNZ (cmpZero x s))
  | .arm32 =>
    let flags := { logic arch (x >>> 1) s.apsr with c := x &&& 1 != 0 }
    (x >>> 1, flagNZC { s with apsr := flags })

def doOra (s : State σ) : State σ :=
  let s := getFromEaB bus s
  let s := { s with r0 := s.r0 <<< 24, a := s.a <<< 24 }
  let s := { s with a := s.a ||| s.r0 }
  let s := flagNZ (cmpZero s.a s)
  { s with a := s.a >>> 24 }

def opPhp (s : State σ) : State σ :=
  let s := encodeFlags s
  push bus s.r0 s

/-- F_Reg from a byte of the stack. -/
def popFlags (s : State σ) : State σ :=
  let (r0, s) := pop bus s
  let s := { s with r0 := r0, f := (flagArm.decode r0.toUInt8).toUInt32 }
  orrF flagArm.x.toUInt32 (orrF flagArm.b.toUInt32 s)

/-- PC from the stack, the low byte first. -/
def popPc (s : State σ) : State σ :=
  let (lo, s) := pop bus s
  let (hi, s) := pop bus s
  { s with r0 := hi <<< 8, pc := hi <<< 8 ||| lo }

def opPla (s : State σ) : State σ :=
  let (a, s) := pop bus s
  orFlags a { s with a := a }

def opPlx (s : State σ) : State σ :=
  let (x, s) := pop bus s
  orFlags x { s with x := x }

def opPly (s : State σ) : State σ :=
  let (y, s) := pop bus s
  orFlags y { s with y := y }

/-- On aarch64 the register has 64 bits. -/
def flagRol (x : UInt64) (s : State σ) : UInt32 × State σ :=
  match arch with
  | .aarch64 =>
    let r1 := (x &&& 0x8000).toUInt32 >>> 14
    let s := orrF r1 (bicF flagArm.c s)
    let x := x <<< 49
    let flags := { n := x >>> 63 != 0, z := x == 0, c := true, v := false }
    ((x >>> 56).toUInt32, flagNZ { s with apsr := flags })
  | .arm32 =>
    let x := x.toUInt32
    let flags := { logic arch (x <<< 17) s.apsr with c := x &&& 0x8000 != 0 }
    (x <<< 17 >>> 24, flagNZC { s with apsr := flags })

def doRol : OnReg σ := fun x s =>
  let x := x.toUInt64 <<< 8
  let s := { s with f := s.f <<< 6 }
  let r1 := s.f &&& 0x80
  let s := { s with f := s.f >>> 6 }
  flagRol arch (x ||| r1.toUInt64) s

def doRor : OnReg σ := fun x s =>
  let r1 := (s.f &&& flagArm.c.toUInt32) <<< 7
  let x := ror (x ||| r1) 1
  let s := bicF (flagArm.n ||| flagArm.z ||| flagArm.c) s
  let r1 := x &&& 0x80000000
  let x := x &&& ~~~0x80000000
  let s := orrF (r1 >>> 30) s
  (x, negByte x (zeroByte arch x s))

def opRti (s : State σ) : State σ := popPc bus (popFlags bus s)

def opRts (s : State σ) : State σ :=
  let s := popPc bus s
  { s with pc := incUint16 s.pc }

/-- The carry of the 65c02 as a borrow. -/
def borrowIn (s : State σ) : UInt32 := ~~~(carryIn s) &&& 1

def opSbcDec (s : State σ) : State σ :=
  let s := getFromEaB bus (addOpCycles 1 s)
  let loNyb := s.a &&& 0x0F
  let r9 := s.r0 &&& 0x0F
  let loNyb := (loNyb - r9) &&& 0xFF
  let loNyb := (loNyb - borrowIn s) &&& 0xFF
  let s := orrF flagArm.c.toUInt32 (bicF nvzcFlags s)
  let borrow := if loNyb ≤ 0x09 then 0 else 1
  let loNyb := if loNyb ≤ 0x09 then loNyb else (loNyb - 6) &&& 0x0F
  let s := { s with a := s.a >>> 4, r0 := s.r0 >>> 4 }
  let s := { s with r0 := (s.a - s.r0) &&& 0xFF }
  let s := { s with r0 := (s.r0 - borrow) &&& 0xFF }
  let s := if s.r0 ≤ 0x09 then s else bicF flagArm.c { s with r0 := (s.r0 - 6) &&& 0x0F }
  mergeNybbles arch loNyb s

def doSbcB (s : State σ) : State σ :=
  if s.has flagArm.d then opSbcDec arch bus s
  else
    let s := getFromEaB bus s
    let signA := s.a >>> 7
    let signO := s.r0 >>> 7
    let s := { s with a := s.a - s.r0 - borrowIn s }
    let s := bicF nvzcFlags s
    let r1 := s.a &&& 0x80000000
    let s := orrF (~~~(r1 >>> 30) &&& 2) { s with a := s.a &&& 0xFF }
    let s := negByte s.a s
    let s := orrF ((signA ^^^ (s.a >>> 7)) &&& (signA ^^^ signO)) s
    zeroByte arch s.a s

/-- `DoSTA` and the like. -/
def doStore (value : UInt32) (s : State σ) : State σ := putToEaB bus { s with r0 := value }

def doTrb (s : State σ) : State σ :=
  let s := getFromEaB bus s
  let s := flagZ { s with apsr := logic arch (s.r0 &&& s.a) s.apsr }
  putToEaB bus { s with r0 := s.r0 &&& ~~~s.a }

def doTsb (s : State σ) : State σ :=
  let s := getFromEaB bus s
  let s := flagZ { s with apsr := logic arch (s.r0 &&& s.a) s.apsr }
  putToEaB bus { s with r0 := s.a ||| s.r0 }

/-! ## Handlers -/

def run (op : Op) (s : State σ) : State σ :=
  match op with
  | .adc mode => doAdcB arch bus (getMode bus mode s)
  | .and mode => doAnd arch bus (getMode bus mode s)
  | .asl mode => modify bus doAsl (getMode bus mode s)
  | .aslAcc => modifyAcc doAsl s
  | .bcc => branch bus (fun s => !s.has flagArm.c) s
  | .bcs => branch bus (fun s => s.has flagArm.c) s
  | .beq => branch bus (fun s => s.has flagArm.z) s
  | .bit mode => doBit arch bus (getMode bus mode s)
  | .bitImm => opBitImm arch bus s
  | .bmi => branch bus (fun s => s.has flagArm.n) s
  | .bne => branch bus (fun s => !s.has flagArm.z) s
  | .bpl => branch bus (fun s => !s.has flagArm.n) s
  | .bra => branch bus (fun _ => true) s
  | .brk => opBrk bus s
  | .bvc => branch bus (fun s => !s.has flagArm.v) s
  | .bvs => branch bus (fun s => s.has flagArm.v) s
  | .clc => bicF flagArm.c s
  | .cld => bicF flagArm.d s
  | .cli => bicF flagArm.i s
  | .clv => bicF flagArm.v s
  | .cmp mode => doCmp bus (getMode bus mode s)
  | .cpx mode => doCpx bus (getMode bus mode s)
  | .cpy mode => doCpy bus (getMode bus mode s)
  | .dea => modifyAcc doDec s
  | .dec mode => modify bus doDec (getMode bus mode s)
  | .dex => modifyX doDec s
  | .dey => modifyY doDec s
  | .eor mode => doEor bus (getMode bus mode s)
  | .ina => modifyAcc doInc s
  | .inc mode => modify bus doInc (getMode bus mode s)
  | .inx => modifyX doInc s
  | .iny => modifyY doInc s
  | .jmpAbs => opJmpAbs bus s
  | .jmpInd => opJmpInd bus s
  | .jmpAbsIndX => opJmpAbsIndX bus s
  | .jsr => opJsr bus s
  | .lda mode => doLda bus (getMode bus mode s)
  | .ldx mode => doLdx bus (getMode bus mode s)
  | .ldy mode => doLdy bus (getMode bus mode s)
  | .lsr mode => modify bus (doLsr arch) (getMode bus mode s)
  | .lsrAcc => modifyAcc (doLsr arch) s
  | .ora mode => doOra bus (getMode bus mode s)
  | .pha => push bus s.a s
  | .php => opPhp bus s
  | .phx => push bus s.x s
  | .phy => push bus s.y s
  | .pla => opPla bus s
  | .plp => popFlags bus s
  | .plx => opPlx bus s
  | .ply => opPly bus s
  | .rol mode => modify bus (doRol arch) (getMode bus mode s)
  | .rolAcc => modifyAcc (doRol arch) s
  | .ror mode => modify bus (doRor arch) (getMode bus mode s)
  | .rorAcc => modifyAcc (doRor arch) s
  | .rti => opRti bus s
  | .rts => opRts bus s
  | .sbc mode => doSbcB arch bus (getMode bus mode s)
  | .sec => orrF flagArm.c.toUInt32 s
  | .sed => orrF flagArm.d.toUInt32 s
  | .sei => orrF flagArm.i.toUInt32 s
  | .sta mode =>
    let s := getMode bus mode s
    doStore bus s.a s
  | .stx mode =>
    let s := getMode bus mode s
    doStore bus s.x s
  | .sty mode =>
    let s := getMode bus mode s
    doStore bus s.y s
  | .stz mode => doStore bus 0 (getMode bus mode s)
  | .tax => orFlags s.a { s with x := s.a }
  | .tay => orFlags s.a { s with y := s.a }
  | .trb mode => doTrb arch bus (getMode bus mode s)
  | .tsb mode => doTsb arch bus (getMode bus mode s)
  | .tsx => orFlags s.sp { s with x := s.sp }
  | .txa => orFlags s.x { s with a := s.x }
  | .txs => { s with sp := s.x }
  | .tya => orFlags s.y { s with a := s.y }
  | .bbr _ | .bbs _ | .rmb _ | .smb _ | .nop | .stp65c02 | .unk65c02 | .wai65c02 => s

end Operations

end Apple2ix.Cpu.Arm
