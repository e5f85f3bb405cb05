import Apple2ix.Cpu.X86

/-! The processing loop of x86/cpu.S: `continue`, the exception handlers, entry and exit. -/
namespace Apple2ix.Cpu.X86
open Cpu
set_option autoImplicit false

universe u
variable {σ : Type u}

section Loop
variable (bus : Bus σ)

def cpuStatsReset (s : State σ) : State σ := { s with opcycles := 0, rw := 0 }

/-- `JumpNextInstruction`, up to the jump. -/
def fetch (s : State σ) : State σ :=
  let s := getFromPcB bus s
  { s with opcode := s.al }

def jumpNextInstruction (s : State σ) : State σ :=
  let s := fetch bus s
  run bus (handlerOf s.opcode) s

/-! ## Exceptions -/

/-- `ex_reset`, up to the next instruction. -/
def exReset (s : State σ) : State σ :=
  let s := getFromEaW bus { s with signal := 0, ea := 0xFFFC }
  cpuStatsReset { s with pc := s.ax, ah := 0 }

/-- `ex_irq` where it is not ignored, up to its last `Push`, which is of `%al`. -/
def irqFrame (s : State σ) : State σ :=
  let s := pushAx bus (s.setAx s.pc)
  let s := setFlag flagX86.x s
  encodeFlags { s with ah := 0 }

def irqEntry (s : State σ) : State σ :=
  let s := irqFrame bus s
  let s := push bus s.al s
  let s := interruptVector bus (setFlag (flagX86.b ||| flagX86.i) s)
  let s := cpuStatsReset { s with ah := 0 }
  { s with opcycles := s.opcycles + 7 }

/-- Where the core goes from `continue2`. -/
inductive Entry (σ : Type u) where
  | next (s : State σ)
  | irq (s : State σ)
  | reset (s : State σ)
  | reinit

def exIrq (s : State σ) : Entry σ := if s.has flagX86.i then .next s else .irq s

def continue2 (buttons : Buttons) (s : State σ) : Entry σ :=
  let s := { s with al := s.signal, ah := 0 }
  if s.al = 0 then .next s
  else if s.al &&& resetSig = 0 then exIrq s
  else if buttons.held then .reinit
  else .reset s

/-- The state before the next `JumpNextInstruction`, where there is one. -/
def Entry.start : Entry σ → Option (State σ)
  | .next s => some (cpuStatsReset s)
  | .irq s => some (irqEntry bus s)
  | .reset s => some (exReset bus s)
  | .reinit => none

/-! ## Entry and exit -/

/-- The registers in `cpu65_run_args_s` between calls of `cpu65_run`. -/
structure Saved where
  pc : UInt16
  ea : UInt16
  a : UInt8
  f : UInt8
  x : UInt8
  y : UInt8

/-- The registers `cpu65_run` restores. -/
def restore (saved : Saved) (s : State σ) : State σ :=
  { s with
    ea := saved.ea
    pc := saved.pc
    a := saved.a
    x := saved.x
    y := saved.y
    al := saved.f
    ah := 0
    f := flagX86.decode saved.f }

/-- The entry point of `cpu65_run`. -/
def enter (buttons : Buttons) (saved : Saved) (s : State σ) : Entry σ :=
  let s := restore saved s
  if s.emulReinitialize = 0 then continue2 buttons s else .reset { s with emulReinitialize := 0 }

/-- `CommonSaveCPUState` and PC. -/
def save (s : State σ) : Saved :=
  { pc := s.pc, ea := s.ea, a := s.a, f := flagX86.encode s.f, x := s.x, y := s.y }

def exitReinit (s : State σ) : State σ := { s with signal := 0, emulReinitialize := 1 }

/-! ## Runs -/

/-- The core between two instructions, or the thread outside of `cpu65_run`. -/
structure Core (σ : Type u) where
  running : Bool
  saved : Saved
  state : State σ

/-- `continue`. -/
def account (saved : Saved) (s : State σ) : Core σ :=
  let al := cyclesOf s.opcode + s.opcycles
  let cycles := al.toUInt32.toInt32
  let left := s.cyclesToExecute
  let s := { s with
    al := al
    ah := 0
    opcycles := al
    cycleCount := s.cycleCount + cycles
    mem := bus.tick s.mem al
    cyclesToExecute := left - cycles }
  if left ≤ cycles then ⟨false, save s, s⟩ else ⟨true, saved, s⟩

/-- The next instruction, where there is one. -/
def Entry.run (entry : Entry σ) (saved : Saved) (s : State σ) : Core σ :=
  match entry.start bus with
  | some t => account bus saved (jumpNextInstruction bus t)
  | none => ⟨false, saved, exitReinit s⟩

/-- What happens: a call of `cpu65_run` with a number of cycles, an instruction of such a call, and
what other code does to the signals and to memory. -/
inductive Event (σ : Type u) where
  | call (buttons : Buttons) (cyclesToExecute : Int32)
  | instruction (buttons : Buttons)
  | interrupt (reason : UInt8)
  | uninterrupt (reason : UInt8)
  | memory (mem : σ)

/-- Where the core goes next, if the event moves it. -/
def Event.entry : Event σ → Core σ → Option (Entry σ)
  | .call buttons n, c => some (enter buttons c.saved { c.state with cyclesToExecute := n })
  | .instruction buttons, c => some (continue2 buttons c.state)
  | _, _ => none

/-- The core is called when it is not running, and runs instructions when it is. -/
def Event.Possible (c : Core σ) : Event σ → Bool
  | .call _ _ => !c.running
  | .instruction _ => c.running
  | _ => true

def step (c : Core σ) (event : Event σ) : Except Unit (Core σ) :=
  if event.Possible c then
    match event with
    | .call buttons n =>
      let s := { c.state with cyclesToExecute := n }
      .ok ((enter buttons c.saved s).run bus c.saved s)
    | .instruction buttons => .ok ((continue2 buttons c.state).run bus c.saved c.state)
    | .interrupt reason =>
      .ok { c with state := { c.state with signal := c.state.signal ||| reason } }
    | .uninterrupt reason =>
      .ok { c with state := { c.state with signal := c.state.signal &&& ~~~reason } }
    | .memory mem => .ok { c with state := { c.state with mem := mem } }
  else .error ()

end Loop

/-- `cpu65_init`. -/
def cpu65Init (c : Core σ) : Core σ :=
  { c with
    state := { c.state with signal := 0, sp := 0xFC }
    saved :=
      { pc := 0
        ea := 0
        a := 0xFF
        x := 0xFF
        y := 0xFF
        f :=
          flag6502.c ||| flag6502.x ||| flag6502.i ||| flag6502.v ||| flag6502.b ||| flag6502.z |||
          flag6502.n } }

end Apple2ix.Cpu.X86
