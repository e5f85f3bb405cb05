import Apple2ix.Cpu.Arm

/-! The processing loop of arm/cpu.S: `continue`, the exception handlers, entry and exit. -/
namespace Apple2ix.Cpu.Arm
open Cpu
set_option autoImplicit false

universe u
variable {σ : Type u}

section Loop
variable (arch : Arch) (bus : WideBus σ)

def cpuStatsReset (s : State σ) : State σ := { s with opcycles := 0, rw := 0 }

/-- `JumpNextInstruction`, up to the jump. -/
def fetch (s : State σ) : State σ :=
  let s := getFromPcB bus s
  { s with opcode := s.r0.toUInt8, r0 := 0, apsr := ⟨false, false, false, false⟩ }

def jumpNextInstruction (s : State σ) : State σ :=
  let s := fetch bus s
  run arch bus (handlerOf s.opcode) s

/-! ## Exceptions -/

/-- `ex_reset`, up to the next instruction. -/
def exReset (s : State σ) : State σ :=
  let s := getFromEaW bus { s with r0 := 0, signal := 0, ea := 0xFFFC }
  cpuStatsReset { s with pc := s.r0 }

/-- `ex_irq` where it is not ignored. -/
def irqEntry (s : State σ) : State σ :=
  let s := pushR0 bus { s with r0 := ror s.pc 8 }
  let s := encodeFlags (orrF flagArm.x.toUInt32 s)
  let s := push bus s.r0 s
  let s := interruptVector bus (orrF (flagArm.b ||| flagArm.i).toUInt32 s)
  let s := cpuStatsReset s
  let s := { s with r0 := s.opcycles.toUInt32 + 7 }
  { s with opcycles := s.r0.toUInt8 }

/-- Where the core goes from `continue2`. -/
inductive Entry (σ : Type u) where
  | next (s : State σ)
  | irq (s : State σ)
  | reset (s : State σ)
  | reinit

def exIrq (s : State σ) : Entry σ := if s.has flagArm.i then .next s else .irq s

def continue2 (buttons : Buttons) (s : State σ) : Entry σ :=
  let s := { s with r0 := s.signal.toUInt32 }
  if s.signal = 0 then .next s
  else if s.signal &&& resetSig = 0 then exIrq s
  else if buttons.held then .reinit
  else .reset s

/-- The state before the next `JumpNextInstruction`, where there is one. -/
def Entry.start : Entry σ → Option (State σ)
  | .next s => some (cpuStatsReset s)
  | .irq s => some (irqEntry bus s)
  | .reset s => some (exReset bus s)
  | .reinit => none

/-! ## Entry and exit -/

/-- The registers in `cpu65_run_args_s` between calls of `cpu65_run`. -/
structure Saved where
  pc : UInt16
  ea : UInt16
  a : UInt8
  f : UInt8
  x : UInt8
  y : UInt8
  sp : UInt8

/-- The registers `cpu65_run` restores. -/
def restore (saved : Saved) (s : State σ) : State σ :=
  { s with
    ea := saved.ea.toUInt32
    pc := saved.pc.toUInt32
    a := saved.a.toUInt32
    r0 := saved.f.toUInt32
    f := (flagArm.decode saved.f).toUInt32
    x := saved.x.toUInt32
    y := saved.y.toUInt32
    sp := saved.sp.toUInt32 }

/-- The entry point of `cpu65_run`. -/
def enter (buttons : Buttons) (saved : Saved) (s : State σ) : Entry σ :=
  let s := restore saved s
  if s.emulReinitialize = 0 then continue2 buttons s else .reset { s with emulReinitialize := 0 }

/-- `CommonSaveCPUState` and PC. -/
def save (s : State σ) : Saved where
  pc := s.pc.toUInt16
  ea := s.ea.toUInt16
  a := s.a.toUInt8
  f := flagArm.encode s.f.toUInt8
  x := s.x.toUInt8
  y := s.y.toUInt8
  sp := s.sp.toUInt8

def exitReinit (s : State σ) : State σ := { s with signal := 0, emulReinitialize := 1 }

/-! ## Runs -/

/-- The core between two instructions, or the thread outside of `cpu65_run`. -/
structure Core (σ : Type u) where
  running : Bool
  saved : Saved
  state : State σ

/-- `continue`. -/
def account (saved : Saved) (s : State σ) : Core σ :=
  let cyclesExe := (cyclesOf s.opcode).toUInt32 + s.opcycles.toUInt32
  let left := s.cyclesToExecute - cyclesExe.toInt32
  let s := { s with
    opcycles := cyclesExe.toUInt8
    mem := bus.tick s.mem cyclesExe
    cycleCount := s.cycleCount + cyclesExe.toInt32
    cyclesToExecute := left }
  if left < 0 ∨ left = 0 then ⟨false, save s, s⟩ else ⟨true, saved, s⟩

/-- The next instruction, where there is one. -/
def Entry.run (entry : Entry σ) (saved : Saved) (s : State σ) : Core σ :=
  match entry.start bus with
  | some t => account bus saved (jumpNextInstruction arch bus t)
  | none => ⟨false, saved, exitReinit s⟩

/-- What happens: a call of `cpu65_run` with a number of cycles, an instruction of such a call, and
what other code does to the signals, the saved registers and memory. -/
inductive Event (σ : Type u) where
  | call (buttons : Buttons) (cyclesToExecute : Int32)
  | instruction (buttons : Buttons)
  | interrupt (reason : UInt8)
  | uninterrupt (reason : UInt8)
  | registers (saved : Saved)
  | memory (mem : σ)

/-- Where the core goes next, if the event moves it. -/
def Event.entry : Event σ → Core σ → Option (Entry σ)
  | .call buttons n, c => some (enter buttons c.saved { c.state with cyclesToExecute := n })
  | .instruction buttons, c => some (continue2 buttons c.state)
  | _, _ => none

/-- The state before the instruction of an event that runs one. -/
def Event.next (event : Event σ) (c : Core σ) : Option (State σ) :=
  (event.entry c).bind (Entry.start bus)

/-- The core is called when it is not running, and runs instructions when it is. -/
def Event.Possible (c : Core σ) : Event σ → Bool
  | .call _ _ => !c.running
  | .instruction _ => c.running
  | .registers _ => !c.running
  | _ => true

def step (c : Core σ) (event : Event σ) : Except Unit (Core σ) :=
  if event.Possible c then
    match event with
    | .call buttons n =>
      let s := { c.state with cyclesToExecute := n }
      .ok ((enter buttons c.saved s).run arch bus c.saved s)
    | .instruction buttons => .ok ((continue2 buttons c.state).run arch bus c.saved c.state)
    | .interrupt reason =>
      .ok { c with state := { c.state with signal := c.state.signal ||| reason } }
    | .uninterrupt reason =>
      .ok { c with state := { c.state with signal := c.state.signal &&& ~~~reason } }
    | .registers saved => .ok { c with saved := saved }
    | .memory mem => .ok { c with state := { c.state with mem := mem } }
  else .error ()

end Loop

end Apple2ix.Cpu.Arm
