import Apple2ix.Cpu.ArmLoop
import Apple2ix.Cpu.X86Loop

/-! The core of either host, as `cpu_thread` and the rest of the emulator use it. -/
namespace Apple2ix.Cpu
set_option autoImplicit false

universe u
variable {σ : Type u}

/-- The registers in `cpu65_run_args_s` that `cpu65_loadState` reads. -/
structure Registers where
  pc : UInt16
  ea : UInt16
  a : UInt8
  f : UInt8
  x : UInt8
  y : UInt8
  sp : UInt8

/-- `cpu65_init`, the signal aside. -/
def initRegisters : Registers where
  pc := 0
  ea := 0
  a := 0xFF
  f := flag6502.c ||| flag6502.x ||| flag6502.i ||| flag6502.v ||| flag6502.b ||| flag6502.z |||
    flag6502.n
  x := 0xFF
  y := 0xFF
  sp := 0xFC

/-- What happens to a core: `cpu_thread` calls `cpu65_run`, a call runs an instruction, and other
code changes the signals, the registers between calls, and memory. -/
inductive Event (σ : Type u) where
  | call (buttons : Buttons) (cyclesToExecute : Int32)
  | instruction (buttons : Buttons)
  | interrupt (reason : UInt8)
  | uninterrupt (reason : UInt8)
  | registers (saved : Registers)
  | memory (mem : σ)

/-- A call, as `cpu_thread` makes it, or an instruction of one. -/
def Event.moves : Event σ → Bool
  | .call _ _ | .instruction _ => true
  | _ => false

namespace X86

def loadRegisters (r : Registers) (c : Core σ) : Core σ :=
  { c with
    saved := ⟨r.pc, r.ea, r.a, r.f, r.x, r.y⟩
    state := { c.state with sp := r.sp } }

/-- What `cpu_thread` does before a call: the reset of `cpu65_init`, if it is asked for, and no
cycles yet. -/
def prepare (c : Core σ) : Core σ :=
  let c := if c.state.emulReinitialize = 0 then c else cpu65Init c
  { c with state := { c.state with cycleCount := 0 } }

def threadStep (bus : Bus σ) (c : Core σ) : Cpu.Event σ → Except Unit (Core σ)
  | .call buttons n => step bus (prepare c) (.call buttons n)
  | .instruction buttons => step bus c (.instruction buttons)
  | .interrupt reason => step bus c (.interrupt reason)
  | .uninterrupt reason => step bus c (.uninterrupt reason)
  | .registers r => if c.running then .error () else .ok (loadRegisters r c)
  | .memory mem => step bus c (.memory mem)

end X86

namespace Arm

def Registers.saved (r : Registers) : Saved := ⟨r.pc, r.ea, r.a, r.f, r.x, r.y, r.sp⟩

/-- `cpu65_init`. -/
def cpu65Init (c : Core σ) : Core σ :=
  { c with state := { c.state with signal := 0 }, saved := Registers.saved initRegisters }

def prepare (c : Core σ) : Core σ :=
  let c := if c.state.emulReinitialize = 0 then c else cpu65Init c
  { c with state := { c.state with cycleCount := 0 } }

def threadStep (arch : Arch) (bus : WideBus σ) (c : Core σ) : Cpu.Event σ → Except Unit (Core σ)
  | .call buttons n => step arch bus (prepare c) (.call buttons n)
  | .instruction buttons => step arch bus c (.instruction buttons)
  | .interrupt reason => step arch bus c (.interrupt reason)
  | .uninterrupt reason => step arch bus c (.uninterrupt reason)
  | .registers r => step arch bus c (.registers (Registers.saved r))
  | .memory mem => step arch bus c (.memory mem)

end Arm

end Apple2ix.Cpu
