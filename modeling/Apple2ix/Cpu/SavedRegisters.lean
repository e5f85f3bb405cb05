import Mathlib.Tactic.IntervalCases
import Apple2ix.Misc.Framing
import Apple2ix.Cpu.Hosts

/-! `cpu65_saveState` and `cpu65_loadState`. -/
namespace Apple2ix.Cpu
open Loader
set_option autoImplicit false

universe u
variable {ε : Type u}

/-- What `cpu65_saveState` writes. -/
def registerChunks (r : Registers) : List (List UInt8) :=
  [wordBytes r.pc, wordBytes r.ea, [r.a], [r.f], [r.x], [r.y], [r.sp]]

/-- `cpu65_loadState`. -/
def cpu65LoadState : Loader ε Registers :=
  all [field 2 fun serialized r => .ok { r with pc := wordOf serialized },
    field 2 fun serialized r => .ok { r with ea := wordOf serialized },
    field 1 fun bytes r => .ok { r with a := bytes.getD 0 0 },
    field 1 fun bytes r => .ok { r with f := bytes.getD 0 0 },
    field 1 fun bytes r => .ok { r with x := bytes.getD 0 0 },
    field 1 fun bytes r => .ok { r with y := bytes.getD 0 0 },
    field 1 fun bytes r => .ok { r with sp := bytes.getD 0 0 }]

theorem wordOf_wordBytes (w : UInt16) : wordOf (wordBytes w) = w := by
  apply UInt16.toBitVec_inj.mp
  apply BitVec.eq_of_getLsbD_eq
  intro i hi
  interval_cases i <;> simp [wordOf, wordBytes, -UInt16.toUInt16_toUInt8]

theorem framed_cpu65LoadState : Framed (cpu65LoadState : Loader ε Registers) := by
  refine framed_all fun load hload => ?_
  simp only [List.mem_cons, List.not_mem_nil, or_false] at hload
  obtain rfl | rfl | rfl | rfl | rfl | rfl | rfl := hload <;> exact framed_field _ _

/-- The registers that were saved are loaded. -/
theorem reads_cpu65LoadState (r saved : Registers) :
    Reads (cpu65LoadState : Loader ε Registers) r (registerChunks saved).flatten saved := by
  have hreads : Reads (cpu65LoadState : Loader ε Registers) r (registerChunks saved).flatten
      { saved with pc := wordOf (wordBytes saved.pc), ea := wordOf (wordBytes saved.ea) } :=
    fun _ => rfl
  rwa [wordOf_wordBytes, wordOf_wordBytes] at hreads

end Apple2ix.Cpu
