import Apple2ix.Misc.Framing
import Apple2ix.Vm.SaveState

/-! `vm_loadState` as a load of a file that other modules read on. -/
namespace Apple2ix.Vm
open Loader
set_option autoImplicit false

/-- A step of the load. Its error is an assertion that fails. -/
def LoadStep.loader (step : LoadStep) : Loader Unit Machine :=
  field step.size fun bytes vm => (step.apply bytes vm).elim (.error ()) .ok

/-- `vm_loadState`. -/
def vmLoader : Loader Unit Machine := fun vm input => (vmLoadState vm input).elim (.error ()) .ok

theorem loadEach_loader (steps : List LoadStep) (vm : Machine) (input : List UInt8) :
    (loadEach steps vm input).elim (.error ()) .ok = all (steps.map LoadStep.loader) vm input := by
  induction steps generalizing vm input with
  | nil => rfl
  | cons step steps ih =>
    rw [loadEach, List.map_cons, all, Loader.andThen, LoadStep.loader, field]
    cases loadState input step.size with
    | none => rfl
    | some x =>
      simp only
      cases step.apply x.1 vm with
      | none => rfl
      | some vm => exact ih vm x.2

theorem framed_vmLoader : Framed vmLoader := by
  have hall : vmLoader = all (loadSteps.map LoadStep.loader) := by
    funext vm input
    exact loadEach_loader loadSteps vm input
  rw [hall]
  refine framed_all fun load hload => ?_
  obtain ⟨step, -, rfl⟩ := List.mem_map.mp hload
  exact framed_field _ _

/-- The bytes that were saved of a reachable machine are read back. -/
theorem MachineOk.reads_saved {vm : Machine} (h : MachineOk vm) {helper saved : StateHelper}
    (hsave : vmSaveState helper vm = some (saved, true)) : ∃ bytes,
    saved.file = helper.file ++ bytes ∧ ∀ start, Reads vmLoader start bytes
      (Vm.restored vm start) := by
  obtain ⟨bytes, hfile, hload⟩ := h.save_load
  obtain ⟨helper', saved', hsave', hbytes⟩ := hfile helper
  rw [hsave] at hsave'
  cases hsave'
  refine ⟨bytes, hbytes rfl, fun start rest => ?_⟩
  rw [vmLoader, hload start rest]
  rfl

end Apple2ix.Vm
