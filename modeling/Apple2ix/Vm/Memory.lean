import Mathlib.Data.Int.Basic
import Apple2ix.Vm.Switches

/-! The memory of the virtual machine and the bank pointers of `run_args`. -/
namespace Apple2ix.Vm
set_option autoImplicit false

/-! ## Bank pointers -/

/-- What a bank pointer points into. `apple_ii_64k`, `language_card` and `language_banks` are
arrays of two banks, one after the other. -/
inductive Obj
  | null
  | appleIi64k
  | languageCard
  | languageBanks
  | iieReadPeripheralCard
  deriving DecidableEq, Repr

/-- A pointer into `obj`. It may lie outside, as a base that addresses are added to. -/
structure Ptr where
  obj : Obj
  off : ℤ
  deriving DecidableEq, Repr

namespace Ptr

def null : Ptr := ⟨.null, 0⟩
def appleIi64k (bank : ℕ) : Ptr := ⟨.appleIi64k, 0x10000 * bank⟩
def languageCard (bank : ℕ) : Ptr := ⟨.languageCard, 0x2000 * bank⟩
def languageBanks (bank : ℕ) : Ptr := ⟨.languageBanks, 0x2000 * bank⟩
def iieReadPeripheralCard : Ptr := ⟨.iieReadPeripheralCard, 0⟩

instance : HAdd Ptr ℤ Ptr := ⟨fun p n => ⟨p.obj, p.off + n⟩⟩
instance : HSub Ptr ℤ Ptr := ⟨fun p n => ⟨p.obj, p.off - n⟩⟩

end Ptr

/-! ## The machine -/

/-- The bank pointers `base_…` of `run_args`. -/
inductive Base
  | ramrd
  | ramwrt
  | textrd
  | textwrt
  | hgrrd
  | hgrwrt
  | stackzp
  | d000Rd
  | e000Rd
  | d000Wrt
  | e000Wrt
  | c3rom
  | c4rom
  | c5rom
  | cxrom
  deriving DecidableEq, Repr

/-- The switches, bank pointers and paddle timers of `run_args`, and the memory of vm.c. -/
structure Machine where
  softswitches : BitVec 32
  base : Base → Ptr
  gcCyclesTimer0 : ℤ
  gcCyclesTimer1 : ℤ
  appleIi64k : Fin 0x20000 → UInt8
  languageCard : Fin 0x4000 → UInt8
  languageBanks : Fin 0x4000 → UInt8

/-- The cell of an array at `off`, if it has one. -/
def cell (size : ℕ) (off : ℤ) : Option (Fin size) :=
  if h : 0 ≤ off ∧ off < size then some ⟨off.toNat, by omega⟩ else none

/-- A store in an array of `size` bytes; bytes outside of it are not modelled. -/
def storeCell {size : ℕ} (mem : Fin size → UInt8) (off : ℤ) (b : UInt8) : Fin size → UInt8 :=
  match cell size off with
  | some i => Function.update mem i b
  | none => mem

def loadCell {size : ℕ} (mem : Fin size → UInt8) (off : ℤ) : UInt8 :=
  match cell size off with
  | some i => mem i
  | none => 0

namespace Machine

def has (vm : Machine) (sw : Switch) : Bool := Flag.has vm.softswitches sw
def set (vm : Machine) (sws : List Switch) : Machine :=
  { vm with softswitches := Flag.set vm.softswitches sws }
def clear (vm : Machine) (sws : List Switch) : Machine :=
  { vm with softswitches := Flag.clear vm.softswitches sws }

/-- `base_a = base_b = … = p`. -/
def point (vm : Machine) (bases : List Base) (p : Ptr) : Machine :=
  { vm with base := fun base => if base ∈ bases then p else vm.base base }

/-- `base[ea]`. -/
def load (vm : Machine) (base : Ptr) (ea : UInt16) : UInt8 :=
  let off := base.off + ea.toNat
  match base.obj with
  | .appleIi64k => loadCell vm.appleIi64k off
  | .languageCard => loadCell vm.languageCard off
  | .languageBanks => loadCell vm.languageBanks off
  | .null | .iieReadPeripheralCard => 0

/-- `base[ea] = b`. -/
def store (vm : Machine) (base : Ptr) (ea : UInt16) (b : UInt8) : Machine :=
  let off := base.off + ea.toNat
  match base.obj with
  | .appleIi64k => { vm with appleIi64k := storeCell vm.appleIi64k off b }
  | .languageCard => { vm with languageCard := storeCell vm.languageCard off b }
  | .languageBanks => { vm with languageBanks := storeCell vm.languageBanks off b }
  | .null | .iieReadPeripheralCard => vm

end Machine

/-! ## What the updates leave alone -/

section Updates
variable (vm : Machine) (sws : List Switch) (sw : Switch) (bases : List Base) (base : Base)
  (p : Ptr)

@[simp] theorem has_set : (vm.set sws).has sw = (vm.has sw || decide (sw ∈ sws)) :=
  Flag.has_set vm.softswitches sws sw
@[simp] theorem has_clear : (vm.clear sws).has sw = (vm.has sw && !decide (sw ∈ sws)) :=
  Flag.has_clear vm.softswitches sws sw
@[simp] theorem has_point : (vm.point bases p).has sw = vm.has sw := rfl

@[simp] theorem base_set : (vm.set sws).base base = vm.base base := rfl
@[simp] theorem base_clear : (vm.clear sws).base base = vm.base base := rfl
@[simp] theorem base_point :
    (vm.point bases p).base base = if base ∈ bases then p else vm.base base := rfl

/-- A store changes the three arrays only. -/
theorem store_frame (p : Ptr) (ea : UInt16) (b : UInt8) : ∃ mem card banks, vm.store p ea b =
    { vm with appleIi64k := mem, languageCard := card, languageBanks := banks } := by
  unfold Machine.store
  cases p.obj <;> exact ⟨_, _, _, rfl⟩

end Updates

end Apple2ix.Vm
