import Apple2ix.Foundations.Flags

/-! The softswitch word of the virtual machine, `run_args.softswitches` of vm.h. -/
namespace Apple2ix.Vm
set_option autoImplicit false

/-- The softswitches of vm.h. Those from `ssScreen` on are functions of the others. -/
inductive Switch
  | ssText
  | ssMixed
  | ssHires
  | ssPage2
  | ssBank2
  | ssLcram
  | ssLcsec
  | ssLcwrt
  | ss80store
  | ss80col
  | ssRamrd
  | ssRamwrt
  | ssAltzp
  | ssDhires
  | ssIoudis
  | ssCxrom
  | ssC3rom
  | ssAltchar
  | ssScreen
  | ssTextrd
  | ssTextwrt
  | ssHgrrd
  | ssHgrwrt
  deriving DecidableEq, Repr

namespace Switch

def mask : Switch → BitVec 32
  | ssText => 0x00000001
  | ssMixed => 0x00000002
  | ssHires => 0x00000004
  | ssPage2 => 0x00000008
  | ssBank2 => 0x00000010
  | ssLcram => 0x00000020
  | ssLcsec => 0x00000040
  | ssLcwrt => 0x00000080
  | ss80store => 0x00000100
  | ss80col => 0x00000200
  | ssRamrd => 0x00000400
  | ssRamwrt => 0x00000800
  | ssAltzp => 0x00001000
  | ssDhires => 0x00002000
  | ssIoudis => 0x00004000
  | ssCxrom => 0x00008000
  | ssC3rom => 0x00010000
  | ssAltchar => 0x00020000
  | ssScreen => 0x00040000
  | ssTextrd => 0x00080000
  | ssTextwrt => 0x00100000
  | ssHgrrd => 0x00200000
  | ssHgrwrt => 0x00400000

def bit : Switch → ℕ
  | ssText => 0
  | ssMixed => 1
  | ssHires => 2
  | ssPage2 => 3
  | ssBank2 => 4
  | ssLcram => 5
  | ssLcsec => 6
  | ssLcwrt => 7
  | ss80store => 8
  | ss80col => 9
  | ssRamrd => 10
  | ssRamwrt => 11
  | ssAltzp => 12
  | ssDhires => 13
  | ssIoudis => 14
  | ssCxrom => 15
  | ssC3rom => 16
  | ssAltchar => 17
  | ssScreen => 18
  | ssTextrd => 19
  | ssTextwrt => 20
  | ssHgrrd => 21
  | ssHgrwrt => 22

theorem bit_lt (sw : Switch) : sw.bit < 32 := by
  cases sw <;> decide

theorem mask_eq (sw : Switch) : sw.mask = BitVec.twoPow 32 sw.bit := by
  cases sw <;> decide

theorem bit_injective : Function.Injective bit := by
  intro a b h
  cases a <;> cases b <;> first | rfl | (simp only [bit] at h; omega)

instance : Flag Switch 32 where
  mask := mask
  bit := bit
  bit_lt := bit_lt
  bit_injective := bit_injective
  mask_eq := mask_eq

end Switch

/-- What a status location reads: bit 7 is the switch, shifted there as the SHIFT macros say. -/
def statusByte (softswitches : BitVec 32) (sw : Switch) : UInt8 :=
  let flag := softswitches &&& sw.mask
  UInt8.ofBitVec ((if sw.bit ≤ 7 then flag <<< (7 - sw.bit) else flag >>> (sw.bit - 7)).setWidth 8)

end Apple2ix.Vm
