import Apple2ix.Vm.SwitchHandlers

/-! `read_softswitch` and `write_softswitch`: which handler an access to C000 - C0FF runs. -/
namespace Apple2ix.Vm
open Video Switch
set_option autoImplicit false

/-- The handlers the two functions dispatch to; those without a function of their own in the source
come last. -/
inductive Handler
  | iiePage2Off
  | iiePage2On
  | readSwitchGraphics
  | readSwitchText
  | readSwitchNoMixed
  | readSwitchMixed
  | iieAnnunciator
  | iieHiresOff
  | iieHiresOn
  | readButton0
  | readButton1
  | readButton2
  | readGcStrobe
  | iieReadGc2
  | iieReadGc3
  | iieC080
  | iieC081
  | lcC082
  | iieC083
  | iieC088
  | iieC089
  | lcC08a
  | iieC08b
  | iieDhiresOn
  | iieDhiresOff
  | iieCheckVbl
  | readKeyboardStrobe
  | readGc0
  | readGc1
  | iie80storeOff
  | iie80storeOn
  | iieRamrdMain
  | iieRamrdAux
  | iieRamwrtMain
  | iieRamwrtAux
  | iieAltzpMain
  | iieAltzpAux
  | iie80colOff
  | iie80colOn
  | iieAltcharOff
  | iieAltcharOn
  | iieC3romPeripheral
  | iieC3romInternal
  | iieCxromPeripheral
  | iieCxromInternal
  | keyboard
  | status (sw : Switch)
  | c3romStatus
  | speakerToggle
  | disk6IoRead
  | disk6IoWrite
  | gcStrobeStatus (sw : Switch)
  | ioudisOn
  | ioudisOff
  | floatingBus
  | ignored
  deriving DecidableEq, Repr

/-- The chain of tests of `read_softswitch`. -/
def readHandler (sw : UInt8) : Handler :=
  if sw < 0x10 then .keyboard
  else if sw = 0x10 then .readKeyboardStrobe
  else if sw = 0x11 then .status ssBank2
  else if sw = 0x12 then .status ssLcram
  else if sw = 0x13 then .status ssRamrd
  else if sw = 0x14 then .status ssRamwrt
  else if sw = 0x15 then .status ssCxrom
  else if sw = 0x16 then .status ssAltzp
  else if sw = 0x17 then .c3romStatus
  else if sw = 0x18 then .status ss80store
  else if sw = 0x19 then .iieCheckVbl
  else if sw = 0x1A then .status ssText
  else if sw = 0x1B then .status ssMixed
  else if sw = 0x1C then .status ssPage2
  else if sw = 0x1D then .status ssHires
  else if sw = 0x1E then .status ssAltchar
  else if sw = 0x1F then .status ss80col
  else if 0x30 ≤ sw ∧ sw < 0x40 then .speakerToggle
  else if sw = 0x50 then .readSwitchGraphics
  else if sw = 0x51 then .readSwitchText
  else if sw = 0x52 then .readSwitchNoMixed
  else if sw = 0x53 then .readSwitchMixed
  else if sw = 0x54 then .iiePage2Off
  else if sw = 0x55 then .iiePage2On
  else if sw = 0x56 then .iieHiresOff
  else if sw = 0x57 then .iieHiresOn
  else if 0x58 ≤ sw ∧ sw < 0x5E then .iieAnnunciator
  else if sw = 0x5E then .iieDhiresOn
  else if sw = 0x5F then .iieDhiresOff
  else if sw = 0x61 ∨ sw = 0x69 then .readButton0
  else if sw = 0x62 ∨ sw = 0x6A then .readButton1
  else if sw = 0x63 ∨ sw = 0x6B then .readButton2
  else if sw = 0x64 ∨ sw = 0x6C then .readGc0
  else if sw = 0x65 ∨ sw = 0x6D then .readGc1
  else if sw = 0x66 then .iieReadGc2
  else if sw = 0x67 then .iieReadGc3
  else if 0x70 ≤ sw ∧ sw < 0x7E then .readGcStrobe
  else if sw = 0x7E then .gcStrobeStatus ssIoudis
  else if sw = 0x7F then .gcStrobeStatus ssDhires
  else if sw = 0x80 ∨ sw = 0x84 then .iieC080
  else if sw = 0x81 ∨ sw = 0x85 then .iieC081
  else if sw = 0x82 ∨ sw = 0x86 then .lcC082
  else if sw = 0x83 ∨ sw = 0x87 then .iieC083
  else if sw = 0x88 ∨ sw = 0x8C then .iieC088
  else if sw = 0x89 ∨ sw = 0x8D then .iieC089
  else if sw = 0x8A ∨ sw = 0x8E then .lcC08a
  else if sw = 0x8B ∨ sw = 0x8F then .iieC08b
  else if 0xE0 ≤ sw ∧ sw < 0xF0 then .disk6IoRead
  else .floatingBus

/-- The tests of `write_softswitch`, of which at most one holds. -/
def writeHandler (sw : UInt8) : Handler :=
  if sw = 0x00 then .iie80storeOff
  else if sw = 0x01 then .iie80storeOn
  else if sw = 0x02 then .iieRamrdMain
  else if sw = 0x03 then .iieRamrdAux
  else if sw = 0x04 then .iieRamwrtMain
  else if sw = 0x05 then .iieRamwrtAux
  else if sw = 0x06 then .iieCxromPeripheral
  else if sw = 0x07 then .iieCxromInternal
  else if sw = 0x08 then .iieAltzpMain
  else if sw = 0x09 then .iieAltzpAux
  else if sw = 0x0A then .iieC3romInternal
  else if sw = 0x0B then .iieC3romPeripheral
  else if sw = 0x0C then .iie80colOff
  else if sw = 0x0D then .iie80colOn
  else if sw = 0x0E then .iieAltcharOff
  else if sw = 0x0F then .iieAltcharOn
  else if 0x10 ≤ sw ∧ sw < 0x20 then .readKeyboardStrobe
  else if 0x30 ≤ sw ∧ sw < 0x40 then .speakerToggle
  else if sw = 0x50 then .readSwitchGraphics
  else if sw = 0x51 then .readSwitchText
  else if sw = 0x52 then .readSwitchNoMixed
  else if sw = 0x53 then .readSwitchMixed
  else if sw = 0x54 then .iiePage2Off
  else if sw = 0x55 then .iiePage2On
  else if sw = 0x56 then .iieHiresOff
  else if sw = 0x57 then .iieHiresOn
  else if 0x58 ≤ sw ∧ sw < 0x5E then .iieAnnunciator
  else if sw = 0x5E then .iieDhiresOn
  else if sw = 0x5F then .iieDhiresOff
  else if 0x70 ≤ sw ∧ sw < 0x7E then .readGcStrobe
  else if sw = 0x7E then .ioudisOn
  else if sw = 0x7F then .ioudisOff
  else if sw = 0x80 ∨ sw = 0x84 then .iieC080
  else if sw = 0x81 ∨ sw = 0x85 then .iieC081
  else if sw = 0x82 ∨ sw = 0x86 then .lcC082
  else if sw = 0x83 ∨ sw = 0x87 then .iieC083
  else if sw = 0x88 ∨ sw = 0x8C then .iieC088
  else if sw = 0x89 ∨ sw = 0x8D then .iieC089
  else if sw = 0x8A ∨ sw = 0x8E then .lcC08a
  else if sw = 0x8B ∨ sw = 0x8F then .iieC08b
  else if 0xE0 ≤ sw ∧ sw < 0xF0 then .disk6IoWrite
  else .ignored

/-- What a handler does at `ea`; `b` is the byte a write stores. -/
def Handler.run (bus : Bus) (ea : UInt16) (b : UInt8) (vm : Machine) : Handler → Access
  | iiePage2Off => Vm.iiePage2Off bus vm
  | iiePage2On => Vm.iiePage2On bus vm
  | readSwitchGraphics => Vm.readSwitchGraphics bus vm
  | readSwitchText => Vm.readSwitchText bus vm
  | readSwitchNoMixed => Vm.readSwitchNoMixed bus vm
  | readSwitchMixed => Vm.readSwitchMixed bus vm
  | iieAnnunciator => Vm.iieAnnunciator bus vm
  | iieHiresOff => Vm.iieHiresOff bus vm
  | iieHiresOn => Vm.iieHiresOn bus vm
  | readButton0 => Vm.readButton0 bus vm
  | readButton1 => Vm.readButton1 bus vm
  | readButton2 => Vm.readButton2 bus vm
  | readGcStrobe => Vm.readGcStrobe bus vm
  | iieReadGc2 => Vm.iieReadGc2 bus vm
  | iieReadGc3 => Vm.iieReadGc3 bus vm
  | iieC080 => Vm.iieC080 bus vm
  | iieC081 => Vm.iieC081 bus vm
  | lcC082 => Vm.lcC082 bus vm
  | iieC083 => Vm.iieC083 bus vm
  | iieC088 => Vm.iieC088 bus vm
  | iieC089 => Vm.iieC089 bus vm
  | lcC08a => Vm.lcC08a bus vm
  | iieC08b => Vm.iieC08b bus vm
  | iieDhiresOn => Vm.iieDhiresOn bus vm
  | iieDhiresOff => Vm.iieDhiresOff bus vm
  | iieCheckVbl => Vm.iieCheckVbl bus vm
  | readKeyboardStrobe => Vm.readKeyboardStrobe vm
  | readGc0 => Vm.readGc0 vm
  | readGc1 => Vm.readGc1 vm
  | iie80storeOff => Vm.iie80storeOff vm
  | iie80storeOn => Vm.iie80storeOn vm
  | iieRamrdMain => Vm.iieRamrdMain vm
  | iieRamrdAux => Vm.iieRamrdAux vm
  | iieRamwrtMain => Vm.iieRamwrtMain vm
  | iieRamwrtAux => Vm.iieRamwrtAux vm
  | iieAltzpMain => Vm.iieAltzpMain vm
  | iieAltzpAux => Vm.iieAltzpAux vm
  | iie80colOff => Vm.iie80colOff vm
  | iie80colOn => Vm.iie80colOn vm
  | iieAltcharOff => Vm.iieAltcharOff vm
  | iieAltcharOn => Vm.iieAltcharOn vm
  | iieC3romPeripheral => Vm.iieC3romPeripheral vm
  | iieC3romInternal => Vm.iieC3romInternal vm
  | iieCxromPeripheral => Vm.iieCxromPeripheral vm
  | iieCxromInternal => Vm.iieCxromInternal vm
  | keyboard => ⟨vm, [], vm.load (Ptr.appleIi64k 0) 0xC000⟩
  | status sw => ⟨vm, [], statusByte vm.softswitches sw⟩
  | c3romStatus => ⟨vm, [], if vm.has ssC3rom then 0x00 else 0x80⟩
  | speakerToggle => floats bus (vm, [vm.call .speakerToggle])
  | disk6IoRead => ⟨vm, [vm.call (.disk6IoRead ea)], bus.disk6Byte⟩
  | disk6IoWrite => ⟨vm, [vm.call (.disk6IoWrite ea b)], 0x0⟩
  | gcStrobeStatus sw =>
    let strobed := Vm.readGcStrobe bus vm
    { strobed with byte := statusByte strobed.vm.softswitches sw }
  | ioudisOn => Vm.readGcStrobe bus (vm.set [ssIoudis])
  | ioudisOff => Vm.readGcStrobe bus (vm.clear [ssIoudis])
  | floatingBus => floats bus (vm, [])
  | ignored => ⟨vm, [], 0x0⟩

def readSoftswitch (bus : Bus) (vm : Machine) (ea : UInt16) : Access :=
  (readHandler (ea &&& 0xFF).toUInt8).run bus ea 0 vm

/-- `write_softswitch`, which returns no byte. -/
def writeSoftswitch (bus : Bus) (vm : Machine) (ea : UInt16) (b : UInt8) : Access :=
  (writeHandler (ea &&& 0xFF).toUInt8).run bus ea b vm

end Apple2ix.Vm
