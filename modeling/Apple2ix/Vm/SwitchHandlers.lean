import Apple2ix.Vm.Memory
import Apple2ix.Video.Scanner

/-! The softswitch handlers of vm.c, in the order of the source. -/
namespace Apple2ix.Vm
open Video Switch
set_option autoImplicit false

/-! ## Calls and answers -/

/-- The glyph tables of font.txt that are switched by ALTCHAR. -/
inductive Glyphs
  | ucaseGlyphs
  | mousetextGlyphs
  | lcaseGlyphs
  deriving DecidableEq, Repr

inductive FontMode
  | normal
  | inverse
  | flash
  | mousetext
  deriving DecidableEq, Repr

/-- The functions outside vm.c that a handler calls for their effect. -/
inductive Callee
  | videoSetDirty
  | displayLoadFont (start qty : ℕ) (data : Glyphs) (mode : FontMode)
  | speakerToggle
  | disk6IoRead (ea : UInt16)
  | disk6IoWrite (ea : UInt16) (b : UInt8)
  deriving DecidableEq, Repr

/-- A call, with the machine the callee finds. -/
structure Call where
  callee : Callee
  vm : Machine

/-- What a handler reads besides the machine: the position of the scanner, the buttons, the values
the paddle timers are loaded with, and the byte of the disk controller. -/
structure Bus where
  cyclesVideoFrame : ℕ
  joyButton0 : UInt8
  joyButton1 : UInt8
  joyTimer0 : ℤ
  joyTimer1 : ℤ
  disk6Byte : UInt8

/-- The machine after a handler, the calls it made in order, and the byte it returned. -/
structure Access where
  vm : Machine
  calls : List Call
  byte : UInt8

def Machine.call (vm : Machine) (callee : Callee) : Call := ⟨callee, vm⟩

/-- `floating_bus`. -/
def floatingBus (bus : Bus) (vm : Machine) : UInt8 :=
  vm.load (Ptr.appleIi64k 0) (videoScannerAddress vm.softswitches bus.cyclesVideoFrame)

/-- A handler that ends in `return floating_bus()`. -/
def floats (bus : Bus) (step : Machine × List Call) : Access :=
  ⟨step.1, step.2, floatingBus bus step.1⟩

/-- A handler that ends in `return 0x0`. -/
def returnsZero (step : Machine × List Call) : Access := ⟨step.1, step.2, 0x0⟩

/-- `read_keyboard_strobe`. -/
def readKeyboardStrobe (vm : Machine) : Access :=
  let vm := vm.store (Ptr.appleIi64k 0) 0xC000 (vm.load (Ptr.appleIi64k 0) 0xC000 &&& 0x7F)
  let vm := vm.store (Ptr.appleIi64k 1) 0xC000 (vm.load (Ptr.appleIi64k 1) 0xC000 &&& 0x7F)
  ⟨vm, [], vm.load (Ptr.appleIi64k 0) 0xC000⟩

/-! ## Graphics softswitches -/

/-- A switch that only the display follows, turned off. -/
def switchOff (sw : Switch) (vm : Machine) : Machine × List Call :=
  if vm.has sw then (vm.clear [sw], [vm.call .videoSetDirty]) else (vm, [])

/-- A switch that only the display follows, turned on. -/
def switchOn (sw : Switch) (vm : Machine) : Machine × List Call :=
  if vm.has sw then (vm, []) else (vm.set [sw], [vm.call .videoSetDirty])

def pointText (bank : ℕ) (vm : Machine) : Machine :=
  vm.point [.textrd, .textwrt] (Ptr.appleIi64k bank)

def pointHgr (bank : ℕ) (vm : Machine) : Machine :=
  vm.point [.hgrrd, .hgrwrt] (Ptr.appleIi64k bank)

def iiePage2Off (bus : Bus) (vm : Machine) : Access :=
  floats bus <|
    if vm.has ssPage2 then
      let after := vm.clear [ssPage2, ssScreen]
      let after :=
        if after.has ss80store then
          let text := pointText 0 (after.clear [ssTextrd, ssTextwrt])
          if text.has ssHires then pointHgr 0 (text.clear [ssHgrrd, ssHgrwrt]) else text
        else after
      (after, [vm.call .videoSetDirty])
    else (vm, [])

def iiePage2On (bus : Bus) (vm : Machine) : Access :=
  floats bus <|
    if vm.has ssPage2 then (vm, [])
    else
      let after := vm.set [ssPage2]
      let after :=
        if after.has ss80store then
          let text := pointText 1 (after.set [ssTextrd, ssTextwrt])
          if text.has ssHires then pointHgr 1 (text.set [ssHgrrd, ssHgrwrt]) else text
        else after.set [ssScreen]
      (after, [vm.call .videoSetDirty])

def readSwitchGraphics (bus : Bus) (vm : Machine) : Access := floats bus (switchOff ssText vm)
def readSwitchText (bus : Bus) (vm : Machine) : Access := floats bus (switchOn ssText vm)
def readSwitchNoMixed (bus : Bus) (vm : Machine) : Access := floats bus (switchOff ssMixed vm)
def readSwitchMixed (bus : Bus) (vm : Machine) : Access := floats bus (switchOn ssMixed vm)

def iieAnnunciator (bus : Bus) (vm : Machine) : Access := floats bus (vm, [])

def iieHiresOff (bus : Bus) (vm : Machine) : Access :=
  floats bus <|
    if vm.has ssHires then
      let after := pointHgr 0 (vm.clear [ssHires, ssHgrrd, ssHgrwrt])
      let after :=
        if after.has ssRamrd then (after.point [.hgrrd] (Ptr.appleIi64k 1)).set [ssHgrrd]
        else after
      let after :=
        if after.has ssRamwrt then (after.point [.hgrwrt] (Ptr.appleIi64k 1)).set [ssHgrwrt]
        else after
      (after, [vm.call .videoSetDirty])
    else (vm, [])

def iieHiresOn (bus : Bus) (vm : Machine) : Access :=
  floats bus <|
    if vm.has ssHires then (vm, [])
    else
      let after := vm.set [ssHires]
      let after :=
        if after.has ss80store then
          if after.has ssPage2 then pointHgr 1 (after.set [ssHgrrd, ssHgrwrt])
          else pointHgr 0 (after.clear [ssHgrrd, ssHgrwrt])
        else after
      (after, [vm.call .videoSetDirty])

/-! ## GC softswitches: game controller -/

def readButton0 (bus : Bus) (vm : Machine) : Access :=
  ⟨vm, [], (floatingBus bus vm &&& 0x7F) ||| (bus.joyButton0 &&& 0x80)⟩

def readButton1 (bus : Bus) (vm : Machine) : Access :=
  ⟨vm, [], (floatingBus bus vm &&& 0x7F) ||| (bus.joyButton1 &&& 0x80)⟩

def readButton2 (bus : Bus) (vm : Machine) : Access :=
  ⟨vm, [], (floatingBus bus vm &&& 0x7F) ||| (bus.joyButton0 &&& 0x80) |||
    (bus.joyButton1 &&& 0x80)⟩

def readGcStrobe (bus : Bus) (vm : Machine) : Access :=
  let vm := if vm.gcCyclesTimer0 ≤ 0 then { vm with gcCyclesTimer0 := bus.joyTimer0 } else vm
  let vm := if vm.gcCyclesTimer1 ≤ 0 then { vm with gcCyclesTimer1 := bus.joyTimer1 } else vm
  floats bus (vm, [])

def readGc0 (vm : Machine) : Access :=
  if vm.gcCyclesTimer0 ≤ 0 then ⟨{ vm with gcCyclesTimer0 := 0 }, [], 0⟩ else ⟨vm, [], 0xFF⟩

def readGc1 (vm : Machine) : Access :=
  if vm.gcCyclesTimer1 ≤ 0 then ⟨{ vm with gcCyclesTimer1 := 0 }, [], 0⟩ else ⟨vm, [], 0xFF⟩

def iieReadGc2 (bus : Bus) (vm : Machine) : Access := floats bus (vm, [])
def iieReadGc3 (bus : Bus) (vm : Machine) : Access := floats bus (vm, [])

/-! ## LC: language card routines -/

/-- `_lc_to_auxmem`. -/
def lcToAuxmem (vm : Machine) : Machine :=
  let vm :=
    if vm.has ssLcram then
      (vm.point [.d000Rd] (vm.base .d000Rd + (0x2000 : ℤ))).point [.e000Rd]
        (Ptr.languageCard 0 - (0xC000 : ℤ))
    else vm
  if vm.has ssLcwrt then
    (vm.point [.d000Wrt] (vm.base .d000Wrt + (0x2000 : ℤ))).point [.e000Wrt]
      (Ptr.languageCard 0 - (0xC000 : ℤ))
  else vm

/-- The end of the handlers that can leave the card mapped. -/
def lcFollowAltzp (vm : Machine) : Machine := if vm.has ssAltzp then lcToAuxmem vm else vm

/-- `language_banks[0]` as it is mapped at D000 with and without BANK2. -/
def lcBank2 : Ptr := Ptr.languageBanks 0 - (0xD000 : ℤ)
def lcBank1 : Ptr := Ptr.languageBanks 0 - (0xC000 : ℤ)

/-- `language_card[0]-0xE000`. -/
def lcCard : Ptr := Ptr.languageCard 0 - (0xE000 : ℤ)

def lcReadCard (d000 : Ptr) (vm : Machine) : Machine :=
  (vm.point [.d000Rd] d000).point [.e000Rd] lcCard

def lcReadRom (vm : Machine) : Machine :=
  vm.point [.d000Rd, .e000Rd] (Ptr.appleIi64k 0)

def lcNoWrite (vm : Machine) : Machine :=
  vm.point [.d000Wrt, .e000Wrt] Ptr.null

/-- The second access in a row to an odd address enables writes. -/
def lcSecondAccess (d000 : Ptr) (vm : Machine) : Machine :=
  if vm.has ssLcsec then
    ((vm.set [ssLcwrt]).point [.d000Wrt] d000).point [.e000Wrt] lcCard
  else vm

def iieC080 (bus : Bus) (vm : Machine) : Access :=
  let vm := (vm.set [ssLcram, ssBank2]).clear [ssLcsec, ssLcwrt]
  floats bus (lcFollowAltzp (lcNoWrite (lcReadCard lcBank2 vm)), [])

def iieC081 (bus : Bus) (vm : Machine) : Access :=
  let vm := ((lcSecondAccess lcBank2 vm).set [ssLcsec, ssBank2]).clear [ssLcram]
  floats bus (lcFollowAltzp (lcReadRom vm), [])

def lcC082 (bus : Bus) (vm : Machine) : Access :=
  let vm := (vm.clear [ssLcram, ssLcwrt, ssLcsec]).set [ssBank2]
  floats bus (lcNoWrite (lcReadRom vm), [])

def iieC083 (bus : Bus) (vm : Machine) : Access :=
  let vm := (lcSecondAccess lcBank2 vm).set [ssLcsec, ssLcram, ssBank2]
  floats bus (lcFollowAltzp (lcReadCard lcBank2 vm), [])

def iieC088 (bus : Bus) (vm : Machine) : Access :=
  let vm := (vm.set [ssLcram]).clear [ssLcwrt, ssLcsec, ssBank2]
  floats bus (lcFollowAltzp (lcNoWrite (lcReadCard lcBank1 vm)), [])

def iieC089 (bus : Bus) (vm : Machine) : Access :=
  let vm := ((lcSecondAccess lcBank1 vm).set [ssLcsec]).clear [ssLcram, ssBank2]
  floats bus (lcFollowAltzp (lcReadRom vm), [])

def lcC08a (bus : Bus) (vm : Machine) : Access :=
  let vm := vm.clear [ssLcram, ssLcwrt, ssLcsec, ssBank2]
  floats bus (lcNoWrite (lcReadRom vm), [])

def iieC08b (bus : Bus) (vm : Machine) : Access :=
  let vm := ((lcSecondAccess lcBank1 vm).set [ssLcram, ssLcsec]).clear [ssBank2]
  floats bus (lcFollowAltzp (lcReadCard lcBank1 vm), [])

/-! ## Misc //e softswitches -/

def iie80storeOff (vm : Machine) : Access :=
  returnsZero <|
    if vm.has ss80store then
      let after := pointHgr 0 (pointText 0
        (vm.clear [ss80store, ssTextrd, ssTextwrt, ssHgrrd, ssHgrwrt]))
      let after :=
        if after.has ssRamrd then
          (after.set [ssTextrd, ssHgrrd]).point [.textrd, .hgrrd] (Ptr.appleIi64k 1)
        else after
      let after :=
        if after.has ssRamwrt then
          (after.set [ssTextwrt, ssHgrwrt]).point [.textwrt, .hgrwrt] (Ptr.appleIi64k 1)
        else after
      let after := if after.has ssPage2 then after.set [ssScreen] else after
      (after, [vm.call .videoSetDirty])
    else (vm, [])

def iie80storeOn (vm : Machine) : Access :=
  returnsZero <|
    if vm.has ss80store then (vm, [])
    else
      let after := vm.set [ss80store]
      let after :=
        if after.has ssPage2 then
          let text := pointText 1 (after.set [ssTextrd, ssTextwrt])
          if text.has ssHires then pointHgr 1 (text.set [ssHgrrd, ssHgrwrt]) else text
        else
          let text := pointText 0 (after.clear [ssTextrd, ssTextwrt])
          if text.has ssHires then pointHgr 0 (text.clear [ssHgrrd, ssHgrwrt]) else text
      (after.clear [ssScreen], [vm.call .videoSetDirty])

def iieRamrdMain (vm : Machine) : Access :=
  returnsZero <|
    if vm.has ssRamrd then
      let after := (vm.clear [ssRamrd]).point [.ramrd] (Ptr.appleIi64k 0)
      let after :=
        if after.has ss80store then
          if after.has ssHires then after
          else (after.clear [ssHgrrd]).point [.hgrrd] (Ptr.appleIi64k 0)
        else
          (after.clear [ssTextrd, ssHgrrd]).point [.textrd, .hgrrd] (Ptr.appleIi64k 0)
      (after, [vm.call .videoSetDirty])
    else (vm, [])

def iieRamrdAux (vm : Machine) : Access :=
  returnsZero <|
    if vm.has ssRamrd then (vm, [])
    else
      let after := (vm.set [ssRamrd]).point [.ramrd] (Ptr.appleIi64k 1)
      let after :=
        if after.has ss80store then
          if after.has ssHires then after
          else (after.set [ssHgrrd]).point [.hgrrd] (Ptr.appleIi64k 1)
        else
          (after.set [ssTextrd, ssHgrrd]).point [.textrd, .hgrrd] (Ptr.appleIi64k 1)
      (after, [vm.call .videoSetDirty])

def iieRamwrtMain (vm : Machine) : Access :=
  returnsZero <|
    if vm.has ssRamwrt then
      let after := (vm.clear [ssRamwrt]).point [.ramwrt] (Ptr.appleIi64k 0)
      let after :=
        if after.has ss80store then
          if after.has ssHires then after
          else (after.clear [ssHgrwrt]).point [.hgrwrt] (Ptr.appleIi64k 0)
        else
          (after.clear [ssTextwrt, ssHgrwrt]).point [.textwrt, .hgrwrt] (Ptr.appleIi64k 0)
      (after, [])
    else (vm, [])

def iieRamwrtAux (vm : Machine) : Access :=
  returnsZero <|
    if vm.has ssRamwrt then (vm, [])
    else
      let after := (vm.set [ssRamwrt]).point [.ramwrt] (Ptr.appleIi64k 1)
      let after :=
        if after.has ss80store then
          if after.has ssHires then after
          else (after.set [ssHgrwrt]).point [.hgrwrt] (Ptr.appleIi64k 1)
        else
          (after.set [ssTextwrt, ssHgrwrt]).point [.textwrt, .hgrwrt] (Ptr.appleIi64k 1)
      (after, [])

def iieAltzpMain (vm : Machine) : Access :=
  returnsZero <|
    if vm.has ssAltzp then
      let vm := (vm.clear [ssAltzp]).point [.stackzp] (Ptr.appleIi64k 0)
      let vm :=
        if vm.has ssLcram then
          (vm.point [.d000Rd] (vm.base .d000Rd - (0x2000 : ℤ))).point [.e000Rd] lcCard
        else vm
      let vm :=
        if vm.has ssLcwrt then
          (vm.point [.d000Wrt] (vm.base .d000Wrt - (0x2000 : ℤ))).point [.e000Wrt] lcCard
        else vm
      (vm, [])
    else (vm, [])

def iieAltzpAux (vm : Machine) : Access :=
  returnsZero <|
    if vm.has ssAltzp then (vm, [])
    else (lcToAuxmem ((vm.set [ssAltzp]).point [.stackzp] (Ptr.appleIi64k 1)), [])

def iie80colOff (vm : Machine) : Access := returnsZero (switchOff ss80col vm)
def iie80colOn (vm : Machine) : Access := returnsZero (switchOn ss80col vm)

def iieAltcharOff (vm : Machine) : Access :=
  returnsZero <|
    if vm.has ssAltchar then
      let after := vm.clear [ssAltchar]
      (after, [vm.call .videoSetDirty,
        after.call (.displayLoadFont 0x40 0x40 .ucaseGlyphs .flash)])
    else (vm, [])

def iieAltcharOn (vm : Machine) : Access :=
  returnsZero <|
    if vm.has ssAltchar then (vm, [])
    else
      let after := vm.set [ssAltchar]
      (after, [vm.call .videoSetDirty,
        after.call (.displayLoadFont 0x40 0x20 .mousetextGlyphs .mousetext),
        after.call (.displayLoadFont 0x60 0x20 .lcaseGlyphs .inverse)])

def iieDhiresOn (bus : Bus) (vm : Machine) : Access := floats bus (switchOn ssDhires vm)
def iieDhiresOff (bus : Bus) (vm : Machine) : Access := floats bus (switchOff ssDhires vm)

def iieCheckVbl (bus : Bus) (vm : Machine) : Access :=
  let key := vm.load (Ptr.appleIi64k 0) 0xC000
  ⟨vm, [], (key &&& 0x7F) ||| (if isVbl bus.cyclesVideoFrame then 0x00 else 0x80)⟩

def iieC3romPeripheral (vm : Machine) : Access :=
  let vm := vm.clear [ssC3rom]
  returnsZero
    (if vm.has ssCxrom then vm else vm.point [.c3rom] Ptr.iieReadPeripheralCard, [])

def iieC3romInternal (vm : Machine) : Access :=
  returnsZero ((vm.set [ssC3rom]).point [.c3rom] (Ptr.appleIi64k 1), [])

def iieCxromPeripheral (vm : Machine) : Access :=
  let vm := (vm.clear [ssCxrom]).point [.cxrom, .c4rom, .c5rom] Ptr.iieReadPeripheralCard
  returnsZero
    (if vm.has ssC3rom then vm else vm.point [.c3rom] Ptr.iieReadPeripheralCard, [])

def iieCxromInternal (vm : Machine) : Access :=
  returnsZero
    ((vm.set [ssCxrom]).point [.cxrom, .c3rom, .c4rom, .c5rom] (Ptr.appleIi64k 1), [])

end Apple2ix.Vm
