import Mathlib.Logic.Function.Basic
import Apple2ix.Foundations.Results
import Apple2ix.Foundations.Runs

/-! The Mockingboards of mockingboard.c: two cards with two 6522s each, that raise one interrupt of
the CPU. What the cards sound like is left to a parameter. -/
namespace Apple2ix.Mockingboard
open Runs
set_option autoImplicit false

/-! ## The chips -/

/-- `SY6522`. A counter or latch is an `IWORD`, with its low and its high byte. -/
structure SY6522 where
  orb : UInt8
  ora : UInt8
  ddrb : UInt8
  ddra : UInt8
  timer1Counter : UInt16
  timer1Latch : UInt16
  timer2Counter : UInt16
  timer2Latch : UInt16
  serialShift : UInt8
  acr : UInt8
  pcr : UInt8
  ifr : UInt8
  ier : UInt8
  oraNoHs : UInt8
  deriving DecidableEq, Repr

/-- A cleared set of registers. -/
def SY6522.zero : SY6522 := ⟨0, 0, 0, 0, 0, 0, 0, 0, 0, 0, 0, 0, 0, 0⟩

/-- The `l` and the `h` of an `IWORD`. -/
def low (w : UInt16) : UInt8 := w.toUInt8

def high (w : UInt16) : UInt8 := (w >>> 8).toUInt8

def setLow (w : UInt16) (v : UInt8) : UInt16 := w &&& 0xFF00 ||| v.toUInt16

def setHigh (w : UInt16) (v : UInt8) : UInt16 := (w &&& 0x00FF) ||| (v.toUInt16 <<< (8 : UInt16))

/-- `SSI263A`. -/
structure SSI263A where
  durationPhoneme : UInt8
  inflection : UInt8
  rateInflection : UInt8
  ctrlArtAmp : UInt8
  filterFreq : UInt8
  currentMode : UInt8
  deriving DecidableEq, Repr

/-- `SY6522_AY8910`. -/
structure Unit6522 where
  sy6522 : SY6522
  nAY8910Number : ℕ
  nAYCurrentRegister : UInt8
  nTimerStatus : UInt8
  speechChip : SSI263A
  deriving DecidableEq, Repr

def Unit6522.zero : Unit6522 := ⟨.zero, 0, 0, 0, ⟨0, 0, 0, 0, 0, 0⟩⟩

/-- `AY_CHANGE_MAX`. -/
def ayChangeMax : ℕ := 8000

/-- `ay_change_tag`. -/
structure AyChange where
  tstates : UInt64
  ofs : UInt16
  reg : UInt8
  val : UInt8
  deriving DecidableEq, Repr

/-- How many of the counters of a `CAY8910` there are, `ay_tone_tick[0]` to `env_counter`. -/
def ayWords : ℕ := 22

/-- How many registers it has. -/
def ayRegisters : ℕ := 16

/-- `CAY8910`: its counters in the order in which they are saved, its registers, and the changes
that are still to be made, the first `ayChangeCount` of `ayChange`. -/
structure CAY8910 where
  words : ℕ → UInt32
  soundAyRegisters : ℕ → UInt8
  ayChange : ℕ → AyChange
  ayChangeCount : ℕ

/-- `sound_ay_write`. -/
def soundAyWrite (ay : CAY8910) (reg val : UInt8) (now : UInt64) : CAY8910 :=
  if ay.ayChangeCount < ayChangeMax then
    { ay with
      ayChange := Function.update ay.ayChange ay.ayChangeCount
        { ay.ayChange ay.ayChangeCount with tstates := now, reg := reg &&& 15, val := val }
      ayChangeCount := ay.ayChangeCount + 1 }
  else ay

/-! ## The cards -/

def numSY6522 : ℕ := 4

def numDevsPerMB : ℕ := 2

def slot4 : ℕ := 4

/-- `IFR & IER`. -/
def ixrTimer2 : UInt8 := 0x20

def ixrTimer1 : UInt8 := 0x40

/-- `ACR`. -/
def runmode : UInt8 := 0x40

/-- `IS_6522`. -/
def is6522 : UInt8 := 0x08

inductive CardType
  | empty
  | mockingboardC
  | phasor
  deriving DecidableEq, Repr

/-- What only the sound depends on. `uLastCumulativeCycles` is the variable of AY8910.c. -/
structure Sound where
  ay : ℕ → CAY8910
  uLastCumulativeCycles : ℕ
  bMBRegAccessedFlag : Bool
  bMBActive : Bool
  nMBInActiveCycleCount : ℕ

/-- The file's variables, and `cpu65__signal`. `none` is `TIMERDEVICE_INVALID`. -/
structure Card where
  mb : ℕ → Unit6522
  n6522TimerPeriod : UInt16
  nMBTimerDevice : Option ℕ
  uLastCumulativeCycles : ℕ
  bMBTimerIrqActive : Bool
  soundcardType : CardType
  bPhasorEnable : Bool
  nPhasorMode : UInt8
  phasorClockScaleFactor : ℕ
  sound : Sound
  cpu65Signal : UInt8

/-- What the cards need of the machine: whether there is audio, how an AY8910 is reset and given its
clock, `MB_Update`, which hands over what the cards sound like, and the floating bus. -/
structure Host where
  audioIsAvailable : Bool
  ayReset : CAY8910 → CAY8910
  initClock : CAY8910 → CAY8910
  mbUpdate : Card → Sound
  floatingBus : ℕ → UInt8

/-- Why an access does not return: a failed `assert` or `mb_assert`, a write behind the end of an
array, or it was no access of the cards. -/
inductive Fault
  | assertion
  | overrun
  | misuse
  deriving DecidableEq, Repr

/-- `mb_assert`, in a build without `NDEBUG`. -/
def mbAssert (condition : Bool) : Except Fault Unit :=
  if condition then .ok () else .error .assertion

namespace Card

def regs (card : Card) (n : ℕ) : SY6522 := (card.mb n).sy6522

def setUnit (card : Card) (n : ℕ) (pMB : Unit6522) : Card :=
  { card with mb := Function.update card.mb n pMB }

def setRegs (card : Card) (n : ℕ) (sy6522 : SY6522) : Card :=
  card.setUnit n { card.mb n with sy6522 := sy6522 }

def setSpeechChip (card : Card) (n : ℕ) (speechChip : SSI263A) : Card :=
  card.setUnit n { card.mb n with speechChip := speechChip }

def setCurrentRegister (card : Card) (n : ℕ) (nAYCurrentRegister : UInt8) : Card :=
  card.setUnit n { card.mb n with nAYCurrentRegister := nAYCurrentRegister }

def setSound (card : Card) (sound : Sound) : Card := { card with sound := sound }

def setAy (card : Card) (n : ℕ) (ay : CAY8910) : Card :=
  card.setSound { card.sound with ay := Function.update card.sound.ay n ay }

/-- The sound of `MB_Update`. -/
def mbUpdate (card : Card) (host : Host) : Card := card.setSound (host.mbUpdate card)

end Card

/-- `StartTimer`. -/
def startTimer (card : Card) (n : ℕ) : Card :=
  let pMB := card.mb n
  if pMB.nAY8910Number % 2 ≠ 0 then card
  else if pMB.sy6522.ier &&& ixrTimer1 = 0 then card
  else
    { card.setUnit n { pMB with nTimerStatus := 1 } with
      n6522TimerPeriod := pMB.sy6522.timer1Latch
      bMBTimerIrqActive := true
      nMBTimerDevice := some pMB.nAY8910Number }

/-- `StopTimer`. -/
def stopTimer (card : Card) (n : ℕ) : Card :=
  { card.setUnit n { card.mb n with nTimerStatus := 0 } with
    bMBTimerIrqActive := false
    nMBTimerDevice := none }

/-- `ResetSY6522`. -/
def resetSY6522 (card : Card) (n : ℕ) : Card :=
  let card := card.setRegs n .zero
  let card := if (card.mb n).nTimerStatus ≠ 0 then stopTimer card n else card
  card.setCurrentRegister n 0

/-- The interrupt flags of one 6522 after bit 7 was made to fit the others. -/
def SY6522.flagged (sy6522 : SY6522) : SY6522 :=
  let ifr := sy6522.ifr &&& 0x7F
  { sy6522 with ifr := if ifr &&& sy6522.ier &&& 0x7F ≠ 0 then ifr ||| 0x80 else ifr }

/-- `UpdateIFR`. The signal is the sum of all of them. -/
def updateIFR (card : Card) (n : ℕ) : Card :=
  let card := card.setRegs n (card.regs n).flagged
  let bIRQ := (List.range numSY6522).any fun i => (card.regs i).ifr &&& 0x80 ≠ 0
  { card with
    cpu65Signal := if bIRQ then card.cpu65Signal ||| is6522 else card.cpu65Signal &&& ~~~is6522 }

/-! ## Access -/

/-- The functions of an AY8910 that its inputs select, with `BC2` at one. -/
inductive AyFunc
  | inactive
  | read
  | write
  | latch
  deriving DecidableEq, Repr

/-- `nAYFunc`. -/
def ayFunc (nValue : UInt8) : Option AyFunc :=
  let nBDIR := if nValue &&& 2 ≠ 0 then 1 else 0
  let nBC2 := 1
  let nBC1 := nValue.toNat % 2
  match nBDIR * 4 + nBC2 * 2 + nBC1 with
  | 2 => some .inactive
  | 3 => some .read
  | 6 => some .write
  | 7 => some .latch
  | _ => none

/-- `AY8910_Write`, when `cycles_count_total` is `cycles`. -/
def ay8910Write (host : Host) (card : Card) (nDevice : ℕ) (nValue : UInt8)
    (nAYDevice cycles : ℕ) : Except Fault Card :=
  let card := card.setSound { card.sound with bMBRegAccessedFlag := true }
  let pMB := card.mb nDevice
  let chip := nDevice + 2 * nAYDevice
  if nValue &&& 4 = 0 then .ok (card.setAy chip (host.ayReset (card.sound.ay chip)))
  else
    match ayFunc nValue with
    | some .inactive => .ok card
    | some .read => .ok card
    | some .write =>
      .ok (card.setAy chip (soundAyWrite (card.sound.ay chip) pMB.nAYCurrentRegister pMB.sy6522.ora
        (UInt64.ofNat cycles - UInt64.ofNat card.sound.uLastCumulativeCycles)))
    | some .latch =>
      if pMB.sy6522.ora ≤ 0x0F then
        .ok (card.setCurrentRegister nDevice (pMB.sy6522.ora &&& 0x0F))
      else .ok card
    | none => do
      mbAssert false
      .ok card

/-- The registers of a 6522. -/
inductive Reg
  | orb
  | ora
  | ddrb
  | ddra
  | timer1lCounter
  | timer1hCounter
  | timer1lLatch
  | timer1hLatch
  | timer2l
  | timer2h
  | serialShift
  | acr
  | pcr
  | ifr
  | ier
  | oraNoHs
  deriving DecidableEq, Repr

/-- `nReg`. -/
def Reg.ofAddress : ℕ → Reg
  | 0x00 => .orb
  | 0x01 => .ora
  | 0x02 => .ddrb
  | 0x03 => .ddra
  | 0x04 => .timer1lCounter
  | 0x05 => .timer1hCounter
  | 0x06 => .timer1lLatch
  | 0x07 => .timer1hLatch
  | 0x08 => .timer2l
  | 0x09 => .timer2h
  | 0x0a => .serialShift
  | 0x0b => .acr
  | 0x0c => .pcr
  | 0x0d => .ifr
  | 0x0e => .ier
  | _ => .oraNoHs

/-- `g_bMB_Active = true`. -/
def activate (card : Card) : Card := card.setSound { card.sound with bMBActive := true }

/-- The Votrax speech chip is addressed. -/
def SY6522.speaks (sy6522 : SY6522) : Bool := sy6522.ddrb = 0xFF && sy6522.pcr = 0xB0

/-- `pMB->sy6522.IFR &= mask`, and `UpdateIFR`. -/
def maskIFR (card : Card) (n : ℕ) (mask : UInt8) : Card :=
  updateIFR (card.setRegs n { card.regs n with ifr := (card.regs n).ifr &&& mask }) n

/-- A device that may be selected or not. -/
def whenSelected (selected : Bool) (access : Card → Except Fault Card) (card : Card) :
    Except Fault Card :=
  if selected then access card else .ok card

/-- `SY6522_Write`. -/
def sy6522Write (host : Host) (card : Card) (nDevice : ℕ) (nReg : Reg) (nValue : UInt8)
    (cycles : ℕ) : Except Fault Card :=
  let card := activate card
  let sy6522 := card.regs nDevice
  match nReg with
  | .orb =>
    let nValue := nValue &&& sy6522.ddrb
    let card := card.setRegs nDevice { sy6522 with orb := nValue }
    if sy6522.speaks then do
      mbAssert false
      .ok card
    else if card.bPhasorEnable then do
      let nAYCS := if card.nPhasorMode &&& 1 ≠ 0 then ~~~(nValue >>> 3) &&& 3 else 1
      let card ← whenSelected (nAYCS &&& 1 ≠ 0)
        (fun card => ay8910Write host card nDevice nValue 0 cycles) card
      whenSelected (nAYCS &&& 2 ≠ 0)
        (fun card => ay8910Write host card nDevice nValue 1 cycles) card
    else ay8910Write host card nDevice nValue 0 cycles
  | .ora => .ok (card.setRegs nDevice { sy6522 with ora := nValue &&& sy6522.ddra })
  | .ddrb => .ok (card.setRegs nDevice { sy6522 with ddrb := nValue })
  | .ddra => .ok (card.setRegs nDevice { sy6522 with ddra := nValue })
  | .timer1lCounter | .timer1lLatch =>
    .ok (card.setRegs nDevice { sy6522 with timer1Latch := setLow sy6522.timer1Latch nValue })
  | .timer1hCounter =>
    let card := maskIFR card nDevice (~~~ixrTimer1)
    let timer1Latch := setHigh (card.regs nDevice).timer1Latch nValue
    let card := card.setRegs nDevice { card.regs nDevice with
      timer1Latch := timer1Latch
      timer1Counter := timer1Latch }
    .ok (startTimer card nDevice)
  | .timer1hLatch =>
    let card := card.setRegs nDevice { sy6522 with
      timer1Latch := setHigh sy6522.timer1Latch nValue }
    .ok (maskIFR card nDevice (~~~ixrTimer1))
  | .timer2l =>
    .ok (card.setRegs nDevice { sy6522 with timer2Latch := setLow sy6522.timer2Latch nValue })
  | .timer2h =>
    let card := maskIFR card nDevice (~~~ixrTimer2)
    let timer2Latch := setHigh (card.regs nDevice).timer2Latch nValue
    .ok (card.setRegs nDevice { card.regs nDevice with
      timer2Latch := timer2Latch
      timer2Counter := timer2Latch })
  | .serialShift => .ok card
  | .acr => .ok (card.setRegs nDevice { sy6522 with acr := nValue })
  | .pcr => .ok (card.setRegs nDevice { sy6522 with pcr := nValue })
  | .ifr => .ok (maskIFR card nDevice ((nValue ||| 0x80) ^^^ 0x7F))
  | .ier =>
    if nValue &&& 0x80 = 0 then
      let card := updateIFR (card.setRegs nDevice { sy6522 with
        ier := sy6522.ier &&& (nValue ^^^ 0x7F) }) nDevice
      if (card.regs nDevice).ier &&& ixrTimer1 ≠ 0 then .ok card
      else if (card.mb nDevice).nTimerStatus = 0 then .ok card
      else .ok (stopTimer card nDevice)
    else
      let card := updateIFR (card.setRegs nDevice { sy6522 with
        ier := sy6522.ier ||| (nValue &&& 0x7F) }) nDevice
      .ok (startTimer card nDevice)
  | .oraNoHs => .ok card

/-- `SY6522_Read`. -/
def sy6522Read (card : Card) (nDevice : ℕ) (nReg : Reg) : UInt8 × Card :=
  let card := activate card
  let sy6522 := card.regs nDevice
  match nReg with
  | .orb => (sy6522.orb, card)
  | .ora => (sy6522.ora, card)
  | .ddrb => (sy6522.ddrb, card)
  | .ddra => (sy6522.ddra, card)
  | .timer1lCounter => (low sy6522.timer1Counter, maskIFR card nDevice (~~~ixrTimer1))
  | .timer1hCounter => (high sy6522.timer1Counter, card)
  | .timer1lLatch => (low sy6522.timer1Latch, card)
  | .timer1hLatch => (high sy6522.timer1Latch, card)
  | .timer2l => (low sy6522.timer2Counter, maskIFR card nDevice (~~~ixrTimer2))
  | .timer2h => (high sy6522.timer2Counter, card)
  | .serialShift => (0, card)
  | .acr => (sy6522.acr, card)
  | .pcr => (sy6522.pcr, card)
  | .ifr => (sy6522.ifr, card)
  | .ier => (0x80, card)
  | .oraNoHs => (sy6522.ora, card)

/-! ## Cycles -/

/-- One pass of the loop in `MB_UpdateCycles`. -/
def tick (host : Host) (nClocks : UInt16) (card : Card) (i : ℕ) : Card :=
  let oldTimer1 := (card.regs i).timer1Counter
  let card := card.setRegs i { card.regs i with
    timer1Counter := (card.regs i).timer1Counter - nClocks
    timer2Counter := (card.regs i).timer2Counter - nClocks }
  let bTimer1Underflow : Bool :=
    oldTimer1 &&& 0x8000 = 0 && (card.regs i).timer1Counter &&& 0x8000 ≠ 0
  if bTimer1Underflow && card.nMBTimerDevice = some i && card.bMBTimerIrqActive then
    let card := updateIFR
      (card.setRegs i { card.regs i with ifr := (card.regs i).ifr ||| ixrTimer1 }) i
    let card :=
      if (card.regs i).acr &&& runmode = 0 then stopTimer card i
      else startTimer (card.setRegs i { card.regs i with
        timer1Counter := (card.regs i).timer1Latch }) i
    card.mbUpdate host
  else if bTimer1Underflow && !card.bMBTimerIrqActive && (card.regs i).ifr &&& ixrTimer1 ≠ 0 &&
      (card.regs i).acr &&& runmode = 0 then
    maskIFR card i (~~~ixrTimer1)
  else card

/-- `MB_UpdateCycles`, when `cycles_count_total` is `cycles`. Only the low 16 bits of the cycles
that have passed are used. -/
def mbUpdateCycles (host : Host) (card : Card) (cycles : ℕ) : Card :=
  if card.soundcardType = .empty then card
  else
    let nClocks := UInt16.ofNat cycles - UInt16.ofNat card.uLastCumulativeCycles
    let card := { card with uLastCumulativeCycles := cycles }
    if nClocks = 0 then card else (List.range numSY6522).foldl (tick host nClocks) card

/-- `MB_StartOfCpuExecute`. -/
def mbStartOfCpuExecute (card : Card) (cycles : ℕ) : Card :=
  { card with uLastCumulativeCycles := cycles }

/-- `MB_EndOfVideoFrame`. -/
def mbEndOfVideoFrame (host : Host) (card : Card) : Card :=
  if card.soundcardType = .empty then card
  else if card.bMBTimerIrqActive then card
  else card.mbUpdate host

/-! ## The card pages -/

/-- `SSI263_Offset`, and the offsets behind it. -/
def inSpeech (nOffset : ℕ) : Bool := 0x40 ≤ nOffset && nOffset ≤ 0x45

/-- Which of the two 6522s of a Phasor are addressed. -/
def phasorCS (card : Card) (nAddr : ℕ) : ℕ :=
  if card.nPhasorMode &&& 1 ≠ 0 then nAddr / 0x80 % 2 * 2 + nAddr / 0x10 % 2
  else nAddr / 0x80 % 2 + 1

/-- `nMB`. -/
def cardOf (nAddr : ℕ) : ℕ := nAddr / 0x100 % 0x10 - slot4

/-- `mb_read`. -/
def mbRead (host : Host) (card : Card) (nAddr cycles : ℕ) : Except Fault (UInt8 × Card) :=
  let card := mbUpdateCycles host card cycles
  let nMB := cardOf nAddr
  let nOffset := nAddr % 0x100
  let nReg := Reg.ofAddress (nAddr % 0x10)
  if card.bPhasorEnable then
    if nMB ≠ 0 then .ok (host.floatingBus cycles, card)
    else do
      let cs := phasorCS card nAddr
      let a := if cs % 2 = 1 then sy6522Read card (nMB * numDevsPerMB) nReg else (0, card)
      let b :=
        if cs / 2 % 2 = 1 then sy6522Read a.2 (nMB * numDevsPerMB + 1) nReg else (0, a.2)
      mbAssert (!inSpeech nOffset)
      .ok (if cs ≠ 0 then a.1 ||| b.1 else host.floatingBus cycles, b.2)
  else if nOffset ≤ 0x0F then .ok (sy6522Read card (nMB * numDevsPerMB) nReg)
  else if 0x80 ≤ nOffset && nOffset ≤ 0x8F then
    .ok (sy6522Read card (nMB * numDevsPerMB + 1) nReg)
  else do
    mbAssert (!inSpeech nOffset)
    .ok (host.floatingBus cycles, card)

/-- `MB_Write`. -/
def mbWrite (host : Host) (card : Card) (nAddr : ℕ) (nValue : UInt8) (cycles : ℕ) :
    Except Fault Card :=
  let card := mbUpdateCycles host card cycles
  let nMB := cardOf nAddr
  let nOffset := nAddr % 0x100
  let nReg := Reg.ofAddress (nAddr % 0x10)
  if card.bPhasorEnable then
    if nMB ≠ 0 then .ok card
    else do
      let cs := phasorCS card nAddr
      let card ← whenSelected (cs % 2 = 1)
        (fun card => sy6522Write host card (nMB * numDevsPerMB) nReg nValue cycles) card
      let card ← whenSelected (cs / 2 % 2 = 1)
        (fun card => sy6522Write host card (nMB * numDevsPerMB + 1) nReg nValue cycles) card
      mbAssert (!inSpeech nOffset)
      .ok card
  else if nOffset ≤ 0x0F then sy6522Write host card (nMB * numDevsPerMB) nReg nValue cycles
  else if 0x80 ≤ nOffset && nOffset ≤ 0x8F then
    sy6522Write host card (nMB * numDevsPerMB + 1) nReg nValue cycles
  else do
    mbAssert (!inSpeech nOffset)
    .ok card

/-! ## Initialization -/

/-- `ResetState`. -/
def resetState (card : Card) : Card :=
  { card with
    n6522TimerPeriod := 0
    nMBTimerDevice := none
    uLastCumulativeCycles := 0
    nPhasorMode := 0
    phasorClockScaleFactor := 1
    sound := { card.sound with
      bMBRegAccessedFlag := false
      bMBActive := false
      nMBInActiveCycleCount := 0 } }

/-- `MB_Reinitialize`. -/
def mbReinitialize (host : Host) (card : Card) : Card :=
  card.setSound { card.sound with ay := fun n => host.initClock (card.sound.ay n) }

/-- One pass of the loop in `MB_Reset`. -/
def resetPass (host : Host) (card : Card) (i : ℕ) : Card :=
  let card := resetSY6522 card i
  card.setAy i (host.ayReset (card.sound.ay i))

/-- `MB_Reset`. -/
def mbReset (host : Host) (card : Card) : Card :=
  if !host.audioIsAvailable then card
  else mbReinitialize host (resetState ((List.range numSY6522).foldl (resetPass host) card))

/-- The file's variables at the start of the program. -/
def Card.static (soundcardType : CardType) (sound : Sound) (cpu65Signal : UInt8) : Card where
  mb := fun _ => .zero
  n6522TimerPeriod := 0
  nMBTimerDevice := none
  uLastCumulativeCycles := 0
  bMBTimerIrqActive := false
  soundcardType := soundcardType
  bPhasorEnable := soundcardType = .phasor
  nPhasorMode := 0
  phasorClockScaleFactor := 1
  sound := sound
  cpu65Signal := cpu65Signal

/-- `MB_Initialize`, when there is audio and the card is enabled: before, `soundcardType` is what
`MB_SetSoundcardType` made it. -/
def mbInitialize (host : Host) (card : Card) : Card :=
  mbReset host { card with mb := fun n => { Unit6522.zero with nAY8910Number := n } }

end Apple2ix.Mockingboard
