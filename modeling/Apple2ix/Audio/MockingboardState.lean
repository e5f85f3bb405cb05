import Apple2ix.Misc.Loader
import Apple2ix.Audio.Mockingboard

/-! `mb_saveState` and `mb_loadState`, with the parts of AY8910.c that they call. -/
namespace Apple2ix.Mockingboard
open Loader
set_option autoImplicit false

/-! ## 6522 -/

/-- The `h` and the `l` of a counter or latch are set from `serialized`. -/
def setWord (w : UInt16) (serialized : List UInt8) : UInt16 :=
  setLow (setHigh w (serialized.getD 0 0)) (serialized.getD 1 0)

/-- `_sy6522_saveState`. -/
def sy6522Chunks (sy6522 : SY6522) : List (List UInt8) :=
  [[sy6522.ora], [sy6522.orb], [sy6522.ddra], [sy6522.ddrb], wordBytes sy6522.timer1Counter,
    wordBytes sy6522.timer1Latch, wordBytes sy6522.timer2Counter, wordBytes sy6522.timer2Latch,
    [sy6522.serialShift], [sy6522.acr], [sy6522.pcr], [sy6522.ifr], [sy6522.ier]]

/-- A byte is loaded. -/
def byteField {σ : Type*} (put : σ → UInt8 → σ) : Loader Fault σ :=
  field 1 fun bytes s => .ok (put s (bytes.getD 0 0))

/-- A counter or latch is loaded. -/
def wordField (put : SY6522 → List UInt8 → SY6522) : Loader Fault SY6522 :=
  field 2 fun serialized sy6522 => .ok (put sy6522 serialized)

/-- What `_sy6522_loadState` loads before the interrupt registers. -/
def sy6522Before : Loader Fault SY6522 :=
  all [byteField fun r v => { r with ora := v },
    byteField fun r v => { r with orb := v },
    byteField fun r v => { r with ddra := v },
    byteField fun r v => { r with ddrb := v },
    wordField fun r w => { r with timer1Counter := setWord r.timer1Counter w },
    wordField fun r w => { r with timer1Latch := setWord r.timer1Latch w },
    wordField fun r w => { r with timer2Counter := setWord r.timer2Counter w },
    wordField fun r w => { r with timer2Latch := setWord r.timer2Latch w },
    byteField fun r v => { r with serialShift := v },
    byteField fun r v => { r with acr := v },
    byteField fun r v => { r with pcr := v }]

/-- `_sy6522_loadState`. -/
def sy6522Load : Loader Fault SY6522 :=
  sy6522Before.andThen
    ((byteField fun r v => { r with ifr := v }).andThen (byteField fun r v => { r with ier := v }))

/-! ## AY8910 -/

/-- `_saveStateData32`. -/
def data32 (data : UInt32) : List UInt8 :=
  [((data &&& 0xFF000000) >>> 24).toUInt8, ((data &&& 0xFF0000) >>> 16).toUInt8,
    ((data &&& 0xFF00) >>> 8).toUInt8, ((data &&& 0xFF) >>> 0).toUInt8]

/-- `_loadStateData32`. -/
def data32Of (serialized : List UInt8) : UInt32 :=
  let byte : ℕ → UInt32 := fun i => (serialized.getD i 0).toUInt32
  (byte 0 <<< 24) ||| (byte 1 <<< 16) ||| (byte 2 <<< 8) ||| (byte 3 <<< 0)

/-- What is saved of a change. -/
def changeChunks (change : AyChange) : List (List UInt8) :=
  [data32 change.tstates.toUInt32, data32 change.ofs.toUInt32, [change.reg], [change.val]]

/-- `_ay8910_saveState`. -/
def ay8910Chunks (ay : CAY8910) : List (Except Fault (List UInt8)) :=
  (List.range ayWords).map (fun i => .ok (data32 (ay.words i))) ++
    ((List.range ayRegisters).map (fun i => .ok [ay.soundAyRegisters i]) ++
      (.ok (data32 (UInt32.ofNat ay.ayChangeCount)) ::
        (List.range ay.ayChangeCount).flatMap fun i =>
          if i < ayChangeMax then (changeChunks (ay.ayChange i)).map .ok else [.error .overrun]))

/-- `ay_change[i]` is given a new value. -/
def setChange (ay : CAY8910) (i : ℕ) (change : AyChange) : CAY8910 :=
  { ay with ayChange := Function.update ay.ayChange i change }

/-- A change is loaded. The bytes of `tstates` go to its lower half. -/
def changeLoad (i : ℕ) : Loader Fault CAY8910 :=
  all [
    field 4 fun serialized ay =>
      if i < ayChangeMax then
        .ok (setChange ay i { ay.ayChange i with
          tstates := (ay.ayChange i).tstates &&& 0xFFFFFFFF00000000 |||
            (data32Of serialized).toUInt64 })
      else .error .overrun,
    field 4 fun serialized ay =>
      if data32Of serialized ≤ 65535 then
        .ok (setChange ay i { ay.ayChange i with ofs := (data32Of serialized).toUInt16 })
      else .error .assertion,
    byteField fun ay v => setChange ay i { ay.ayChange i with reg := v },
    byteField fun ay v => setChange ay i { ay.ayChange i with val := v }]

/-- `ay_change_count` is loaded; it is an `int`. -/
def changeCountLoad : Loader Fault CAY8910 :=
  field 4 fun serialized ay =>
    if data32Of serialized < 0x80000000 then
      .ok { ay with ayChangeCount := (data32Of serialized).toNat }
    else .error .assertion

/-- `_ay8910_loadState`. -/
def ay8910Load : Loader Fault CAY8910 :=
  (all ((List.range ayWords).map fun i => field 4 fun serialized ay =>
    .ok { ay with words := Function.update ay.words i (data32Of serialized) })).andThen
  ((all ((List.range ayRegisters).map fun i => byteField fun ay v =>
    { ay with soundAyRegisters := Function.update ay.soundAyRegisters i v })).andThen
  (changeCountLoad.andThen
    (among fun ay => all ((List.range ay.ayChangeCount).map changeLoad))))

/-! ## SSI263 -/

/-- `_ssi263_saveState`. -/
def ssi263Chunks (ssi263 : SSI263A) : List (List UInt8) :=
  [[ssi263.durationPhoneme], [ssi263.inflection], [ssi263.rateInflection], [ssi263.ctrlArtAmp],
    [ssi263.filterFreq], [ssi263.currentMode]]

/-- `_ssi263_loadState`. -/
def ssi263Load : Loader Fault SSI263A :=
  all [byteField fun s v => { s with durationPhoneme := v },
    byteField fun s v => { s with inflection := v },
    byteField fun s v => { s with rateInflection := v },
    byteField fun s v => { s with ctrlArtAmp := v },
    byteField fun s v => { s with filterFreq := v },
    byteField fun s v => { s with currentMode := v }]

/-! ## The cards -/

/-- What is saved of one device. -/
def unitChunks (card : Card) (n : ℕ) : List (Except Fault (List UInt8)) :=
  (sy6522Chunks (card.regs n)).map .ok ++ (ay8910Chunks (card.sound.ay n) ++
    ((ssi263Chunks (card.mb n).speechChip).map .ok ++ [.ok [(card.mb n).nAYCurrentRegister]]))

/-- `mb_saveState`. Its two loops go through the devices in turn. -/
def mbSaveState (helper : StateHelper) (card : Card) : Except Fault (StateHelper × Bool) :=
  helper.saveEach ((List.range numSY6522).flatMap (unitChunks card))

/-- What is loaded of a device after its 6522. -/
def unitRest (n : ℕ) : Loader Fault Card :=
  (on (fun card => card.sound.ay n) (fun card ay => card.setAy n ay) ay8910Load).andThen
  ((on (fun card => (card.mb n).speechChip) (fun card s => card.setSpeechChip n s)
    ssi263Load).andThen
  ((byteField fun card v => card.setCurrentRegister n v).andThen
  (step fun card => startTimer card n)))

/-- One device is loaded. -/
def unitLoad (n : ℕ) : Loader Fault Card :=
  (on (fun card => card.regs n) (fun card r => card.setRegs n r) sy6522Load).andThen (unitRest n)

/-- The state in which `mb_loadState` starts to load. -/
def mbBeforeLoad (host : Host) (card : Card) (cycles : ℕ) : Card :=
  let card := mbReset host card
  card.setSound { card.sound with uLastCumulativeCycles := cycles }

/-- `mb_loadState`, when `cycles_count_total` is `cycles`. A file that was cut off leaves what had
been loaded by then. -/
def mbLoadState (host : Host) (card : Card) (cycles : ℕ) (input : List UInt8) :
    Except Fault (Card × List UInt8 × Bool) :=
  match all ((List.range numSY6522).map unitLoad) (mbBeforeLoad host card cycles) input with
  | .error e => .error e
  | .ok (card, rest, loaded) =>
    .ok (if loaded then mbReinitialize host card else card, rest, loaded)

/-! ## Runs -/

/-- A call of the module. The guest's accesses are those to the pages of the cards. -/
inductive Step
  | read (ea : ℕ) (cycles : ℕ)
  | write (ea : ℕ) (b : UInt8) (cycles : ℕ)
  | updateCycles (cycles : ℕ)
  | startOfCpuExecute (cycles : ℕ)
  | endOfVideoFrame
  | reset
  | loadState (cycles : ℕ) (input : List UInt8)
  deriving DecidableEq, Repr

/-- The address is on one of the pages of the cards. -/
def cardPage (ea : ℕ) : Bool := 0xC400 ≤ ea && ea ≤ 0xC5FF

def step (host : Host) (card : Card) : Step → Except Fault Card
  | .read ea cycles =>
    if cardPage ea then
      match mbRead host card ea cycles with
      | .ok (_, card) => .ok card
      | .error e => .error e
    else .error .misuse
  | .write ea b cycles => if cardPage ea then mbWrite host card ea b cycles else .error .misuse
  | .updateCycles cycles => .ok (mbUpdateCycles host card cycles)
  | .startOfCpuExecute cycles => .ok (mbStartOfCpuExecute card cycles)
  | .endOfVideoFrame => .ok (mbEndOfVideoFrame host card)
  | .reset => .ok (mbReset host card)
  | .loadState cycles input =>
    match mbLoadState host card cycles input with
    | .ok (card, _, _) => .ok card
    | .error e => .error e

end Apple2ix.Mockingboard
