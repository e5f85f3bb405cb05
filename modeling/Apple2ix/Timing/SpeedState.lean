import Apple2ix.Audio.MockingboardRestore
import Apple2ix.Audio.Speaker
import Apple2ix.Timing.Speed

/-! The scale factors of timing.c in the save-state file and in the preferences, and what the
speaker makes of the speed they give. -/
namespace Apple2ix.Timing
open Rounding Sound
set_option autoImplicit false

/-! ## Numbers -/

namespace Floating

/-- `0 <= x`. -/
def nonneg : Floating → Bool
  | nan => false
  | infinite negative => !negative
  | finite q => 0 ≤ q

/-- The quotient by a positive whole number, rounded to `p` digits. -/
def dividedBy (p n : ℕ) : Floating → Floating
  | nan => nan
  | infinite negative => infinite negative
  | finite q => finite (roundTo p (q / n))

end Floating

inductive SpeedFault
  | assertion
  | conversion
  deriving DecidableEq, Repr

/-- `(unsigned int)x`, which cuts off the fraction and is undefined when the result does not fit. -/
def toUnsigned : Floating → Except SpeedFault ℕ
  | .finite q => if -1 < q ∧ q < 2 ^ 32 then .ok ⌊q⌋.toNat else .error .conversion
  | _ => .error .conversion

/-! ## The speaker -/

/-- `CLK_6502_INT`. -/
def clk6502Int : ℕ := ⌊clk6502⌋.toNat

/-- `remainder_buffer_size_max`, as `speaker_init` leaves it. -/
def remainderBufferSizeMax (sampleRateHz : ℕ) : ℕ :=
  clk6502Int * ⌊cpuScaleFastest⌋.toNat / sampleRateHz + 1

/-- `_speaker_init_timing`. The cycles of a sample are a whole number already, so that the size of
the remainder buffer is not rounded up. -/
def speakerInitTiming (sampleRateHz cyclesCountTotal : ℕ) (speeds : Speeds) (speaker : Speaker) :
    Except SpeedFault Speaker :=
  match toUnsigned (speeds.cyclesPersecTarget.dividedBy doubleDigits sampleRateHz) with
  | .error fault => .error fault
  | .ok cyclesPerSample =>
    if remainderBufferSizeMax sampleRateHz < cyclesPerSample then .error .assertion
    else
      let lastRemainderBufferSize := speaker.remainderBufferSize
      let speaker := { speaker with
        cyclesPerSample := cyclesPerSample
        remainderBufferSize := cyclesPerSample }
      let speaker :=
        if lastRemainderBufferSize = speaker.remainderBufferSize then speaker
        else { speaker with remainderBufferIdx := 0 }
      let speaker :=
        if cyclesCountTotal < speaker.cyclesLastUpdate then { speaker with cyclesLastUpdate := 0 }
        else speaker
      if speeds.isFullspeed then
        .ok { speaker with remainderBufferIdx := 0, samplesBufferIdx := 0 }
      else .ok speaker

/-- `speaker_reset`. -/
def speakerReset (sampleRateHz cyclesCountTotal : ℕ) (speeds : Speeds) (speaker : Speaker) :
    Except SpeedFault Speaker :=
  if speaker.speakerIsAvailable then speakerInitTiming sampleRateHz cyclesCountTotal speeds speaker
  else .ok speaker

/-- The speed, and the speaker that depends on it. -/
structure Clocked where
  speeds : Speeds
  speaker : Speaker
  cyclesCountTotal : ℕ

/-- `timing_initialize`, with the reset of the speaker. -/
def Clocked.timingInitialize (sampleRateHz : ℕ) (t : Clocked) : Except SpeedFault Clocked :=
  (speakerReset sampleRateHz t.cyclesCountTotal t.speeds.timingInitialize t.speaker).map
    fun speaker => { t with speeds := t.speeds.timingInitialize, speaker := speaker }

/-! ## The file -/

/-- The four bytes of a number. -/
def serialized (lVal : ℕ) : List UInt8 := Mockingboard.data32 (UInt32.ofNat lVal)

/-- The number of four bytes. -/
def lValOf (serialized : List UInt8) : ℕ := (Mockingboard.data32Of serialized).toNat

/-- A factor from its hundredths, and the hundredths that are saved of it. -/
def factorOf (lVal : ℕ) : Floating := (Floating.finite lVal).dividedBy doubleDigits 100

def hundredths (factor : Floating) : Except SpeedFault ℕ :=
  toUnsigned (factor.times doubleDigits 100)

/-- `timing_saveState`. -/
def timingSaveState (helper : StateHelper) (speeds : Speeds) :
    Except SpeedFault (StateHelper × Bool) :=
  if !speeds.cpuScaleFactor.nonneg || !speeds.cpuAltscaleFactor.nonneg then .error .assertion
  else
    helper.saveEach [(hundredths speeds.cpuScaleFactor).map serialized,
      (hundredths speeds.cpuAltscaleFactor).map serialized,
      .ok [if speeds.altSpeedEnabled then 1 else 0]]

def Clocked.setScaleFactor (t : Clocked) (factor : Floating) : Clocked :=
  { t with speeds := { t.speeds with cpuScaleFactor := factor } }

def Clocked.setAltscaleFactor (t : Clocked) (factor : Floating) : Clocked :=
  { t with speeds := { t.speeds with cpuAltscaleFactor := factor } }

def Clocked.setAltSpeedEnabled (t : Clocked) (enabled : Bool) : Clocked :=
  { t with speeds := { t.speeds with altSpeedEnabled := enabled } }

/-- `timing_loadState`. -/
def timingLoadState (sampleRateHz : ℕ) : Loader SpeedFault Clocked :=
  (Loader.field 4 fun bytes t => .ok (t.setScaleFactor (factorOf (lValOf bytes)))).andThen
    ((Loader.field 4 fun bytes t => .ok (t.setAltscaleFactor (factorOf (lValOf bytes)))).andThen
      ((Loader.field 1 fun bytes t => .ok (t.setAltSpeedEnabled (bytes.getD 0 0 ≠ 0))).andThen
        (Loader.effect (Clocked.timingInitialize sampleRateHz))))

/-! ## The preferences -/

/-- The two limits that are put on a factor. -/
def limited (factor : Floating) : Floating :=
  let factor := if factor.below cpuScaleSlowest then .finite cpuScaleSlowest else factor
  if factor.above cpuScaleFastestPivot then .finite cpuScaleFastest else factor

/-- The factor of a preference, a `float`, or of none. -/
def preferredFactor (fVal : Option Floating) : Floating :=
  limited (match fVal with
    | some fVal => fVal.dividedBy floatDigits 100
    | none => .finite 1)

/-- The part of `timing_prefsChanged` that sets the speed. -/
def timingPrefsChanged (cpuScale cpuScaleAlt : Option Floating) (speeds : Speeds) : Speeds :=
  { speeds with
    cpuScaleFactor := preferredFactor cpuScale
    cpuAltscaleFactor := preferredFactor cpuScaleAlt }

end Apple2ix.Timing
