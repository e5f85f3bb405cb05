import Apple2ix.Foundations.Rounding

/-! The speed of the CPU in timing.c: the two scale factors, and what `_timing_initialize` makes of
the one in use. -/
namespace Apple2ix.Timing
open Rounding
set_option autoImplicit false

/-! ## Floating point -/

/-- A `float` or a `double`, with one zero. -/
inductive Floating
  | nan
  | infinite (negative : Bool)
  | finite (q : ℚ)
  deriving DecidableEq

namespace Floating

/-- `x < c`, `c < x` and `x <= c`, for a constant. -/
def below (c : ℚ) : Floating → Bool
  | nan => false
  | infinite negative => negative
  | finite q => q < c

def above (c : ℚ) : Floating → Bool
  | nan => false
  | infinite negative => !negative
  | finite q => c < q

def atMost (c : ℚ) : Floating → Bool
  | nan => false
  | infinite negative => negative
  | finite q => q ≤ c

/-- The product with a positive constant, rounded to `p` digits. -/
def times (p : ℕ) (c : ℚ) : Floating → Floating
  | nan => nan
  | infinite negative => infinite negative
  | finite q => finite (roundTo p (q * c))

end Floating

/-- The digits of a `float` and of a `double`. -/
def floatDigits : ℕ := 24

def doubleDigits : ℕ := 53

/-! ## The factors -/

/-- `CPU_SCALE_SLOWEST`, `CPU_SCALE_FASTEST_PIVOT` and `CPU_SCALE_FASTEST`. -/
def cpuScaleSlowest : ℚ := 1 / 4

def cpuScaleFastestPivot : ℚ := 4

def cpuScaleFastest : ℚ := cpuScaleFastestPivot + 1 / 16

/-- `CLK_6502`, in the arithmetic of a `double`. -/
def clk6502 : ℚ :=
  roundTo doubleDigits (roundTo doubleDigits (roundTo doubleDigits (157500000 / 11) * 65) / 912)

/-- The variables of timing.c that set the speed. -/
structure Speeds where
  autoAdjustSpeed : Bool
  isFullspeed : Bool
  altSpeedEnabled : Bool
  cpuScaleFactor : Floating
  cpuAltscaleFactor : Floating
  cyclesPersecTarget : Floating

namespace Speeds

/-- The factor in use. -/
def speed (speeds : Speeds) : Floating :=
  if speeds.altSpeedEnabled then speeds.cpuAltscaleFactor else speeds.cpuScaleFactor

/-- `_timing_initialize`, up to the reset of the speaker. -/
def initializeScale (speeds : Speeds) (scale : Floating) : Speeds :=
  let isFullspeed := scale.above cpuScaleFastestPivot
  { speeds with
    isFullspeed := isFullspeed
    cyclesPersecTarget :=
      if isFullspeed then speeds.cyclesPersecTarget else scale.times doubleDigits clk6502 }

/-- `timing_initialize`. -/
def timingInitialize (speeds : Speeds) : Speeds := speeds.initializeScale speeds.speed

/-- `timing_shouldAutoAdjustSpeed`. -/
def shouldAutoAdjustSpeed (speeds : Speeds) : Bool :=
  speeds.autoAdjustSpeed && speeds.speed.atMost cpuScaleFastestPivot

end Speeds

/-- A factor is above the pivot or not, unless it is no number. -/
theorem Floating.above_atMost {x : Floating} {c : ℚ} (h : x.atMost c = true) :
    x.above c = false := by
  cases x with
  | nan => rfl
  | infinite negative =>
    have hneg : negative = true := h
    rw [hneg]
    rfl
  | finite q =>
    have hle : q ≤ c := of_decide_eq_true h
    exact decide_eq_false (not_lt.mpr hle)

end Apple2ix.Timing
