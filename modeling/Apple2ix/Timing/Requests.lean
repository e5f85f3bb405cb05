import Mathlib.Data.Rat.Floor
import Mathlib.Tactic.Linarith

/-! How many cycles an iteration of `cpu_thread` asks `cpu65_run` for. The doubles are taken as
exact. -/
namespace Apple2ix.Timing.Requests
set_option autoImplicit false

/-- `SOUNDCORE_ERROR_MAX`. -/
def soundcoreErrorMax : ℤ := 200

/-- `cycles_per_sample` of the speaker. -/
def cyclesPerSample (cyclesPersecTarget sampleRateHz : ℚ) : ℤ := ⌊cyclesPersecTarget / sampleRateHz⌋

/-- `cpu65_cycles_to_execute`: the cycles of a millisecond and, below full speed, the feedback of
the speaker, for a count of samples that it asks for. -/
def cyclesToExecute (cyclesPersecTarget sampleRateHz : ℚ) (isFullspeed : Bool)
    (samplesAdjustmentCounter : ℤ) : ℤ :=
  let cyclesSpeakerFeedback :=
    samplesAdjustmentCounter * cyclesPerSample cyclesPersecTarget sampleRateHz
  let cycles := ⌊cyclesPersecTarget / 1000⌋ + if isFullspeed then 0 else cyclesSpeakerFeedback
  if cycles ≤ 0 then 0 else cycles

/-- Four times `CLK_6502`, rounded up. -/
def fastestTarget : ℚ := 4081938

variable {target rate : ℚ} {samples : ℤ}

theorem cyclesToExecute_nonneg (target rate : ℚ) (isFullspeed : Bool) (samples : ℤ) :
    0 ≤ cyclesToExecute target rate isFullspeed samples := by
  unfold cyclesToExecute
  dsimp only
  split_ifs <;> omega

theorem cyclesPerSample_nonneg (htarget : 0 ≤ target) (hrate : 0 < rate) :
    0 ≤ cyclesPerSample target rate :=
  Int.floor_nonneg.mpr (div_nonneg htarget hrate.le)

/-- A sample takes fewer cycles the more samples there are. -/
theorem cyclesPerSample_le (most : ℤ) (hfast : target ≤ fastestTarget) (hrate : 0 < rate)
    (hmost : fastestTarget < (most + 1) * rate) : cyclesPerSample target rate ≤ most := by
  have hlt : target / rate < (most + 1 : ℤ) := by
    rw [div_lt_iff₀ hrate]
    push_cast
    linarith
  exact Int.lt_add_one_iff.mp (Int.floor_lt.mpr hlt)

/-- **What is asked for**, with at most `most` cycles to a sample. -/
theorem cyclesToExecute_le (isFullspeed : Bool) (most : ℤ) (htarget : 0 ≤ target)
    (hfast : target ≤ fastestTarget)
    (hrate : 0 < rate) (hmost : fastestTarget < (most + 1) * rate)
    (hsamples : |samples| ≤ soundcoreErrorMax) :
    cyclesToExecute target rate isFullspeed samples ≤ 4081 + 200 * most := by
  have hper := cyclesPerSample_le most hfast hrate hmost
  have hper' := cyclesPerSample_nonneg htarget hrate
  have hmillisecond : ⌊target / 1000⌋ ≤ 4081 := by
    have hlt : target / 1000 < (4081 + 1 : ℤ) := by
      rw [fastestTarget] at hfast
      push_cast
      linarith
    exact Int.lt_add_one_iff.mp (Int.floor_lt.mpr hlt)
  have hfeedback : samples * cyclesPerSample target rate ≤ 200 * most := by
    have hle : samples ≤ 200 := (abs_le.mp hsamples).2
    calc samples * cyclesPerSample target rate
        ≤ 200 * cyclesPerSample target rate := mul_le_mul_of_nonneg_right hle hper'
      _ ≤ 200 * most := by omega
  unfold cyclesToExecute
  dsimp only
  split_ifs <;> omega

end Apple2ix.Timing.Requests
