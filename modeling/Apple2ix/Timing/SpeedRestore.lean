import Mathlib.Tactic.NormNum
import Apple2ix.Audio.SpeakerFlush
import Apple2ix.Timing.SpeedState

/-! Which saved speeds are usable when they are loaded, and which speeds of the preferences survive
being saved and loaded. -/
namespace Apple2ix.Timing
open Rounding Sound Loader
set_option autoImplicit false

/-! ## Bounds of rounded numbers -/

section
variable {q : ℚ} (m k : ℕ) (hm : m < 2 ^ doubleDigits)
include hm

theorem le_double (hpos : 0 < m) (h : m / 2 ^ k ≤ q) : m / 2 ^ k ≤ roundTo doubleDigits q := by
  have hexp : (m / 2 ^ k : ℚ) = m * 2 ^ (-k : ℤ) := by
    rw [zpow_neg, zpow_natCast, div_eq_mul_inv]
  exact le_roundTo (by decide) hm hexp (by positivity) h

theorem double_le (hq : 0 < q) (h : q ≤ m / 2 ^ k) : roundTo doubleDigits q ≤ m / 2 ^ k := by
  have hexp : (m / 2 ^ k : ℚ) = m * 2 ^ (-k : ℤ) := by
    rw [zpow_neg, zpow_natCast, div_eq_mul_inv]
  exact roundTo_le (by decide) hm hexp hq h

end

theorem clk6502_bounds : 1020484 ≤ clk6502 ∧ clk6502 ≤ 1020484 + 15 / 32 := by
  let m14 := roundTo doubleDigits (157500000 / 11)
  have hlow : 14318181 ≤ m14 := by
    simpa using le_double 14318181 0 (by decide) (by decide) (q := 157500000 / 11) (by norm_num)
  have hhigh : m14 ≤ 14318182 := by
    simpa using double_le 14318182 0 (by decide) (q := 157500000 / 11) (by norm_num) (by norm_num)
  let lines := roundTo doubleDigits (m14 * 65)
  have hlines : 930681765 ≤ lines := by
    simpa using le_double 930681765 0 (by decide) (by decide) (q := m14 * 65)
      (by norm_num; linarith)
  have hlines' : lines ≤ 930681830 := by
    simpa using double_le 930681830 0 (by decide) (q := m14 * 65) (by linarith)
      (by norm_num; linarith)
  have hclk : clk6502 = roundTo doubleDigits (lines / 912) := rfl
  constructor
  · simpa [hclk] using le_double 1020484 0 (by decide) (by decide) (q := lines / 912)
      (by norm_num; linarith)
  · have hdouble := double_le 32655503 5 (by decide) (q := lines / 912) (by linarith)
      (by norm_num; linarith)
    rw [hclk]
    norm_num at hdouble ⊢
    linarith

theorem clk6502Int_eq : clk6502Int = 1020484 := by
  obtain ⟨hlow, hhigh⟩ := clk6502_bounds
  have hfloor : ⌊clk6502⌋ = 1020484 := by
    rw [Int.floor_eq_iff]
    push_cast
    constructor
    · exact hlow
    · linarith
  rw [clk6502Int, hfloor]
  rfl

/-! ## Loaded factors -/

/-- The factor of some hundredths. -/
def loadedFactor (lVal : ℕ) : ℚ := roundTo doubleDigits (lVal / 100)

theorem factorOf_eq (lVal : ℕ) : factorOf lVal = .finite (loadedFactor lVal) := by
  rw [factorOf, Floating.dividedBy, Nat.cast_ofNat, loadedFactor]

theorem loadedFactor_ge {lVal n : ℕ} (h : n ≤ lVal) (m k : ℕ) (hm : m < 2 ^ doubleDigits)
    (hpos : 0 < m) (hc : (m : ℚ) / 2 ^ k ≤ n / 100) : (m : ℚ) / 2 ^ k ≤ loadedFactor lVal := by
  have hcast : (n : ℚ) ≤ lVal := by exact_mod_cast h
  exact le_double m k hm hpos (hc.trans (by linarith))

theorem loadedFactor_le {lVal n : ℕ} (h : lVal ≤ n) (m k : ℕ) (hm : m < 2 ^ doubleDigits)
    (hc : (n : ℚ) / 100 ≤ m / 2 ^ k) : loadedFactor lVal ≤ m / 2 ^ k := by
  have hcast : (lVal : ℚ) ≤ n := by exact_mod_cast h
  obtain rfl | hpos := Nat.eq_zero_or_pos lVal
  · rw [loadedFactor, Nat.cast_zero, zero_div, roundTo_zero]
    positivity
  · have hpos' : (0 : ℚ) < lVal / 100 := by positivity
    exact double_le m k hm hpos' (le_trans (by linarith) hc)

theorem slowest_le_loadedFactor {lVal : ℕ} : cpuScaleSlowest ≤ loadedFactor lVal ↔ 25 ≤ lVal := by
  constructor
  · intro h
    by_contra hlt
    have hle := loadedFactor_le (n := 24) (by omega : lVal ≤ 24) 31 7 (by decide) (by norm_num)
    rw [cpuScaleSlowest] at h
    norm_num at hle
    linarith
  · intro h
    have hge := loadedFactor_ge h 1 2 (by decide) (by decide) (by norm_num)
    rw [cpuScaleSlowest]
    norm_num at hge ⊢
    exact hge

theorem loadedFactor_le_fastest {lVal : ℕ} : loadedFactor lVal ≤ cpuScaleFastest ↔ lVal ≤ 406 := by
  constructor
  · intro h
    by_contra hlt
    have hge := loadedFactor_ge (n := 407) (by omega : 407 ≤ lVal) 1041 8 (by decide) (by decide)
      (by norm_num)
    rw [cpuScaleFastest, cpuScaleFastestPivot] at h
    norm_num at hge
    linarith
  · intro h
    have hle := loadedFactor_le h 65 4 (by decide) (by norm_num)
    rw [cpuScaleFastest, cpuScaleFastestPivot]
    norm_num at hle ⊢
    exact hle

theorem pivot_lt_loadedFactor {lVal : ℕ} :
    cpuScaleFastestPivot < loadedFactor lVal ↔ 400 < lVal := by
  constructor
  · intro h
    by_contra hlt
    have hle := loadedFactor_le (n := 400) (by omega : lVal ≤ 400) 4 0 (by decide) (by norm_num)
    rw [cpuScaleFastestPivot] at h
    norm_num at hle
    linarith
  · intro h
    have hge := loadedFactor_ge (n := 401) h 1026 8 (by decide) (by decide) (by norm_num)
    rw [cpuScaleFastestPivot]
    norm_num at hge
    linarith

/-! ## The speaker -/

/-- The cycles of a sample at this speed: at least one, and no more than the remainder buffer has
room for. -/
def Usable (sampleRateHz : ℕ) (cyclesPersecTarget : Floating) : Prop :=
  ∃ n, toUnsigned (cyclesPersecTarget.dividedBy doubleDigits sampleRateHz) = .ok n ∧
    0 < n ∧ n ≤ remainderBufferSizeMax sampleRateHz

theorem remainderBufferSizeMax_eq (sampleRateHz : ℕ) :
    remainderBufferSizeMax sampleRateHz = 4081936 / sampleRateHz + 1 := by
  have hfloor : ⌊cpuScaleFastest⌋ = 4 := by
    rw [Int.floor_eq_iff, cpuScaleFastest, cpuScaleFastestPivot]
    norm_num
  rw [remainderBufferSizeMax, clk6502Int_eq, hfloor]
  rfl

/-- The speeds up to the pivot are usable. -/
theorem usable_of_bounds {sampleRateHz : ℕ} (hpos : 0 < sampleRateHz) (hmax : sampleRateHz ≤ 255121)
    {q : ℚ} (hlow : 255121 ≤ q) (hhigh : q ≤ 4081937 + 7 / 8) :
    Usable sampleRateHz (.finite q) := by
  have hrate : (0 : ℚ) < sampleRateHz := by exact_mod_cast hpos
  have hrate' : (1 : ℚ) ≤ sampleRateHz := by exact_mod_cast hpos
  have hratemax : (sampleRateHz : ℚ) ≤ 255121 := by exact_mod_cast hmax
  let n := 4081936 / sampleRateHz
  have hquot : q / sampleRateHz ≤ n + 15 / 8 := by
    have hlt : 4081936 < (n + 1) * sampleRateHz := by
      rw [Nat.mul_comm]
      exact Nat.lt_mul_div_succ 4081936 hpos
    have hle : (4081936 : ℚ) + 1 ≤ (n + 1) * sampleRateHz := by exact_mod_cast hlt
    rw [div_le_iff₀ hrate]
    nlinarith
  have hone : 1 ≤ q / sampleRateHz := by
    rw [le_div_iff₀ hrate]
    linarith
  have hn : n ≤ 4081936 := Nat.div_le_self _ _
  have hroundlow : 1 ≤ roundTo doubleDigits (q / sampleRateHz) := by
    simpa using le_double 1 0 (by decide) (by decide) (by simpa using hone)
  have hroundhigh : roundTo doubleDigits (q / sampleRateHz) ≤ n + 15 / 8 := by
    have hbound := double_le (q := q / sampleRateHz) (8 * n + 15) 3
      (by have h53 : 2 ^ doubleDigits = 9007199254740992 := rfl
          omega) (by linarith) (by push_cast; linarith)
    push_cast at hbound
    linarith
  have hcast : (n : ℚ) ≤ 4081936 := by exact_mod_cast hn
  have hfloor : (1 : ℤ) ≤ ⌊roundTo doubleDigits (q / sampleRateHz)⌋ := by
    rw [Int.le_floor]
    exact_mod_cast hroundlow
  have hfloor' : ⌊roundTo doubleDigits (q / sampleRateHz)⌋ < (n : ℤ) + 2 := by
    rw [Int.floor_lt]
    push_cast
    linarith
  refine ⟨⌊roundTo doubleDigits (q / sampleRateHz)⌋.toNat, ?_, by omega, ?_⟩
  · rw [Floating.dividedBy, toUnsigned, if_pos ⟨by linarith, by linarith⟩]
  · rw [remainderBufferSizeMax_eq]
    omega

/-- What is asked of the speaker: no sample without cycles, a remainder buffer of the right size,
and what its updates rely on. -/
structure Sounds (sampleRateHz : ℕ) (before after : Speaker) : Prop where
  perSample : 1 ≤ after.cyclesPerSample
  size_pos : 0 < after.remainderBufferSize
  size_le : after.remainderBufferSize ≤ remainderBufferSizeMax sampleRateHz
  ready : before.remainderBufferIdx < before.remainderBufferSize → Ready after

section
variable {sampleRateHz cyclesCountTotal : ℕ} {speeds : Speeds} {speaker after : Speaker}

/-- A speaker that is reset has the cycles of a sample, and room for them. -/
theorem speakerInitTiming_ok (h : speakerInitTiming sampleRateHz cyclesCountTotal speeds speaker =
    .ok after) : toUnsigned (speeds.cyclesPersecTarget.dividedBy doubleDigits sampleRateHz) =
      .ok after.cyclesPerSample ∧ after.cyclesPerSample ≤ remainderBufferSizeMax sampleRateHz ∧
      after.remainderBufferSize = after.cyclesPerSample ∧
      after.speakerIsAvailable = speaker.speakerIsAvailable ∧
      (after.remainderBufferIdx = 0 ∨ (after.remainderBufferIdx = speaker.remainderBufferIdx ∧
        after.remainderBufferSize = speaker.remainderBufferSize)) := by
  unfold speakerInitTiming at h
  cases hn : toUnsigned (speeds.cyclesPersecTarget.dividedBy doubleDigits sampleRateHz) with
  | error fault =>
    rw [hn] at h
    cases h
  | ok n =>
    rw [hn] at h
    simp only at h
    by_cases hmax : remainderBufferSizeMax sampleRateHz < n
    · rw [if_pos hmax] at h
      cases h
    · rw [if_neg hmax] at h
      by_cases hsize : speaker.remainderBufferSize = n
      · rw [if_pos hsize] at h
        split_ifs at h <;> cases h <;>
          exact ⟨rfl, Nat.le_of_not_lt hmax, rfl, rfl, by
            first | exact .inl rfl | exact .inr ⟨rfl, hsize.symm⟩⟩
      · rw [if_neg hsize] at h
        split_ifs at h <;> cases h <;>
          exact ⟨rfl, Nat.le_of_not_lt hmax, rfl, rfl, .inl rfl⟩

theorem speakerInitTiming_exists (cyclesCountTotal : ℕ) (speaker : Speaker) {n : ℕ}
    (hn : toUnsigned (speeds.cyclesPersecTarget.dividedBy doubleDigits sampleRateHz) = .ok n)
    (hle : n ≤ remainderBufferSizeMax sampleRateHz) :
    ∃ after, speakerInitTiming sampleRateHz cyclesCountTotal speeds speaker = .ok after := by
  unfold speakerInitTiming
  rw [hn]
  simp only [if_neg (Nat.not_lt.mpr hle)]
  split_ifs <;> exact ⟨_, rfl⟩

/-- **The speaker can be used exactly at a usable speed.** -/
theorem speakerInitTiming_iff :
    (∃ after, speakerInitTiming sampleRateHz cyclesCountTotal speeds speaker = .ok after ∧
      Sounds sampleRateHz speaker after) ↔ Usable sampleRateHz speeds.cyclesPersecTarget := by
  constructor
  · rintro ⟨after, hafter, hsounds⟩
    obtain ⟨hn, hle, -⟩ := speakerInitTiming_ok hafter
    exact ⟨_, hn, hsounds.perSample, hle⟩
  · rintro ⟨n, hn, hpos, hle⟩
    obtain ⟨after, hafter⟩ := speakerInitTiming_exists cyclesCountTotal speaker hn hle
    obtain ⟨hn', hle', hsize, -, hidx⟩ := speakerInitTiming_ok hafter
    rw [hn] at hn'
    cases hn'
    refine ⟨after, hafter, hpos, by omega, by omega, fun hready => ⟨hsize.symm, ?_⟩⟩
    omega

end

/-! ## Loading -/

/-- The range that the preferences keep. -/
def InRange (factor : Floating) : Prop :=
  ∃ q, factor = .finite q ∧ cpuScaleSlowest ≤ q ∧ q ≤ cpuScaleFastest

theorem inRange_factorOf {lVal : ℕ} : InRange (factorOf lVal) ↔ 25 ≤ lVal ∧ lVal ≤ 406 := by
  rw [← slowest_le_loadedFactor, ← loadedFactor_le_fastest, factorOf_eq]
  constructor
  · rintro ⟨q, hq, hlow, hhigh⟩
    cases hq
    exact ⟨hlow, hhigh⟩
  · rintro ⟨hlow, hhigh⟩
    exact ⟨_, rfl, hlow, hhigh⟩

theorem usable_factorOf {sampleRateHz lVal : ℕ} (hpos : 0 < sampleRateHz)
    (hmax : sampleRateHz ≤ 255121) (hlow : 25 ≤ lVal) (hhigh : lVal ≤ 400) :
    Usable sampleRateHz ((factorOf lVal).times doubleDigits clk6502) := by
  obtain ⟨hclk, hclk'⟩ := clk6502_bounds
  have hslow : cpuScaleSlowest ≤ loadedFactor lVal := slowest_le_loadedFactor.mpr hlow
  have hfast : loadedFactor lVal ≤ cpuScaleFastestPivot :=
    not_lt.mp fun h => absurd (pivot_lt_loadedFactor.mp h) (by omega)
  rw [cpuScaleSlowest] at hslow
  rw [cpuScaleFastestPivot] at hfast
  have hlow' : (255121 : ℚ) ≤ loadedFactor lVal * clk6502 := by nlinarith
  have hhigh' : loadedFactor lVal * clk6502 ≤ 4081937 + 7 / 8 := by nlinarith
  rw [factorOf_eq]
  refine usable_of_bounds hpos hmax ?_ ?_
  · simpa using le_double 255121 0 (by decide) (by decide) (by simpa using hlow')
  · have hround := double_le 32655503 3 (by decide) (q := loadedFactor lVal * clk6502)
      (by linarith) (by norm_num; linarith)
    norm_num at hround ⊢
    exact hround

/-- The state with the factors and the flag of a file. -/
def Clocked.loaded (t : Clocked) (input : List UInt8) : Clocked :=
  ((t.setScaleFactor (factorOf (lValOf (input.take 4)))).setAltscaleFactor
    (factorOf (lValOf ((input.drop 4).take 4)))).setAltSpeedEnabled
      (((input.drop 8).take 1).getD 0 0 ≠ 0)

theorem timingLoadState_eq (sampleRateHz : ℕ) (t : Clocked) {input : List UInt8}
    (h : 9 ≤ input.length) : timingLoadState sampleRateHz t input =
      match (t.loaded input).timingInitialize sampleRateHz with
      | .error fault => .error fault
      | .ok u => .ok (u, input.drop 9, true) := by
  have hfirst : loadState input 4 = some (input.take 4, input.drop 4) := if_pos (by omega)
  have hsecond : loadState (input.drop 4) 4 = some ((input.drop 4).take 4, input.drop 8) := by
    rw [loadState, if_pos (by rw [List.length_drop]; omega), List.drop_drop]
  have hthird : loadState (input.drop 8) 1 = some ((input.drop 8).take 1, input.drop 9) := by
    rw [loadState, if_pos (by rw [List.length_drop]; omega), List.drop_drop]
  simp only [timingLoadState, andThen, field, effect, hfirst, hsecond, hthird]
  unfold Clocked.loaded
  generalize Clocked.timingInitialize sampleRateHz _ = result
  cases result with
  | error fault => rfl
  | ok u => rfl

/-- The hundredths of the factor that a file puts in use. -/
def activeLVal (input : List UInt8) : ℕ :=
  if ((input.drop 8).take 1).getD 0 0 ≠ 0 then lValOf ((input.drop 4).take 4)
  else lValOf (input.take 4)

/-- The load goes through, both factors are in the range, and the speaker can be used. -/
def LoadsUsable (sampleRateHz : ℕ) (t : Clocked) (input : List UInt8) : Prop :=
  ∃ u rest, timingLoadState sampleRateHz t input = .ok (u, rest, true) ∧
    InRange u.speeds.cpuScaleFactor ∧ InRange u.speeds.cpuAltscaleFactor ∧
    (t.speaker.speakerIsAvailable = true → Sounds sampleRateHz t.speaker u.speaker)

/-- The hundredths of both factors are in the range; and when the one in use is above the pivot,
which leaves the speed as it is, that one is usable. -/
structure FitToLoad (sampleRateHz : ℕ) (t : Clocked) (input : List UInt8) : Prop where
  scale : 25 ≤ lValOf (input.take 4) ∧ lValOf (input.take 4) ≤ 406
  altscale : 25 ≤ lValOf ((input.drop 4).take 4) ∧ lValOf ((input.drop 4).take 4) ≤ 406
  kept : t.speaker.speakerIsAvailable = true → 400 < activeLVal input →
    Usable sampleRateHz t.speeds.cyclesPersecTarget

theorem speed_loaded (t : Clocked) (input : List UInt8) :
    (t.loaded input).speeds.speed = factorOf (activeLVal input) := by
  simp only [Clocked.loaded, Clocked.setAltSpeedEnabled, Clocked.setAltscaleFactor,
    Clocked.setScaleFactor, Speeds.speed, activeLVal, decide_eq_true_eq]
  split_ifs <;> rfl

/-- What a factor of some hundredths makes of the speed: up to the pivot a new one, above it the old
one. -/
theorem initialize_target {speeds : Speeds} {lVal : ℕ} (hspeed : speeds.speed = factorOf lVal) :
    speeds.timingInitialize.isFullspeed = decide (400 < lVal) ∧
    speeds.timingInitialize.cyclesPersecTarget =
      if 400 < lVal then speeds.cyclesPersecTarget
      else (factorOf lVal).times doubleDigits clk6502 := by
  have habove : (factorOf lVal).above cpuScaleFastestPivot = decide (400 < lVal) := by
    rw [factorOf_eq, Floating.above]
    exact decide_eq_decide.mpr pivot_lt_loadedFactor
  rw [Speeds.timingInitialize, hspeed, Speeds.initializeScale, habove]
  refine ⟨rfl, ?_⟩
  simp only [decide_eq_true_eq]

theorem loaded_target (t : Clocked) (input : List UInt8) :
    ((t.loaded input).speeds.timingInitialize).isFullspeed = decide (400 < activeLVal input) ∧
    ((t.loaded input).speeds.timingInitialize).cyclesPersecTarget =
      if 400 < activeLVal input then t.speeds.cyclesPersecTarget
      else (factorOf (activeLVal input)).times doubleDigits clk6502 :=
  initialize_target (speed_loaded t input)

theorem timingInitialize_eq (sampleRateHz : ℕ) (t u : Clocked) :
    t.timingInitialize sampleRateHz = .ok u ↔
      speakerReset sampleRateHz t.cyclesCountTotal t.speeds.timingInitialize t.speaker =
        .ok u.speaker ∧ u =
          { t with speeds := t.speeds.timingInitialize, speaker := u.speaker } := by
  rw [Clocked.timingInitialize]
  cases speakerReset sampleRateHz t.cyclesCountTotal t.speeds.timingInitialize t.speaker with
  | error fault => exact ⟨fun h => (by cases h), fun h => (by cases h.1)⟩
  | ok speaker =>
    constructor
    · intro h
      cases h
      exact ⟨rfl, rfl⟩
    · rintro ⟨hspeaker, hu⟩
      cases hspeaker
      rw [hu]
      rfl

/-- **Loading.** A file is usable exactly when its hundredths are. -/
theorem loadsUsable_iff {sampleRateHz : ℕ} (hpos : 0 < sampleRateHz) (hmax : sampleRateHz ≤ 255121)
    (t : Clocked) {input : List UInt8} (h : 9 ≤ input.length) :
    LoadsUsable sampleRateHz t input ↔ FitToLoad sampleRateHz t input := by
  obtain ⟨-, htarget⟩ := loaded_target t input
  rw [LoadsUsable, timingLoadState_eq sampleRateHz t h]
  constructor
  · rintro ⟨u, rest, hload, hscale, halt, hsounds⟩
    cases hu : (t.loaded input).timingInitialize sampleRateHz with
    | error fault =>
      rw [hu] at hload
      cases hload
    | ok u' =>
      rw [hu] at hload
      cases hload
      obtain ⟨hreset, heq⟩ := (timingInitialize_eq sampleRateHz _ u).mp hu
      rw [heq] at hscale halt
      refine ⟨inRange_factorOf.mp hscale, inRange_factorOf.mp halt, fun havailable hfast => ?_⟩
      have hspeaker : (t.loaded input).speaker = t.speaker := rfl
      rw [speakerReset, hspeaker, if_pos havailable] at hreset
      have husable := speakerInitTiming_iff.mp ⟨u.speaker, hreset, hsounds havailable⟩
      rwa [htarget, if_pos hfast] at husable
  · rintro ⟨hscale, halt, hkept⟩
    have hactive : 25 ≤ activeLVal input := by
      unfold activeLVal
      split_ifs
      · exact halt.1
      · exact hscale.1
    have hreset : ∃ after, speakerReset sampleRateHz (t.loaded input).cyclesCountTotal
        (t.loaded input).speeds.timingInitialize (t.loaded input).speaker = .ok after ∧
        (t.speaker.speakerIsAvailable = true → Sounds sampleRateHz t.speaker after) := by
      have hspeaker : (t.loaded input).speaker = t.speaker := rfl
      rw [speakerReset, hspeaker]
      by_cases havailable : t.speaker.speakerIsAvailable = true
      · have husable : Usable sampleRateHz
            ((t.loaded input).speeds.timingInitialize).cyclesPersecTarget := by
          rw [htarget]
          by_cases hfast : 400 < activeLVal input
          · rw [if_pos hfast]
            exact hkept havailable hfast
          · rw [if_neg hfast]
            exact usable_factorOf hpos hmax hactive (Nat.le_of_not_lt hfast)
        obtain ⟨after, hafter, hsounds⟩ := speakerInitTiming_iff.mpr husable
        rw [if_pos havailable]
        exact ⟨after, hafter, fun _ => hsounds⟩
      · rw [if_neg havailable]
        exact ⟨_, rfl, fun h => absurd h havailable⟩
    obtain ⟨after, hafter, hsounds⟩ := hreset
    have hinit := (timingInitialize_eq sampleRateHz (t.loaded input)
      { t.loaded input with
        speeds := (t.loaded input).speeds.timingInitialize, speaker := after }).mpr ⟨hafter, rfl⟩
    exact ⟨_, _, by rw [hinit], inRange_factorOf.mpr hscale, inRange_factorOf.mpr halt, hsounds⟩

end Apple2ix.Timing
