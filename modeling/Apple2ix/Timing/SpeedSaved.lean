import Apple2ix.Timing.SpeedRestore

/-! Which speeds of the preferences survive being saved and loaded: the file has whole hundredths,
and the preferences have the fractions of a `float`. -/
namespace Apple2ix.Timing
open Rounding Sound Loader
set_option autoImplicit false

/-! ## Factors of the preferences -/

/-- A `float` from a quarter on has at most 25 digits behind the point. -/
theorem float_grid {q : ℚ} (h : 1 / 4 ≤ roundTo floatDigits q) :
    ∃ n : ℤ, roundTo floatDigits q = n / 2 ^ 25 := by
  have hpos : 0 < q := by
    by_contra hle
    have hnearest : nearest (q / ulp floatDigits q) ≤ 0 := by
      have hquot : q / ulp floatDigits q ≤ ((0 : ℤ) : ℚ) := by
        rw [Int.cast_zero]
        exact div_nonpos_of_nonpos_of_nonneg (not_lt.mp hle) (ulp_pos _ q).le
      have hmono := nearest_mono hquot
      rwa [nearest_intCast] at hmono
    have hle' : roundTo floatDigits q ≤ 0 :=
      mul_nonpos_of_nonpos_of_nonneg (by exact_mod_cast hnearest) (ulp_pos _ q).le
    linarith
  by_cases hlow : q < 1 / 4
  · -- rounded up to the quarter
    have hle : roundTo floatDigits q ≤ 1 / 4 :=
      roundTo_le (m := 1) (e := -2) (by decide) (by decide) (by norm_num) hpos hlow.le
    exact ⟨2 ^ 23, by rw [le_antisymm hle h]; norm_num⟩
  · obtain ⟨n, hn⟩ := exists_roundTo floatDigits q
    have hlog : -2 ≤ Int.log 2 q := by
      have hmono := Int.log_mono_right (b := 2) (by norm_num : (0 : ℚ) < 1 / 4) (not_lt.mp hlow)
      have hquarter : Int.log 2 (1 / 4 : ℚ) = -2 := by
        have hzpow := Int.log_zpow (R := ℚ) (b := 2) (by decide) (-2)
        norm_num at hzpow ⊢
        exact hzpow
      rwa [hquarter] at hmono
    obtain ⟨k, hk⟩ : ∃ k : ℕ, (k : ℤ) = Int.log 2 q + 2 :=
      ⟨(Int.log 2 q + 2).toNat, Int.toNat_of_nonneg (by omega)⟩
    refine ⟨n * 2 ^ k, ?_⟩
    have hexp : Int.log 2 |q| - ((floatDigits : ℕ) - 1 : ℤ) = (k : ℤ) - 25 := by
      rw [abs_of_pos hpos, hk, floatDigits]
      ring
    rw [hn, hexp, zpow_sub₀ (by norm_num), zpow_natCast]
    push_cast
    ring

theorem above_slowest : (Floating.finite cpuScaleSlowest).above cpuScaleFastestPivot = false := by
  rw [Floating.above, cpuScaleFastestPivot, cpuScaleSlowest]
  norm_num

theorem limited_finite (q : ℚ) : limited (.finite q) =
    if q < cpuScaleSlowest then .finite cpuScaleSlowest
    else if cpuScaleFastestPivot < q then .finite cpuScaleFastest else .finite q := by
  simp only [limited, Floating.below, decide_eq_true_eq]
  by_cases h : q < cpuScaleSlowest
  · rw [if_pos h, if_pos h, above_slowest]
    rfl
  · rw [if_neg h, if_neg h]
    simp only [Floating.above, decide_eq_true_eq]

/-- **What the preferences set.** -/
theorem preferredFactor_cases (fVal : Option Floating) :
    preferredFactor fVal = .nan ∨ preferredFactor fVal = .finite cpuScaleFastest ∨
      ∃ m : ℕ, 2 ^ 23 ≤ m ∧ m ≤ 2 ^ 27 ∧ preferredFactor fVal = .finite (m / 2 ^ 25) := by
  have hslow : Floating.finite cpuScaleSlowest = .finite ((2 ^ 23 : ℕ) / 2 ^ 25) := by
    rw [cpuScaleSlowest]
    norm_num
  cases fVal with
  | none =>
    refine .inr (.inr ⟨2 ^ 25, by decide, by decide, ?_⟩)
    have hone : preferredFactor none = limited (.finite 1) := rfl
    rw [hone, limited_finite, cpuScaleSlowest, cpuScaleFastestPivot, if_neg (by norm_num),
      if_neg (by norm_num)]
    norm_num
  | some x =>
    have hlimited : preferredFactor (some x) = limited (x.dividedBy floatDigits 100) := rfl
    rw [hlimited]
    cases x with
    | nan => exact .inl rfl
    | infinite negative =>
      cases negative with
      | false => exact .inr (.inl rfl)
      | true =>
        have hlow : limited ((Floating.infinite true).dividedBy floatDigits 100) =
            if (Floating.finite cpuScaleSlowest).above cpuScaleFastestPivot then
              .finite cpuScaleFastest
            else .finite cpuScaleSlowest := rfl
        rw [above_slowest] at hlow
        exact .inr (.inr ⟨2 ^ 23, by decide, by decide, hlow.trans hslow⟩)
    | finite q =>
      rw [Floating.dividedBy, limited_finite]
      by_cases hlow : roundTo floatDigits (q / (100 : ℕ)) < cpuScaleSlowest
      · rw [if_pos hlow]
        exact .inr (.inr ⟨2 ^ 23, by decide, by decide, hslow⟩)
      · rw [if_neg hlow]
        by_cases hhigh : cpuScaleFastestPivot < roundTo floatDigits (q / (100 : ℕ))
        · rw [if_pos hhigh]
          exact .inr (.inl rfl)
        · rw [if_neg hhigh]
          have hge := not_lt.mp hlow
          have hle := not_lt.mp hhigh
          rw [cpuScaleSlowest] at hge
          rw [cpuScaleFastestPivot] at hle
          obtain ⟨n, hn⟩ := float_grid hge
          rw [hn] at hge hle ⊢
          have hlower : (2 ^ 23 : ℤ) ≤ n := by
            rw [le_div_iff₀ (by positivity)] at hge
            norm_num at hge
            exact_mod_cast hge
          have hupper : n ≤ (2 ^ 27 : ℤ) := by
            rw [div_le_iff₀ (by positivity)] at hle
            norm_num at hle
            exact_mod_cast hle
          obtain ⟨m, rfl⟩ := Int.eq_ofNat_of_zero_le (by omega : 0 ≤ n)
          exact .inr (.inr ⟨m, by exact_mod_cast hlower, by exact_mod_cast hupper, by
            rw [Int.cast_natCast]⟩)

/-! ## Hundredths -/

/-- Factors that are far enough apart give different targets. -/
theorem target_lt_target {q r : ℚ} (hq : 0 < q) (hr : r ≤ 4) (hgap : q + 1 / 2 ^ 31 ≤ r) :
    roundTo doubleDigits (q * clk6502) < roundTo doubleDigits (r * clk6502) := by
  obtain ⟨hclk, hclk'⟩ := clk6502_bounds
  have hclkpos : 0 < clk6502 := by linarith
  have hqr : q ≤ r := by linarith
  have hrclk : r * clk6502 ≤ 4 * 1020485 :=
    mul_le_mul hr (by linarith) hclkpos.le (by norm_num)
  have hqclk : q * clk6502 ≤ r * clk6502 := mul_le_mul_of_nonneg_right hqr hclkpos.le
  have hproduct : 1 / 2 ^ 31 * 1020484 ≤ (r - q) * clk6502 :=
    mul_le_mul (by linarith) hclk (by norm_num) (by linarith)
  have hround := (abs_le.mp (abs_roundTo_sub (p := doubleDigits) (mul_pos hq hclkpos))).2
  have hround' := (abs_le.mp (abs_roundTo_sub (p := doubleDigits)
    (mul_pos (hq.trans_le hqr) hclkpos))).1
  have herror : r * clk6502 / 2 ^ doubleDigits ≤ 4 * 1020485 / 2 ^ 53 :=
    div_le_div_of_nonneg_right hrclk (by positivity)
  have herror' : q * clk6502 / 2 ^ doubleDigits ≤ r * clk6502 / 2 ^ doubleDigits :=
    div_le_div_of_nonneg_right hqclk (by positivity)
  rw [sub_mul] at hproduct
  norm_num at hproduct herror
  linarith

section
variable {m : ℕ} (hlow : 2 ^ 23 ≤ m) (hhigh : m ≤ 2 ^ 27)
include hlow hhigh

theorem hundredths_grid : hundredths (.finite (m / 2 ^ 25)) = .ok (25 * m / 2 ^ 23) := by
  have hpos : (0 : ℚ) < m := by exact_mod_cast (by omega : 0 < m)
  have hexact :
      roundTo doubleDigits ((m : ℚ) / 2 ^ 25 * 100) = ((25 * m : ℕ) : ℚ) / (2 ^ 23 : ℕ) := by
    have hround := roundTo_exact (p := doubleDigits) (q := (m : ℚ) / 2 ^ 25 * 100) (by positivity)
      (m := 25 * m) (e := -23)
      (by have h53 : 2 ^ doubleDigits = 9007199254740992 := rfl
          omega)
      (by rw [zpow_neg]; push_cast; norm_num; ring)
    rw [hround]
    push_cast
    norm_num
    ring
  have hle : (m : ℚ) ≤ 2 ^ 27 := by exact_mod_cast hhigh
  rw [hundredths, Floating.times, hexact, toUnsigned, if_pos, Rat.floor_natCast_div_natCast]
  · rfl
  · constructor
    · have hnonneg : (0 : ℚ) ≤ ((25 * m : ℕ) : ℚ) / (2 ^ 23 : ℕ) := by positivity
      linarith
    · rw [div_lt_iff₀ (by positivity)]
      push_cast
      linarith

/-- The hundredths that are cut off are seen in the target. -/
theorem target_lt (hcut : 0 < 25 * m % 2 ^ 23) :
    roundTo doubleDigits (loadedFactor (25 * m / 2 ^ 23) * clk6502) <
      roundTo doubleDigits ((m : ℚ) / 2 ^ 25 * clk6502) := by
  let k := 25 * m / 2 ^ 23
  have hk : 0 < k := by omega
  have hkpos : (0 : ℚ) < k / 100 := by positivity
  have hmle : (m : ℚ) ≤ 2 ^ 27 := by exact_mod_cast hhigh
  have hqle : (m : ℚ) / 2 ^ 25 ≤ 4 := by
    rw [div_le_iff₀ (by positivity)]
    linarith
  -- what is cut off is at least one part of 2 ^ 23
  have hgap : (k : ℚ) / 100 + 1 / (2 ^ 23 * 100) ≤ m / 2 ^ 25 := by
    have hnat : k * 2 ^ 23 + 1 ≤ 25 * m := by
      have hdiv := Nat.div_add_mod' (25 * m) (2 ^ 23)
      omega
    have hcast : (k : ℚ) * 2 ^ 23 + 1 ≤ 25 * m := by exact_mod_cast hnat
    rw [le_div_iff₀ (by positivity)]
    linarith
  have hfactor := (abs_le.mp (abs_roundTo_sub (p := doubleDigits) hkpos)).2
  have hloaded : loadedFactor k ≤ k / 100 + 4 / 2 ^ 53 := by
    have hle : (k : ℚ) / 100 / 2 ^ doubleDigits ≤ 4 / 2 ^ 53 :=
      div_le_div_of_nonneg_right (by linarith) (by positivity)
    rw [loadedFactor]
    linarith
  have hloadedpos : 0 < loadedFactor k := by
    have hge : cpuScaleSlowest ≤ loadedFactor k := slowest_le_loadedFactor.mpr (by omega)
    rw [cpuScaleSlowest] at hge
    linarith
  have hfar : loadedFactor k + 1 / 2 ^ 31 ≤ m / 2 ^ 25 := by
    norm_num at hgap hloaded ⊢
    linarith
  exact target_lt_target hloadedpos hqle hfar

/-- The target of a factor and that of its hundredths are the same for quarters only. -/
theorem target_eq_iff : roundTo doubleDigits (loadedFactor (25 * m / 2 ^ 23) * clk6502) =
    roundTo doubleDigits ((m : ℚ) / 2 ^ 25 * clk6502) ↔ ∃ n : ℕ, (m : ℚ) / 2 ^ 25 = n / 4 := by
  have hquarter : ∀ n : ℕ, m = n * 2 ^ 23 ↔ (m : ℚ) / 2 ^ 25 = n / 4 := by
    intro n
    rw [div_eq_div_iff (by positivity) (by norm_num)]
    constructor
    · intro h
      rw [h]
      push_cast
      ring
    · intro h
      have hnat : m * 4 = n * 2 ^ 25 := by exact_mod_cast h
      omega
  constructor
  · intro h
    by_contra hno
    refine absurd h (ne_of_lt (target_lt hlow hhigh (Nat.pos_of_ne_zero fun hzero => hno ?_)))
    have hdvd : 2 ^ 23 ∣ m :=
      Nat.Coprime.dvd_of_dvd_mul_left (by decide) (Nat.dvd_of_mod_eq_zero hzero)
    obtain ⟨n, hn⟩ := hdvd
    exact ⟨n, (hquarter n).mp (by rw [hn, Nat.mul_comm])⟩
  · rintro ⟨n, hn⟩
    have hm := (hquarter n).mpr hn
    have hk : 25 * m / 2 ^ 23 = 25 * n := by
      rw [hm, ← Nat.mul_assoc]
      exact Nat.mul_div_cancel _ (by decide)
    have hloaded : loadedFactor (25 * n) = n / 4 := by
      have hn0 : (0 : ℚ) < n := by exact_mod_cast (by omega : 0 < n)
      have hsame : ((25 * n : ℕ) : ℚ) / 100 = n / 4 := by
        push_cast
        ring
      rw [loadedFactor, hsame]
      exact roundTo_exact (by positivity) (m := n) (e := -2)
        (by have h53 : 2 ^ doubleDigits = 9007199254740992 := rfl
            omega)
        (by rw [zpow_neg]; norm_num; ring)
    rw [hk, hloaded, hn]

end

theorem hundredths_fastest : hundredths (.finite cpuScaleFastest) = .ok 406 := by
  have hexact : roundTo doubleDigits (cpuScaleFastest * 100) = ((1625 : ℕ) : ℚ) / (4 : ℕ) := by
    rw [cpuScaleFastest, cpuScaleFastestPivot]
    have hround := roundTo_exact (p := doubleDigits) (q := (4 + 1 / 16 : ℚ) * 100) (by norm_num)
      (m := 1625) (e := -2) (by decide) (by rw [zpow_neg]; norm_num)
    rw [hround]
    norm_num
  rw [hundredths, Floating.times, hexact, toUnsigned, if_pos (by norm_num),
    Rat.floor_natCast_div_natCast]
  rfl

/-! ## Saving and loading -/

/-- A factor that the preferences may set, and its hundredths. -/
inductive HundredthsOf : Floating → ℕ → Prop
  | fastest : HundredthsOf (.finite cpuScaleFastest) 406
  | grid {m : ℕ} (hlow : 2 ^ 23 ≤ m) (hhigh : m ≤ 2 ^ 27) :
      HundredthsOf (.finite (m / 2 ^ 25)) (25 * m / 2 ^ 23)

theorem hundredthsOf_preferredFactor {fVal : Option Floating} (h : preferredFactor fVal ≠ .nan) :
    ∃ k, HundredthsOf (preferredFactor fVal) k := by
  obtain hnan | hfast | ⟨m, hlow, hhigh, hm⟩ := preferredFactor_cases fVal
  · exact absurd hnan h
  · rw [hfast]
    exact ⟨_, .fastest⟩
  · rw [hm]
    exact ⟨_, .grid hlow hhigh⟩

section
variable {factor : Floating} {k : ℕ}

theorem HundredthsOf.saved (h : HundredthsOf factor k) :
    hundredths factor = .ok k ∧ factor.nonneg = true ∧ 25 ≤ k ∧ k ≤ 406 := by
  cases h with
  | fastest =>
    refine ⟨hundredths_fastest, ?_, by decide, by decide⟩
    rw [Floating.nonneg, cpuScaleFastest, cpuScaleFastestPivot]
    norm_num
  | @grid m hlow hhigh =>
    refine ⟨hundredths_grid hlow hhigh, ?_, by omega, by omega⟩
    rw [Floating.nonneg]
    exact decide_eq_true (by positivity)

/-- A factor and its hundredths are on the same side of the pivot. -/
theorem HundredthsOf.above (h : HundredthsOf factor k) :
    factor.above cpuScaleFastestPivot = decide (400 < k) := by
  cases h with
  | fastest =>
    rw [Floating.above, cpuScaleFastest, cpuScaleFastestPivot]
    norm_num
  | @grid m hlow hhigh =>
    have hmle : (m : ℚ) ≤ 2 ^ 27 := by exact_mod_cast hhigh
    have hnot : ¬ cpuScaleFastestPivot < (m : ℚ) / 2 ^ 25 := by
      rw [cpuScaleFastestPivot, not_lt, div_le_iff₀ (by positivity)]
      linarith
    have hk : ¬ 400 < 25 * m / 2 ^ 23 := by omega
    rw [Floating.above, decide_eq_false hnot, decide_eq_false hk]

/-- Up to the pivot the same target comes of a factor and of its hundredths for quarters only. -/
theorem HundredthsOf.target_eq_iff (h : HundredthsOf factor k) (hk : k ≤ 400) :
    (factorOf k).times doubleDigits clk6502 = factor.times doubleDigits clk6502 ↔
      ∃ n : ℕ, factor = .finite (n / 4) := by
  cases h with
  | fastest => exact absurd hk (by decide)
  | @grid m hlow hhigh =>
    rw [factorOf_eq, Floating.times, Floating.times, Floating.finite.injEq,
      Timing.target_eq_iff hlow hhigh]
    simp only [Floating.finite.injEq]

end

theorem lValOf_serialized {lVal : ℕ} (h : lVal ≤ 406) : lValOf (serialized lVal) = lVal := by
  rw [lValOf, serialized, Mockingboard.data32Of_data32, UInt32.toNat_ofNat']
  omega

/-- What is saved. -/
def savedBytes (k l : ℕ) (altSpeedEnabled : Bool) : List UInt8 :=
  serialized k ++ serialized l ++ [if altSpeedEnabled then 1 else 0]

theorem timingSaveState_eq {helper : StateHelper}
    (hhost : ∀ file bytes, bytes.length ≤ helper.host file bytes) {speeds : Speeds} {k l : ℕ}
    (hk : HundredthsOf speeds.cpuScaleFactor k) (hl : HundredthsOf speeds.cpuAltscaleFactor l) :
    ∃ saved, timingSaveState helper speeds = .ok (saved, true) ∧
      saved.file = helper.file ++ savedBytes k l speeds.altSpeedEnabled := by
  obtain ⟨hk, hnonneg, -⟩ := hk.saved
  obtain ⟨hl, hnonneg', -⟩ := hl.saved
  obtain ⟨saved, hsaved⟩ := helper.saveEach_room (ε := SpeedFault) hhost
    [serialized k, serialized l, [if speeds.altSpeedEnabled then 1 else 0]]
  obtain ⟨chunks, hchunks, hfile⟩ := StateHelper.saveEach_ok hsaved
  have hsame := List.map_injective_iff.mpr (fun _ _ h => Except.ok.inj h) hchunks
  refine ⟨saved, ?_, ?_⟩
  · rw [timingSaveState, hk, hl, hnonneg, hnonneg']
    exact hsaved
  · rw [hfile, ← hsame, savedBytes]
    simp

theorem saved_loaded {k l : ℕ} (hk : k ≤ 406) (hl : l ≤ 406) (alt : Bool) :
    (savedBytes k l alt).length = 9 ∧
      activeLVal (savedBytes k l alt) = if alt then l else k := by
  have hfirst : (savedBytes k l alt).take 4 = serialized k := rfl
  have hsecond : ((savedBytes k l alt).drop 4).take 4 = serialized l := rfl
  refine ⟨rfl, ?_⟩
  rw [activeLVal, hfirst, hsecond, lValOf_serialized hk, lValOf_serialized hl]
  cases alt with
  | false => rfl
  | true => rfl

/-- The speed is saved, and loading it gives the same decision about full speed and the same
target. -/
def Restores (sampleRateHz : ℕ) (helper : StateHelper) (speeds : Speeds) (t : Clocked) : Prop :=
  ∃ saved bytes u, timingSaveState helper speeds = .ok (saved, true) ∧
    saved.file = helper.file ++ bytes ∧
    timingLoadState sampleRateHz t bytes = .ok (u, [], true) ∧
    u.speeds.isFullspeed = speeds.isFullspeed ∧
    u.speeds.cyclesPersecTarget = speeds.cyclesPersecTarget

/-- The speaker can be reset at this speed. -/
def Resettable (sampleRateHz : ℕ) (cyclesPersecTarget : Floating) : Prop :=
  ∃ n, toUnsigned (cyclesPersecTarget.dividedBy doubleDigits sampleRateHz) = .ok n ∧
    n ≤ remainderBufferSizeMax sampleRateHz

/-- Both factors are numbers; the one in use is a multiple of a quarter, or above the pivot, and
then the target is there already. -/
structure FitToSave (sampleRateHz : ℕ) (speeds : Speeds) (t : Clocked) : Prop where
  scale : speeds.cpuScaleFactor ≠ .nan
  altscale : speeds.cpuAltscaleFactor ≠ .nan
  quarter : speeds.speed.above cpuScaleFastestPivot = false → ∃ n :
    ℕ, speeds.speed = .finite (n / 4)
  kept : speeds.speed.above cpuScaleFastestPivot = true →
    t.speeds.cyclesPersecTarget = speeds.cyclesPersecTarget ∧
    (t.speaker.speakerIsAvailable = true → Resettable sampleRateHz t.speeds.cyclesPersecTarget)

theorem speakerReset_iff (sampleRateHz cyclesCountTotal : ℕ) (speeds : Speeds) (speaker : Speaker) :
    (∃ after, speakerReset sampleRateHz cyclesCountTotal speeds speaker = .ok after) ↔
      (speaker.speakerIsAvailable = true → Resettable sampleRateHz speeds.cyclesPersecTarget) := by
  rw [speakerReset]
  by_cases havailable : speaker.speakerIsAvailable = true
  · rw [if_pos havailable]
    constructor
    · rintro ⟨after, hafter⟩ -
      obtain ⟨hn, hle, -⟩ := speakerInitTiming_ok hafter
      exact ⟨_, hn, hle⟩
    · intro h
      obtain ⟨n, hn, hle⟩ := h havailable
      exact speakerInitTiming_exists _ _ hn hle
  · rw [if_neg havailable]
    exact ⟨fun _ h => absurd h havailable, fun _ => ⟨_, rfl⟩⟩

/-- A load goes through when the speaker can be reset. -/
theorem load_iff (sampleRateHz : ℕ) (t : Clocked) {input : List UInt8} (h : input.length = 9)
    (P : Speeds → Prop) :
    (∃ u, timingLoadState sampleRateHz t input = .ok (u, [], true) ∧ P u.speeds) ↔
      (t.speaker.speakerIsAvailable = true → Resettable sampleRateHz
        (t.loaded input).speeds.timingInitialize.cyclesPersecTarget) ∧
      P (t.loaded input).speeds.timingInitialize := by
  have hrest : input.drop 9 = [] := List.drop_eq_nil_of_le (by omega)
  have hspeaker : (t.loaded input).speaker = t.speaker := rfl
  rw [timingLoadState_eq sampleRateHz t (by omega), hrest, ← hspeaker,
    ← speakerReset_iff sampleRateHz (t.loaded input).cyclesCountTotal]
  constructor
  · rintro ⟨u, hload, hP⟩
    cases hu : (t.loaded input).timingInitialize sampleRateHz with
    | error fault =>
      rw [hu] at hload
      cases hload
    | ok u' =>
      rw [hu] at hload
      cases hload
      obtain ⟨hreset, heq⟩ := (timingInitialize_eq sampleRateHz _ u).mp hu
      rw [heq] at hP
      exact ⟨⟨_, hreset⟩, hP⟩
  · rintro ⟨⟨after, hafter⟩, hP⟩
    have hinit := (timingInitialize_eq sampleRateHz (t.loaded input)
      { t.loaded input with
        speeds := (t.loaded input).speeds.timingInitialize, speaker := after }).mpr ⟨hafter, rfl⟩
    exact ⟨_, by rw [hinit], hP⟩

theorem restores_saved {sampleRateHz : ℕ} {helper : StateHelper}
    (hhost : ∀ file bytes, bytes.length ≤ helper.host file bytes) {speeds : Speeds} {k l : ℕ}
    (hk : HundredthsOf speeds.cpuScaleFactor k) (hl : HundredthsOf speeds.cpuAltscaleFactor l)
    (t : Clocked) : Restores sampleRateHz helper speeds t ↔
      (t.speaker.speakerIsAvailable = true → Resettable sampleRateHz
        (t.loaded
          (savedBytes k l speeds.altSpeedEnabled)).speeds.timingInitialize.cyclesPersecTarget) ∧
      (t.loaded (savedBytes k l speeds.altSpeedEnabled)).speeds.timingInitialize.isFullspeed =
        speeds.isFullspeed ∧
      (t.loaded
          (savedBytes k l speeds.altSpeedEnabled)).speeds.timingInitialize.cyclesPersecTarget =
        speeds.cyclesPersecTarget := by
  have hlength : (savedBytes k l speeds.altSpeedEnabled).length = 9 := rfl
  have hload := load_iff sampleRateHz t hlength fun s => s.isFullspeed = speeds.isFullspeed ∧
    s.cyclesPersecTarget = speeds.cyclesPersecTarget
  obtain ⟨saved, hsave, hfile⟩ := timingSaveState_eq hhost hk hl
  rw [← hload]
  constructor
  · rintro ⟨saved', bytes, u, hsave', hfile', hu⟩
    rw [hsave] at hsave'
    cases hsave'
    have hbytes := List.append_cancel_left (hfile.symm.trans hfile')
    rw [← hbytes] at hu
    exact ⟨u, hu⟩
  · rintro ⟨u, hu⟩
    exact ⟨saved, _, u, hsave, hfile, hu⟩

/-- **Saving.** A speed of the preferences is restored exactly when the format can hold it. -/
theorem restores_iff {sampleRateHz : ℕ} (hpos : 0 < sampleRateHz) (hmax : sampleRateHz ≤ 255121)
    {helper : StateHelper} (hhost : ∀ file bytes, bytes.length ≤ helper.host file bytes)
    (cpuScale cpuScaleAlt : Option Floating) (before : Speeds) (t : Clocked) :
    Restores sampleRateHz helper
        (timingPrefsChanged cpuScale cpuScaleAlt before).timingInitialize t ↔
      FitToSave sampleRateHz (timingPrefsChanged cpuScale cpuScaleAlt before).timingInitialize
        t := by
  let speeds := (timingPrefsChanged cpuScale cpuScaleAlt before).timingInitialize
  have hscale : speeds.cpuScaleFactor = preferredFactor cpuScale := rfl
  have halt : speeds.cpuAltscaleFactor = preferredFactor cpuScaleAlt := rfl
  have hfull : speeds.isFullspeed = speeds.speed.above cpuScaleFastestPivot := rfl
  have htarget : speeds.cyclesPersecTarget =
      if speeds.isFullspeed then before.cyclesPersecTarget
      else speeds.speed.times doubleDigits clk6502 := rfl
  change Restores sampleRateHz helper speeds t ↔ FitToSave sampleRateHz speeds t
  by_cases hnan : speeds.cpuScaleFactor = .nan ∨ speeds.cpuAltscaleFactor = .nan
  · -- the save stops at its assertions
    have hfault : timingSaveState helper speeds = .error .assertion := by
      rw [timingSaveState]
      obtain h | h := hnan
      · rw [h]
        rfl
      · rw [h]
        simp [Floating.nonneg]
    constructor
    · rintro ⟨saved, bytes, u, hsave, -⟩
      rw [hfault] at hsave
      cases hsave
    · intro h
      exact absurd hnan (not_or.mpr ⟨h.scale, h.altscale⟩)
  · obtain ⟨hnum, hnum'⟩ := not_or.mp hnan
    obtain ⟨k, hk⟩ := hundredthsOf_preferredFactor (hscale ▸ hnum)
    obtain ⟨l, hl⟩ := hundredthsOf_preferredFactor (halt ▸ hnum')
    rw [← hscale] at hk
    rw [← halt] at hl
    obtain ⟨-, -, -, hk406⟩ := hk.saved
    obtain ⟨-, -, -, hl406⟩ := hl.saved
    obtain ⟨-, hactive⟩ := saved_loaded hk406 hl406 speeds.altSpeedEnabled
    obtain ⟨a, ha, hspeed⟩ : ∃ a, activeLVal (savedBytes k l speeds.altSpeedEnabled) = a ∧
        HundredthsOf speeds.speed a := by
      refine ⟨_, hactive, ?_⟩
      rw [Speeds.speed]
      split_ifs
      · exact hl
      · exact hk
    obtain ⟨hloadedfull, hloaded⟩ := loaded_target t (savedBytes k l speeds.altSpeedEnabled)
    rw [ha] at hloadedfull hloaded
    rw [restores_saved hhost hk hl t, hloadedfull, hloaded, hfull, hspeed.above]
    by_cases hfast : 400 < a
    · have habove : speeds.speed.above cpuScaleFastestPivot = true := by
        rw [hspeed.above, decide_eq_true hfast]
      rw [if_pos hfast]
      constructor
      · rintro ⟨hreset, -, hsame⟩
        exact ⟨hnum, hnum', fun h => absurd (habove.symm.trans h) (by decide),
          fun _ => ⟨hsame, hreset⟩⟩
      · intro h
        obtain ⟨hsame, hreset⟩ := h.kept habove
        exact ⟨hreset, rfl, hsame⟩
    · have habove : speeds.speed.above cpuScaleFastestPivot = false := by
        rw [hspeed.above, decide_eq_false hfast]
      obtain ⟨-, -, ha25, -⟩ := hspeed.saved
      obtain ⟨n, hn, -, hle⟩ := usable_factorOf hpos hmax ha25 (Nat.le_of_not_lt hfast)
      rw [if_neg hfast, htarget, hfull, habove, if_neg Bool.false_ne_true,
        hspeed.target_eq_iff (Nat.le_of_not_lt hfast)]
      constructor
      · rintro ⟨-, -, hquarter⟩
        exact ⟨hnum, hnum', fun _ => hquarter, fun h => absurd (habove.symm.trans h) (by decide)⟩
      · intro h
        exact ⟨fun _ => ⟨n, hn, hle⟩, rfl, h.quarter habove⟩

/-- **Speeds in the file.** Nine bytes are loaded into a usable speed exactly when their hundredths
are those of one; a speed of the preferences is restored exactly when it is made of quarters, or is
full speed over the same target. -/
theorem speeds_restored {sampleRateHz : ℕ} (hpos : 0 < sampleRateHz)
    (hmax : sampleRateHz ≤ 255121) :
    (∀ (t : Clocked) (input : List UInt8), 9 ≤ input.length →
      (LoadsUsable sampleRateHz t input ↔ FitToLoad sampleRateHz t input)) ∧
    ∀ helper : StateHelper, (∀ file bytes, bytes.length ≤ helper.host file bytes) →
      ∀ (cpuScale cpuScaleAlt : Option Floating) (before : Speeds) (t : Clocked),
        Restores sampleRateHz helper
            (timingPrefsChanged cpuScale cpuScaleAlt before).timingInitialize t ↔
          FitToSave sampleRateHz
            (timingPrefsChanged cpuScale cpuScaleAlt before).timingInitialize t :=
  ⟨fun t _ h => loadsUsable_iff hpos hmax t h, fun _ hhost cpuScale cpuScaleAlt before t =>
    restores_iff hpos hmax hhost cpuScale cpuScaleAlt before t⟩

/-- The machine as it starts. -/
def started : Clocked where
  speeds := ⟨true, false, false, .finite 1, .finite 1, .finite clk6502⟩
  speaker := fourSamples
  cyclesCountTotal := 0

/-- A file that has room for everything. -/
def emptyFile : StateHelper where
  file := []
  host := fun _ bytes => bytes.length

/-- Half of the speed and all of it, in hundredths. -/
def halfSpeed : List UInt8 := [0, 0, 0, 50, 0, 0, 0, 100, 0]

/-- Half of the speed is loaded, and full speed survives. -/
theorem speeds_restored_half : LoadsUsable 22050 started halfSpeed ∧
    Restores 22050 emptyFile (timingPrefsChanged none none started.speeds).timingInitialize
      started := by
  obtain ⟨hload, hsave⟩ :=
    speeds_restored (show 0 < 22050 by decide) (show 22050 ≤ 255121 by decide)
  have hfirst : lValOf (halfSpeed.take 4) = 50 := by decide
  have hsecond : lValOf ((halfSpeed.drop 4).take 4) = 100 := by decide
  have hactive : activeLVal halfSpeed = 50 := by decide
  constructor
  · refine (hload started halfSpeed (by decide)).mpr ⟨?_, ?_, ?_⟩
    · rw [hfirst]
      decide
    · rw [hsecond]
      decide
    · intro _ h
      rw [hactive] at h
      exact absurd h (by decide)
  · have hone : preferredFactor none = .finite 1 := by
      change limited (.finite 1) = _
      rw [limited_finite, cpuScaleSlowest, cpuScaleFastestPivot, if_neg (by norm_num),
        if_neg (by norm_num)]
    have hspeed : (timingPrefsChanged none none started.speeds).timingInitialize.speed =
        .finite 1 := hone
    refine (hsave emptyFile (fun _ _ => Nat.le_refl _) none none started.speeds started).mpr
      ⟨?_, ?_, fun _ => ⟨4, ?_⟩, ?_⟩
    · change preferredFactor none ≠ .nan
      rw [hone]
      exact Floating.noConfusion
    · change preferredFactor none ≠ .nan
      rw [hone]
      exact Floating.noConfusion
    · rw [hspeed]
      norm_num
    · rw [hspeed, Floating.above, cpuScaleFastestPivot]
      norm_num

/-- The speed nought is loaded, and leaves no cycles for a sample; and 110 percent come back as
another speed. -/
theorem speeds_lost :
    (∃ u, timingLoadState 22050 started (List.replicate 9 0) = .ok (u, [], true) ∧
      u.speeds.cpuScaleFactor.below cpuScaleSlowest = true ∧ u.speaker.cyclesPerSample = 0) ∧
    ¬ Restores 22050 emptyFile
      (timingPrefsChanged (some (.finite 110)) none started.speeds).timingInitialize started := by
  constructor
  · have hzero : loadedFactor 0 = 0 := by
      rw [loadedFactor, Nat.cast_zero, zero_div, roundTo_zero]
    have hactive : activeLVal (List.replicate 9 0) = 0 := by decide
    have hfirst : lValOf ((List.replicate 9 0).take 4) = 0 := by decide
    obtain ⟨-, htarget⟩ := loaded_target started (List.replicate 9 0)
    have hstopped : (Floating.finite (loadedFactor 0)).times doubleDigits clk6502 = .finite 0 := by
      rw [Floating.times, hzero, zero_mul, roundTo_zero]
    rw [hactive, factorOf_eq, hstopped] at htarget
    have hnone : toUnsigned ((started.loaded (List.replicate 9
        0)).speeds.timingInitialize.cyclesPersecTarget.dividedBy doubleDigits 22050) = .ok 0 := by
      rw [htarget, if_neg (by decide), Floating.dividedBy, zero_div, roundTo_zero, toUnsigned,
        if_pos (by norm_num), Int.floor_zero]
      rfl
    obtain ⟨after, hafter⟩ := speakerInitTiming_exists started.cyclesCountTotal started.speaker
      hnone (Nat.zero_le _)
    obtain ⟨hcycles, -⟩ := speakerInitTiming_ok hafter
    rw [hnone] at hcycles
    have hinit := (timingInitialize_eq 22050 (started.loaded (List.replicate 9 0))
      { started.loaded (List.replicate 9 0) with
        speeds := (started.loaded (List.replicate 9 0)).speeds.timingInitialize
        speaker := after }).mpr ⟨hafter, rfl⟩
    refine ⟨_, by rw [timingLoadState_eq 22050 started (by decide), hinit]; rfl, ?_,
      (Except.ok.inj hcycles).symm⟩
    change (factorOf (lValOf ((List.replicate 9 0).take 4))).below cpuScaleSlowest = true
    rw [hfirst, factorOf_eq, hzero, Floating.below, cpuScaleSlowest]
    norm_num
  · intro h
    have hfit := (restores_iff (show 0 < 22050 by decide) (by decide) (fun _ _ => Nat.le_refl _) _ _
      _ _).mp h
    obtain ⟨q, hq⟩ : ∃ q, q = roundTo floatDigits (110 / (100 : ℕ)) := ⟨_, rfl⟩
    have hround := abs_le.mp (abs_roundTo_sub (p := floatDigits)
      (by norm_num : (0 : ℚ) < 110 / (100 : ℕ)))
    have hbounds : 1 < q ∧ q < 5 / 4 := by
      rw [← hq, floatDigits] at hround
      norm_num at hround
      constructor
      · linarith
      · linarith
    have hspeed : (timingPrefsChanged (some (.finite 110)) none
        started.speeds).timingInitialize.speed = .finite q := by
      rw [hq]
      change limited (.finite (roundTo floatDigits (110 / (100 : ℕ)))) = _
      rw [← hq, limited_finite, cpuScaleSlowest, cpuScaleFastestPivot, if_neg (by linarith),
        if_neg (by linarith)]
    have habove : (Floating.finite q).above cpuScaleFastestPivot = false := by
      rw [Floating.above, cpuScaleFastestPivot]
      exact decide_eq_false (by linarith)
    obtain ⟨n, hn⟩ := hfit.quarter (by rw [hspeed, habove])
    rw [hspeed, Floating.finite.injEq] at hn
    have hlow : (4 : ℚ) < n := by linarith
    have hhigh : (n : ℚ) < 5 := by linarith
    have hlow' : 4 < n := by exact_mod_cast hlow
    have hhigh' : n < 5 := by exact_mod_cast hhigh
    omega

end Apple2ix.Timing
