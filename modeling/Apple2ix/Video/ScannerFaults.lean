import Mathlib.Data.Rat.Floor
import Apple2ix.Timing.Requests
import Apple2ix.Video.ScannerRuns

/-! When the video scanner keeps its assertions, over the batches that `cpu_thread` requests. -/
namespace Apple2ix.Video.Scanning
open Vm Loops Runs Timing.Requests
set_option autoImplicit false

/-! ## Sound runs -/

/-- A step in which no assertion fails, and that leaves the scanner behind the CPU. -/
def SoundStep (s : Scanner) (op : Op) : Prop :=
  ∃ t, step s op = .ok t ∧ t.cyclesFrameLast ≤ t.cyclesVideoFrame

/-- An operation that meets its condition in the state that it finds. -/
def SafeStep (s : Scanner) (op : Op) : Prop := op.Safe (flashes s.softswitches) s.time

/-- What the runs of `cpu_thread` keep. -/
structure Fitting (s : Scanner) (ops : List Op) : Prop where
  ready : Ready s
  lag : s.Lag
  fits : Within (· < 2 ^ 31) Op.batchCycles ops s.cpu65CycleCount

section Runs
variable {s : Scanner} {op : Op} {ops : List Op}

theorem Fitting.touch_gap (h : Fitting s ops) : s.time.touch.gap < uintMax :=
  h.ready.touch_gap h.lag h.fits.here

theorem Fitting.step (h : Fitting s (op :: ops)) (hsafe : SafeStep s op) :
    ∃ t, Scanning.step s op = .ok t ∧ Stepped op s t ∧ Fitting t ops := by
  obtain ⟨t, ht, hstep⟩ := step_ok h.ready h.touch_gap hsafe
  have hrest := h.fits.2
  rw [← hstep.cpu65CycleCount] at hrest
  exact ⟨t, ht, hstep, hstep.ready, hstep.lag h.lag, hrest⟩

/-- A step is sound exactly when its operation meets its condition. -/
theorem soundStep_iff (h : Fitting s (op :: ops)) : SoundStep s op ↔ SafeStep s op := by
  constructor
  · rintro ⟨t, ht, hbehind⟩
    by_contra hfault
    exact step_ahead h.ready h.touch_gap hfault ht hbehind
  · intro hsafe
    obtain ⟨t, ht, hstep, -⟩ := h.step hsafe
    exact ⟨t, ht, hstep.ready.behind⟩

/-- **Runs.** A run is sound exactly when all of its operations meet their conditions. -/
theorem run_sound_iff (h : Fitting s ops) :
    Along step SoundStep s ops ↔ Along step SafeStep s ops := by
  apply along_iff Fitting
  · exact fun _ _ _ h => soundStep_iff h
  · intro s op ops h hsafe
    obtain ⟨t, ht, -, hrest⟩ := h.step hsafe
    exact ⟨t, ht, hrest⟩
  · exact h

/-- Whether a run is safe can be told from the clock. -/
theorem run_safe_iff (h : Fitting s ops) :
    Along step SafeStep s ops ↔
      AlongPure Situation.step (fun a op => op.Safe (flashes a.softswitches) a.clock) s.situation
        ops := by
  refine along_pure (R := fun a op => op.Safe (flashes a.softswitches) a.clock)
    Scanner.situation Situation.step Fitting ?_ h
  intro s op ops h hsafe
  obtain ⟨t, ht, hstep, hrest⟩ := h.step hsafe
  exact ⟨t, ht, hstep.situation, hrest⟩

end Runs

theorem start_lag (softswitches : BitVec 32) (appleIi64k : ℕ → UInt16 → UInt8) :
    (start softswitches appleIi64k).Lag := by
  simp [Scanner.Lag, start, cyclesFrame_eq]

theorem start_fitting (softswitches : BitVec 32) (appleIi64k : ℕ → UInt16 → UInt8)
    {ops : List Op} (h : Fits ops) : Fitting (start softswitches appleIi64k) ops :=
  ⟨start_ready _ _, start_lag _ _, h⟩

/-- **Safety of the scanner.** No assertion fails, and the scanner is never ahead of the CPU,
exactly when in each of its calls that scans past the end of a frame in which the text flashed,
what is left to scan is a whole frame, or no more than the cycles passed since then, of which whole
frames do not count. -/
theorem scanner_safety (softswitches : BitVec 32) (appleIi64k : ℕ → UInt16 → UInt8)
    (ops : List Op) (h : Fits ops) :
    Along step SoundStep (start softswitches appleIi64k) ops ↔
      Along step SafeStep (start softswitches appleIi64k) ops :=
  run_sound_iff (start_fitting softswitches appleIi64k h)

theorem scanner_safety_one_batch :
    Along step SoundStep (start 0 fun _ _ => 0) [.run 5, .setDirty, .run 7, .endBatch] ↔
      Along step SafeStep (start 0 fun _ _ => 0) [.run 5, .setDirty, .run 7, .endBatch] :=
  scanner_safety 0 (fun _ _ => 0) _ (by unfold Fits; decide)

/-! ## A batch that scans too far -/

/-- `CLK_6502`. -/
def clk6502 : ℚ := 157500000 / 11 * 65 / 912

/-- `sampleRateHz` of the OpenAL backend. -/
def sampleRateHz : ℚ := 22050

/-- `cpu_thread` may request a batch of `n` cycles, at a scale of the CPU speed and for a count of
samples that the speaker asks for. -/
def Requested (n : ℕ) : Prop :=
  ∃ (scale : ℚ) (samples : ℤ), 1 / 4 ≤ scale ∧ scale ≤ 4 ∧ |samples| ≤ soundcoreErrorMax ∧
    (n : ℤ) = cyclesToExecute (clk6502 * scale) sampleRateHz false samples

/-- Every batch of a run is one that `cpu_thread` may request. -/
def Requests : List Op → ℕ → Prop
  | [], done => ∃ n, done ≤ n ∧ Requested n
  | .endBatch :: ops, done => Requested done ∧ Requests ops 0
  | op :: ops, done => Requests ops (op.batchCycles done)

theorem Requested.lt {n : ℕ} (h : Requested n) : n < 2 ^ 31 := by
  obtain ⟨scale, samples, hslow, hfast, hsamples, hn⟩ := h
  have hclk : 0 ≤ clk6502 := by
    rw [clk6502]
    norm_num
  have htarget : clk6502 * scale ≤ fastestTarget := by
    rw [clk6502, fastestTarget]
    linarith
  have hle := cyclesToExecute_le false 185 (mul_nonneg hclk (le_trans (by norm_num) hslow)) htarget
    (by norm_num [sampleRateHz] : 0 < sampleRateHz) (by rw [fastestTarget, sampleRateHz]; norm_num)
    hsamples
  omega

/-- The cycles of a batch are no more than what was requested. -/
theorem Requests.le {ops : List Op} {done : ℕ} (h : Requests ops done) :
    ∃ n, done ≤ n ∧ Requested n := by
  induction ops generalizing done with
  | nil => exact h
  | cons op ops ih =>
    cases op with
    | endBatch => exact ⟨done, le_refl _, h.1⟩
    | run n =>
      obtain ⟨m, hle, hm⟩ := ih h
      exact ⟨m, (Nat.le_add_right done n).trans hle, hm⟩
    | _ => exact ih h

/-- **What `cpu_thread` may request** fits in the count of its cycles. -/
theorem Requests.fits {ops : List Op} (h : Requests ops 0) : Fits ops := by
  have hwithin : ∀ (ops : List Op) (done : ℕ), Requests ops done →
      Within (· < 2 ^ 31) Op.batchCycles ops done := by
    intro ops
    induction ops with
    | nil =>
      rintro done ⟨n, hle, hn⟩
      exact hle.trans_lt hn.lt
    | cons op ops ih =>
      intro done h
      obtain ⟨n, hle, hn⟩ := h.le
      refine ⟨hle.trans_lt hn.lt, ih _ ?_⟩
      cases op with
      | endBatch => exact h.2
      | _ => exact h
  exact hwithin ops 0 h

/-- Seventeen batches end fifteen frames of text. In the next batch the text page is written to in
the last lines of the frame. -/
def longBatch : List Op :=
  (List.replicate 17 [.run 15181, .endBatch]).flatten ++
    [.run 14338, .setDirty, .run 26743, .endBatch]

theorem longBatch_faults :
    ¬ AlongPure Situation.step (fun a op => op.Safe (flashes a.softswitches) a.clock)
      ⟨Switch.ssText.mask, 0, ⟨0, 0, cyclesFrame, 0, 0⟩⟩ longBatch := by
  decide +kernel

theorem requested_feedback {n : ℕ} (samples : ℤ) (hsamples : |samples| ≤ 200)
    (hn : (n : ℤ) = 4081 + samples * 185) : Requested n := by
  have hcycles : ⌊clk6502 * 4 / 1000⌋ = 4081 := by
    rw [Int.floor_eq_iff, clk6502]
    norm_num
  have hsample : ⌊clk6502 * 4 / sampleRateHz⌋ = 185 := by
    rw [Int.floor_eq_iff, clk6502, sampleRateHz]
    norm_num
  refine ⟨4, samples, by norm_num, le_refl _, hsamples, ?_⟩
  simp only [cyclesToExecute, cyclesPerSample, hcycles, hsample, Bool.false_eq_true, if_false]
  split_ifs <;> omega

theorem longBatch_requests : Requests longBatch 0 := by
  have hshort : Requested 15181 := requested_feedback 60 (by decide) (by decide)
  have hlong : Requested 41081 := requested_feedback 200 (by decide) (by decide)
  simp [longBatch, Requests, Op.batchCycles, hshort, hlong]
  exact ⟨15181, hshort⟩

/-- **The scanner does not keep its assertions over all batches.** -/
theorem scanner_faults :
    ¬ ∀ (softswitches : BitVec 32) (appleIi64k : ℕ → UInt16 → UInt8) (ops : List Op),
      Requests ops 0 → Along step SoundStep (start softswitches appleIi64k) ops := by
  intro h
  have hsound := h Switch.ssText.mask (fun _ _ => 0) longBatch longBatch_requests
  have hfits : Fits longBatch := longBatch_requests.fits
  have hfitting := start_fitting Switch.ssText.mask (fun _ _ => 0) hfits
  rw [run_sound_iff hfitting, run_safe_iff hfitting] at hsound
  exact longBatch_faults hsound

end Apple2ix.Video.Scanning
