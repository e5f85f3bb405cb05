import Apple2ix.Video.ScannerRuns

/-! The frame clock: how often the end of a frame is seen, against the cycles that were executed,
when fewer cycles than a frame has pass between the calls of the scanner. -/
namespace Apple2ix.Video.Scanning
open Vm Loops Runs
set_option autoImplicit false

/-! ## Runs with calls in every frame -/

/-- `video_setDirty` and `video_scannerUpdate`. -/
def Op.isCall : Op → Bool
  | .setDirty => true
  | .update => true
  | .endBatch => true
  | _ => false

/-- The cycles since the last call or reset, and those of them that are not counted yet, which a
reset leaves to be counted. -/
def Op.elapsed : Op → ℕ × ℕ → ℕ × ℕ
  | .run n, (since, pending) => (since + n, pending + n)
  | .checkpoint, (since, _) => (since, 0)
  | .reset, (_, pending) => (pending, pending)
  | .setSwitches _, e => e
  | .store _ _ _, e => e
  | _, _ => (0, 0)

/-- Fewer than `CYCLES_FRAME` cycles pass between the calls of a run. -/
def Close (ops : List Op) : Prop := Within (fun e => e.1 < cyclesFrame) Op.elapsed ops (0, 0)

/-- The scanner `since` cycles after its last call: it has seen all the cycles before them, unless
it was sent back to the start of the frame and has to scan the rest of it. -/
structure Clock.Near (k : Clock) (since : ℕ) : Prop where
  flash : k.flash < 16
  behind : k.frameLast + since ≤ k.videoFrame
  clean : k.dirty = 0 → k.frameLast + since = k.videoFrame
  dirty : k.dirty ≠ 0 → k.frameLast + since = k.videoFrame ∨
    k.frameLast + k.dirty = cyclesFrame ∧ k.videoFrame < cyclesFrame + since

namespace Clock
variable {k : Clock} {since : ℕ}

theorem Near.safe (h : k.Near since) (hsince : since < cyclesFrame) (text : Bool) :
    k.Safe text := by
  intro _ hle
  have hlt : k.frameLast % 17030 < 17030 := Nat.mod_lt _ (by decide)
  have hcount : k.count ≤ k.gap ∧ k.count ≤ k.dirty :=
    ⟨Nat.min_le_left _ _, Nat.min_le_right _ _⟩
  by_cases hzero : k.dirty = 0
  · have hpos := flashAt_pos k
    omega
  · right
    rcases h.dirty hzero with hall | ⟨hend, -⟩
    · have hgap : k.gap = since := by
        simp only [gap]
        omega
      rw [Nat.mod_eq_of_lt (by omega)]
      omega
    · have hat : k.dirty ≤ k.flashAt := by
        simp only [flashAt, cyclesFrame_eq] at hend ⊢
        omega
      omega

theorem Near.touch_gap (h : k.Near since) (hsince : since < cyclesFrame) :
    k.touch.gap < uintMax := by
  have hle := touch_gap_le k
  have hgap : k.gap < 2 * cyclesFrame := by
    have hbehind := h.behind
    by_cases hzero : k.dirty = 0
    · have hclean := h.clean hzero
      simp only [gap]
      omega
    · have hdirty := h.dirty hzero
      simp only [gap]
      omega
  simp only [cyclesFrame_eq, cyclesScanline, uintMax] at hle hgap ⊢
  omega

theorem Near.touch_safe (h : k.Near since) (hsince : since < cyclesFrame) (text : Bool) :
    k.touch.Safe text := by
  have hgap := h.touch_gap hsince
  rw [safe_touch_iff hgap, CanScan, touch_count hgap]
  refine ⟨Nat.le_of_lt hgap, fun _ => ?_⟩
  by_cases hzero : k.dirty = 0
  · have hline : k.touch.gap ≤ 64 := by
      simp only [gap, touch, hzero, if_true, cyclesScanline]
      omega
    rw [cyclesFrame_eq]
    omega
  · have hbehind := h.behind
    have htouch : k.touch.gap = k.videoFrame - k.frameLast := by
      simp only [gap, touch, hzero, if_false]
    rcases h.dirty hzero with hall | ⟨hend, hvideo⟩
    · omega
    · have hat : k.touch.flashAt = k.flashAt := by
        simp only [flashAt, touch, hzero, if_false]
      have hfull : k.dirty ≤ k.flashAt := by
        simp only [flashAt, cyclesFrame_eq] at hend ⊢
        omega
      omega

/-- A call finds the scanner near, and leaves it with nothing more to see. -/
theorem Near.update (h : k.Near since) (hsince : since < cyclesFrame) (text : Bool) :
    (k.update text).Near 0 := by
  have hbehind : k.Behind := Nat.le_of_add_right_le h.behind
  by_cases hzero : k.dirty = 0
  · have hskip := skip_behind text k
    refine ⟨?_, ?_, ?_, ?_⟩
    · rw [Clock.update, if_pos hzero]
      exact skip_flash h.flash
    · rw [Clock.update, if_pos hzero]
      exact hskip
    · intro hclean
      rw [Clock.update, if_pos hzero] at hclean ⊢
      unfold skip at hclean ⊢
      split_ifs at hclean ⊢
      · simp only [endFrame] at hclean ⊢
        split_ifs at hclean ⊢
        · rw [cyclesFrame_eq] at hclean
          omega
        · rfl
      · rfl
    · intro hopen
      rw [Clock.update, if_pos hzero] at hopen ⊢
      obtain ⟨hlast, hdirty⟩ := skip_dirty hzero hopen
      refine Or.inr ⟨by rw [hlast, hdirty, Nat.zero_add], ?_⟩
      unfold skip
      split_ifs with hlong
      · exact Nat.mod_lt _ (by decide)
      · exact Nat.lt_of_not_le hlong
  · obtain ⟨hcan, hafter⟩ := (safe_iff h.flash hbehind hzero).mpr (h.safe hsince text)
    rw [Clock.update, if_neg hzero] at hafter ⊢
    refine ⟨rest_after_flash _ _ _, hafter, ?_, ?_⟩
    · intro hclean
      rw [rest_dirty] at hclean
      rw [rest, if_pos hclean]
      rfl
    · intro hopen
      rw [rest_dirty] at hopen
      rw [rest, if_neg hopen]
      by_cases hflashed : text = true ∧ k.flashAt ≤ k.count
      · obtain ⟨rfl, hle⟩ := hflashed
        obtain ⟨hlast, hvideo, hd⟩ := after_flashed h.flash hle
        right
        rw [hlast, hvideo, hd]
        rw [hd] at hopen
        rw [Nat.mod_eq_of_lt (by omega)]
        exact ⟨by omega, Nat.mod_lt _ (by decide)⟩
      · have hsteady : text = true → k.count < k.flashAt := fun htext =>
          Nat.lt_of_not_le fun hle => hflashed ⟨htext, hle⟩
        have hd := after_steady hsteady
        have hall : k.count = k.gap := by
          simp only [count] at hd hopen ⊢
          omega
        exact Or.inl (after_all text hbehind hall)

theorem Near.setDirty (h : k.Near since) (hsince : since < cyclesFrame) (text : Bool) :
    (k.setDirty text).Near 0 := by
  have hbehind : k.touch.Behind := touch_behind (Nat.le_of_add_right_le h.behind)
  have hall := after_all text hbehind (touch_count (h.touch_gap hsince))
  have hlast : (k.setDirty text).frameLast = (k.setDirty text).videoFrame := by
    simp only [Clock.setDirty, rest]
    split_ifs
    · rfl
    · exact hall
  refine ⟨?_, Nat.le_of_eq hlast, fun _ => hlast, fun _ => Or.inl hlast⟩
  exact rest_after_flash text k.touch k.touch.count

/-- **Every step** keeps the scanner near. -/
theorem Near.step (h : k.Near since) (hsince : since < cyclesFrame) (text : Bool) (pending : ℕ)
    (op : Op) : (k.step text pending op).Near (op.elapsed (since, pending)).1 := by
  cases op with
  | run n =>
    have hbehind := h.behind
    refine ⟨h.flash, ?_, ?_, ?_⟩
    · simp only [Clock.step, Op.elapsed]
      omega
    · intro hzero
      have hclean := h.clean hzero
      simp only [Clock.step, Op.elapsed]
      omega
    · intro hopen
      have hdirty := h.dirty hopen
      simp only [Clock.step, Op.elapsed]
      omega
  | setDirty => exact h.setDirty hsince text
  | update => exact h.update hsince text
  | endBatch => exact h.update hsince text
  | reset =>
    refine ⟨h.flash, ?_, ?_, ?_⟩
    · simp [Clock.step, Op.elapsed]
    · intro _
      simp [Clock.step, Op.elapsed]
    · intro _
      simp [Clock.step, Op.elapsed]
  | checkpoint => exact h
  | setSwitches softswitches => exact h
  | store bank addr b => exact h

end Clock

/-- What every run with calls in every frame keeps. -/
structure Tracked (s : Scanner) (since : ℕ) (ops : List Op) : Prop where
  ready : Ready s
  near : s.time.Near since
  close : Within (fun e => e.1 < cyclesFrame) Op.elapsed ops (since, s.pending)

section Steps
variable {s : Scanner} {since : ℕ} {op : Op} {ops : List Op}

theorem Tracked.safe (h : Tracked s since ops) (op : Op) :
    op.Safe (flashes s.softswitches) s.time := by
  have hsince : since < cyclesFrame := h.close.here
  cases op with
  | setDirty => exact h.near.touch_safe hsince _
  | update => exact h.near.safe hsince _
  | endBatch => exact h.near.safe hsince _
  | run n => trivial
  | checkpoint => trivial
  | setSwitches softswitches => trivial
  | store bank addr b => trivial
  | reset => trivial

theorem elapsed_pending (op : Op) (since pending : ℕ) :
    (op.elapsed (since, pending)).2 = op.pending pending := by
  cases op <;> rfl

/-- **One step** of such a run succeeds. -/
theorem Tracked.step (h : Tracked s since (op :: ops)) :
    ∃ t, Scanning.step s op = .ok t ∧ Stepped op s t ∧
      Tracked t (op.elapsed (since, s.pending)).1 ops := by
  have hsince : since < cyclesFrame := h.close.here
  obtain ⟨t, ht, hstep⟩ := step_ok h.ready (h.near.touch_gap hsince) (h.safe op)
  refine ⟨t, ht, hstep, hstep.ready, ?_, ?_⟩
  · rw [hstep.time]
    exact h.near.step hsince _ _ op
  · rw [hstep.pending, ← elapsed_pending op since]
    exact h.close.2

/-- A run with calls in every frame succeeds. -/
theorem Tracked.run {pre : List Op} (h : Tracked s since (pre ++ ops)) :
    ∃ t since', runFrom s pre = .ok t ∧ Tracked t since' ops := by
  induction pre generalizing s since with
  | nil => exact ⟨s, since, rfl, h⟩
  | cons op pre ih =>
    obtain ⟨u, hu, -, htracked⟩ := Tracked.step h
    obtain ⟨t, since', ht, hrest⟩ := ih htracked
    refine ⟨t, since', ?_, hrest⟩
    rw [runFrom, runM_cons_ok pre hu]
    exact ht

end Steps

theorem start_tracked (softswitches : BitVec 32) (appleIi64k : ℕ → UInt16 → UInt8)
    {ops : List Op} (h : Close ops) : Tracked (start softswitches appleIi64k) 0 ops := by
  refine ⟨start_ready _ _, ⟨?_, Nat.le_refl _, fun _ => rfl, fun _ => Or.inl rfl⟩, h⟩
  exact show 0 < 16 by decide

/-! ## The ends of frames -/

/-- When a call sees the frame that ended, if one did: the scan of what is dirty does not stop
before the end of that frame, and `video_setDirty` does not find the scanner idle behind it. -/
def Op.Timely (k : Clock) : Op → Prop
  | .setDirty => k.dirty = 0 → k.videoFrame < cyclesFrame
  | .update => k.dirty ≠ 0 → cyclesFrame ≤ k.videoFrame → cyclesFrame ≤ k.frameLast + k.dirty
  | .endBatch => k.dirty ≠ 0 → cyclesFrame ≤ k.videoFrame → cyclesFrame ≤ k.frameLast + k.dirty
  | _ => True

instance Op.decidableTimely (k : Clock) : ∀ op : Op, Decidable (op.Timely k)
  | .setDirty => inferInstanceAs (Decidable (k.dirty = 0 → k.videoFrame < cyclesFrame))
  | .update => inferInstanceAs (Decidable (k.dirty ≠ 0 → cyclesFrame ≤ k.videoFrame →
    cyclesFrame ≤ k.frameLast + k.dirty))
  | .endBatch => inferInstanceAs (Decidable (k.dirty ≠ 0 → cyclesFrame ≤ k.videoFrame →
    cyclesFrame ≤ k.frameLast + k.dirty))
  | .run _ => inferInstanceAs (Decidable True)
  | .checkpoint => inferInstanceAs (Decidable True)
  | .setSwitches _ => inferInstanceAs (Decidable True)
  | .store _ _ _ => inferInstanceAs (Decidable True)
  | .reset => inferInstanceAs (Decidable True)

namespace Clock
variable {k : Clock} {since : ℕ}

theorem rest_frames (k : Clock) : k.rest.frames = k.frames := by
  unfold rest
  split_ifs <;> rfl

theorem rest_videoFrame (k : Clock) : k.rest.videoFrame = k.videoFrame := by
  unfold rest
  split_ifs <;> rfl

/-- The frame counter wraps with the ends of frames that a call sees. -/
theorem update_wraps (text : Bool) (k : Clock) :
    (k.update text).videoFrame =
      if (k.update text).frames = k.frames then k.videoFrame else k.videoFrame % cyclesFrame := by
  by_cases hzero : k.dirty = 0
  · rw [update, if_pos hzero, skip]
    by_cases hlong : cyclesFrame ≤ k.videoFrame
    · simp [hlong, endFrame]
    · simp [hlong]
  · rw [update, if_neg hzero, rest_frames, rest_videoFrame]
    by_cases hended : k.ended k.count = 0
    · simp [after, hended]
    · simp [after, hended]

theorem setDirty_wraps (text : Bool) (k : Clock) :
    (k.setDirty text).videoFrame =
      if (k.setDirty text).frames = k.frames then k.videoFrame else k.videoFrame % cyclesFrame := by
  have hvideo : k.touch.videoFrame = k.videoFrame := rfl
  have hframes : k.touch.frames = k.frames := rfl
  simp only [setDirty, rest_frames, rest_videoFrame]
  by_cases hended : k.touch.ended k.touch.count = 0
  · simp [after, hended, hvideo, hframes]
  · simp [after, hended, hvideo, hframes]

/-- The update sees the frame that ended exactly when it is timely. -/
theorem update_frames (h : k.Near since) (hsince : since < cyclesFrame)
    (hcurrent : k.videoFrame < cyclesFrame + since) (text : Bool) :
    (k.update text).frames = k.frames + k.videoFrame / cyclesFrame ↔ Op.update.Timely k := by
  have hbehind := h.behind
  simp only [Op.Timely]
  by_cases hzero : k.dirty = 0
  · rw [update, if_pos hzero, skip]
    refine iff_of_true ?_ fun hopen => absurd hzero hopen
    by_cases hlong : cyclesFrame ≤ k.videoFrame
    · simp only [hlong, if_true, endFrame]
      simp only [cyclesFrame_eq] at *
      omega
    · simp only [hlong, if_false]
      simp only [cyclesFrame_eq] at *
      omega
  · have hdirty := h.dirty hzero
    rw [update, if_neg hzero, rest_frames]
    simp only [after, ended, count, gap, cyclesFrame_eq] at *
    have hlast : k.frameLast % 17030 = k.frameLast := Nat.mod_eq_of_lt (by omega)
    rw [hlast]
    omega

theorem setDirty_frames (h : k.Near since) (hsince : since < cyclesFrame)
    (hcurrent : k.videoFrame < cyclesFrame + since) (text : Bool) :
    (k.setDirty text).frames = k.frames + k.videoFrame / cyclesFrame ↔ Op.setDirty.Timely k := by
  have hbehind := h.behind
  have hcount := touch_count (h.touch_gap hsince)
  have hframes : (k.setDirty text).frames = k.frames + k.touch.ended k.touch.gap := by
    simp only [setDirty, rest_frames, hcount]
    rfl
  rw [hframes]
  simp only [Op.Timely]
  by_cases hzero : k.dirty = 0
  · have hnone : k.touch.ended k.touch.gap = 0 := by
      simp only [ended, gap, touch, hzero, if_true, cyclesFrame_eq, cyclesScanline]
      omega
    rw [hnone, cyclesFrame_eq]
    omega
  · have hall : k.touch.ended k.touch.gap = k.videoFrame / cyclesFrame := by
      have hlast : k.frameLast % cyclesFrame = k.frameLast := Nat.mod_eq_of_lt (by omega)
      simp only [ended, gap, touch, hzero, if_false]
      rw [hlast, Nat.add_sub_cancel' (by omega)]
    rw [hall]
    exact iff_of_true rfl fun hidle => absurd hidle hzero

end Clock

/-! ## Runs -/

/-- After a step that calls the scanner, the end of a frame was seen once for each frame of cycles
since the reset at which `base` of them had been seen. -/
def FrameStep (base : ℕ) (s : Scanner) (op : Op) : Prop :=
  ∃ t, step s op = .ok t ∧
    (op.isCall = true → frames t.log = base + t.cyclesCountTotal / cyclesFrame)

/-- A step that is timely. -/
def TimelyStep (s : Scanner) (op : Op) : Prop := op.Timely s.time

/-- What a run keeps as long as it is timely: the frames that were seen and the cycles of the
current one are all the cycles. -/
structure Counted (base : ℕ) (s : Scanner) (since : ℕ) (ops : List Op) : Prop
    extends Tracked s since ops where
  noReset : Op.reset ∉ ops
  current : s.time.videoFrame < cyclesFrame + since
  counted : s.total + base * cyclesFrame = s.time.frames * cyclesFrame + s.time.videoFrame

section Runs
variable {base : ℕ} {s : Scanner} {since : ℕ} {op : Op} {ops : List Op}

/-- A call is timely exactly when the frames that it saw are those that ended. -/
theorem call_frames (h : s.time.Near since) (hsince : since < cyclesFrame)
    (hcurrent : s.time.videoFrame < cyclesFrame + since) (hcall : op.isCall = true) :
    let k := s.time.step (flashes s.softswitches) s.pending op
    (k.frames = s.time.frames + s.time.videoFrame / cyclesFrame ↔ op.Timely s.time) ∧
      k.videoFrame = if k.frames = s.time.frames then s.time.videoFrame
        else s.time.videoFrame % cyclesFrame := by
  cases op with
  | setDirty => exact ⟨Clock.setDirty_frames h hsince hcurrent _, Clock.setDirty_wraps _ _⟩
  | update => exact ⟨Clock.update_frames h hsince hcurrent _, Clock.update_wraps _ _⟩
  | endBatch => exact ⟨Clock.update_frames h hsince hcurrent _, Clock.update_wraps _ _⟩
  | run n => cases hcall
  | checkpoint => cases hcall
  | setSwitches softswitches => cases hcall
  | store bank addr b => cases hcall
  | reset => cases hcall

theorem isCall_effect (hcall : op.isCall = true) (since pending total : ℕ) :
    (op.elapsed (since, pending)).1 = 0 ∧ op.pending pending = 0 ∧
      op.total pending total = total := by
  cases op <;> first | exact ⟨rfl, rfl, rfl⟩ | cases hcall

/-- **One step** of a run that is timely so far. -/
theorem Counted.step (h : Counted base s since (op :: ops)) (htimely : TimelyStep s op) :
    ∃ t, Scanning.step s op = .ok t ∧ Stepped op s t ∧
      Counted base t (op.elapsed (since, s.pending)).1 ops := by
  obtain ⟨t, ht, hstep, htracked⟩ := h.toTracked.step
  have hsince : since < cyclesFrame := h.close.here
  have hcurrent := h.current
  have hcounted := h.counted
  have hreset : op ≠ .reset ∧ Op.reset ∉ ops := by
    have hmem := h.noReset
    rw [List.mem_cons, not_or] at hmem
    exact ⟨fun heq => hmem.1 heq.symm, hmem.2⟩
  refine ⟨t, ht, hstep, htracked, hreset.2, ?_, ?_⟩
  · rw [hstep.time]
    cases hcall : op.isCall with
    | true =>
      obtain ⟨hframes, hwraps⟩ := call_frames h.near hsince hcurrent hcall
      have hseen := hframes.mpr htimely
      rw [hwraps, (isCall_effect hcall since s.pending s.total).1]
      split_ifs with hnone
      · have hquot : s.time.videoFrame / cyclesFrame = 0 := by omega
        rw [cyclesFrame_eq] at hquot ⊢
        omega
      · exact Nat.mod_lt _ (by decide)
    | false =>
      cases op with
      | run n =>
        simp only [Clock.step, Op.elapsed]
        omega
      | reset => exact absurd rfl hreset.1
      | checkpoint => exact hcurrent
      | setSwitches softswitches => exact hcurrent
      | store bank addr b => exact hcurrent
      | setDirty => cases hcall
      | update => cases hcall
      | endBatch => cases hcall
  · rw [hstep.time, hstep.total]
    cases hcall : op.isCall with
    | true =>
      obtain ⟨hframes, hwraps⟩ := call_frames h.near hsince hcurrent hcall
      have hseen := hframes.mpr htimely
      rw [(isCall_effect hcall since s.pending s.total).2.2, hwraps, hseen]
      have hdiv := Nat.div_add_mod s.time.videoFrame cyclesFrame
      have hmul : (s.time.frames + s.time.videoFrame / cyclesFrame) * cyclesFrame =
          s.time.frames * cyclesFrame + cyclesFrame * (s.time.videoFrame / cyclesFrame) := by
        rw [Nat.add_mul, Nat.mul_comm cyclesFrame]
      split_ifs with hnone
      · have hquot : s.time.videoFrame / cyclesFrame = 0 := by omega
        rw [hquot, Nat.add_zero]
        exact hcounted
      · omega
    | false =>
      cases op with
      | run n =>
        simp only [Clock.step, Op.total]
        omega
      | reset => exact absurd rfl hreset.1
      | checkpoint => exact hcounted
      | setSwitches softswitches => exact hcounted
      | store bank addr b => exact hcounted
      | setDirty => cases hcall
      | update => cases hcall
      | endBatch => cases hcall

/-- A step sees the ends of the frames exactly when it is timely. -/
theorem frameStep_iff (h : Counted base s since (op :: ops)) :
    FrameStep base s op ↔ TimelyStep s op := by
  obtain ⟨t, ht, hstep, -⟩ := h.toTracked.step
  have hsince : since < cyclesFrame := h.close.here
  have hcurrent := h.current
  have hcounted := h.counted
  cases hcall : op.isCall with
  | false =>
    refine iff_of_true ⟨t, ht, fun htrue => ?_⟩ ?_
    · rw [hcall] at htrue
      cases htrue
    · cases op <;> trivial
  | true =>
    obtain ⟨hframes, -⟩ := call_frames h.near hsince hcurrent hcall
    obtain ⟨-, hpending, htotal⟩ := isCall_effect hcall since s.pending s.total
    have hcycles : t.cyclesCountTotal = s.total := by
      have hsum : t.total = t.cyclesCountTotal + t.pending := rfl
      rw [hstep.pending, hpending, Nat.add_zero] at hsum
      rw [← hsum, hstep.total, htotal]
    have hseen : frames t.log = (s.time.step (flashes s.softswitches) s.pending op).frames := by
      rw [← hstep.time]
      rfl
    have hiff :
        (base + s.total / cyclesFrame = s.time.frames + s.time.videoFrame / cyclesFrame) := by
      rw [cyclesFrame_eq] at hcounted ⊢
      omega
    rw [TimelyStep, ← hframes, ← hiff, ← hseen, ← hcycles]
    constructor
    · rintro ⟨u, hu, hcount⟩
      rw [ht] at hu
      cases hu
      exact hcount hcall
    · exact fun hcount => ⟨t, ht, fun _ => hcount⟩

/-- **Runs.** A run sees the end of each frame once exactly when it is timely. -/
theorem run_frames_iff (h : Counted base s since ops) :
    Along step (FrameStep base) s ops ↔ Along step TimelyStep s ops := by
  refine along_iff (fun s ops => ∃ since, Counted base s since ops) ?_ ?_ ⟨since, h⟩
  · rintro s op ops ⟨since, hs⟩
    exact frameStep_iff hs
  · rintro s op ops ⟨since, hs⟩ htimely
    obtain ⟨t, ht, -, hrest⟩ := hs.step htimely
    exact ⟨t, ht, _, hrest⟩

/-- Whether a run is timely can be told from the clock. -/
theorem run_timely_iff (h : Counted base s since ops) :
    Along step TimelyStep s ops ↔
      AlongPure Situation.step (fun a op => op.Timely a.clock) s.situation ops := by
  refine along_pure (R := fun a op => op.Timely a.clock) Scanner.situation Situation.step
    (fun s ops => ∃ since, Counted base s since ops) ?_ ⟨since, h⟩
  rintro s op ops ⟨since, hs⟩ htimely
  obtain ⟨t, ht, hstep, hrest⟩ := hs.step htimely
  exact ⟨t, ht, hstep.situation, _, hrest⟩

/-- After a reset everything is counted. -/
theorem Tracked.counted (h : Tracked s since (.reset :: ops)) (hreset : Op.reset ∉ ops) :
    ∃ t, Scanning.step s .reset = .ok t ∧ Counted (frames t.log) t s.pending ops := by
  obtain ⟨t, ht, hstep, htracked⟩ := h.step
  have htime := hstep.time
  refine ⟨t, ht, htracked, hreset, ?_, ?_⟩
  · rw [htime]
    simp only [Clock.step, cyclesFrame_eq]
    omega
  · have hframes : t.time.frames = frames t.log := rfl
    have hvideo : t.time.videoFrame = s.pending := by
      rw [htime]
      rfl
    rw [hstep.total, hframes, hvideo]
    simp only [Op.total]
    omega

end Runs

/-- **The frame clock.** After a reset, each call has seen the end of a frame once for each
completed frame of cycles exactly when all the calls are timely. -/
theorem frame_clock (softswitches : BitVec 32) (appleIi64k : ℕ → UInt16 → UInt8)
    (before ops : List Op) (hclose : Close (before ++ .reset :: ops)) (hreset : Op.reset ∉ ops) :
    ∃ s, runFrom (start softswitches appleIi64k) (before ++ [.reset]) = .ok s ∧
      (Along step (FrameStep (frames s.log)) s ops ↔ Along step TimelyStep s ops) := by
  obtain ⟨r, since, hr, htracked⟩ := (start_tracked softswitches appleIi64k hclose).run
  obtain ⟨s, hs, hcounted⟩ := htracked.counted hreset
  refine ⟨s, ?_, run_frames_iff hcounted⟩
  refine runM_append_ok hr ?_
  rw [runM_cons_ok [] hs]
  rfl

theorem frame_clock_one_frame :
    ∃ s, runFrom (start 0 fun _ _ => 0) ([.run 3, .update] ++ [.reset]) = .ok s ∧
      (Along step (FrameStep (frames s.log)) s [.run 17000, .setDirty, .run 40, .endBatch] ↔
        Along step TimelyStep s [.run 17000, .setDirty, .run 40, .endBatch]) :=
  frame_clock 0 (fun _ _ => 0) [.run 3, .update] [.run 17000, .setDirty, .run 40, .endBatch]
    (by unfold Close; decide) (by simp)

/-- The second frame ends while nothing is dirty, and the next call is `video_setDirty`. -/
def idleEnd : List Op :=
  [.run 17029, .update, .run 1, .update, .run 17000, .update, .run 100, .setDirty]

theorem idleEnd_late :
    ¬ AlongPure Situation.step (fun a op => op.Timely a.clock)
      ⟨0, 0, ⟨0, 0, cyclesFrame, 0, 0⟩⟩ idleEnd := by
  decide +kernel

/-- **The end of a frame can be lost.** -/
theorem frame_clock_loses :
    ¬ ∀ (softswitches : BitVec 32) (appleIi64k : ℕ → UInt16 → UInt8) (before ops : List Op),
      Close (before ++ .reset :: ops) → Op.reset ∉ ops →
        ∃ s, runFrom (start softswitches appleIi64k) (before ++ [.reset]) = .ok s ∧
          Along step (FrameStep (frames s.log)) s ops := by
  intro h
  have hclose : Close ([] ++ .reset :: idleEnd) := by
    unfold Close
    decide
  have hreset : Op.reset ∉ idleEnd := by simp [idleEnd]
  obtain ⟨s, hs, hrun⟩ := h 0 (fun _ _ => 0) [] idleEnd hclose hreset
  obtain ⟨t, ht, hcounted⟩ := (start_tracked 0 (fun _ _ => 0) hclose).counted hreset
  have heq : t = s := by
    rw [List.nil_append, runFrom, runM_cons_ok [] ht] at hs
    cases hs
    rfl
  subst heq
  have hsituation : t.situation = ⟨0, 0, ⟨0, 0, cyclesFrame, 0, 0⟩⟩ := by
    rw [reset_eq] at ht
    cases ht
    rfl
  rw [run_frames_iff hcounted, run_timely_iff hcounted, hsituation] at hrun
  exact idleEnd_late hrun

end Apple2ix.Video.Scanning
