import Mathlib.Data.Rat.Floor
import Apple2ix.Video.ScannerSafety

/-! Runs of the video scanner, over the batches of cycles that `cpu_thread` requests. -/
namespace Apple2ix.Video.Scanning
open Vm Loops Runs
set_option autoImplicit false

/-! ## Counting cycles along a run -/

/-- A count that every operation moves stays below a bound, before and after each of them. -/
def Within {α : Type} (below : α → Prop) (count : Op → α → α) : List Op → α → Prop
  | [], a => below a
  | op :: ops, a => below a ∧ Within below count ops (count op a)

instance Within.decidable {α : Type} (below : α → Prop) [DecidablePred below]
    (count : Op → α → α) : ∀ ops a, Decidable (Within below count ops a)
  | [], a => inferInstanceAs (Decidable (below a))
  | op :: ops, a =>
    have := Within.decidable below count ops (count op a)
    inferInstanceAs (Decidable (below a ∧ Within below count ops (count op a)))

theorem Within.here {α : Type} {below : α → Prop} {count : Op → α → α} {ops : List Op} {a : α}
    (h : Within below count ops a) : below a := by
  cases ops with
  | nil => exact h
  | cons op ops => exact h.1

/-- The cycles of the current batch. -/
def Op.batchCycles : Op → ℕ → ℕ
  | .run n, done => done + n
  | .endBatch, _ => 0
  | _, done => done

/-- Every batch fits in the `int32_t` that counts its cycles. -/
def Fits (ops : List Op) : Prop := Within (· < 2 ^ 31) Op.batchCycles ops 0

/-! ## One step -/

/-- When a call keeps the scanner within what is dirty, and behind the CPU. -/
def Op.Safe (text : Bool) (k : Clock) : Op → Prop
  | .setDirty => k.touch.Safe text
  | .update => k.Safe text
  | .endBatch => k.Safe text
  | _ => True

instance Op.decidableSafe (text : Bool) (k : Clock) : ∀ op : Op, Decidable (op.Safe text k)
  | .setDirty => inferInstanceAs (Decidable (k.touch.Safe text))
  | .update => inferInstanceAs (Decidable (k.Safe text))
  | .endBatch => inferInstanceAs (Decidable (k.Safe text))
  | .run _ => inferInstanceAs (Decidable True)
  | .checkpoint => inferInstanceAs (Decidable True)
  | .setSwitches _ => inferInstanceAs (Decidable True)
  | .store _ _ _ => inferInstanceAs (Decidable True)
  | .reset => inferInstanceAs (Decidable True)

/-- The scanner lags behind by less than a frame, besides the cycles of the current batch. -/
def Scanner.Lag (s : Scanner) : Prop :=
  s.cyclesVideoFrame < s.cyclesFrameLast + cyclesFrame + s.cyclesCheckpointCount

namespace Clock
variable {text : Bool} {k : Clock}

/-- What a scan leaves unscanned was passed since the text flashed. -/
theorem update_lag (text : Bool) (hflash : k.flash < 16) (hbehind : k.Behind) :
    (k.update text).videoFrame < (k.update text).frameLast + cyclesFrame := by
  by_cases hdirty : k.dirty = 0
  · rw [update, if_pos hdirty, skip]
    split_ifs
    · have hlt : k.videoFrame % cyclesFrame < cyclesFrame := Nat.mod_lt _ (by decide)
      simp only [endFrame]
      omega
    · simp only [cyclesFrame_eq]
      omega
  · rw [update, if_neg hdirty, rest]
    by_cases hzero : (k.after text k.count).dirty = 0
    · rw [if_pos hzero]
      simp only [cyclesFrame_eq]
      omega
    · rw [if_neg hzero]
      by_cases hflashed : text = true ∧ k.flashAt ≤ k.count
      · obtain ⟨rfl, hle⟩ := hflashed
        have hlt : k.videoFrame % cyclesFrame < cyclesFrame := Nat.mod_lt _ (by decide)
        rw [(after_flashed hflash hle).2.1]
        omega
      · have hsteady : text = true → k.count < k.flashAt := fun htext =>
          Nat.lt_of_not_le fun hle => hflashed ⟨htext, hle⟩
        have hd := after_steady hsteady
        have hall : k.count = k.gap := by
          simp only [count] at hd hzero ⊢
          omega
        rw [after_all text hbehind hall]
        simp only [cyclesFrame_eq]
        omega

/-- `video_setDirty` never moves the scanner back by a whole line. -/
theorem touch_gap_le (k : Clock) : k.touch.gap ≤ max k.gap (cyclesScanline - 1) := by
  simp only [gap, touch, cyclesScanline]
  split_ifs <;> omega

end Clock

/-! ## The clock along a run -/

/-- The cycles that are not counted yet. -/
def Scanner.pending (s : Scanner) : ℕ := s.cpu65CycleCount - s.cyclesCheckpointCount

/-- `cycles_count_total` as a call finds it. -/
def Scanner.total (s : Scanner) : ℕ := s.now.cyclesCountTotal

def Op.pending : Op → ℕ → ℕ
  | .run n, pending => pending + n
  | .reset, pending => pending
  | .setSwitches _, pending => pending
  | .store _ _ _, pending => pending
  | _, _ => 0

def Op.total (pending : ℕ) : Op → ℕ → ℕ
  | .run n, total => total + n
  | .reset, _ => pending
  | _, total => total

def Op.switches : Op → BitVec 32 → BitVec 32
  | .setSwitches softswitches, _ => softswitches
  | _, softswitches => softswitches

/-- What an operation does to the clock that the next call finds. -/
def Clock.step (text : Bool) (pending : ℕ) (k : Clock) : Op → Clock
  | .run n => { k with videoFrame := k.videoFrame + n }
  | .setDirty => k.setDirty text
  | .update => k.update text
  | .endBatch => k.update text
  | .reset => { k with frameLast := 0, videoFrame := pending, dirty := cyclesFrame }
  | _ => k

/-- What the clock of the next call depends on. -/
@[ext]
structure Situation where
  softswitches : BitVec 32
  pending : ℕ
  clock : Clock
  deriving DecidableEq

def Scanner.situation (s : Scanner) : Situation := ⟨s.softswitches, s.pending, s.time⟩

def Situation.step (a : Situation) (op : Op) : Situation where
  softswitches := op.switches a.softswitches
  pending := op.pending a.pending
  clock := a.clock.step (flashes a.softswitches) a.pending op

/-- The columns that an operation draws. -/
def Op.columns (s : Scanner) : Op → List Column
  | .setDirty => setDirtyColumns s
  | .update => updateColumns s
  | .endBatch => updateColumns s
  | _ => []

/-- The effect of a step. -/
structure Stepped (op : Op) (s t : Scanner) : Prop where
  ready : Ready t
  lag : s.Lag → t.Lag
  cpu65CycleCount : t.cpu65CycleCount = op.batchCycles s.cpu65CycleCount
  pending : t.pending = op.pending s.pending
  time : t.time = s.time.step (flashes s.softswitches) s.pending op
  total : t.total = op.total s.pending s.total
  softswitches : t.softswitches = op.switches s.softswitches
  columns : Scanning.columns t.log = Scanning.columns s.log ++ op.columns s

section Steps
variable {s : Scanner}

theorem Stepped.situation {t : Scanner} {op : Op} (h : Stepped op s t) :
    t.situation = s.situation.step op := by
  simp only [Scanner.situation, Situation.step, h.softswitches, h.pending, h.time]

theorem now_now (s : Scanner) : s.now.now = s.now := by
  simp [Scanner.now]

section Passed
variable {u : Scanner}

theorem Passed.pending (h : Passed s u) : u.pending = 0 := by
  rw [Scanner.pending, h.cyclesCheckpointCount, h.cpu65CycleCount, Nat.sub_self]

theorem Passed.now (h : Passed s u) : u.now = u := by
  have hcheck : u.cyclesCheckpointCount = u.cpu65CycleCount := by
    rw [h.cyclesCheckpointCount, h.cpu65CycleCount]
  cases u
  simp only at hcheck
  simp [Scanner.now, hcheck]

theorem Passed.time (h : Passed s u) : u.time = u.clock := by
  rw [Scanner.time, h.now]

theorem Passed.total (h : Passed s u) : u.total = s.total := by
  rw [Scanner.total, h.now, h.cyclesCountTotal]
  rfl

end Passed

theorem Ready.touch_gap (h : Ready s) (hlag : s.Lag) (hcpu : s.cpu65CycleCount < 2 ^ 31) :
    s.time.touch.gap < uintMax := by
  have hcheck := h.checkpoint
  have hle := Clock.touch_gap_le s.time
  have hgap : s.time.gap = s.cyclesVideoFrame + (s.cpu65CycleCount - s.cyclesCheckpointCount) -
      s.cyclesFrameLast := rfl
  unfold Scanner.Lag at hlag
  simp only [uintMax, cyclesFrame_eq] at hlag ⊢
  simp only [cyclesScanline] at hle
  omega

theorem Ready.of_same {t : Scanner} (h : Ready s) (hclock : t.cyclesFrameLast = s.cyclesFrameLast)
    (hdirty : t.cyclesDirty = s.cyclesDirty) (hflash : t.textFlashCounter = s.textFlashCounter)
    (hreset : t.resetScanner = s.resetScanner) (hcol : t.scancol = s.scancol)
    (hidx : t.scanidx = s.scanidx) (hvideo : s.cyclesVideoFrame ≤ t.cyclesVideoFrame)
    (hcheck : t.cyclesCheckpointCount ≤ t.cpu65CycleCount) : Ready t := by
  refine ⟨?_, hcheck, ?_, ?_, ?_, ?_, ?_⟩
  · rw [hflash]
    exact h.flash
  · rw [hclock]
    exact h.behind.trans hvideo
  · rw [hclock, hdirty]
    exact h.aligned
  · rw [hreset, hdirty, hcol, hidx]
    exact h.clean
  · rw [hreset, hdirty, Scanner.Flushed, hcol, hidx, hclock]
    exact h.flushed
  · rw [hreset, hclock, hdirty]
    exact h.fresh

theorem endBatch_eq {u : Scanner} (hu : videoScannerUpdate s = .ok u) :
    step s .endBatch = .ok { u with cpu65CycleCount := 0, cyclesCheckpointCount := 0 } := by
  rw [step, hu, ok_bind]

theorem reset_eq (s : Scanner) :
    step s .reset = .ok { s with
      cyclesCountTotal := 0
      cyclesVideoFrame := 0
      cyclesFrameLast := 0
      cyclesDirty := cyclesFrame
      resetScanner := true } := by
  simp only [step, videoScannerReset, assertThat, if_true, ok_bind]

/-- **One step.** A step that is safe succeeds, keeps the invariant, and moves the clock. -/
theorem step_ok (h : Ready s) (hgap : s.time.touch.gap < uintMax) {op : Op}
    (hsafe : op.Safe (flashes s.softswitches) s.time) :
      ∃ t, step s op = .ok t ∧ Stepped op s t := by
  have hcheck := h.checkpoint
  cases op with
  | run n =>
    have htime : s.cpu65CycleCount + n - s.cyclesCheckpointCount = s.pending + n := by
      simp only [Scanner.pending]
      omega
    refine ⟨_, rfl, h.of_same rfl rfl rfl rfl rfl rfl (Nat.le_refl _) ?_, id, rfl, htime, ?_, ?_,
      rfl, (List.append_nil _).symm⟩
    · exact hcheck.trans (Nat.le_add_right _ _)
    · simp only [Scanner.time, Scanner.now, Scanner.clock, htime]
      simp only [Clock.step, Scanner.pending, Nat.add_assoc]
    · simp only [Scanner.total, Scanner.now, htime]
      simp only [Op.total, Scanner.pending, Nat.add_assoc]
  | checkpoint =>
    refine ⟨s.now, timingCheckpointCycles_eq hcheck, ?_, ?_, rfl, ?_, ?_, ?_, rfl,
      (List.append_nil _).symm⟩
    · exact h.of_same rfl rfl rfl rfl rfl rfl (Nat.le_add_right _ _) (Nat.le_refl _)
    · intro hlag
      unfold Scanner.Lag at hlag ⊢
      simp only [Scanner.now]
      omega
    · exact Nat.sub_self _
    · rw [Scanner.time, now_now]
      rfl
    · rw [Scanner.total, now_now]
      rfl
  | setDirty =>
    obtain ⟨u, hu, hready, hclock, hpassed, hcolumns, hlast⟩ :=
      videoSetDirty_ok h hgap hsafe
    refine ⟨u, hu, hready, ?_, hpassed.cpu65CycleCount, hpassed.pending, ?_, hpassed.total,
      hpassed.softswitches, hcolumns⟩
    · intro _
      unfold Scanner.Lag
      rw [hlast, cyclesFrame_eq]
      omega
    · rw [hpassed.time, hclock]
      rfl
  | update =>
    obtain ⟨u, hu, hready, hclock, hpassed, hcolumns⟩ := videoScannerUpdate_ok h hsafe
    refine ⟨u, hu, hready, ?_, hpassed.cpu65CycleCount, hpassed.pending, ?_, hpassed.total,
      hpassed.softswitches, hcolumns⟩
    · intro _
      have hlt := Clock.update_lag (flashes s.softswitches) h.flash h.time_behind
      rw [← hclock] at hlt
      exact Nat.lt_of_lt_of_le hlt (Nat.le_add_right _ _)
    · rw [hpassed.time, hclock]
      rfl
  | setSwitches softswitches =>
    exact ⟨_, rfl, h.of_same rfl rfl rfl rfl rfl rfl (Nat.le_refl _) hcheck, id, rfl, rfl, rfl,
      rfl, rfl, (List.append_nil _).symm⟩
  | store bank addr b =>
    exact ⟨_, rfl, h.of_same rfl rfl rfl rfl rfl rfl (Nat.le_refl _) hcheck, id, rfl, rfl, rfl,
      rfl, rfl, (List.append_nil _).symm⟩
  | reset =>
    refine ⟨_, reset_eq s, ?_, ?_, rfl, rfl, ?_, ?_, rfl, (List.append_nil _).symm⟩
    · refine ⟨h.flash, hcheck, Nat.le_refl _, fun _ => ?_, ?_, ?_, fun _ => ⟨rfl, ?_⟩⟩
      · exact show (0 + cyclesFrame) % cyclesScanline = 0 by decide
      · exact fun hfalse => absurd hfalse (by simp)
      · exact fun hfalse => absurd hfalse (by simp)
      · exact show cyclesFrame ≠ 0 by decide
    · intro _
      simp only [Scanner.Lag, cyclesFrame_eq]
      omega
    · simp [Scanner.time, Scanner.now, Scanner.clock, Clock.step, Scanner.pending]
    · simp [Scanner.total, Scanner.now, Op.total, Scanner.pending]
  | endBatch =>
    obtain ⟨u, hu, hready, hclock, hpassed, hcolumns⟩ := videoScannerUpdate_ok h hsafe
    refine ⟨_, endBatch_eq hu, ?_, ?_, rfl, rfl, ?_, ?_,
      hpassed.softswitches, hcolumns⟩
    · exact hready.of_same rfl rfl rfl rfl rfl rfl (Nat.le_refl _) (Nat.le_refl _)
    · intro _
      have hlt := Clock.update_lag (flashes s.softswitches) h.flash h.time_behind
      rw [← hclock] at hlt
      show u.cyclesVideoFrame < u.cyclesFrameLast + cyclesFrame + 0
      rw [Nat.add_zero]
      exact hlt
    · show u.clock = s.time.update (flashes s.softswitches)
      exact hclock
    · show u.cyclesCountTotal = s.total
      exact hpassed.cyclesCountTotal

/-- A step that is not safe stops the program, or leaves the scanner ahead of the CPU. -/
theorem step_ahead (h : Ready s) (hgap : s.time.touch.gap < uintMax) {op : Op}
    (hfault : ¬ op.Safe (flashes s.softswitches) s.time) {t : Scanner} (ht : step s op = .ok t) :
    ¬ t.cyclesFrameLast ≤ t.cyclesVideoFrame := by
  cases op with
  | setDirty =>
    have hstop := videoSetDirty_stops h hgap hfault
    rw [step, hstop] at ht
    cases ht
  | update => exact videoScannerUpdate_ahead h hfault ht
  | endBatch =>
    obtain ⟨u, hu, hut⟩ := bind_eq_ok.mp ht
    have hahead := videoScannerUpdate_ahead h hfault hu
    cases hut
    exact hahead
  | run n => exact absurd trivial hfault
  | checkpoint => exact absurd trivial hfault
  | setSwitches softswitches => exact absurd trivial hfault
  | store bank addr b => exact absurd trivial hfault
  | reset => exact absurd trivial hfault

end Steps

theorem start_ready (softswitches : BitVec 32) (appleIi64k : ℕ → UInt16 → UInt8) :
    Ready (start softswitches appleIi64k) := by
  refine ⟨show 0 < 16 by decide, Nat.le_refl _, Nat.le_refl _, fun _ => ?_, ?_, ?_,
    fun _ => ⟨rfl, ?_⟩⟩
  · exact show (0 + cyclesFrame) % cyclesScanline = 0 by decide
  · exact fun hfalse => absurd hfalse (by simp [start])
  · exact fun hfalse => absurd hfalse (by simp [start])
  · exact show cyclesFrame ≠ 0 by decide

end Apple2ix.Video.Scanning
