import Apple2ix.Video.ScanLoop

/-! The calls of the scanner in terms of its clock: when their assertions hold, where they leave
the counters, and which columns they draw. -/
namespace Apple2ix.Video.Scanning
open Vm Loops
set_option autoImplicit false

/-! ## The clock over a call -/

namespace Clock

/-- The cycles that passed and were not scanned. -/
def gap (k : Clock) : ℕ := k.videoFrame - k.frameLast

/-- The cycles that a call scans. -/
def count (k : Clock) : ℕ := min k.gap k.dirty

/-- Nothing is dirty: the scanner skips to the current cycle. -/
def rest (k : Clock) : Clock := if k.dirty = 0 then { k with frameLast := k.videoFrame } else k

/-- The idle path. -/
def skip (text : Bool) (k : Clock) : Clock :=
  if cyclesFrame ≤ k.videoFrame then { k with frameLast := k.videoFrame }.endFrame text
  else { k with frameLast := k.videoFrame }

/-- A call of `video_scannerUpdate`. -/
def update (text : Bool) (k : Clock) : Clock :=
  if k.dirty = 0 then k.skip text else (k.after text k.count).rest

/-- Where the text flashes inside the scan, what is left to scan is a frame, or no more than the
cycles passed since, of which whole frames do not count. -/
def Safe (text : Bool) (k : Clock) : Prop :=
  text = true → k.flashAt ≤ k.count →
    k.count - k.flashAt = cyclesFrame ∨ k.count - k.flashAt ≤ (k.gap - k.flashAt) % cyclesFrame

instance decidableSafe (text : Bool) (k : Clock) : Decidable (k.Safe text) :=
  inferInstanceAs (Decidable (text = true → k.flashAt ≤ k.count →
    k.count - k.flashAt = cyclesFrame ∨ k.count - k.flashAt ≤ (k.gap - k.flashAt) % cyclesFrame))

/-- The scanner is not ahead of the CPU. -/
def Behind (k : Clock) : Prop := k.frameLast ≤ k.videoFrame

variable {text : Bool} {k : Clock}

theorem flashAt_pos (k : Clock) : 0 < k.flashAt := by
  have hlt : k.frameLast % 17030 < 17030 := Nat.mod_lt _ (by decide)
  simp only [flashAt, cyclesFrame_eq]
  omega

/-- Behind the frame in which the text flashed the scan starts over. -/
theorem after_flashed (hflash : k.flash < 16) {n : ℕ} (hn : k.flashAt ≤ n) :
    (k.after true n).frameLast = (n - k.flashAt) % cyclesFrame ∧
      (k.after true n).videoFrame = k.videoFrame % cyclesFrame ∧
      (k.after true n).dirty = cyclesFrame - (n - k.flashAt) := by
  have hlt : k.frameLast % 17030 < 17030 := Nat.mod_lt _ (by decide)
  have hended : k.ended n ≠ 0 := by
    simp only [flashAt, ended, cyclesFrame_eq] at hn ⊢
    omega
  refine ⟨?_, ?_, ?_⟩
  · simp only [after, hended, if_false]
    simp only [flashAt, cyclesFrame_eq] at hn ⊢
    omega
  · simp only [after, hended, if_false]
  · simp only [after, hn, and_self, if_true]

/-- Without a flash the scan goes on through the frames. -/
theorem after_steady {n : ℕ} (hn : text = true → n < k.flashAt) :
    (k.after text n).dirty = k.dirty - n := by
  simp only [after]
  rw [if_neg]
  rintro ⟨htext, hle⟩
  exact absurd (hn htext) (Nat.not_lt.mpr hle)

/-- **When a call is safe**: its loop stays within what is dirty, and leaves the scanner behind the
CPU, exactly when the clock is safe. -/
theorem safe_iff (hflash : k.flash < 16) (hbehind : k.Behind) (hdirty : k.dirty ≠ 0) :
    k.CanScan text k.count ∧ (k.update text).Behind ↔ k.Safe text := by
  have hgap : k.videoFrame = k.frameLast + k.gap := by
    simp only [gap]
    have := hbehind
    unfold Behind at this
    omega
  have hcount : k.count ≤ k.gap ∧ k.count ≤ k.dirty :=
    ⟨Nat.min_le_left _ _, Nat.min_le_right _ _⟩
  by_cases hflashed : text = true ∧ k.flashAt ≤ k.count
  · obtain ⟨rfl, hle⟩ := hflashed
    have hpos : (k.frameLast % cyclesFrame + k.flashAt) % cyclesFrame = 0 := by
      have hlt : k.frameLast % 17030 < 17030 := Nat.mod_lt _ (by decide)
      simp only [flashAt, cyclesFrame_eq]
      omega
    have hvideo : k.videoFrame % cyclesFrame = (k.gap - k.flashAt) % cyclesFrame := by
      rw [hgap]
      simp only [cyclesFrame_eq] at hpos ⊢
      omega
    constructor
    · rintro ⟨hcan, hafter⟩ - -
      obtain ⟨hlast, hvf, hd⟩ := after_flashed hflash hle
      have hmost := hcan.2 rfl
      by_cases hfull : k.count - k.flashAt = cyclesFrame
      · exact Or.inl hfull
      · right
        have hopen : (k.after true k.count).dirty ≠ 0 := by omega
        rw [update, if_neg hdirty, rest, if_neg hopen] at hafter
        unfold Behind at hafter
        rw [hlast, hvf, hvideo, Nat.mod_eq_of_lt (by omega)] at hafter
        exact hafter
    · intro hsafe
      have hsafe := hsafe rfl hle
      have hmod : (k.gap - k.flashAt) % cyclesFrame < cyclesFrame := Nat.mod_lt _ (by decide)
      have hcan : k.CanScan true k.count := ⟨hcount.2, fun _ => by omega⟩
      refine ⟨hcan, ?_⟩
      obtain ⟨hlast, hvf, hd⟩ := after_flashed hflash hle
      rw [update, if_neg hdirty, rest]
      split_ifs with hzero
      · exact Nat.le_refl _
      · unfold Behind
        rw [hlast, hvf, hvideo, Nat.mod_eq_of_lt (by omega)]
        omega
  · have hsteady : text = true → k.count < k.flashAt := fun htext =>
      Nat.lt_of_not_le fun hle => hflashed ⟨htext, hle⟩
    refine iff_of_true ⟨⟨hcount.2, fun htext => ?_⟩, ?_⟩ fun htext hle =>
      absurd ⟨htext, hle⟩ hflashed
    · have hlt := hsteady htext
      omega
    · have hd := after_steady hsteady
      rw [update, if_neg hdirty, rest]
      split_ifs with hzero
      · exact Nat.le_refl _
      · have hall : k.count = k.gap := by
          simp only [count] at hd hzero hcount ⊢
          omega
        unfold Behind
        simp only [after, hall]
        rw [hgap]
        split_ifs
        · exact Nat.le_refl _
        · rw [Nat.mod_add_mod]

/-- Lines end where the frames end. -/
theorem after_frameLast_scanline (text : Bool) (k : Clock) (n : ℕ) :
    (k.after text n).frameLast % cyclesScanline = (k.frameLast + n) % cyclesScanline := by
  have hmod := after_frameLast_mod text k n
  rw [cyclesFrame_eq] at hmod
  simp only [cyclesScanline]
  omega

/-- A scan keeps the end of what is dirty at the end of a line. -/
theorem after_scanline (hflash : k.flash < 16) {n : ℕ} (hcan : k.CanScan text n)
    (haligned : (k.frameLast + k.dirty) % cyclesScanline = 0 ∨ n < k.dirty ∧
      (k.after text n).dirty = 0) :
    ((k.after text n).frameLast + (k.after text n).dirty) % cyclesScanline = 0 := by
  by_cases hflashed : text = true ∧ k.flashAt ≤ n
  · obtain ⟨rfl, hle⟩ := hflashed
    obtain ⟨hlast, -, hd⟩ := after_flashed hflash hle
    have hmost := hcan.2 rfl
    rw [hlast, hd]
    simp only [cyclesFrame_eq, cyclesScanline] at hmost ⊢
    omega
  · have hsteady : text = true → n < k.flashAt := fun htext =>
      Nat.lt_of_not_le fun hle => hflashed ⟨htext, hle⟩
    have hd := after_steady hsteady
    have hlast := after_frameLast_scanline text k n
    have hn := hcan.1
    rcases haligned with haligned | ⟨hlt, hzero⟩
    · rw [hd]
      simp only [cyclesScanline] at haligned hlast ⊢
      omega
    · omega

/-- A scan of all the cycles that passed comes to the current one. -/
theorem after_all (text : Bool) (hbehind : k.Behind) (hall : k.count = k.gap) :
    (k.after text k.count).frameLast = (k.after text k.count).videoFrame := by
  have hgap : k.videoFrame = k.frameLast + k.gap := by
    unfold Behind at hbehind
    simp only [gap]
    omega
  simp only [after, hall]
  rw [hgap]
  split_ifs
  · rfl
  · rw [Nat.mod_add_mod]

@[simp] theorem rest_dirty (k : Clock) : k.rest.dirty = k.dirty := by
  unfold rest
  split_ifs <;> rfl

theorem rest_after_flash (text : Bool) (k : Clock) (n : ℕ) : (k.after text n).rest.flash < 16 := by
  unfold rest
  split_ifs <;> exact Nat.mod_lt _ (by decide)

theorem skip_flash (hflash : k.flash < 16) : (k.skip text).flash < 16 := by
  unfold skip
  split_ifs
  · exact Nat.mod_lt _ (by decide)
  · exact hflash

theorem skip_behind (text : Bool) (k : Clock) : (k.skip text).Behind := by
  unfold skip Behind
  split_ifs
  · simp only [endFrame]
    split_ifs
    · exact Nat.zero_le _
    · exact Nat.le_refl _
  · exact Nat.le_refl _

/-- Only flashing text ends a rest. -/
theorem skip_dirty (hidle : k.dirty = 0) (hne : (k.skip text).dirty ≠ 0) :
    (k.skip text).frameLast = 0 ∧ (k.skip text).dirty = cyclesFrame := by
  unfold skip at *
  split_ifs at *
  · simp only [endFrame] at *
    split_ifs at *
    · exact ⟨rfl, rfl⟩
    · exact absurd hidle hne
  · exact absurd hidle hne

/-- `video_setDirty` finds the beam at the start of the current line when it was idle, and lets it
catch up. -/
def touch (k : Clock) : Clock :=
  { k with
    frameLast :=
      if k.dirty = 0 then k.videoFrame - k.videoFrame % cyclesScanline else k.frameLast
    dirty := uintMax }

/-- A call of `video_setDirty`. -/
def setDirty (text : Bool) (k : Clock) : Clock :=
  let k := (k.touch.after text k.touch.count).rest
  { k with dirty := cyclesFrame + rowRest k.frameLast }

theorem touch_behind (h : k.Behind) : k.touch.Behind := by
  unfold Behind touch at *
  split_ifs <;> simp only <;> omega

theorem touch_count (h : k.touch.gap < uintMax) : k.touch.count = k.touch.gap :=
  Nat.min_eq_left (Nat.le_of_lt h)

/-- A scan that catches up is safe when its loop is. -/
theorem safe_touch_iff (h : k.touch.gap < uintMax) :
    k.touch.Safe text ↔ k.touch.CanScan text k.touch.count := by
  have hcount := touch_count h
  have hdirty : k.touch.dirty = uintMax := rfl
  unfold Safe CanScan
  rw [hcount, hdirty]
  constructor
  · intro hsafe
    refine ⟨Nat.le_of_lt h, fun htext => ?_⟩
    by_cases hle : k.touch.flashAt ≤ k.touch.gap
    · have hmod := Nat.mod_lt (k.touch.gap - k.touch.flashAt) (show 0 < cyclesFrame by decide)
      have hs := hsafe htext hle
      omega
    · omega
  · rintro ⟨-, hcan⟩ htext hle
    have hmost := hcan htext
    by_cases hfull : k.touch.gap - k.touch.flashAt = cyclesFrame
    · exact Or.inl hfull
    · exact Or.inr (Nat.le_of_eq (Nat.mod_eq_of_lt (by omega)).symm)

end Clock

/-! ## Calls -/

section Calls
variable {s : Scanner}

/-- The scanner as a call finds it once the cycles are counted. -/
def Scanner.now (s : Scanner) : Scanner :=
  let d := s.cpu65CycleCount - s.cyclesCheckpointCount
  { s with
    cyclesVideoFrame := s.cyclesVideoFrame + d
    cyclesCountTotal := s.cyclesCountTotal + d
    cyclesCheckpointCount := s.cpu65CycleCount }

theorem timingCheckpointCycles_eq (h : s.cyclesCheckpointCount ≤ s.cpu65CycleCount) :
    timingCheckpointCycles s = .ok s.now := by
  rw [timingCheckpointCycles, assertThat_true h, ok_bind]
  rfl

/-- The columns of the current line that were flushed are those before the position. -/
def Scanner.Flushed (s : Scanner) : Prop :=
  s.scancol = columnsBefore s.cyclesFrameLast ∧ s.scanidx = 0

theorem Scanner.Flushed.aligned (h : s.Flushed) :
    (⟨s, s.cyclesFrameLast % cyclesScanline, (s.cyclesFrameLast / cyclesScanline) % scanlinesFrame,
      currentMode s.softswitches ((s.cyclesFrameLast / cyclesScanline) % scanlinesFrame)⟩ :
        Beam).Aligned := by
  refine ⟨rfl, rfl, rfl, ?_⟩
  show s.scancol + s.scanidx = columnsBefore s.cyclesFrameLast
  rw [h.1, h.2, Nat.add_zero]

theorem flushPart_ok {t : Beam} (h : t.Aligned) :
    ∃ log, flushPart t = .ok { t.s with
        scancol := columnsBefore t.s.cyclesFrameLast, scanidx := 0, log := log } ∧
      columns log = t.columns ∧ frames log = frames t.s.log := by
  have hseen := h.seen
  have hlt := columnsBefore_lt t.s.cyclesFrameLast
  by_cases hopen : 0 < t.s.scanidx ∧ t.vCount < scanlinesVblBegin
  · have hpart : t.s.scancol + t.s.scanidx < cyclesVis := by omega
    simp only [flushPart, if_pos hopen, assertThat_true hpart, ok_bind]
    refine ⟨t.s.log ++ [.flushScanline ⟨t.s.scanline, t.s.softswitches, t.vCount, t.s.scancol,
      t.s.scancol + t.s.scanidx⟩], ?_, ?_, ?_⟩
    · rw [hseen]
      rfl
    · simp [Beam.columns, Output.columns, ScanData.columns]
    · simp [isFrameCallbacks]
  · have hzero : t.s.scanidx = 0 := by
      by_contra hne
      have hvbl : ¬ t.vCount < scanlinesVblBegin := fun hv => hopen ⟨Nat.pos_of_ne_zero hne, hv⟩
      rw [h.vCount] at hvbl
      rw [columnsBefore, if_neg hvbl] at hseen
      omega
    simp only [flushPart, if_neg hopen]
    refine ⟨t.s.log, ?_, ?_, rfl⟩
    · rw [← hseen, hzero, Nat.add_zero, ← hzero]
    · simp [Beam.columns, hzero, bufferColumns]

theorem settle_ok {t : Beam} (h : t.Aligned)
    (hrest : t.s.cyclesDirty = 0 → columnsBefore t.s.cyclesFrameLast = 0) :
    ∃ u, settle t = .ok u ∧ u.clock = t.s.clock.rest ∧ Kept t.s u ∧ columns u.log = t.columns ∧
      u.scancol = columnsBefore t.s.cyclesFrameLast ∧ u.scanidx = 0 := by
  obtain ⟨log, hflush, hcolumns, hframes⟩ := flushPart_ok h
  by_cases hzero : t.s.cyclesDirty = 0
  · have hcol := hrest hzero
    simp only [settle, hflush, ok_bind, hzero, if_true, assertThat_true hcol]
    refine ⟨_, rfl, ?_, ⟨rfl, rfl, rfl, rfl, rfl, rfl⟩, ?_, rfl, rfl⟩
    · simp [Clock.rest, Scanner.clock, Scanner.call, hzero, hframes, isFrameCallbacks]
    · simp [Scanner.call, Output.columns, hcolumns]
  · simp only [settle, hflush, ok_bind, hzero, if_false]
    refine ⟨_, rfl, ?_, ⟨rfl, rfl, rfl, rfl, rfl, rfl⟩, hcolumns, rfl, rfl⟩
    simp [Clock.rest, Scanner.clock, hzero, hframes]

theorem scan_eq (hbehind : s.cyclesFrameLast ≤ s.cyclesVideoFrame) :
    scan s = forUpM s.clock.count (fun _ => scanCycle (videoCurrentPage s.softswitches))
      ⟨s, s.cyclesFrameLast % cyclesScanline, (s.cyclesFrameLast / cyclesScanline) % scanlinesFrame,
        currentMode s.softswitches ((s.cyclesFrameLast / cyclesScanline) % scanlinesFrame)⟩ := by
  have hcount : (if s.cyclesVideoFrame - s.cyclesFrameLast ≤ s.cyclesDirty then
      s.cyclesVideoFrame - s.cyclesFrameLast else s.cyclesDirty) = s.clock.count := by
    simp only [Clock.count, Clock.gap, Scanner.clock]
    split_ifs <;> omega
  simp only [scan, assertThat_true hbehind, ok_bind, hcount]

/-- What a call leaves behind. -/
structure Called (s u : Scanner) (drawn : List Column) : Prop where
  kept : Kept s u
  drawn : columns u.log = columns s.log ++ drawn

/-- The columns that a call draws that scans `n` cycles from `pos` on. -/
def drawnFrom (s : Scanner) (pos n : ℕ) : List Column :=
  (List.range n).flatMap fun i => (scanColumn s.softswitches s.appleIi64k (pos + i)).toList

/-- **The scan and what follows it.** -/
theorem scan_settle_ok (hflash : s.textFlashCounter < 16) (hflushed : s.Flushed)
    (hbehind : s.cyclesFrameLast ≤ s.cyclesVideoFrame)
    (hcan : s.clock.CanScan (flashes s.softswitches) s.clock.count)
    (hrest : (s.clock.after (flashes s.softswitches) s.clock.count).dirty = 0 →
      (s.clock.after (flashes s.softswitches) s.clock.count).frameLast % cyclesScanline = 0) :
    ∃ u, (scan s >>= settle) = .ok u ∧
      u.clock = (s.clock.after (flashes s.softswitches) s.clock.count).rest ∧
      Called s u (drawnFrom s s.cyclesFrameLast s.clock.count) ∧ u.scanidx = 0 ∧
      u.scancol =
        columnsBefore (s.clock.after (flashes s.softswitches) s.clock.count).frameLast := by
  rw [scan_eq hbehind]
  obtain ⟨t, ht, htaligned, hclock, hkept, hcolumns⟩ :=
    scanCycles_ok hflushed.aligned hflash s.clock.count hcan
  have hlast : t.s.cyclesFrameLast =
      (s.clock.after (flashes s.softswitches) s.clock.count).frameLast :=
    congrArg Clock.frameLast hclock
  have hdirty : t.s.cyclesDirty = (s.clock.after (flashes s.softswitches) s.clock.count).dirty :=
    congrArg Clock.dirty hclock
  have hend : t.s.cyclesDirty = 0 → columnsBefore t.s.cyclesFrameLast = 0 := by
    intro hzero
    rw [hdirty] at hzero
    rw [hlast, columnsBefore, hrest hzero]
    simp
  obtain ⟨u, hu, huclock, hukept, hucolumns, huscancol, huscanidx⟩ := settle_ok htaligned hend
  refine ⟨u, ?_, ?_, ⟨hkept.trans hukept, ?_⟩, huscanidx, ?_⟩
  · rw [ht, ok_bind]
    exact hu
  · rw [huclock, hclock]
  · rw [hucolumns, hcolumns]
    simp only [Beam.columns, hflushed.2, bufferColumns, List.range_zero, List.map_nil,
      List.append_nil]
    rfl
  · rw [huscancol, hlast]

end Calls

end Apple2ix.Video.Scanning
