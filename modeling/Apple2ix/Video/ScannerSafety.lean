import Apple2ix.Video.ScannerCalls

/-! When the assertions of the video scanner hold. -/
namespace Apple2ix.Video.Scanning
open Vm Loops Runs
set_option autoImplicit false

/-! ## The invariant -/

/-- **The scanner between two calls.** It is not ahead of the CPU, what is dirty ends with a line,
and the columns before its position are flushed; after a reset they will be forgotten. -/
structure Ready (s : Scanner) : Prop where
  flash : s.textFlashCounter < 16
  checkpoint : s.cyclesCheckpointCount ≤ s.cpu65CycleCount
  behind : s.cyclesFrameLast ≤ s.cyclesVideoFrame
  aligned : s.cyclesDirty ≠ 0 → (s.cyclesFrameLast + s.cyclesDirty) % cyclesScanline = 0
  clean : s.resetScanner = false → s.cyclesDirty = 0 → s.scancol = 0 ∧ s.scanidx = 0
  flushed : s.resetScanner = false → s.cyclesDirty ≠ 0 → s.Flushed
  fresh : s.resetScanner = true → s.cyclesFrameLast = 0 ∧ s.cyclesDirty ≠ 0

/-- The scanner as a call finds it. -/
def Scanner.entered (s : Scanner) : Scanner :=
  if s.resetScanner then { s.now with resetScanner := false, scancol := 0, scanidx := 0 } else s.now

/-- The clock that a call finds. -/
def Scanner.time (s : Scanner) : Clock := s.now.clock

section Calls
variable {s : Scanner}

theorem videoScannerUpdate_eq (h : s.cyclesCheckpointCount ≤ s.cpu65CycleCount) :
    videoScannerUpdate s =
      if s.cyclesDirty = 0 then idle s.entered else scan s.entered >>= settle := by
  cases hreset : s.resetScanner <;>
    simp only [videoScannerUpdate, Scanner.entered, hreset, if_true, Bool.false_eq_true, if_false,
      timingCheckpointCycles_eq h, ok_bind]
  · rfl
  · rw [timingCheckpointCycles_eq (by exact h), ok_bind]
    rfl

theorem entered_clock (s : Scanner) : s.entered.clock = s.time := by
  cases hreset : s.resetScanner <;> simp [Scanner.entered, Scanner.time, hreset, Scanner.clock]

theorem entered_kept (s : Scanner) :
    s.entered.softswitches = s.softswitches ∧ s.entered.appleIi64k = s.appleIi64k ∧
      s.entered.log = s.log ∧ s.entered.resetScanner = false ∧
      s.entered.cpu65CycleCount = s.cpu65CycleCount ∧
      s.entered.cyclesCheckpointCount = s.cpu65CycleCount ∧
      s.entered.cyclesCountTotal = s.now.cyclesCountTotal := by
  cases hreset : s.resetScanner <;> simp [Scanner.entered, Scanner.now, hreset]

/-- What every call leaves as it was, with the cycles counted. -/
structure Passed (s u : Scanner) : Prop where
  cpu65CycleCount : u.cpu65CycleCount = s.cpu65CycleCount
  cyclesCheckpointCount : u.cyclesCheckpointCount = s.cpu65CycleCount
  cyclesCountTotal : u.cyclesCountTotal = s.now.cyclesCountTotal
  resetScanner : u.resetScanner = false
  softswitches : u.softswitches = s.softswitches
  appleIi64k : u.appleIi64k = s.appleIi64k

theorem Kept.passed {u : Scanner} (h : Kept s.entered u) : Passed s u := by
  obtain ⟨hsw, hmem, -, hreset, hcpu, hcheck, htotal⟩ := entered_kept s
  exact ⟨h.cpu65CycleCount.trans hcpu, h.cyclesCheckpointCount.trans hcheck,
    h.cyclesCountTotal.trans htotal, h.resetScanner.trans hreset, h.softswitches.trans hsw,
    h.appleIi64k.trans hmem⟩

theorem idle_ok (s : Scanner) :
    ∃ u, idle s = .ok u ∧ u.clock = s.clock.skip (flashes s.softswitches) ∧ Kept s u ∧
      columns u.log = columns s.log ∧ u.scancol = s.scancol ∧ u.scanidx = s.scanidx := by
  by_cases hlong : cyclesFrame ≤ s.cyclesVideoFrame
  · obtain ⟨u, hu, hclock, hkept, hcolumns, -, hscancol, hscanidx⟩ :=
      endOfFrame_ok { s with cyclesFrameLast := s.cyclesVideoFrame } hlong
    have hlt : u.cyclesVideoFrame < cyclesFrame := by
      have hvideo : u.cyclesVideoFrame = _ := congrArg Clock.videoFrame hclock
      rw [hvideo]
      exact Nat.mod_lt _ (by decide)
    refine ⟨u, ?_, ?_, ⟨hkept.1, hkept.2, hkept.3, hkept.4, hkept.5, hkept.6⟩, hcolumns, hscancol,
      hscanidx⟩
    · simp only [idle, if_pos hlong, hu, ok_bind, assertThat_true hlt]
    · rw [hclock, Clock.skip, if_pos (show cyclesFrame ≤ s.clock.videoFrame from hlong)]
      rfl
  · have hlt : s.cyclesVideoFrame < cyclesFrame := Nat.lt_of_not_le hlong
    refine ⟨{ s with cyclesFrameLast := s.cyclesVideoFrame }, ?_, ?_,
      ⟨rfl, rfl, rfl, rfl, rfl, rfl⟩, rfl, rfl, rfl⟩
    · simp only [idle, if_neg hlong, assertThat_true hlt, ok_bind]
    · rw [Clock.skip, if_neg (show ¬ cyclesFrame ≤ s.clock.videoFrame from hlong)]
      rfl

theorem Ready.time_behind (h : Ready s) : s.time.Behind := by
  have hbehind := h.behind
  simp only [Clock.Behind, Scanner.time, Scanner.clock, Scanner.now]
  omega

theorem Ready.entered_flushed (h : Ready s) (hdirty : s.cyclesDirty ≠ 0) : s.entered.Flushed := by
  cases hreset : s.resetScanner with
  | false =>
    have hflushed := h.flushed hreset hdirty
    simp only [Scanner.entered, hreset, Bool.false_eq_true, if_false]
    exact hflushed
  | true =>
    have hzero := (h.fresh hreset).1
    have hlast : s.entered.cyclesFrameLast = 0 := by
      simp [Scanner.entered, hreset, Scanner.now, hzero]
    refine ⟨?_, ?_⟩
    · rw [hlast]
      simp [Scanner.entered, hreset, columnsBefore]
    · simp [Scanner.entered, hreset]

/-- A call that scans. -/
theorem videoScannerUpdate_scan (hcheck : s.cyclesCheckpointCount ≤ s.cpu65CycleCount)
    (hflash : s.textFlashCounter < 16) (hflushed : s.entered.Flushed) (hbehind : s.time.Behind)
    (hdirty : s.cyclesDirty ≠ 0) (hcan : s.time.CanScan (flashes s.softswitches) s.time.count)
    (hline : (s.time.frameLast + s.time.dirty) % cyclesScanline = 0 ∨
      s.time.count < s.time.dirty) :
    ∃ u, videoScannerUpdate s = .ok u ∧
      u.clock = (s.time.after (flashes s.softswitches) s.time.count).rest ∧ Passed s u ∧
      columns u.log = columns s.log ++ drawnFrom s s.cyclesFrameLast s.time.count ∧
      u.scanidx = 0 ∧ u.scancol =
        columnsBefore (s.time.after (flashes s.softswitches) s.time.count).frameLast ∧
      (u.cyclesDirty = 0 → u.scancol = 0) := by
  obtain ⟨hsw, hmem, hlog, -, -, -, -⟩ := entered_kept s
  have htime := entered_clock s
  have hlast : s.entered.cyclesFrameLast = s.cyclesFrameLast := congrArg Clock.frameLast htime
  have hf : s.entered.textFlashCounter = s.textFlashCounter := congrArg Clock.flash htime
  have hrest : (s.time.after (flashes s.softswitches) s.time.count).dirty = 0 →
      (s.time.after (flashes s.softswitches) s.time.count).frameLast % cyclesScanline = 0 := by
    intro hzero
    have hend := Clock.after_scanline hflash hcan (hline.imp_right fun hlt => ⟨hlt, hzero⟩)
    rwa [hzero, Nat.add_zero] at hend
  rw [videoScannerUpdate_eq hcheck, if_neg hdirty]
  obtain ⟨u, hu, hclock, hcalled, hscanidx, hscancol⟩ := scan_settle_ok (s := s.entered)
    (by rw [hf]; exact hflash) hflushed (by rwa [← htime] at hbehind)
    (by rw [htime, hsw]; exact hcan) (by rw [htime, hsw]; exact hrest)
  rw [htime, hsw] at hclock hscancol
  refine ⟨u, hu, hclock, hcalled.kept.passed, ?_, hscanidx, hscancol, ?_⟩
  · rw [hcalled.drawn, hlog]
    simp only [drawnFrom, hsw, hmem, htime, hlast]
  · intro hzero
    have hd : u.cyclesDirty = _ := congrArg Clock.dirty hclock
    rw [hd, Clock.rest_dirty] at hzero
    rw [hscancol, columnsBefore, hrest hzero]
    simp

/-- Where the loop cannot scan all the cycles, it stops at its assertion. -/
theorem videoScannerUpdate_stops (hcheck : s.cyclesCheckpointCount ≤ s.cpu65CycleCount)
    (hflash : s.textFlashCounter < 16) (hflushed : s.entered.Flushed) (hbehind : s.time.Behind)
    (hdirty : s.cyclesDirty ≠ 0) (hcan : ¬ s.time.CanScan (flashes s.softswitches) s.time.count) :
    videoScannerUpdate s = .error .assertion := by
  obtain ⟨hsw, -, -, -, -, -, -⟩ := entered_kept s
  have htime := entered_clock s
  have hf : s.entered.textFlashCounter = s.textFlashCounter := congrArg Clock.flash htime
  have hle : s.time.count ≤ s.time.dirty := Nat.min_le_right _ _
  have hlong : flashes s.softswitches = true ∧ s.time.flashAt + cyclesFrame < s.time.count := by
    by_contra hshort
    exact hcan ⟨hle, fun htext => Nat.le_of_not_lt fun hlt => hshort ⟨htext, hlt⟩⟩
  rw [videoScannerUpdate_eq hcheck, if_neg hdirty, scan_eq (by rwa [← htime] at hbehind), htime]
  have hstop := scanCycles_fail hflushed.aligned (by rw [hf]; exact hflash) (n := s.time.count)
    (by rw [hsw]; exact hlong.1)
    (by
      have hd : s.entered.cyclesDirty = s.time.dirty := congrArg Clock.dirty htime
      rw [hd]
      exact hle)
    (by rw [htime]; exact hlong.2)
  rw [hstop, error_bind]

/-- The columns that `video_scannerUpdate` draws. -/
def updateColumns (s : Scanner) : List Column :=
  if s.cyclesDirty = 0 then [] else drawnFrom s s.cyclesFrameLast s.time.count

/-- **`video_scannerUpdate`**, where its clock is safe. -/
theorem videoScannerUpdate_ok (h : Ready s) (hsafe : s.time.Safe (flashes s.softswitches)) :
    ∃ u, videoScannerUpdate s = .ok u ∧ Ready u ∧
      u.clock = s.time.update (flashes s.softswitches) ∧ Passed s u ∧
      columns u.log = columns s.log ++ updateColumns s := by
  obtain ⟨hsw, hmem, hlog, -, -, -, -⟩ := entered_kept s
  have htime := entered_clock s
  by_cases hdirty : s.cyclesDirty = 0
  · have hidle : s.time.dirty = 0 := hdirty
    rw [videoScannerUpdate_eq h.checkpoint, if_pos hdirty]
    have hreset : s.resetScanner = false := by
      cases hreset : s.resetScanner with
      | false => rfl
      | true => exact absurd hdirty (h.fresh hreset).2
    have hclean : s.entered.scancol = 0 ∧ s.entered.scanidx = 0 := by
      have hc := h.clean hreset hdirty
      simpa [Scanner.entered, hreset, Scanner.now] using hc
    obtain ⟨u, hu, hclock, hkept, hcolumns, hscancol, hscanidx⟩ := idle_ok s.entered
    rw [htime, hsw] at hclock
    have hpassed := hkept.passed
    have hflash : u.textFlashCounter = (s.time.skip (flashes s.softswitches)).flash :=
      congrArg Clock.flash hclock
    have hopen : u.cyclesDirty ≠ 0 → u.cyclesFrameLast = 0 ∧ u.cyclesDirty = cyclesFrame := by
      intro hne
      have hd : u.cyclesDirty = _ := congrArg Clock.dirty hclock
      have hl : u.cyclesFrameLast = _ := congrArg Clock.frameLast hclock
      rw [hd] at hne ⊢
      rw [hl]
      exact Clock.skip_dirty hidle hne
    refine ⟨u, hu, ⟨?_, ?_, ?_, ?_, ?_, ?_, ?_⟩, ?_, hpassed, ?_⟩
    · rw [hflash]
      exact Clock.skip_flash h.flash
    · rw [hpassed.cyclesCheckpointCount, hpassed.cpu65CycleCount]
    · have hbehind := Clock.skip_behind (flashes s.softswitches) s.time
      rwa [← hclock] at hbehind
    · intro hne
      obtain ⟨hl, hd⟩ := hopen hne
      rw [hl, hd]
      rfl
    · exact fun _ _ => ⟨hscancol.trans hclean.1, hscanidx.trans hclean.2⟩
    · intro _ hne
      refine ⟨?_, hscanidx.trans hclean.2⟩
      rw [(hopen hne).1, hscancol, hclean.1]
      rfl
    · intro htrue
      rw [hpassed.resetScanner] at htrue
      cases htrue
    · rw [hclock, Clock.update, if_pos hidle]
    · rw [hcolumns, hlog, updateColumns, if_pos hdirty, List.append_nil]
  · have hopen : s.time.dirty ≠ 0 := hdirty
    obtain ⟨hcan, hafter⟩ := (Clock.safe_iff h.flash h.time_behind hopen).mpr hsafe
    have haligned : (s.time.frameLast + s.time.dirty) % cyclesScanline = 0 := h.aligned hdirty
    have hline := Clock.after_scanline h.flash hcan (Or.inl haligned)
    obtain ⟨u, hu, hclock, hpassed, hcolumns, hscanidx, hscancol, hclean⟩ := videoScannerUpdate_scan
      h.checkpoint h.flash (h.entered_flushed hdirty) h.time_behind hdirty hcan (Or.inl haligned)
    have hupdate : u.clock = s.time.update (flashes s.softswitches) := by
      rw [hclock, Clock.update, if_neg hopen]
    have hu_dirty : u.cyclesDirty =
        (s.time.after (flashes s.softswitches) s.time.count).rest.dirty :=
      congrArg Clock.dirty hclock
    have hu_last : u.cyclesFrameLast =
        (s.time.after (flashes s.softswitches) s.time.count).rest.frameLast :=
      congrArg Clock.frameLast hclock
    rw [Clock.rest_dirty] at hu_dirty
    refine ⟨u, hu, ⟨?_, ?_, ?_, ?_, ?_, ?_, ?_⟩, hupdate, hpassed, ?_⟩
    · have hflash : u.textFlashCounter = _ := congrArg Clock.flash hclock
      rw [hflash]
      exact Clock.rest_after_flash _ _ _
    · rw [hpassed.cyclesCheckpointCount, hpassed.cpu65CycleCount]
    · rwa [← hupdate] at hafter
    · intro hne
      rw [hu_dirty] at hne
      rw [hu_last, hu_dirty, Clock.rest, if_neg hne]
      exact hline
    · exact fun _ hzero => ⟨hclean hzero, hscanidx⟩
    · intro _ hne
      rw [hu_dirty] at hne
      refine ⟨?_, hscanidx⟩
      rw [hscancol, hu_last, Clock.rest, if_neg hne]
    · intro htrue
      rw [hpassed.resetScanner] at htrue
      cases htrue
    · rw [hcolumns, updateColumns, if_neg hdirty]

/-- The loop of a scan that is not safe stops, or runs past the cycles of the CPU. -/
theorem videoScannerUpdate_ahead (h : Ready s) (hfault : ¬ s.time.Safe (flashes s.softswitches))
    {u : Scanner} (hu : videoScannerUpdate s = .ok u) :
      ¬ u.cyclesFrameLast ≤ u.cyclesVideoFrame := by
  have hopen : s.time.dirty ≠ 0 := by
    intro hzero
    refine hfault fun _ hle => ?_
    have hpos := Clock.flashAt_pos s.time
    simp only [Clock.count, hzero, Nat.min_zero] at hle
    omega
  by_cases hcan : s.time.CanScan (flashes s.softswitches) s.time.count
  · intro hbehind
    have haligned : (s.time.frameLast + s.time.dirty) % cyclesScanline = 0 := h.aligned hopen
    obtain ⟨v, hv, hclock, -, -, -, -, -⟩ := videoScannerUpdate_scan
      h.checkpoint h.flash (h.entered_flushed hopen) h.time_behind hopen hcan (Or.inl haligned)
    rw [hu] at hv
    cases hv
    apply hfault
    rw [← Clock.safe_iff h.flash h.time_behind hopen]
    refine ⟨hcan, ?_⟩
    rw [Clock.update, if_neg hopen, ← hclock]
    exact hbehind
  · rw [videoScannerUpdate_stops h.checkpoint h.flash (h.entered_flushed hopen) h.time_behind hopen
      hcan] at hu
    cases hu

/-! ## `video_setDirty` -/

/-- The scanner as `video_setDirty` hands it to `video_scannerUpdate`. -/
def Scanner.touched (s : Scanner) : Scanner :=
  { s.now with
    dirty := true
    cyclesFrameLast :=
      if s.cyclesDirty = 0 then s.now.cyclesVideoFrame - s.now.cyclesVideoFrame % cyclesScanline
      else s.cyclesFrameLast
    cyclesDirty := uintMax }

theorem videoSetDirty_eq (h : s.cyclesCheckpointCount ≤ s.cpu65CycleCount) :
    videoSetDirty s = (videoScannerUpdate s.touched >>= fun u => do
      assertThat (u.cyclesFrameLast = u.cyclesVideoFrame)
      setScannerDirty u) := by
  have hnow : timingCheckpointCycles { s with dirty := true } = .ok { s.now with dirty := true } :=
    timingCheckpointCycles_eq (s := { s with dirty := true }) h
  rw [videoSetDirty, hnow, ok_bind]
  by_cases hidle : s.cyclesDirty = 0
  · simp only [Scanner.touched, Scanner.now, hidle, if_true]
  · simp only [Scanner.touched, Scanner.now, hidle, if_false]

theorem touched_now (s : Scanner) : s.touched.now = s.touched := by
  simp [Scanner.touched, Scanner.now]

theorem touched_time (s : Scanner) : s.touched.time = s.time.touch := by
  rw [Scanner.time, touched_now]
  rfl

theorem Ready.touched_flushed (h : Ready s) : s.touched.entered.Flushed := by
  have hnow := touched_now s
  cases hreset : s.resetScanner with
  | false =>
    have hentered : s.touched.entered = s.touched := by
      rw [Scanner.entered, hnow, if_neg (by simp [Scanner.touched, Scanner.now, hreset])]
    rw [hentered]
    by_cases hidle : s.cyclesDirty = 0
    · obtain ⟨hcol, hidx⟩ := h.clean hreset hidle
      refine ⟨?_, hidx⟩
      have hline : s.touched.cyclesFrameLast % cyclesScanline = 0 := by
        simp only [Scanner.touched, if_pos hidle, cyclesScanline]
        omega
      rw [columnsBefore, hline]
      simpa [Scanner.touched, Scanner.now] using hcol
    · obtain ⟨hcol, hidx⟩ := h.flushed hreset hidle
      refine ⟨?_, hidx⟩
      simpa [Scanner.touched, Scanner.now, hidle] using hcol
  | true =>
    obtain ⟨hzero, hne⟩ := h.fresh hreset
    have hlast : s.touched.entered.cyclesFrameLast = 0 := by
      simp [Scanner.entered, Scanner.touched, Scanner.now, hreset, hzero, hne]
    refine ⟨?_, ?_⟩
    · rw [hlast]
      simp [Scanner.entered, Scanner.touched, Scanner.now, hreset, columnsBefore]
    · simp [Scanner.entered, Scanner.touched, Scanner.now, hreset]

/-- The columns that `video_setDirty` draws. -/
def setDirtyColumns (s : Scanner) : List Column :=
  drawnFrom s s.time.touch.frameLast s.time.touch.count

/-- **`video_setDirty`**, where its clock is safe. -/
theorem videoSetDirty_ok (h : Ready s) (hgap : s.time.touch.gap < uintMax)
    (hsafe : s.time.touch.Safe (flashes s.softswitches)) :
    ∃ u, videoSetDirty s = .ok u ∧ Ready u ∧
      u.clock = s.time.setDirty (flashes s.softswitches) ∧ Passed s u ∧
      columns u.log = columns s.log ++ setDirtyColumns s ∧
      u.cyclesFrameLast = u.cyclesVideoFrame := by
  have hcan := (Clock.safe_touch_iff hgap).mp hsafe
  have hcount := Clock.touch_count hgap
  have hbehind := Clock.touch_behind h.time_behind
  have htouched := touched_time s
  obtain ⟨u, hu, hclock, hpassed, hcolumns, hscanidx, hscancol, hclean⟩ :=
    videoScannerUpdate_scan (s := s.touched) (Nat.le_refl _) h.flash h.touched_flushed
      (by rwa [htouched]) (show uintMax ≠ 0 by decide) (by rw [htouched]; exact hcan)
      (by rw [htouched, hcount]; exact Or.inr hgap)
  rw [htouched] at hclock hcolumns hscancol
  have hall := Clock.after_all (flashes s.softswitches) hbehind hcount
  have hrest : u.clock.frameLast =
      (s.time.touch.after (flashes s.softswitches) s.time.touch.count).frameLast := by
    rw [hclock, Clock.rest]
    split_ifs
    · exact hall.symm
    · rfl
  have hlast : u.cyclesFrameLast = u.cyclesVideoFrame := by
    have hv : u.clock.videoFrame =
        (s.time.touch.after (flashes s.softswitches) s.time.touch.count).videoFrame := by
      rw [hclock, Clock.rest]
      split_ifs <;> rfl
    exact hrest.trans (hall.trans hv.symm)
  have hpos : cyclesFrame + rowRest u.cyclesFrameLast ≠ 0 := by
    rw [cyclesFrame_eq]
    omega
  rw [videoSetDirty_eq h.checkpoint, hu, ok_bind, assertThat_true hlast, ok_bind,
    setScannerDirty_eq]
  refine ⟨_, rfl, ⟨?_, ?_, ?_, ?_, ?_, ?_, ?_⟩, ?_, ?_, ?_, hlast⟩
  · have hflash : u.textFlashCounter = _ := congrArg Clock.flash hclock
    show u.textFlashCounter < 16
    rw [hflash]
    exact Clock.rest_after_flash _ _ _
  · show u.cyclesCheckpointCount ≤ u.cpu65CycleCount
    rw [hpassed.cyclesCheckpointCount, hpassed.cpu65CycleCount]
  · exact Nat.le_of_eq hlast
  · exact fun _ => rowRest_aligned u.cyclesFrameLast
  · exact fun _ hzero => absurd hzero hpos
  · refine fun _ _ => ⟨?_, hscanidx⟩
    show u.scancol = columnsBefore u.clock.frameLast
    rw [hscancol, hrest]
    rfl
  · intro htrue
    have hfalse : u.resetScanner = false := hpassed.resetScanner
    exact absurd htrue (by simp [hfalse])
  · have hclock' :
      u.clock = (s.time.touch.after (flashes s.softswitches) s.time.touch.count).rest :=
      hclock
    rw [Clock.setDirty, ← hclock']
    rfl
  · have htotal : u.cyclesCountTotal = s.now.cyclesCountTotal := by
      rw [hpassed.cyclesCountTotal, touched_now]
      rfl
    exact ⟨hpassed.1, hpassed.2, htotal, hpassed.4, hpassed.5, hpassed.6⟩
  · exact hcolumns

theorem videoSetDirty_stops (h : Ready s) (hgap : s.time.touch.gap < uintMax)
    (hfault : ¬ s.time.touch.Safe (flashes s.softswitches)) :
    videoSetDirty s = .error .assertion := by
  rw [Clock.safe_touch_iff hgap] at hfault
  have htouched := touched_time s
  have hbehind := Clock.touch_behind h.time_behind
  have hstop := videoScannerUpdate_stops (s := s.touched) (Nat.le_refl _) h.flash h.touched_flushed
    (by rwa [htouched]) (show uintMax ≠ 0 by decide) (by rw [htouched]; exact hfault)
  rw [videoSetDirty_eq h.checkpoint, hstop, error_bind]

end Calls

end Apple2ix.Video.Scanning
