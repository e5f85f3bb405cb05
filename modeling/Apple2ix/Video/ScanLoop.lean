import Mathlib.Tactic.Common
import Apple2ix.Video.ScannerUpdate

/-! What the loop of `video_scannerUpdate` does in terms of the cycles it passes: the counters move
like a clock, and each visible cycle adds one column to what is drawn. -/
namespace Apple2ix.Video.Scanning
open Vm Loops
set_option autoImplicit false

theorem cyclesFrame_eq : cyclesFrame = 17030 := rfl

/-! ## Columns -/

/-- One column of the screen, with its auxiliary and its main byte. -/
structure Column where
  row : ℕ
  col : ℕ
  aux : UInt8
  mbd : UInt8
  deriving DecidableEq, Repr

/-- The column that is drawn at a cycle of the frame, if it is a visible one. -/
def scanColumn (softswitches : BitVec 32) (appleIi64k : ℕ → UInt16 → UInt8) (pos : ℕ) :
    Option Column :=
  let hCount := pos % cyclesScanline
  let vCount := (pos / cyclesScanline) % scanlinesFrame
  let addr := getScannerAddress (currentMode softswitches vCount) (videoCurrentPage softswitches)
    vCount hCount
  if isVisible vCount hCount then
    some ⟨vCount, hCount - cyclesVisBegin, appleIi64k 1 addr, appleIi64k 0 addr⟩
  else none

/-- The columns from `scancol` on, `n` of them, of a scanline buffer. -/
def bufferColumns (scanline : ℕ → UInt8) (row scancol n : ℕ) : List Column :=
  (List.range n).map fun j =>
    ⟨row, scancol + j, scanline (2 * (scancol + j)), scanline (2 * (scancol + j) + 1)⟩

def ScanData.columns (d : ScanData) : List Column :=
  bufferColumns d.scanline d.scanrow d.scancol (d.scanend - d.scancol)

def Output.columns : Output → List Column
  | .flushScanline scandata => scandata.columns
  | _ => []

/-- The columns that were flushed, in order. -/
def columns (log : List Output) : List Column := log.flatMap Output.columns

@[simp] theorem columns_nil : columns [] = [] := rfl

@[simp] theorem columns_cons (o : Output) (log : List Output) :
    columns (o :: log) = o.columns ++ columns log := rfl

@[simp] theorem columns_append (log log' : List Output) :
    columns (log ++ log') = columns log ++ columns log' := List.flatMap_append

/-- The columns that were scanned: those flushed and those still in the buffer. -/
def Beam.columns (t : Beam) : List Column :=
  Scanning.columns t.s.log ++ bufferColumns t.s.scanline t.vCount t.s.scancol t.s.scanidx

/-! ## The clock -/

def isFrameCallbacks : Output → Bool
  | .frameCallbacks _ => true
  | _ => false

/-- How often the end of a frame was seen. -/
def frames (log : List Output) : ℕ := log.countP isFrameCallbacks

@[simp] theorem frames_nil : frames [] = 0 := rfl

@[simp] theorem frames_cons (o : Output) (log : List Output) :
    frames (o :: log) = frames log + if isFrameCallbacks o then 1 else 0 := List.countP_cons

@[simp] theorem frames_append (log log' : List Output) :
    frames (log ++ log') = frames log + frames log' := List.countP_append

/-- The counters that the scanner reads and writes as cycles pass. -/
@[ext]
structure Clock where
  frameLast : ℕ
  videoFrame : ℕ
  dirty : ℕ
  flash : ℕ
  frames : ℕ
  deriving DecidableEq, Repr

def Scanner.clock (s : Scanner) : Clock :=
  ⟨s.cyclesFrameLast, s.cyclesVideoFrame, s.cyclesDirty, s.textFlashCounter, frames s.log⟩

namespace Clock

/-- The end of a frame; `text` tells whether flashing text is on screen. -/
def endFrame (text : Bool) (k : Clock) : Clock where
  frameLast := if (k.flash + 1) % 16 = 0 ∧ text = true then 0 else k.frameLast % cyclesFrame
  videoFrame := k.videoFrame % cyclesFrame
  dirty := if (k.flash + 1) % 16 = 0 ∧ text = true then cyclesFrame else k.dirty
  flash := (k.flash + 1) % 16
  frames := k.frames + 1

/-- One scanned cycle. -/
def tick (text : Bool) (k : Clock) : Clock :=
  let k := { k with frameLast := k.frameLast + 1, dirty := k.dirty - 1 }
  if k.frameLast % cyclesFrame = 0 then k.endFrame text else k

/-- The cycles up to and with the one that ends the frame in which the text flashes. -/
def flashAt (k : Clock) : ℕ :=
  cyclesFrame - k.frameLast % cyclesFrame + (15 - k.flash) * cyclesFrame

/-- The frames that end within `n` cycles. -/
def ended (k : Clock) (n : ℕ) : ℕ := (k.frameLast % cyclesFrame + n) / cyclesFrame

/-- The clock after `n` cycles. -/
def after (text : Bool) (k : Clock) (n : ℕ) : Clock where
  frameLast :=
    if k.ended n = 0 then k.frameLast + n else (k.frameLast % cyclesFrame + n) % cyclesFrame
  videoFrame := if k.ended n = 0 then k.videoFrame else k.videoFrame % cyclesFrame
  dirty := if text = true ∧ k.flashAt ≤ n then cyclesFrame - (n - k.flashAt) else k.dirty - n
  flash := (k.flash + k.ended n) % 16
  frames := k.frames + k.ended n

/-- `n` cycles can be scanned: there are that many, and no more than a frame of them after the text
flashed. -/
def CanScan (text : Bool) (k : Clock) (n : ℕ) : Prop :=
  n ≤ k.dirty ∧ (text = true → n ≤ k.flashAt + cyclesFrame)

theorem after_zero (text : Bool) (k : Clock) (hflash : k.flash < 16) : k.after text 0 = k := by
  have hlt : k.frameLast % 17030 < 17030 := Nat.mod_lt _ (by decide)
  have hended : k.ended 0 = 0 := by
    simp only [ended, cyclesFrame_eq]
    omega
  have hat : ¬ k.flashAt ≤ 0 := by
    simp only [flashAt, cyclesFrame_eq]
    omega
  ext <;> simp [after, hended, hat]
  omega

theorem after_frameLast_mod (text : Bool) (k : Clock) (n : ℕ) :
    (k.after text n).frameLast % cyclesFrame = (k.frameLast + n) % cyclesFrame := by
  simp only [after, cyclesFrame_eq]
  split_ifs <;> omega

theorem tick_after {text : Bool} {k : Clock} {n : ℕ} (hflash : k.flash < 16)
    (h : k.CanScan text (n + 1)) : (k.after text n).tick text = k.after text (n + 1) := by
  obtain ⟨hn, hsafe⟩ := h
  have hlt : k.frameLast % 17030 < 17030 := Nat.mod_lt _ (by decide)
  have hmod := after_frameLast_mod text k n
  by_cases hend : (k.frameLast + n + 1) % 17030 = 0
  · have htick : (k.after text n).tick text = endFrame text
        { k.after text n with
          frameLast := (k.after text n).frameLast + 1, dirty := (k.after text n).dirty - 1 } := by
      rw [tick, if_pos]
      simp only [cyclesFrame_eq] at hmod ⊢
      omega
    have hended : k.ended (n + 1) = k.ended n + 1 := by
      simp only [ended, cyclesFrame_eq]
      omega
    have hflashes :
        text = true → (((k.flash + k.ended n) % 16 + 1) % 16 = 0 ↔ k.flashAt = n + 1) := by
      intro htext
      have hle := hsafe htext
      simp only [flashAt, ended, cyclesFrame_eq] at hle ⊢
      omega
    rw [htick]
    ext
    · have hleft : ((k.after text n).frameLast + 1) % cyclesFrame = 0 := by
        simp only [cyclesFrame_eq] at hmod ⊢
        omega
      have hright : (k.after text (n + 1)).frameLast = 0 := by
        simp only [after, hended, Nat.add_one_ne_zero, if_false, cyclesFrame_eq]
        omega
      rw [hright]
      simp only [endFrame, hleft, ite_self]
    · simp only [endFrame, after, hended, cyclesFrame_eq, Nat.add_one_ne_zero, if_false]
      split_ifs
      · rfl
      · exact Nat.mod_mod _ _
    · simp only [endFrame, after]
      cases text with
      | false =>
        simp
        omega
      | true =>
        have hle := hsafe rfl
        simp only [hflashes rfl, true_and, and_true]
        simp only [cyclesFrame_eq] at hle ⊢
        split_ifs <;> omega
    · simp only [endFrame, after, hended]
      omega
    · simp only [endFrame, after, hended]
      omega
  · have htick : (k.after text n).tick text =
        { k.after text n with
          frameLast := (k.after text n).frameLast + 1, dirty := (k.after text n).dirty - 1 } := by
      rw [tick, if_neg]
      simp only [cyclesFrame_eq] at hmod ⊢
      omega
    have hended : k.ended (n + 1) = k.ended n := by
      simp only [ended, cyclesFrame_eq]
      omega
    have hflashes : k.flashAt ≠ n + 1 := by
      simp only [flashAt, cyclesFrame_eq]
      omega
    rw [htick]
    ext
    · simp only [after, hended, cyclesFrame_eq]
      split_ifs <;> omega
    · simp only [after, hended]
    · simp only [after]
      cases text with
      | false =>
        simp
        omega
      | true =>
        simp only [true_and]
        split_ifs <;> omega
    · simp only [after, hended]
    · simp only [after, hended]

theorem dirty_after_pos {text : Bool} {k : Clock} {n : ℕ} (h : k.CanScan text (n + 1)) :
    0 < (k.after text n).dirty := by
  obtain ⟨hn, hsafe⟩ := h
  simp only [after]
  cases text with
  | false =>
    simp
    omega
  | true =>
    have hle := hsafe rfl
    simp only [cyclesFrame_eq, true_and] at hle ⊢
    split_ifs <;> omega

end Clock

/-! ## One cycle -/

theorem assertThat_true {p : Prop} [Decidable p] (h : p) : assertThat p = .ok () := if_pos h

theorem assertThat_false {p : Prop} [Decidable p] (h : ¬ p) : assertThat p = .error .assertion :=
  if_neg h

/-- What a scan never changes. -/
structure Kept (s t : Scanner) : Prop where
  cpu65CycleCount : t.cpu65CycleCount = s.cpu65CycleCount
  cyclesCheckpointCount : t.cyclesCheckpointCount = s.cyclesCheckpointCount
  cyclesCountTotal : t.cyclesCountTotal = s.cyclesCountTotal
  resetScanner : t.resetScanner = s.resetScanner
  softswitches : t.softswitches = s.softswitches
  appleIi64k : t.appleIi64k = s.appleIi64k

theorem Kept.refl (s : Scanner) : Kept s s := ⟨rfl, rfl, rfl, rfl, rfl, rfl⟩

theorem Kept.trans {s t u : Scanner} (h : Kept s t) (h' : Kept t u) : Kept s u :=
  ⟨h'.1.trans h.1, h'.2.trans h.2, h'.3.trans h.3, h'.4.trans h.4, h'.5.trans h.5, h'.6.trans h.6⟩

/-- The columns of its line that lie before a position. -/
def columnsBefore (pos : ℕ) : ℕ :=
  if (pos / cyclesScanline) % scanlinesFrame < scanlinesVblBegin then
    pos % cyclesScanline - cyclesVisBegin
  else 0

theorem columnsBefore_lt (pos : ℕ) : columnsBefore pos < cyclesVis := by
  unfold columnsBefore cyclesVis cyclesVisBegin cyclesScanline
  split <;> omega

/-- The locals of the loop belong to `cyclesFrameLast`. -/
structure Beam.Aligned (t : Beam) : Prop where
  hCount : t.hCount = t.s.cyclesFrameLast % cyclesScanline
  vCount : t.vCount = (t.s.cyclesFrameLast / cyclesScanline) % scanlinesFrame
  mode : t.mode = currentMode t.s.softswitches t.vCount
  seen : t.s.scancol + t.s.scanidx = columnsBefore t.s.cyclesFrameLast

/-- The cycles from a position to the end of its text row. -/
def rowRest (pos : ℕ) : ℕ :=
  ((7 - (pos / cyclesScanline) % scanlinesFrame % 8) * cyclesScanline +
    (cyclesScanline - pos % cyclesScanline)) % (8 * cyclesScanline)

theorem rowRest_lt (pos : ℕ) : rowRest pos < 8 * cyclesScanline := Nat.mod_lt _ (by decide)

theorem rowRest_aligned (pos : ℕ) : (pos + (cyclesFrame + rowRest pos)) % cyclesScanline = 0 := by
  simp only [rowRest, cyclesFrame_eq, cyclesScanline, scanlinesFrame]
  omega

theorem setScannerDirty_eq (s : Scanner) :
    setScannerDirty s = .ok { s with cyclesDirty := cyclesFrame + rowRest s.cyclesFrameLast } := by
  have hlt := rowRest_lt s.cyclesFrameLast
  have hrange : cyclesFrame ≤ cyclesFrame + rowRest s.cyclesFrameLast ∧
      cyclesFrame + rowRest s.cyclesFrameLast ≤ cyclesFrame + cyclesScanline * 8 := by omega
  have haligned := rowRest_aligned s.cyclesFrameLast
  simp only [rowRest] at hrange haligned ⊢
  simp only [setScannerDirty, assertThat_true hrange, assertThat_true haligned, ok_bind]

theorem endOfFrame_ok (s : Scanner) (h : cyclesFrame ≤ s.cyclesFrameLast) :
    ∃ t, endOfFrame s = .ok t ∧ t.clock = s.clock.endFrame (flashes s.softswitches) ∧ Kept s t ∧
      columns t.log = columns s.log ∧ t.scanline = s.scanline ∧ t.scancol = s.scancol ∧
      t.scanidx = s.scanidx := by
  have hrest : rowRest 0 = 0 := by decide
  by_cases hflash : (s.textFlashCounter + 1) % 16 = 0
  · cases htext : flashes s.softswitches with
    | true =>
      simp only [endOfFrame, assertThat_true h, ok_bind, hflash, if_true, Scanner.call, htext,
        setScannerDirty_eq, hrest, Nat.add_zero]
      refine ⟨_, rfl, ?_, ⟨rfl, rfl, rfl, rfl, rfl, rfl⟩, ?_, rfl, rfl, rfl⟩
      · simp [Scanner.clock, Clock.endFrame, hflash, isFrameCallbacks]
      · simp [Output.columns]
    | false =>
      simp only [endOfFrame, assertThat_true h, ok_bind, hflash, if_true, Scanner.call, htext,
        Bool.false_eq_true, if_false]
      refine ⟨_, rfl, ?_, ⟨rfl, rfl, rfl, rfl, rfl, rfl⟩, ?_, rfl, rfl, rfl⟩
      · simp [Scanner.clock, Clock.endFrame, hflash, isFrameCallbacks]
      · simp [Output.columns]
  · simp only [endOfFrame, assertThat_true h, ok_bind, hflash, if_false, Scanner.call]
    refine ⟨_, rfl, ?_, ⟨rfl, rfl, rfl, rfl, rfl, rfl⟩, ?_, rfl, rfl, rfl⟩
    · simp [Scanner.clock, Clock.endFrame, hflash, isFrameCallbacks]
    · simp [Output.columns]

theorem bufferColumns_succ (scanline : ℕ → UInt8) (row scancol n : ℕ) :
    bufferColumns scanline row scancol (n + 1) = bufferColumns scanline row scancol n ++
      [⟨row, scancol + n, scanline (2 * (scancol + n)), scanline (2 * (scancol + n) + 1)⟩] := by
  simp only [bufferColumns, List.range_succ, List.map_append, List.map_cons, List.map_nil]

theorem bufferColumns_update (scanline : ℕ → UInt8) (row scancol n : ℕ) (aux mbd : UInt8) :
    bufferColumns (Function.update (Function.update scanline (2 * (scancol + n)) aux)
      (2 * (scancol + n) + 1) mbd) row scancol (n + 1) =
      bufferColumns scanline row scancol n ++ [⟨row, scancol + n, aux, mbd⟩] := by
  rw [bufferColumns_succ]
  congr 1
  · apply List.map_congr_left
    intro j hj
    have hlt : j < n := List.mem_range.mp hj
    simp only [Function.update_of_ne (show 2 * (scancol + j) ≠ 2 * (scancol + n) + 1 by omega),
      Function.update_of_ne (show 2 * (scancol + j) ≠ 2 * (scancol + n) by omega),
      Function.update_of_ne (show 2 * (scancol + j) + 1 ≠ 2 * (scancol + n) + 1 by omega),
      Function.update_of_ne (show 2 * (scancol + j) + 1 ≠ 2 * (scancol + n) by omega)]
  · simp

section Cycle
variable {t : Beam}

theorem scanColumn_visible (h : t.Aligned) (hv : isVisible t.vCount t.hCount = true) :
    scanColumn t.s.softswitches t.s.appleIi64k t.s.cyclesFrameLast =
      some ⟨t.vCount, t.s.scancol + t.s.scanidx,
        t.s.appleIi64k 1 (getScannerAddress t.mode (videoCurrentPage t.s.softswitches) t.vCount
          t.hCount),
        t.s.appleIi64k 0 (getScannerAddress t.mode (videoCurrentPage t.s.softswitches) t.vCount
          t.hCount)⟩ := by
  obtain ⟨hh, hvc, hmode, hseen⟩ := h
  rw [hh, hvc] at hv
  have hbefore : columnsBefore t.s.cyclesFrameLast =
      t.s.cyclesFrameLast % cyclesScanline - cyclesVisBegin := by
    simp only [isVisible, Bool.and_eq_true, decide_eq_true_eq] at hv
    rw [columnsBefore, if_pos hv.2]
  rw [hseen, hmode, hh, hvc, hbefore]
  simp only [scanColumn, hv, if_true]

theorem scanColumn_hidden (h : t.Aligned) (hv : isVisible t.vCount t.hCount = false) :
    scanColumn t.s.softswitches t.s.appleIi64k t.s.cyclesFrameLast = none := by
  rw [h.hCount, h.vCount] at hv
  simp only [scanColumn, hv, Bool.false_eq_true, if_false]

/-- A visible cycle adds its column to the buffer, which has room for it. -/
theorem fetch_ok (h : t.Aligned) :
    ∃ scanline scanidx, fetch (videoCurrentPage t.s.softswitches) t =
        .ok { t.s with scanline := scanline, scanidx := scanidx } ∧
      t.s.scancol + scanidx = columnsBefore t.s.cyclesFrameLast +
        (if isVisible t.vCount t.hCount then 1 else 0) ∧
      bufferColumns scanline t.vCount t.s.scancol scanidx =
        bufferColumns t.s.scanline t.vCount t.s.scancol t.s.scanidx ++
          (scanColumn t.s.softswitches t.s.appleIi64k t.s.cyclesFrameLast).toList := by
  cases hv : isVisible t.vCount t.hCount with
  | true =>
    have hseen := h.seen
    have hroom : 2 * t.s.scancol + 2 * t.s.scanidx < 2 * cyclesVis - 1 := by
      have hlt := columnsBefore_lt t.s.cyclesFrameLast
      omega
    rw [fetch, if_pos hv]
    simp only [assertThat_true hroom, ok_bind]
    rw [← Nat.mul_add]
    refine ⟨_, _, rfl, ?_, ?_⟩
    · simp only [if_true]
      omega
    · rw [scanColumn_visible h hv, Option.toList_some]
      exact bufferColumns_update _ _ _ _ _ _
  | false =>
    refine ⟨t.s.scanline, t.s.scanidx, ?_, h.seen, ?_⟩
    · rw [fetch, if_neg (by simp [hv])]
    · rw [scanColumn_hidden h hv, Option.toList_none, List.append_nil]

/-- Inside a line the next position lies one column further. -/
theorem columnsBefore_succ (h : t.Aligned) (hline : t.hCount + 1 ≠ cyclesScanline) :
    columnsBefore (t.s.cyclesFrameLast + 1) = columnsBefore t.s.cyclesFrameLast +
      (if isVisible t.vCount t.hCount then 1 else 0) := by
  rw [h.hCount] at hline
  rw [h.hCount, h.vCount]
  simp only [cyclesScanline] at hline
  have hdiv : (t.s.cyclesFrameLast + 1) / 65 = t.s.cyclesFrameLast / 65 := by omega
  have hmod : (t.s.cyclesFrameLast + 1) % 65 = t.s.cyclesFrameLast % 65 + 1 := by omega
  simp only [columnsBefore, isVisible, cyclesScanline, hdiv, hmod, cyclesVisBegin]
  by_cases hv : t.s.cyclesFrameLast / 65 % scanlinesFrame < scanlinesVblBegin
  · by_cases hc : 25 ≤ t.s.cyclesFrameLast % 65
    · simp [hv, hc]
      omega
    · simp [hv, hc]
      omega
  · simp [hv]

/-- All the columns of a line lie before its end. -/
theorem columnsBefore_end (h : t.Aligned) (hline : t.hCount + 1 = cyclesScanline) :
    columnsBefore t.s.cyclesFrameLast + (if isVisible t.vCount t.hCount then 1 else 0) =
      if t.vCount < scanlinesVblBegin then cyclesVis else 0 := by
  rw [h.hCount] at hline
  rw [h.hCount, h.vCount]
  simp only [cyclesScanline] at hline
  have hmod : t.s.cyclesFrameLast % 65 = 64 := by omega
  simp only [columnsBefore, isVisible, cyclesScanline, hmod, cyclesVisBegin, cyclesVis]
  by_cases hv : t.s.cyclesFrameLast / 65 % scanlinesFrame < scanlinesVblBegin <;> simp [hv]

theorem flushLine_ok (s : Scanner) (vCount : ℕ)
    (hseen : s.scancol + s.scanidx = if vCount < scanlinesVblBegin then cyclesVis else 0) :
    ∃ log, flushLine s vCount = .ok { s with log := log } ∧
      columns log = columns s.log ++ bufferColumns s.scanline vCount s.scancol s.scanidx ∧
      frames log = frames s.log := by
  by_cases hvis : vCount < scanlinesVblBegin
  · rw [if_pos hvis] at hseen
    simp only [flushLine, if_pos hvis, assertThat_true hseen, ok_bind]
    refine ⟨_, rfl, ?_, ?_⟩
    · simp [Output.columns, ScanData.columns]
    · simp [isFrameCallbacks]
  · rw [if_neg hvis] at hseen
    have hzero : s.scanidx = 0 := by omega
    simp only [flushLine, if_neg hvis]
    exact ⟨s.log, rfl, by simp [hzero, bufferColumns], rfl⟩

theorem endOfLine_ok (s : Scanner) (vCount : ℕ) (hpos : 0 < s.cyclesFrameLast)
    (hv : (s.cyclesFrameLast / cyclesScanline) % scanlinesFrame = (vCount + 1) % scanlinesFrame)
    (hh : s.cyclesFrameLast % cyclesScanline = 0) (hlt : vCount < scanlinesFrame)
    (hseen : s.scancol + s.scanidx = if vCount < scanlinesVblBegin then cyclesVis else 0) :
    ∃ u, endOfLine s vCount = .ok u ∧ u.Aligned ∧
      u.s.clock = (if s.cyclesFrameLast % cyclesFrame = 0 then
        s.clock.endFrame (flashes s.softswitches) else s.clock) ∧ Kept s u.s ∧
      u.columns = columns s.log ++ bufferColumns s.scanline vCount s.scancol s.scanidx := by
  obtain ⟨log, hflush, hcolumns, hframes⟩ := flushLine_ok s vCount hseen
  unfold endOfLine
  rw [hflush, ok_bind]
  have hbefore : ∀ pos, pos % cyclesScanline = 0 → columnsBefore pos = 0 := by
    intro pos hzero
    simp [columnsBefore, hzero]
  have hdvd : s.cyclesFrameLast % cyclesFrame = 0 ↔ vCount + 1 = scanlinesFrame := by
    simp only [cyclesScanline, scanlinesFrame, cyclesFrame_eq] at *
    omega
  by_cases hframe : vCount + 1 = scanlinesFrame
  · have hfull : s.cyclesFrameLast % cyclesFrame = 0 := hdvd.mpr hframe
    have hge : cyclesFrame ≤ s.cyclesFrameLast := Nat.le_of_dvd hpos (Nat.dvd_of_mod_eq_zero hfull)
    obtain ⟨t, ht, hclock, hkept, htcolumns, hscanline, hscancol, hscanidx⟩ :=
      endOfFrame_ok { s with log := log, scancol := 0, scanidx := 0 } hge
    simp only [hframe, if_true, assertThat_true hfull, ok_bind, ht]
    have hlast : t.cyclesFrameLast = 0 := by
      have hk : t.clock.frameLast = _ := congrArg Clock.frameLast hclock
      simpa [Scanner.clock, Clock.endFrame, hfull] using hk
    refine ⟨_, rfl, ⟨?_, ?_, rfl, ?_⟩, ?_, ?_, ?_⟩
    · simp [Scanner.call, hlast]
    · simp [Scanner.call, hlast]
    · simp only [Scanner.call, hlast, hscancol, hscanidx]
      exact (hbefore 0 rfl).symm
    · have hcall : (t.call .frameComplete).clock = t.clock := by
        simp [Scanner.clock, Scanner.call, isFrameCallbacks]
      rw [hcall, hclock, if_pos hfull]
      simp only [Scanner.clock, hframes]
    · exact ⟨hkept.1, hkept.2, hkept.3, hkept.4, hkept.5, hkept.6⟩
    · simp [Beam.columns, Scanner.call, Output.columns, htcolumns, hcolumns, hscanidx,
        bufferColumns]
  · simp only [hframe, if_false]
    refine ⟨_, rfl, ⟨hh.symm, ?_, rfl, ?_⟩, ?_, ⟨rfl, rfl, rfl, rfl, rfl, rfl⟩, ?_⟩
    · simp only [scanlinesFrame] at *
      omega
    · exact (hbefore _ hh).symm
    · rw [if_neg (fun hz => hframe (hdvd.mp hz))]
      simp [Scanner.clock, hframes]
    · simp [Beam.columns, hcolumns, bufferColumns]

/-- **One cycle.** -/
theorem scanCycle_ok (h : t.Aligned) (hdirty : 0 < t.s.cyclesDirty) :
    ∃ u, scanCycle (videoCurrentPage t.s.softswitches) t = .ok u ∧ u.Aligned ∧
      u.s.clock = t.s.clock.tick (flashes t.s.softswitches) ∧ Kept t.s u.s ∧
      u.columns = t.columns ++
        (scanColumn t.s.softswitches t.s.appleIi64k t.s.cyclesFrameLast).toList := by
  obtain ⟨scanline, scanidx, hfetch, hseen, hcolumns⟩ := fetch_ok h
  simp only [scanCycle, assertThat_true hdirty, ok_bind, hfetch]
  by_cases hline : t.hCount + 1 = cyclesScanline
  · rw [if_pos hline]
    have hend := columnsBefore_end h hline
    rw [← hseen] at hend
    have hh := h.hCount
    have hv := h.vCount
    rw [hh] at hline
    obtain ⟨u, hu, haligned, hclock, hkept, hucolumns⟩ := endOfLine_ok
      { t.s with
        scanline := scanline, scanidx := scanidx
        cyclesFrameLast := t.s.cyclesFrameLast + 1, cyclesDirty := t.s.cyclesDirty - 1 }
      t.vCount (Nat.succ_pos _)
      (by simp only [cyclesScanline, scanlinesFrame] at *; omega)
      (by simp only [cyclesScanline] at *; omega)
      (by rw [hv]; exact Nat.mod_lt _ (by decide)) hend
    refine ⟨u, hu, haligned, ?_, ?_, ?_⟩
    · rw [hclock]
      rfl
    · exact ⟨hkept.1, hkept.2, hkept.3, hkept.4, hkept.5, hkept.6⟩
    · rw [hucolumns]
      simp only [Beam.columns, hcolumns, List.append_assoc]
  · rw [if_neg hline]
    have hh := h.hCount
    have hv := h.vCount
    simp only [cyclesScanline, scanlinesFrame] at hline hh hv
    refine ⟨_, rfl, ⟨?_, ?_, h.mode, ?_⟩, ?_, ⟨rfl, rfl, rfl, rfl, rfl, rfl⟩, ?_⟩
    · simp only [cyclesScanline]
      omega
    · simp only [cyclesScanline, scanlinesFrame]
      omega
    · rw [columnsBefore_succ h hline]
      exact hseen
    · have hframe : ¬ (t.s.cyclesFrameLast + 1) % cyclesFrame = 0 := by
        simp only [cyclesFrame_eq]
        omega
      simp only [Clock.tick, Scanner.clock, hframe, if_false]
    · simp only [Beam.columns, hcolumns, List.append_assoc]

/-! ## The loop -/

theorem scanColumn_congr (softswitches : BitVec 32) (appleIi64k : ℕ → UInt16 → UInt8) {p q : ℕ}
    (h : p % cyclesFrame = q % cyclesFrame) :
    scanColumn softswitches appleIi64k p = scanColumn softswitches appleIi64k q := by
  rw [cyclesFrame_eq] at h
  have hh : p % cyclesScanline = q % cyclesScanline := by
    simp only [cyclesScanline]
    omega
  have hv : (p / cyclesScanline) % scanlinesFrame = (q / cyclesScanline) % scanlinesFrame := by
    simp only [cyclesScanline, scanlinesFrame]
    omega
  simp only [scanColumn, hh, hv]

/-- **The loop.** As many cycles as the clock allows pass, and each visible one adds its column. -/
theorem scanCycles_ok (h : t.Aligned) (hflash : t.s.textFlashCounter < 16) (n : ℕ)
    (hcan : t.s.clock.CanScan (flashes t.s.softswitches) n) :
    ∃ u, forUpM n (fun _ => scanCycle (videoCurrentPage t.s.softswitches)) t = .ok u ∧
      u.Aligned ∧ u.s.clock = t.s.clock.after (flashes t.s.softswitches) n ∧ Kept t.s u.s ∧
      u.columns = t.columns ++ (List.range n).flatMap fun i =>
        (scanColumn t.s.softswitches t.s.appleIi64k (t.s.cyclesFrameLast + i)).toList := by
  induction n with
  | zero =>
    refine ⟨t, rfl, h, ?_, Kept.refl _, by simp⟩
    exact (Clock.after_zero _ _ hflash).symm
  | succ n ih =>
    have hcan' : t.s.clock.CanScan (flashes t.s.softswitches) n :=
      ⟨Nat.le_of_succ_le hcan.1, fun htext => Nat.le_of_succ_le (hcan.2 htext)⟩
    obtain ⟨u, hu, haligned, hclock, hkept, hcolumns⟩ := ih hcan'
    have hdirty : 0 < u.s.cyclesDirty := by
      have hpos := Clock.dirty_after_pos hcan
      rwa [← hclock] at hpos
    obtain ⟨v, hv, haligned', hclock', hkept', hcolumns'⟩ := scanCycle_ok haligned hdirty
    rw [hkept.softswitches] at hv hclock' hcolumns'
    refine ⟨v, ?_, haligned', ?_, hkept.trans hkept', ?_⟩
    · rw [forUpM_succ, hu]
      exact hv
    · rw [hclock', hclock]
      exact Clock.tick_after hflash hcan
    · have hpos : u.s.cyclesFrameLast % cyclesFrame = (t.s.cyclesFrameLast + n) % cyclesFrame := by
        have hmod := Clock.after_frameLast_mod (flashes t.s.softswitches) t.s.clock n
        rwa [← hclock] at hmod
      rw [hcolumns', hcolumns, hkept.appleIi64k, scanColumn_congr _ _ hpos, List.range_succ,
        List.flatMap_append, List.append_assoc]
      simp

/-- More than a frame after the text flashed, nothing is left to scan: the loop stops at its
assertion. -/
theorem scanCycles_fail (h : t.Aligned) (hflash : t.s.textFlashCounter < 16) {n : ℕ}
    (htext : flashes t.s.softswitches = true) (hn : n ≤ t.s.cyclesDirty)
    (hlong : t.s.clock.flashAt + cyclesFrame < n) :
    forUpM n (fun _ => scanCycle (videoCurrentPage t.s.softswitches)) t = .error .assertion := by
  obtain ⟨u, hu, -, hclock, -, -⟩ := scanCycles_ok h hflash (t.s.clock.flashAt + cyclesFrame)
    ⟨Nat.le_of_lt (Nat.lt_of_lt_of_le hlong hn), fun _ => Nat.le_refl _⟩
  have hdirty : u.s.cyclesDirty = 0 := by
    have hd : u.s.clock.dirty = _ := congrArg Clock.dirty hclock
    simpa [Clock.after, htext, Scanner.clock] using hd
  apply forUpM_error (m := t.s.clock.flashAt + cyclesFrame + 1) _ hlong
  rw [forUpM_succ, hu]
  have hstop : ¬ 0 < u.s.cyclesDirty := by omega
  show scanCycle _ u = _
  rw [scanCycle, assertThat_false hstop, error_bind]

end Cycle

end Apple2ix.Video.Scanning
