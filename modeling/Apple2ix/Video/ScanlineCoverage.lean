import Apple2ix.Video.FrameClock

/-! What the scanner draws: the lines that it passes while it is dirty, each of them whole. -/
namespace Apple2ix.Video.Scanning
open Vm Loops Runs
set_option autoImplicit false

/-! ## Cycles and lines -/

/-- A cycle that the scanner passed, with the switches and the memory that it found there. -/
structure Fetch where
  pos : ℕ
  softswitches : BitVec 32
  appleIi64k : ℕ → UInt16 → UInt8

def Fetch.hCount (f : Fetch) : ℕ := f.pos % cyclesScanline

def Fetch.vCount (f : Fetch) : ℕ := (f.pos / cyclesScanline) % scanlinesFrame

def Fetch.column (f : Fetch) : Option Column := scanColumn f.softswitches f.appleIi64k f.pos

/-- The bytes at a column of a line. -/
def Fetch.columnAt (f : Fetch) (vCount col : ℕ) : Column :=
  let addr := getScannerAddress (currentMode f.softswitches vCount)
    (videoCurrentPage f.softswitches) vCount (cyclesVisBegin + col)
  ⟨vCount, col, f.appleIi64k 1 addr, f.appleIi64k 0 addr⟩

/-- Cycles of one line, from its start on. -/
def OnLine (vCount : ℕ) (fetches : List Fetch) : Prop :=
  ∀ (i : ℕ) (f : Fetch), fetches[i]? = some f → f.hCount = i ∧ f.vCount = vCount

/-- A whole line. -/
structure Line where
  vCount : ℕ
  fetches : List Fetch
  whole : fetches.length = cyclesScanline
  onLine : OnLine vCount fetches

/-- What a line shows: its 40 columns in order, with the bytes of the cycle in which the scanner
came to each. -/
def Line.columns (l : Line) : List Column :=
  if l.vCount < scanlinesVblBegin then
    (l.fetches.drop cyclesVisBegin).zipIdx.map fun (f, col) => f.columnAt l.vCount col
  else []

/-! ## The cycles of a run -/

/-- The `n` cycles from `pos` on. -/
def Scanner.fetches (s : Scanner) (pos n : ℕ) : List Fetch :=
  (List.range n).map fun i => ⟨pos + i, s.softswitches, s.appleIi64k⟩

/-- The cycles that an operation scans. -/
def Op.fetches (s : Scanner) : Op → List Fetch
  | .setDirty => s.fetches s.time.touch.frameLast s.time.touch.count
  | .update => if s.cyclesDirty = 0 then [] else s.fetches s.cyclesFrameLast s.time.count
  | .endBatch => if s.cyclesDirty = 0 then [] else s.fetches s.cyclesFrameLast s.time.count
  | _ => []

/-- The cycles that a run scans. -/
def fetched : Scanner → List Op → List Fetch
  | _, [] => []
  | s, op :: ops =>
    op.fetches s ++ match step s op with
      | .ok t => fetched t ops
      | .error _ => []

/-! ## The columns of a line -/

theorem OnLine.nil (vCount : ℕ) : OnLine vCount [] := by
  intro i f h
  simp at h

theorem OnLine.snoc {vCount : ℕ} {fetches : List Fetch} {f : Fetch} (h : OnLine vCount fetches)
    (hh : f.hCount = fetches.length) (hv : f.vCount = vCount) : OnLine vCount (fetches ++ [f]) := by
  intro i g hg
  by_cases hlt : i < fetches.length
  · rw [List.getElem?_append_left hlt] at hg
    exact h i g hg
  · rw [List.getElem?_append_right (Nat.le_of_not_lt hlt)] at hg
    obtain ⟨hi, rfl⟩ : i - fetches.length = 0 ∧ f = g := by
      cases hsub : i - fetches.length with
      | zero => simpa [hsub] using hg
      | succ n => simp [hsub] at hg
    exact ⟨by omega, hv⟩

theorem Fetch.column_hidden {f : Fetch} (h : isVisible f.vCount f.hCount = false) :
    f.column = none := by
  unfold Fetch.vCount Fetch.hCount at h
  simp only [Fetch.column, scanColumn, h, Bool.false_eq_true, if_false]

theorem Fetch.column_visible {f : Fetch} (h : isVisible f.vCount f.hCount = true) :
    f.column = some (f.columnAt f.vCount (f.hCount - cyclesVisBegin)) := by
  have hle : cyclesVisBegin ≤ f.hCount := by
    simp only [isVisible, Bool.and_eq_true, decide_eq_true_eq] at h
    exact h.1
  simp only [Fetch.columnAt, Nat.add_sub_cancel' hle]
  unfold Fetch.vCount Fetch.hCount at h ⊢
  simp only [Fetch.column, scanColumn, h, if_true]

theorem filterMap_zipIdx (fetches : List Fetch) (vCount col : ℕ)
    (h : ∀ (i : ℕ) (f : Fetch), fetches[i]? = some f →
      f.column = some (f.columnAt vCount (col + i))) :
    fetches.filterMap Fetch.column =
      (fetches.zipIdx col).map fun (f, col) => f.columnAt vCount col := by
  induction fetches generalizing col with
  | nil => rfl
  | cons f fetches ih =>
    have hhead := h 0 f rfl
    have htail := ih (col + 1) fun i g hg => by
      rw [Nat.add_assoc, Nat.add_comm 1]
      exact h (i + 1) g hg
    rw [List.filterMap_cons_some hhead, htail]
    rfl

/-- **The columns of a line** are those of its cycles. -/
theorem Line.columns_eq (l : Line) : l.fetches.filterMap Fetch.column = l.columns := by
  have honline := l.onLine
  unfold Line.columns
  split_ifs with hvis
  · have hblank : (l.fetches.take cyclesVisBegin).filterMap Fetch.column = [] := by
      rw [List.filterMap_eq_nil_iff]
      intro f hf
      obtain ⟨i, hi⟩ := List.mem_iff_getElem?.mp hf
      rw [List.getElem?_take] at hi
      split_ifs at hi with hlt
      obtain ⟨hh, -⟩ := honline i f hi
      apply Fetch.column_hidden
      rw [isVisible, hh]
      simp [hlt]
    have hshown := filterMap_zipIdx (l.fetches.drop cyclesVisBegin) l.vCount 0 ?_
    · rw [← List.take_append_drop cyclesVisBegin l.fetches, List.filterMap_append, hblank,
        List.nil_append, hshown, List.take_append_drop]
    · intro i f hf
      rw [List.getElem?_drop] at hf
      obtain ⟨hh, hv⟩ := honline _ f hf
      rw [Fetch.column_visible, hh, hv, Nat.add_sub_cancel_left, Nat.zero_add]
      simp [isVisible, hh, hv, hvis]
  · rw [List.filterMap_eq_nil_iff]
    intro f hf
    obtain ⟨i, hi⟩ := List.mem_iff_getElem?.mp hf
    obtain ⟨-, hv⟩ := honline i f hi
    apply Fetch.column_hidden
    simp [isVisible, hv, hvis]

/-! ## Cutting the cycles into lines -/

/-- The cycles are whole lines, and the start of the line in which `pos` lies up to there. -/
def Cut (fetches : List Fetch) (pos : ℕ) : Prop :=
  ∃ (lines : List Line) (part : List Fetch), fetches = lines.flatMap Line.fetches ++ part ∧
    OnLine ((pos / cyclesScanline) % scanlinesFrame) part ∧ part.length = pos % cyclesScanline

theorem cut_nil {pos : ℕ} (h : pos % cyclesScanline = 0) : Cut [] pos :=
  ⟨[], [], rfl, OnLine.nil _, h.symm⟩

/-- At the start of a line nothing of it was passed. -/
theorem cut_start {fetches : List Fetch} {pos : ℕ} (h : Cut fetches pos)
    (hpos : pos % cyclesScanline = 0) : ∃ lines :
      List Line, fetches = lines.flatMap Line.fetches := by
  obtain ⟨lines, part, rfl, -, hlength⟩ := h
  rw [hpos, List.length_eq_zero_iff] at hlength
  exact ⟨lines, by rw [hlength, List.append_nil]⟩

theorem cut_lines (lines : List Line) {pos : ℕ} (h : pos % cyclesScanline = 0) :
    Cut (lines.flatMap Line.fetches) pos :=
  ⟨lines, [], (List.append_nil _).symm, OnLine.nil _, h.symm⟩

theorem cut_congr {fetches : List Fetch} {p q : ℕ} (h : Cut fetches p)
    (hpq : p % cyclesFrame = q % cyclesFrame) : Cut fetches q := by
  obtain ⟨lines, part, heq, honline, hlength⟩ := h
  rw [cyclesFrame_eq] at hpq
  have hh : p % cyclesScanline = q % cyclesScanline := by
    simp only [cyclesScanline]
    omega
  have hv : (p / cyclesScanline) % scanlinesFrame = (q / cyclesScanline) % scanlinesFrame := by
    simp only [cyclesScanline, scanlinesFrame]
    omega
  rw [hv] at honline
  rw [hh] at hlength
  exact ⟨lines, part, heq, honline, hlength⟩

/-- **One cycle** more. -/
theorem cut_snoc {fetches : List Fetch} {f : Fetch} (h : Cut fetches f.pos) :
    Cut (fetches ++ [f]) (f.pos + 1) := by
  obtain ⟨lines, part, rfl, honline, hlength⟩ := h
  have hmore : OnLine ((f.pos / cyclesScanline) % scanlinesFrame) (part ++ [f]) :=
    honline.snoc hlength.symm rfl
  by_cases hend : f.pos % cyclesScanline + 1 = cyclesScanline
  · have hwhole : (part ++ [f]).length = cyclesScanline := by
      rw [List.length_append, hlength, List.length_singleton]
      exact hend
    refine ⟨lines ++ [⟨_, part ++ [f], hwhole, hmore⟩], [], ?_, OnLine.nil _, ?_⟩
    · simp
    · simp only [cyclesScanline, List.length_nil] at hend ⊢
      omega
  · refine ⟨lines, part ++ [f], by simp, ?_, ?_⟩
    · have hline : (f.pos + 1) / cyclesScanline = f.pos / cyclesScanline := by
        simp only [cyclesScanline] at hend ⊢
        omega
      rw [hline]
      exact hmore
    · rw [List.length_append, hlength, List.length_singleton]
      simp only [cyclesScanline] at hend ⊢
      omega

/-- **The cycles of a scan** follow those before it. -/
theorem cut_fetches {fetches : List Fetch} {pos : ℕ} (h : Cut fetches pos) (s : Scanner) (n : ℕ) :
    Cut (fetches ++ s.fetches pos n) (pos + n) := by
  induction n with
  | zero =>
    have hnone : s.fetches pos 0 = [] := rfl
    rw [hnone, List.append_nil]
    exact h
  | succ n ih =>
    have hsucc : s.fetches pos (n + 1) =
        s.fetches pos n ++ [⟨pos + n, s.softswitches, s.appleIi64k⟩] := by
      rw [Scanner.fetches, List.range_succ, List.map_append]
      rfl
    rw [hsucc, ← List.append_assoc]
    exact cut_snoc (f := ⟨pos + n, s.softswitches, s.appleIi64k⟩) ih

/-! ## Where a call leaves the scanner -/

namespace Clock
variable {text : Bool} {k : Clock}

theorem update_pos (hflash : k.flash < 16) (hopen : k.dirty ≠ 0)
    (haligned : (k.frameLast + k.dirty) % cyclesScanline = 0) (hcan : k.CanScan text k.count) :
    if (k.update text).dirty = 0 then (k.frameLast + k.count) % cyclesScanline = 0
    else (k.frameLast + k.count) % cyclesFrame = (k.update text).frameLast % cyclesFrame := by
  rw [update, if_neg hopen, rest_dirty]
  split_ifs with hzero
  · have hend := after_scanline hflash hcan (Or.inl haligned)
    rw [hzero, Nat.add_zero] at hend
    rw [← after_frameLast_scanline text k k.count]
    exact hend
  · rw [rest, if_neg hzero, after_frameLast_mod]

theorem setDirty_pos (text : Bool) (hbehind : k.touch.Behind)
    (hcount : k.touch.count = k.touch.gap) :
    (k.touch.frameLast + k.touch.count) % cyclesFrame =
      (k.setDirty text).frameLast % cyclesFrame := by
  have hall := after_all text hbehind hcount
  have hlast : (k.setDirty text).frameLast = (k.touch.after text k.touch.count).frameLast := by
    simp only [setDirty, rest]
    split_ifs
    · exact hall.symm
    · rfl
  rw [hlast, after_frameLast_mod]

end Clock

/-! ## Runs -/

theorem drawnFrom_eq (s : Scanner) (pos n : ℕ) :
    drawnFrom s pos n = (s.fetches pos n).filterMap Fetch.column := by
  rw [drawnFrom, Scanner.fetches, List.filterMap_map, List.filterMap_eq_flatMap_toList]
  rfl

/-- The columns of an operation are those of the cycles that it scans. -/
theorem columns_fetches (s : Scanner) (op : Op) :
    op.columns s = (op.fetches s).filterMap Fetch.column := by
  have hupdate : updateColumns s = (Op.update.fetches s).filterMap Fetch.column := by
    rw [updateColumns, Op.fetches]
    split_ifs
    · rfl
    · exact drawnFrom_eq s _ _
  cases op with
  | setDirty => exact drawnFrom_eq s _ _
  | update => exact hupdate
  | endBatch => exact hupdate
  | run n => rfl
  | checkpoint => rfl
  | setSwitches softswitches => rfl
  | store bank addr b => rfl
  | reset => rfl

/-- What a run keeps: the cycles that it scanned are whole lines, and the part of the current line
that was passed; when nothing is dirty, there is no such part. -/
def Passing (s : Scanner) (fetches : List Fetch) : Prop :=
  if s.time.dirty = 0 then ∃ lines : List Line, fetches = lines.flatMap Line.fetches
  else Cut fetches s.time.frameLast

section Runs
variable {s t : Scanner} {since : ℕ} {op : Op} {ops : List Op} {fetches : List Fetch}

theorem Passing.update (h : Passing s fetches) (hready : Ready s) (hnear : s.time.Near since)
    (hsince : since < cyclesFrame)
    (htime : t.time = s.time.update (flashes s.softswitches)) :
    Passing t (fetches ++ Op.update.fetches s) := by
  unfold Passing at h ⊢
  rw [htime]
  by_cases hidle : s.time.dirty = 0
  · have hnone : Op.update.fetches s = [] := if_pos hidle
    rw [if_pos hidle] at h
    obtain ⟨lines, rfl⟩ := h
    rw [hnone, List.append_nil]
    split_ifs with hzero
    · exact ⟨lines, rfl⟩
    · have hskip : s.time.update (flashes s.softswitches) = s.time.skip (flashes s.softswitches) :=
        if_pos hidle
      rw [hskip] at hzero ⊢
      exact cut_lines lines (by rw [(Clock.skip_dirty hidle hzero).1]; rfl)
  · have hsome : Op.update.fetches s = s.fetches s.time.frameLast s.time.count := if_neg hidle
    rw [if_neg hidle] at h
    have hbehind : s.time.Behind := Nat.le_of_add_right_le hnear.behind
    have hcan := ((Clock.safe_iff hnear.flash hbehind hidle).mpr
      (hnear.safe hsince (flashes s.softswitches))).1
    have hpos := Clock.update_pos hnear.flash hidle (hready.aligned hidle) hcan
    have hcut := cut_fetches h s s.time.count
    rw [hsome]
    split_ifs at hpos ⊢
    · exact cut_start hcut hpos
    · exact cut_congr hcut hpos

theorem Passing.setDirty (h : Passing s fetches) (hnear : s.time.Near since)
    (hsince : since < cyclesFrame)
    (htime : t.time = s.time.setDirty (flashes s.softswitches)) :
    Passing t (fetches ++ Op.setDirty.fetches s) := by
  have hopen : (s.time.setDirty (flashes s.softswitches)).dirty ≠ 0 := by
    simp only [Clock.setDirty, cyclesFrame_eq]
    omega
  have hbehind : s.time.touch.Behind := Clock.touch_behind (Nat.le_of_add_right_le hnear.behind)
  have hcount := Clock.touch_count (hnear.touch_gap hsince)
  have hpos := Clock.setDirty_pos (flashes s.softswitches) hbehind hcount
  have hstart : Cut fetches s.time.touch.frameLast := by
    unfold Passing at h
    by_cases hidle : s.time.dirty = 0
    · rw [if_pos hidle] at h
      obtain ⟨lines, rfl⟩ := h
      apply cut_lines
      simp only [Clock.touch, hidle, if_true, cyclesScanline]
      omega
    · rw [if_neg hidle] at h
      simp only [Clock.touch, hidle, if_false]
      exact h
  unfold Passing
  rw [htime, if_neg hopen]
  exact cut_congr (cut_fetches hstart s s.time.touch.count) hpos

/-- **One step.** -/
theorem Passing.step (h : Passing s fetches) (htracked : Tracked s since (op :: ops))
    (hreset : op ≠ .reset) (hstep : Stepped op s t) : Passing t (fetches ++ op.fetches s) := by
  have hsince : since < cyclesFrame := htracked.close.here
  have htime := hstep.time
  have hsame : t.time.dirty = s.time.dirty → t.time.frameLast = s.time.frameLast →
      Passing t (fetches ++ []) := by
    intro hdirty hlast
    rw [List.append_nil, Passing, hdirty, hlast]
    exact h
  cases op with
  | setDirty => exact h.setDirty htracked.near hsince htime
  | update => exact h.update htracked.ready htracked.near hsince htime
  | endBatch => exact h.update htracked.ready htracked.near hsince htime
  | reset => exact absurd rfl hreset
  | run n => exact hsame (by rw [htime]; rfl) (by rw [htime]; rfl)
  | checkpoint => exact hsame (by rw [htime]; rfl) (by rw [htime]; rfl)
  | setSwitches softswitches => exact hsame (by rw [htime]; rfl) (by rw [htime]; rfl)
  | store bank addr b => exact hsame (by rw [htime]; rfl) (by rw [htime]; rfl)

/-- **A run** draws the cycles that it scans, and these are lines. -/
theorem run_passing (h : Passing s fetches) (htracked : Tracked s since ops)
    (hreset : Op.reset ∉ ops) :
    ∃ t, runFrom s ops = .ok t ∧ Passing t (fetches ++ fetched s ops) ∧
      columns t.log = columns s.log ++ (fetched s ops).filterMap Fetch.column := by
  induction ops generalizing s since fetches with
  | nil =>
    refine ⟨s, rfl, ?_, ?_⟩
    · simpa [fetched] using h
    · simp [fetched]
  | cons op ops ih =>
    rw [List.mem_cons, not_or] at hreset
    obtain ⟨u, hu, hstep, hmore⟩ := htracked.step
    obtain ⟨t, ht, hpassing, hcolumns⟩ :=
      ih (h.step htracked (fun heq => hreset.1 heq.symm) hstep) hmore hreset.2
    have hfetched : fetched s (op :: ops) = op.fetches s ++ fetched u ops := by
      rw [fetched, hu]
    refine ⟨t, ?_, ?_, ?_⟩
    · rw [runFrom, runM_cons_ok ops hu]
      exact ht
    · rw [hfetched, ← List.append_assoc]
      exact hpassing
    · rw [hcolumns, hstep.columns, columns_fetches, hfetched, List.filterMap_append,
        List.append_assoc]

end Runs

/-- **Coverage of the scanlines.** After a reset, the cycles that the scanner passes are whole lines
and, while it is dirty, the start of the line that it is in. What it flushes are the columns of the
lines, each line once and from column 0 to 39, and those of the line that it is in. -/
theorem scanline_coverage (softswitches : BitVec 32) (appleIi64k : ℕ → UInt16 → UInt8)
    (before ops : List Op) (hclose : Close (before ++ .reset :: ops)) (hreset : Op.reset ∉ ops) :
    ∃ (s t : Scanner) (lines : List Line) (part : List Fetch),
      runFrom (start softswitches appleIi64k) (before ++ [.reset]) = .ok s ∧
      runFrom s ops = .ok t ∧
      fetched s ops = lines.flatMap Line.fetches ++ part ∧
      (t.cyclesDirty = 0 → part = []) ∧
      OnLine ((t.cyclesFrameLast / cyclesScanline) % scanlinesFrame) part ∧
      (t.cyclesDirty ≠ 0 → part.length = t.cyclesFrameLast % cyclesScanline) ∧
      columns t.log = columns s.log ++ lines.flatMap Line.columns ++
        part.filterMap Fetch.column := by
  obtain ⟨r, since, hr, htracked⟩ := (start_tracked softswitches appleIi64k hclose).run
  obtain ⟨s, hs, hstep, hmore⟩ := htracked.step
  have hstart : Passing s [] := by
    unfold Passing
    rw [hstep.time]
    split_ifs
    · exact ⟨[], rfl⟩
    · exact cut_nil rfl
  obtain ⟨t, ht, hpassing, hcolumns⟩ := run_passing hstart hmore hreset
  have hrun : runFrom (start softswitches appleIi64k) (before ++ [.reset]) = .ok s := by
    refine runM_append_ok hr ?_
    rw [runM_cons_ok [] hs]
    rfl
  have hlines : ∀ lines : List Line, (lines.flatMap Line.fetches).filterMap Fetch.column =
      lines.flatMap Line.columns := by
    intro lines
    rw [List.filterMap_flatMap]
    exact congrArg (fun f => lines.flatMap f) (funext Line.columns_eq)
  rw [List.nil_append] at hpassing
  unfold Passing at hpassing
  split_ifs at hpassing with hidle
  · obtain ⟨lines, heq⟩ := hpassing
    refine ⟨s, t, lines, [], hrun, ht, ?_, fun _ => rfl, OnLine.nil _, fun hopen =>
      absurd hidle hopen,
      ?_⟩
    · rw [heq, List.append_nil]
    · rw [hcolumns, heq, hlines, List.filterMap_nil, List.append_nil]
  · obtain ⟨lines, part, heq, honline, hlength⟩ := hpassing
    refine ⟨s, t, lines, part, hrun, ht, heq, fun hzero => absurd hzero hidle, honline,
      fun _ => hlength, ?_⟩
    rw [hcolumns, heq, List.filterMap_append, hlines, List.append_assoc]

theorem scanline_coverage_two_calls :
    ∃ (s t : Scanner) (lines : List Line) (part : List Fetch),
      runFrom (start 0 fun _ _ => 0) ([] ++ [.reset]) = .ok s ∧
      runFrom s [.run 40, .setDirty, .run 90, .update] = .ok t ∧
      fetched s [.run 40, .setDirty, .run 90, .update] = lines.flatMap Line.fetches ++ part ∧
      (t.cyclesDirty = 0 → part = []) ∧
      OnLine ((t.cyclesFrameLast / cyclesScanline) % scanlinesFrame) part ∧
      (t.cyclesDirty ≠ 0 → part.length = t.cyclesFrameLast % cyclesScanline) ∧
      columns t.log = columns s.log ++ lines.flatMap Line.columns ++
        part.filterMap Fetch.column :=
  scanline_coverage 0 (fun _ _ => 0) [] [.run 40, .setDirty, .run 90, .update]
    (by unfold Close; decide) (by simp)

end Apple2ix.Video.Scanning
