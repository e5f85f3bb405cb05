import Apple2ix.Video.ColourStream

/-! A scanline in colour, from the calls of its plotter: a call leaves the line plotted up to its
last column, and the last one flushes it. -/
namespace Apple2ix.Video.Plotting
open Loops Scanning BitStreams
set_option autoImplicit false

variable {g : Graphics} {p : Palette} {mode : ColorMode} {scanrow col : ℕ} {line : ℕ → UInt8}
  {fb : ℕ → UInt32} {d : Display}

/-! ## Calls -/

/-- Calls that plot the columns of a line from `col` to the last, one after the other. A call has
the bytes of its own columns; what else is in its buffer does not matter. -/
def Cut (scanrow : ℕ) (line : ℕ → UInt8) : ℕ → List ScanData → Prop
  | col, [] => col = textCols
  | col, scandata :: calls =>
    scandata.scanrow = scanrow ∧ scandata.scancol = col ∧ col ≤ scandata.scanend ∧
      (∀ i, 2 * col ≤ i → i < 2 * scandata.scanend → scandata.scanline i = line i) ∧
      Cut scanrow line scandata.scanend calls

/-- A line that is plotted call by call. -/
def plotLine (g : Graphics) (p : Palette) (mode : ColorMode) (calls : List ScanData) (d : Display) :
    Display :=
  calls.foldl (fun d scandata => plotter g p mode scandata d) d

theorem Cut.le {calls : List ScanData} (h : Cut scanrow line col calls) : col ≤ 40 := by
  induction calls generalizing col with
  | nil => exact Nat.le_of_eq h
  | cons scandata calls ih =>
    obtain ⟨-, -, hle, -, hrest⟩ := h
    exact Nat.le_trans hle (ih hrest)

/-! ## Columns -/

/-- A display in the middle of a line. -/
structure OnLine (g : Graphics) (p : Palette) (mode : ColorMode) (scanrow : ℕ) (line : ℕ → UInt8)
    (fb : ℕ → UInt32) (col : ℕ) (d : Display) : Prop extends
    AtColumn p (colors g p mode) (rowStart scanrow) fb (lineBits g scanrow line) col d where
  scanLastBit : d.scanLastBit = carry g line col

theorem onLine_zero (hsignal : d.ntscSignalBits = 0) (hlast : d.scanLastBit = 0) :
    OnLine g p mode scanrow line d.fbFull 0 d where
  fbFull := painted_zero.symm
  signal := by rw [hsignal, Nat.mul_zero, tail_zero]
  scanLastBit := by
    rw [hlast]
    cases g <;> rfl

theorem plot_oldschool (hmode : mode = .color ∨ mode = .interp) (bits14 : UInt16) (col : ℕ)
    (colors : ℕ → UInt32) (fbOff : ℕ) (d : Display) :
    plot p mode bits14 col colors fbOff d = plotOldschool p bits14 col colors fbOff d := by
  obtain rfl | rfl := hmode
  · rfl
  · rfl

/-- The body of the loop of a plotter. -/
theorem OnLine.plotted (h : OnLine g p mode scanrow line fb col d)
    (hmode : mode = .color ∨ mode = .interp) (hcol : col < 40) :
    OnLine g p mode scanrow line fb (col + 1)
      (plot p mode (column g scanrow line col d.scanLastBit).1 col (colors g p mode)
        (rowStart scanrow + 4 + 14 * col)
        { d with scanLastBit := (column g scanrow line col d.scanLastBit).2 }) := by
  have hat : AtColumn p (colors g p mode) (rowStart scanrow) fb (lineBits g scanrow line) col
      { d with scanLastBit := (column g scanrow line col d.scanLastBit).2 } := ⟨h.fbFull, h.signal⟩
  have hbits := column_agrees g scanrow line hcol
  rw [← h.scanLastBit] at hbits
  rw [plot_oldschool hmode]
  refine ⟨hat.plotted hcol hbits, ?_⟩
  change (column g scanrow line col d.scanLastBit).2 = _
  rw [h.scanLastBit, column_carry]

/-- The loop of a plotter, and what it leaves to the flush. -/
theorem OnLine.columns {scandata : ScanData} (h : OnLine g p mode scanrow line fb col d)
    (hmode : mode = .color ∨ mode = .interp) (hrow : scanrow < 192)
    (hscanrow : scandata.scanrow = scanrow) (hscancol : scandata.scancol = col)
    (hle : col ≤ scandata.scanend) (hend : scandata.scanend ≤ 40)
    (hline : ∀ i, 2 * col ≤ i → i < 2 * scandata.scanend → scandata.scanline i = line i) :
    ∃ e, OnLine g p mode scanrow line fb scandata.scanend e ∧
      plotter g p mode scandata d =
        flush (scandata.scanend >>> 3) p mode (rowStart scanrow + 4) e := by
  rw [plotter_eq, plotScanline, hscanrow, hscancol]
  have hbase := address_eq g hrow (show 0 < 40 by decide)
  rw [Nat.mul_zero, Nat.add_zero, Nat.add_zero] at hbase
  rw [hbase]
  refine ⟨_, ?_, rfl⟩
  suffices hloop : OnLine g p mode scanrow line fb (col + (scandata.scanend - col)) _ by
    rw [Nat.add_sub_cancel' hle] at hloop
    exact hloop
  refine forUp_invariant (fun i d => OnLine g p mode scanrow line fb (col + i) d)
    (scandata.scanend - col) h ?_
  intro i d hi hd
  have haux : scandata.scanline ((col + i) <<< 1) = line ((col + i) <<< 1) := by
    rw [Nat.shiftLeft_eq]
    exact hline _ (by omega) (by omega)
  have hmbd : scandata.scanline (((col + i) <<< 1) + 1) = line (((col + i) <<< 1) + 1) := by
    rw [Nat.shiftLeft_eq]
    exact hline _ (by omega) (by omega)
  simp only [column_congr g scanrow haux hmbd, address_eq g hrow (show col + i < 40 by omega)]
  exact hd.plotted hmode (by omega)

/-! ## The end of the line -/

/-- The pixels of a line that is plotted. What the flush puts into the right margin does not
matter. -/
structure Plotted (g : Graphics) (p : Palette) (mode : ColorMode) (scanrow : ℕ)
    (line : ℕ → UInt8) (fb fbFull : ℕ → UInt32) : Prop where
  upper : ∀ n, n < 564 → fbFull (rowStart scanrow + n) =
    upperRow (lineBits g scanrow line) (colors g p mode) n
  lower : ∀ n, n < 564 → fbFull (rowStart scanrow + scanwidth + n) =
    scanlineColor p (upperRow (lineBits g scanrow line) (colors g p mode) n)
  outside : ∀ q, q < rowStart scanrow ∨ rowStart scanrow + 2 * scanwidth ≤ q → fbFull q = fb q

/-- A line that is plotted and flushed. -/
structure Finished (g : Graphics) (p : Palette) (mode : ColorMode) (scanrow : ℕ)
    (line : ℕ → UInt8) (fb : ℕ → UInt32) (d : Display) : Prop extends
    Plotted g p mode scanrow line fb d.fbFull where
  signal : d.ntscSignalBits = 0
  scanLastBit : d.scanLastBit = 0

theorem OnLine.pixels (h : OnLine g p mode scanrow line fb 40 d) :
    Plotted g p mode scanrow line fb d.fbFull := by
  have hall : 4 * groups 40 = 564 := rfl
  have hfb := h.fbFull
  rw [hall] at hfb
  constructor
  · intro n hn
    rw [hfb, painted_upper hn]
  · intro n hn
    rw [hfb, painted_lower (by rw [scanwidth_eq]; decide) hn]
  · intro q hq
    rw [hfb, painted_outside (by rw [scanwidth_eq]; decide) hq]

theorem flushScanline_frame (p : Palette) (hmode : mode = .color ∨ mode = .interp) (fbOff : ℕ)
    (d : Display) {q : ℕ}
    (hq : ∀ i, i < 4 → q ≠ fbOff + lineWidth + i ∧ q ≠ fbOff + lineWidth + i + scanwidth) :
    (flushScanline p mode fbOff d).fbFull q = d.fbFull q := by
  have hpixel : ∀ fbPtr d, pixelPlotter p mode 0 fbPtr d =
      updateFbCommon p 0 fbPtr p.monoPixelsMonitor d := by
    intro fbPtr d
    obtain rfl | rfl := hmode
    · rfl
    · rfl
  refine forUp_invariant (fun _ (e : Display) => e.fbFull q = d.fbFull q) 4 rfl ?_
  intro i e hi he
  rw [hpixel, updateFbCommon]
  change Function.update (Function.update e.fbFull _ _) _ _ q = _
  rw [Function.update_of_ne (hq i hi).2, Function.update_of_ne (hq i hi).1, he]

/-- The flush writes the right margin only, and leaves nothing carried. -/
theorem Plotted.flush (h : Plotted g p mode scanrow line fb d.fbFull)
    (hmode : mode = .color ∨ mode = .interp) :
    Finished g p mode scanrow line fb (flushScanline p mode (rowStart scanrow + 4) d) where
  upper n hn := by
    rw [flushScanline_frame p hmode, h.upper n hn]
    rw [scanwidth_eq, lineWidth_eq]
    omega
  lower n hn := by
    rw [flushScanline_frame p hmode, h.lower n hn]
    rw [scanwidth_eq, lineWidth_eq]
    omega
  outside q hq := by
    rw [flushScanline_frame p hmode, h.outside q hq]
    rw [scanwidth_eq] at hq ⊢
    rw [lineWidth_eq]
    omega
  signal := rfl
  scanLastBit := rfl

/-! ## The whole line -/

/-- How far a line has come. -/
inductive Reached (g : Graphics) (p : Palette) (mode : ColorMode) (scanrow : ℕ)
    (line : ℕ → UInt8) (fb : ℕ → UInt32) : ℕ → Display → Prop
  | online {col : ℕ} {d : Display} (hcol : col < 40)
      (h : OnLine g p mode scanrow line fb col d) : Reached g p mode scanrow line fb col d
  | finished {d : Display} (h : Finished g p mode scanrow line fb d) :
      Reached g p mode scanrow line fb 40 d

/-- **The call step.** -/
theorem Reached.call {scandata : ScanData} (h : Reached g p mode scanrow line fb col d)
    (hmode : mode = .color ∨ mode = .interp) (hrow : scanrow < 192)
    (hscanrow : scandata.scanrow = scanrow) (hscancol : scandata.scancol = col)
    (hle : col ≤ scandata.scanend) (hend : scandata.scanend ≤ 40)
    (hline : ∀ i, 2 * col ≤ i → i < 2 * scandata.scanend → scandata.scanline i = line i) :
    Reached g p mode scanrow line fb scandata.scanend (plotter g p mode scandata d) := by
  cases h with
  | online hcol h =>
    obtain ⟨e, he, hplot⟩ := h.columns hmode hrow hscanrow hscancol hle hend hline
    rw [hplot, flush]
    by_cases h40 : scandata.scanend = 40
    · rw [h40] at he ⊢
      exact .finished (he.pixels.flush hmode)
    · have hidx : scandata.scanend >>> 3 ≠ 5 := by
        rw [Nat.shiftRight_eq_div_pow]
        omega
      rw [if_neg hidx]
      exact .online (by omega) he
  | finished h =>
    -- a call without columns flushes the line once more
    have h40 : scandata.scanend = 40 := by omega
    have hbase := address_eq g hrow (show 0 < 40 by decide)
    rw [Nat.mul_zero, Nat.add_zero, Nat.add_zero] at hbase
    rw [plotter_eq, plotScanline, hscanrow, hscancol, h40, Nat.sub_self, forUp_zero, hbase]
    exact .finished (h.toPlotted.flush hmode)

theorem Reached.plotLine {calls : List ScanData} (h : Reached g p mode scanrow line fb col d)
    (hmode : mode = .color ∨ mode = .interp) (hrow : scanrow < 192)
    (hcut : Cut scanrow line col calls) :
    Finished g p mode scanrow line fb (plotLine g p mode calls d) := by
  induction calls generalizing col d with
  | nil =>
    have hcol : col = 40 := hcut
    cases h with
    | online hlt _ => exact absurd hcol (Nat.ne_of_lt hlt)
    | finished h => exact h
  | cons scandata calls ih =>
    obtain ⟨hscanrow, hscancol, hle, hline, hrest⟩ := hcut
    exact ih (h.call hmode hrow hscanrow hscancol hle hrest.le hline) hrest

/-- The bits of a line end with it; double hires shifts one out. -/
theorem lineBits_end (g : Graphics) (scanrow : ℕ) (line : ℕ → UInt8) {n : ℕ} (hn : 560 ≤ n)
    (hbit : (lineBits g scanrow line).testBit n = true) : g = .hires80 ∧ n = 560 := by
  have habove : ∀ word : ℕ → ℕ, (∀ col, word col < 2 ^ 14) → ∀ n, 560 ≤ n →
      (pack 14 word textCols).testBit n = false := fun word hword n hn =>
    testBit_pack_above (fun col _ => hword col) hn
  cases g with
  | lores40 =>
    rw [lineBits, habove _ (fun _ => lores40Bits_lt _ _ _) n hn] at hbit
    exact absurd hbit Bool.false_ne_true
  | lores80 =>
    rw [lineBits, habove _ (fun _ => lores80Bits_lt _ _ _ _) n hn] at hbit
    exact absurd hbit Bool.false_ne_true
  | hires40 =>
    rw [lineBits, habove _ (fun _ => hires40Bits_lt _ _) n hn] at hbit
    exact absurd hbit Bool.false_ne_true
  | hires80 =>
    refine ⟨rfl, ?_⟩
    by_contra hne
    rw [lineBits, Nat.testBit_shiftLeft, habove _ (hires80Word_lt line) (n - 1) (by omega),
      Bool.and_false] at hbit
    exact absurd hbit Bool.false_ne_true

/-- **A line in colour.** However the columns of a line are cut into calls of its plotter, its 140
groups are looked up with the bits of the whole line, in the row and dimmed in the row below;
nothing outside these two rows is written, and nothing is carried into the next line. -/
theorem plotLine_eq_wholeLine (g : Graphics) (p : Palette) (mode : ColorMode)
    (hmode : mode = .color ∨ mode = .interp) (scanrow : ℕ) (hrow : scanrow < scanlinesVis)
    (line : ℕ → UInt8) (calls : List ScanData) (hcut : Cut scanrow line 0 calls) (d : Display)
    (hsignal : d.ntscSignalBits = 0) (hlast : d.scanLastBit = 0) :
    let e := plotLine g p mode calls d
    let s := lineBits g scanrow line
    let pixel := rowStart scanrow + fbOff
    (∀ k, k < 140 → ∀ j, j < 4 →
      e.fbFull (pixel + 4 * k + j) = colors g p mode (4 * colorIndex s k + j) ∧
      e.fbFull (pixel + scanwidth + 4 * k + j) =
        scanlineColor p (colors g p mode (4 * colorIndex s k + j))) ∧
    (∀ n, 560 ≤ n → s.testBit n = true → g = .hires80 ∧ n = 560) ∧
    (∀ q, q < rowStart scanrow ∨ rowStart scanrow + 2 * scanwidth ≤ q →
      e.fbFull q = d.fbFull q) ∧
    e.ntscSignalBits = 0 ∧ e.scanLastBit = 0 := by
  intro e s pixel
  have hstart : Reached g p mode scanrow line d.fbFull 0 d :=
    .online (by decide) (onLine_zero hsignal hlast)
  have hdone := hstart.plotLine hmode hrow hcut
  refine ⟨fun k hk j hj => ?_, fun n hn hbit => lineBits_end g scanrow line hn hbit, hdone.outside,
    hdone.signal, hdone.scanLastBit⟩
  have hpixel : upperRow s (colors g p mode) (4 * (k + 1) + j) =
      colors g p mode (4 * colorIndex s k + j) := by
    rw [upperRow_pixel s _ (k + 1) hj, groupWindow_succ, Nat.mul_comm]
  have hup : pixel + 4 * k + j = rowStart scanrow + (4 * (k + 1) + j) := by
    simp only [pixel, fbOff]
    omega
  have hlow : pixel + scanwidth + 4 * k + j =
      rowStart scanrow + scanwidth + (4 * (k + 1) + j) := by
    simp only [pixel, fbOff]
    omega
  rw [hup, hlow, hdone.upper _ (by omega), hdone.lower _ (by omega), hpixel]
  exact ⟨rfl, rfl⟩

/-- A line of double hires, in three calls. -/
theorem plotLine_eq_wholeLine_cut :
    let p : Palette := ⟨fun _ i => UInt32.ofNat i, fun _ i => UInt32.ofNat i,
      fun i => UInt32.ofNat i, fun i => UInt32.ofNat i, fun _ i => UInt32.ofNat i,
      fun _ i => UInt32.ofNat i, true, true⟩
    let line : ℕ → UInt8 := fun i => UInt8.ofNat (i * i)
    let calls : List ScanData :=
      [⟨line, 0, 17, 0, 13⟩, ⟨line, 0, 17, 13, 24⟩, ⟨line, 0, 17, 24, 40⟩]
    let e := plotLine .hires80 p .interp calls ⟨fun _ => 0, 0, 0, 0⟩
    e.ntscSignalBits = 0 ∧ e.scanLastBit = 0 := by
  intro p line calls e
  have h := plotLine_eq_wholeLine .hires80 p .interp (.inr rfl) 17 (by decide) line calls
    ⟨rfl, rfl, by decide, fun _ _ _ => rfl, rfl, rfl, by decide, fun _ _ _ => rfl,
      rfl, rfl, by decide, fun _ _ _ => rfl, rfl⟩ ⟨fun _ => 0, 0, 0, 0⟩ rfl rfl
  exact h.2.2.2

end Apple2ix.Video.Plotting
