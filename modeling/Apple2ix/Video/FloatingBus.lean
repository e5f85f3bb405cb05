import Apple2ix.Video.ScannerRuns
import Apple2ix.Vm.RomDispatch

/-! The floating bus against the picture: `video_scannerAddress` recomputes from the cycle count the
address that `video_scannerUpdate` fetched two cycles earlier. -/
namespace Apple2ix.Video.Scanning
open Vm
set_option autoImplicit false

/-! ## The earlier position -/

/-- The position two cycles earlier in the frame. -/
def earlier (cyclesVideoFrame : ℕ) : ℕ := (cyclesVideoFrame + (cyclesFrame - 2)) % cyclesFrame

def lineOf (pos : ℕ) : ℕ := pos / cyclesScanline
def columnOf (pos : ℕ) : ℕ := pos % cyclesScanline

/-- A scanline below SCANLINES_VBL_BEGIN and a column at or after CYCLES_VIS_BEGIN. -/
def Visible (pos : ℕ) : Prop := lineOf pos < scanlinesVblBegin ∧ cyclesVisBegin ≤ columnOf pos

theorem earlier_lt (cyclesVideoFrame : ℕ) : earlier cyclesVideoFrame < cyclesFrame :=
  Nat.mod_lt _ (by decide)

/-- The mode `video_scannerAddress` takes for a line. -/
def addressMode (softswitches : BitVec 32) (vCount : ℕ) : DrawpageMode :=
  if vCount < scanlinesVis then videoCurrentMainMode softswitches
  else videoCurrentMixedMode softswitches

/-- The borrow of two cycles across the ends of a line and of the frame. -/
theorem videoScannerAddress_earlier (softswitches : BitVec 32) (cyclesVideoFrame : ℕ) :
    videoScannerAddress softswitches cyclesVideoFrame =
      getScannerAddress (addressMode softswitches (lineOf (earlier cyclesVideoFrame)))
        (videoCurrentPage softswitches) (lineOf (earlier cyclesVideoFrame))
        (columnOf (earlier cyclesVideoFrame)) := by
  have hposition : (if cyclesVideoFrame % cyclesScanline < 2 then
        (if cyclesVideoFrame / cyclesScanline % scanlinesFrame = 0 then scanlinesFrame - 1
          else cyclesVideoFrame / cyclesScanline % scanlinesFrame - 1,
          cyclesVideoFrame % cyclesScanline + cyclesScanline - 2)
      else (cyclesVideoFrame / cyclesScanline % scanlinesFrame,
        cyclesVideoFrame % cyclesScanline - 2)) =
      (lineOf (earlier cyclesVideoFrame), columnOf (earlier cyclesVideoFrame)) := by
    by_cases hcol : cyclesVideoFrame % cyclesScanline < 2
    · by_cases hline : cyclesVideoFrame / cyclesScanline % scanlinesFrame = 0
      · rw [if_pos hcol, if_pos hline]
        simp only [lineOf, columnOf, earlier, cyclesFrame_eq, cyclesScanline, scanlinesFrame,
          Prod.mk.injEq] at hcol hline ⊢
        omega
      · rw [if_pos hcol, if_neg hline]
        simp only [lineOf, columnOf, earlier, cyclesFrame_eq, cyclesScanline, scanlinesFrame,
          Prod.mk.injEq] at hcol hline ⊢
        omega
    · rw [if_neg hcol]
      simp only [lineOf, columnOf, earlier, cyclesFrame_eq, cyclesScanline, scanlinesFrame,
        Prod.mk.injEq] at hcol ⊢
      omega
  unfold videoScannerAddress
  dsimp only
  rw [hposition]
  rfl

/-! ## What is on screen there -/

/-- The memory of the machine, as the scanner reads it. -/
def videoMemory (vm : Machine) (bank : ℕ) (addr : UInt16) : UInt8 :=
  vm.load (Ptr.appleIi64k bank) addr

/-- A scanner between two calls, that finds the switches and the memory of `vm`. -/
structure Sees (vm : Machine) (s : Scanner) : Prop where
  ready : Ready s
  softswitches : s.softswitches = vm.softswitches
  appleIi64k : s.appleIi64k = videoMemory vm

/-- A call of `video_scannerUpdate` runs over `pos`. -/
def Scanner.RunsOver (s : Scanner) (pos : ℕ) : Prop :=
  s.cyclesDirty ≠ 0 ∧ ∃ i < s.time.count, (s.cyclesFrameLast + i) % cyclesFrame = pos

/-- The column of the screen that belongs to `pos`. -/
def Column.At (c : Column) (pos : ℕ) : Prop :=
  c.row = lineOf pos ∧ c.col + cyclesVisBegin = columnOf pos

/-- Every call that runs over the position two cycles earlier draws it, with the byte that
`floating_bus` returns. -/
def FloatingBusAgrees (bus : Bus) (vm : Machine) : Prop :=
  ∀ s u, Sees vm s → s.RunsOver (earlier bus.cyclesVideoFrame) → videoScannerUpdate s = .ok u →
    ∃ drawn, columns u.log = columns s.log ++ drawn ∧
      (∃ c ∈ drawn, c.At (earlier bus.cyclesVideoFrame)) ∧
      ∀ c ∈ drawn, c.At (earlier bus.cyclesVideoFrame) → c.mbd = floatingBus bus vm

/-- The scanner draws the four lowest text rows from the text page when MIXED is on. The floating
bus does not, so the bytes of the two pages have to be the same. -/
def SamePages (bus : Bus) (vm : Machine) : Prop :=
  let pos := earlier bus.cyclesVideoFrame
  let page := videoCurrentPage vm.softswitches
  lineOf pos < scanlinesMix ∨ vm.has .ssText = true ∨ vm.has .ssMixed = false ∨
    vm.has .ssHires = false ∨
    videoMemory vm 0 (getScannerAddress .text page (lineOf pos) (columnOf pos)) =
      videoMemory vm 0 (getScannerAddress .hires page (lineOf pos) (columnOf pos))

section Column
variable {softswitches : BitVec 32} {appleIi64k : ℕ → UInt16 → UInt8}

/-- The main byte that the scanner puts at a position. -/
def mainByte (softswitches : BitVec 32) (appleIi64k : ℕ → UInt16 → UInt8) (pos : ℕ) : UInt8 :=
  appleIi64k 0 (getScannerAddress (currentMode softswitches (lineOf pos))
    (videoCurrentPage softswitches) (lineOf pos) (columnOf pos))

theorem scanColumn_at {pos : ℕ} (hlt : pos < cyclesFrame) (hvisible : Visible pos) :
    ∃ c, scanColumn softswitches appleIi64k pos = some c ∧ c.At pos ∧
      c.mbd = mainByte softswitches appleIi64k pos := by
  obtain ⟨hline, hcolumn⟩ := hvisible
  have hv : pos / cyclesScanline % scanlinesFrame = lineOf pos := by
    simp only [lineOf, cyclesFrame_eq, cyclesScanline, scanlinesFrame] at hlt ⊢
    omega
  have hshown : isVisible (lineOf pos) (pos % cyclesScanline) = true := by
    rw [isVisible, Bool.and_eq_true, decide_eq_true_eq, decide_eq_true_eq]
    exact ⟨hcolumn, hline⟩
  unfold scanColumn
  simp only [hv, hshown, if_true]
  exact ⟨_, rfl, ⟨rfl, Nat.sub_add_cancel hcolumn⟩, rfl⟩

/-- A column belongs to one position of the frame. -/
theorem scanColumn_eq {p q : ℕ} {c : Column} (hc : scanColumn softswitches appleIi64k p = some c)
    (hlt : q < cyclesFrame) (hat : c.At q) : p % cyclesFrame = q := by
  obtain ⟨hrow, hcol⟩ := hat
  simp only [scanColumn] at hc
  split at hc
  · next hshown =>
    rw [isVisible, Bool.and_eq_true, decide_eq_true_eq, decide_eq_true_eq] at hshown
    cases hc
    have hcolumn := Nat.sub_add_cancel hshown.1
    rw [hcolumn] at hcol
    simp only [lineOf, columnOf, cyclesFrame_eq, cyclesScanline, scanlinesFrame] at hrow hcol hlt ⊢
    omega
  · cases hc

end Column

section Calls
variable {vm : Machine} {s u : Scanner}

/-- The columns a call draws. -/
theorem Sees.drawn (h : Sees vm s) (hdirty : s.cyclesDirty ≠ 0)
    (hu : videoScannerUpdate s = .ok u) :
    columns u.log = columns s.log ++ drawnFrom s s.cyclesFrameLast s.time.count := by
  have hready := h.ready
  have haligned : (s.time.frameLast + s.time.dirty) % cyclesScanline = 0 := hready.aligned hdirty
  by_cases hcan : s.time.CanScan (flashes s.softswitches) s.time.count
  · obtain ⟨v, hv, -, -, hcolumns, -⟩ := videoScannerUpdate_scan hready.checkpoint hready.flash
      (hready.entered_flushed hdirty) hready.time_behind hdirty hcan (Or.inl haligned)
    rw [hu] at hv
    cases hv
    exact hcolumns
  · rw [videoScannerUpdate_stops hready.checkpoint hready.flash (hready.entered_flushed hdirty)
      hready.time_behind hdirty hcan] at hu
    cases hu

/-- A call that runs over a visible position draws its column, each time with the main byte. -/
theorem Sees.runsOver (h : Sees vm s) {pos : ℕ} (hlt : pos < cyclesFrame) (hvisible : Visible pos)
    (hover : s.RunsOver pos) (hu : videoScannerUpdate s = .ok u) :
    ∃ drawn, columns u.log = columns s.log ++ drawn ∧ (∃ c ∈ drawn, c.At pos) ∧
      ∀ c ∈ drawn, c.At pos → c.mbd = mainByte vm.softswitches (videoMemory vm) pos := by
  obtain ⟨hdirty, i, hi, hpos⟩ := hover
  obtain ⟨c, hc, hat, hbyte⟩ : ∃ c, scanColumn vm.softswitches (videoMemory vm) pos = some c ∧
      c.At pos ∧ c.mbd = mainByte vm.softswitches (videoMemory vm) pos := scanColumn_at hlt hvisible
  have hsame : ∀ n, (s.cyclesFrameLast + n) % cyclesFrame = pos →
      scanColumn s.softswitches s.appleIi64k (s.cyclesFrameLast + n) = some c := by
    intro n hn
    rw [h.softswitches, h.appleIi64k, ← hc]
    exact scanColumn_congr _ _ (hn.trans (Nat.mod_eq_of_lt hlt).symm)
  refine ⟨drawnFrom s s.cyclesFrameLast s.time.count, h.drawn hdirty hu, ⟨c, ?_, hat⟩, ?_⟩
  · rw [drawnFrom, List.mem_flatMap]
    exact ⟨i, List.mem_range.mpr hi, Option.mem_toList.mpr (hsame i hpos)⟩
  · intro d hd hdat
    rw [drawnFrom, List.mem_flatMap] at hd
    obtain ⟨n, -, hn⟩ := hd
    rw [Option.mem_toList] at hn
    have hdpos := scanColumn_eq hn hlt hdat
    rw [hsame n hdpos, Option.some.injEq] at hn
    rw [← hn, hbyte]

/-- The scanner of a reset, with the cycles up to a position passed. -/
def resetAt (vm : Machine) (pos : ℕ) : Scanner :=
  { start vm.softswitches (videoMemory vm) with cpu65CycleCount := pos + 1 }

theorem resetAt_sees (vm : Machine) (pos : ℕ) : Sees vm (resetAt vm pos) := by
  have hready := start_ready vm.softswitches (videoMemory vm)
  refine ⟨?_, by simp only [resetAt, start], by simp only [resetAt, start]⟩
  exact hready.of_same rfl rfl rfl rfl rfl rfl (Nat.le_refl _) (Nat.zero_le _)

theorem resetAt_time (vm : Machine) (pos : ℕ) :
    (resetAt vm pos).time = ⟨0, pos + 1, cyclesFrame, 0, 0⟩ := by
  have htime : (resetAt vm pos).time = ⟨0, 0 + (pos + 1 - 0), cyclesFrame, 0, frames []⟩ := rfl
  rw [htime, Nat.zero_add, Nat.sub_zero, frames_nil]

theorem exists_runsOver (vm : Machine) {pos : ℕ} (hlt : pos < cyclesFrame) :
    ∃ s u, Sees vm s ∧ s.RunsOver pos ∧ videoScannerUpdate s = .ok u := by
  have hsees := resetAt_sees vm pos
  have hcount : (resetAt vm pos).time.count = pos + 1 := by
    rw [resetAt_time]
    exact Nat.min_eq_left hlt
  have hsafe : Clock.Safe (flashes (resetAt vm pos).softswitches) (resetAt vm pos).time := by
    intro _ hle
    rw [hcount, resetAt_time] at hle
    simp only [Clock.flashAt, cyclesFrame_eq] at hle hlt
    omega
  obtain ⟨u, hu, -⟩ := videoScannerUpdate_ok hsees.ready hsafe
  refine ⟨resetAt vm pos, u, hsees, ⟨show cyclesFrame ≠ 0 by decide, pos, ?_, ?_⟩, hu⟩
  · rw [hcount]
    exact Nat.lt_succ_self pos
  · have hpos : (0 + pos) % cyclesFrame = pos := by rw [Nat.zero_add, Nat.mod_eq_of_lt hlt]
    exact hpos

end Calls

/-! ## Modes -/

section Modes
variable (bus : Bus) (vm : Machine)

theorem floatingBus_eq : floatingBus bus vm = videoMemory vm 0 (getScannerAddress
    (addressMode vm.softswitches (lineOf (earlier bus.cyclesVideoFrame)))
    (videoCurrentPage vm.softswitches) (lineOf (earlier bus.cyclesVideoFrame))
    (columnOf (earlier bus.cyclesVideoFrame))) := by
  rw [floatingBus, videoScannerAddress_earlier]
  rfl

/-- The two tests of the mode differ in the lowest rows of a mixed hires screen. -/
theorem mainByte_iff (hvisible : Visible (earlier bus.cyclesVideoFrame)) :
    mainByte vm.softswitches (videoMemory vm) (earlier bus.cyclesVideoFrame) = floatingBus bus vm ↔
      SamePages bus vm := by
  rw [floatingBus_eq]
  unfold mainByte addressMode currentMode SamePages
  generalize earlier bus.cyclesVideoFrame = pos at hvisible
  have hvis : lineOf pos < scanlinesVis := hvisible.1
  rw [if_pos hvis]
  by_cases hmix : lineOf pos < scanlinesMix
  · rw [if_pos hmix]
    exact iff_of_true rfl (Or.inl hmix)
  · rw [if_neg hmix]
    simp only [videoCurrentMainMode, videoCurrentMixedMode, Machine.has, hmix, false_or]
    cases Flag.has vm.softswitches Switch.ssText <;>
      cases Flag.has vm.softswitches Switch.ssMixed <;>
      cases Flag.has vm.softswitches Switch.ssHires <;> simp

end Modes

theorem floatingBusAgrees_iff (bus : Bus) (vm : Machine)
    (hvisible : Visible (earlier bus.cyclesVideoFrame)) : FloatingBusAgrees bus vm ↔
      mainByte vm.softswitches (videoMemory vm) (earlier bus.cyclesVideoFrame) =
        floatingBus bus vm := by
  have hlt := earlier_lt bus.cyclesVideoFrame
  constructor
  · intro hagrees
    obtain ⟨s, u, hs, hover, hu⟩ := exists_runsOver vm hlt
    obtain ⟨drawn, hdrawn, ⟨c, hc, hat⟩, hbytes⟩ := hagrees s u hs hover hu
    obtain ⟨drawn', hdrawn', -, hbytes'⟩ := hs.runsOver hlt hvisible hover hu
    have hsame : drawn = drawn' := List.append_cancel_left (hdrawn.symm.trans hdrawn')
    rw [← hbytes' c (hsame ▸ hc) hat, hbytes c hc hat]
  · intro hbyte s u hs hover hu
    obtain ⟨drawn, hdrawn, hexists, hbytes⟩ := hs.runsOver hlt hvisible hover hu
    exact ⟨drawn, hdrawn, hexists, fun c hc hat => (hbytes c hc hat).trans hbyte⟩

/-- **The floating bus agrees with the scanner** where the two modes read the same byte. -/
theorem floating_bus_agrees (bus : Bus) (vm : Machine)
    (hvisible : Visible (earlier bus.cyclesVideoFrame)) :
    FloatingBusAgrees bus vm ↔ SamePages bus vm :=
  (floatingBusAgrees_iff bus vm hvisible).trans (mainByte_iff bus vm hvisible)

/-- A mixed hires screen, above the text window: line 100. -/
theorem floating_bus_agrees_graphics :
    let bus : Bus := { Bus.quiet with cyclesVideoFrame := 100 * 65 + 27 }
    let vm := Vm.runFrom
      { Machine.blank with appleIi64k := fun i => if i.val = 0x3228 then 0xA0 else 0 }
      [.read bus 0x50, .read bus 0x53, .read bus 0x57]
    FloatingBusAgrees bus vm ∧ floatingBus bus vm = 0xA0 :=
  ⟨(floating_bus_agrees _ _ ⟨by decide, by decide⟩).mpr (Or.inl (by decide)), by decide +kernel⟩

/-- A mixed hires screen: the first line of the text window. -/
theorem floating_bus_mixed :
    ¬ ∀ bus vm, Reachable vm → Visible (earlier bus.cyclesVideoFrame) →
      FloatingBusAgrees bus vm := by
  intro hall
  let bus : Bus := { Bus.quiet with cyclesVideoFrame := 160 * 65 + 27 }
  have hreach := (((Reachable.initial
    { Machine.blank with appleIi64k := fun i => if i.val = 0x650 then 0xA0 else 0 }).access
      (.read bus 0x50)).access (.read bus 0x53)).access (.read bus 0x57)
  have hvisible : Visible (earlier bus.cyclesVideoFrame) := ⟨by decide, by decide⟩
  have hbyte := (floatingBusAgrees_iff _ _ hvisible).mp (hall bus _ hreach hvisible)
  revert hbyte
  decide +kernel

end Apple2ix.Video.Scanning
