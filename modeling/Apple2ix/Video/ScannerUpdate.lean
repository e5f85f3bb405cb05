import Mathlib.Logic.Function.Basic
import Apple2ix.Foundations.Loops
import Apple2ix.Foundations.Results
import Apple2ix.Foundations.Runs
import Apple2ix.Video.Scanner

/-! The video scanner of video.c with the cycle counters of timing.c that drive it. It draws the
frame column by column as the cycles pass, and rests when nothing changed on screen. -/
namespace Apple2ix.Video.Scanning
open Vm Loops Runs
set_option autoImplicit false

def cyclesVis : ℕ := 40
def cyclesFrame : ℕ := cyclesScanline * scanlinesFrame

/-- `(unsigned int)-1`. -/
def uintMax : ℕ := 2 ^ 32 - 1

/-- A failed `assert`. -/
inductive Fault
  | assertion
  deriving DecidableEq, Repr

def assertThat (p : Prop) [Decidable p] : Except Fault Unit :=
  if p then .ok () else .error .assertion

/-- `scan_data_t`, with the contents of the scanline buffer. -/
structure ScanData where
  scanline : ℕ → UInt8
  softswitches : BitVec 32
  scanrow : ℕ
  scancol : ℕ
  scanend : ℕ

/-- What the scanner calls: the backend, and the frame completion callbacks. -/
inductive Output
  | flushScanline (scandata : ScanData)
  | flashText
  | frameCallbacks (textFlashCounter : ℕ)
  | frameComplete

/-- The variables of the scanner, the switches and the memory it reads, and what it called so
far. `dirty` is the A2_DIRTY_FLAG. -/
structure Scanner where
  cpu65CycleCount : ℕ
  cyclesCheckpointCount : ℕ
  cyclesCountTotal : ℕ
  cyclesVideoFrame : ℕ
  cyclesFrameLast : ℕ
  cyclesDirty : ℕ
  dirty : Bool
  resetScanner : Bool
  textFlashCounter : ℕ
  scanline : ℕ → UInt8
  scancol : ℕ
  scanidx : ℕ
  softswitches : BitVec 32
  appleIi64k : ℕ → UInt16 → UInt8
  log : List Output

def Scanner.call (s : Scanner) (o : Output) : Scanner := { s with log := s.log ++ [o] }

/-- `timing_checkpointCycles`. -/
def timingCheckpointCycles (s : Scanner) : Except Fault Scanner := do
  assertThat (s.cyclesCheckpointCount ≤ s.cpu65CycleCount)
  let d := s.cpu65CycleCount - s.cyclesCheckpointCount
  .ok { s with
    cyclesVideoFrame := s.cyclesVideoFrame + d
    cyclesCountTotal := s.cyclesCountTotal + d
    cyclesCheckpointCount := s.cpu65CycleCount }

/-- `_setScannerDirty`. -/
def setScannerDirty (s : Scanner) : Except Fault Scanner := do
  -- mark scanner dirty for next frame plus a text row ...
  let hCount := s.cyclesFrameLast % cyclesScanline
  let vCount := (s.cyclesFrameLast / cyclesScanline) % scanlinesFrame
  let lineCount := 7 - vCount % 8
  let colCount := cyclesScanline - hCount
  let xCount := (lineCount * cyclesScanline + colCount) % (8 * cyclesScanline)
  let cyclesDirty := cyclesFrame + xCount
  assertThat (cyclesFrame ≤ cyclesDirty ∧ cyclesDirty ≤ cyclesFrame + cyclesScanline * 8)
  assertThat ((s.cyclesFrameLast + cyclesDirty) % cyclesScanline = 0)
  .ok { s with cyclesDirty := cyclesDirty }

/-- The text page is on screen, in 40 columns: it flashes. -/
def flashes (softswitches : BitVec 32) : Bool :=
  !Flag.has softswitches Switch.ss80col &&
    (Flag.has softswitches Switch.ssText || Flag.has softswitches Switch.ssMixed)

/-- `_endOfFrame`. -/
def endOfFrame (s : Scanner) : Except Fault Scanner := do
  assertThat (cyclesFrame ≤ s.cyclesFrameLast)
  let s := { s with
    cyclesFrameLast := s.cyclesFrameLast % cyclesFrame
    cyclesVideoFrame := s.cyclesVideoFrame % cyclesFrame
    textFlashCounter := (s.textFlashCounter + 1) % 16 }
  if s.textFlashCounter = 0 then
    let s := s.call .flashText
    if flashes s.softswitches then
      let s ← setScannerDirty { s with cyclesFrameLast := 0 }
      assertThat (s.cyclesDirty = cyclesFrame)
      .ok (s.call (.frameCallbacks s.textFlashCounter))
    else .ok (s.call (.frameCallbacks s.textFlashCounter))
  else .ok (s.call (.frameCallbacks s.textFlashCounter))

/-- `video_scannerReset`. -/
def videoScannerReset (s : Scanner) : Except Fault Scanner := do
  assertThat (s.cyclesVideoFrame = 0)
  .ok { s with cyclesFrameLast := 0, cyclesDirty := cyclesFrame, resetScanner := true }

/-- `_flushScanline`. -/
def flushScanline (s : Scanner) (scanrow scanend : ℕ) : Scanner :=
  s.call (.flushScanline ⟨s.scanline, s.softswitches, scanrow, s.scancol, scanend⟩)

/-- The scanner inside the loop of `video_scannerUpdate`, with the locals of the loop. -/
structure Beam where
  s : Scanner
  hCount : ℕ
  vCount : ℕ
  mode : DrawpageMode

/-- A position that is drawn. -/
def isVisible (vCount hCount : ℕ) : Bool :=
  cyclesVisBegin ≤ hCount && vCount < scanlinesVblBegin

/-- The visible part of one cycle: two bytes go into the scanline buffer. -/
def fetch (page : ℕ) (t : Beam) : Except Fault Scanner := do
  if isVisible t.vCount t.hCount then
    let addr := getScannerAddress t.mode page t.vCount t.hCount
    let idx := 2 * t.s.scancol + 2 * t.s.scanidx
    assertThat (idx < 2 * cyclesVis - 1)
    .ok { t.s with
      scanline := Function.update (Function.update t.s.scanline idx (t.s.appleIi64k 1 addr))
        (idx + 1) (t.s.appleIi64k 0 addr)
      scanidx := t.s.scanidx + 1 }
  else .ok t.s

/-- The complete scanline flush of `video_scannerUpdate`. -/
def flushLine (s : Scanner) (vCount : ℕ) : Except Fault Scanner := do
  if vCount < scanlinesVblBegin then
    let scanend := s.scancol + s.scanidx
    assertThat (scanend = cyclesVis)
    .ok (flushScanline s vCount scanend)
  else .ok s

/-- The end of a line: a complete one is flushed, and the next line, or the next frame, begins. -/
def endOfLine (s : Scanner) (vCount : ℕ) : Except Fault Beam := do
  let s ← flushLine s vCount
  -- begin new scanline ...
  let s := { s with scancol := 0, scanidx := 0 }
  let vCount := vCount + 1
  if vCount = scanlinesFrame then
    -- begin new frame ...
    assertThat (s.cyclesFrameLast % cyclesFrame = 0)
    let s ← endOfFrame s
    .ok ⟨s.call .frameComplete, 0, 0, currentMode s.softswitches 0⟩
  else .ok ⟨s, 0, vCount, currentMode s.softswitches vCount⟩

/-- One cycle of the loop of `video_scannerUpdate`. -/
def scanCycle (page : ℕ) (t : Beam) : Except Fault Beam := do
  assertThat (0 < t.s.cyclesDirty)
  let s ← fetch page t
  let hCount := t.hCount + 1
  let s := { s with
    cyclesFrameLast := s.cyclesFrameLast + 1
    cyclesDirty := s.cyclesDirty - 1 }
  if hCount = cyclesScanline then endOfLine s t.vCount
  else .ok ⟨s, hCount, t.vCount, t.mode⟩

/-- The scan of `video_scannerUpdate`, up to the point where the cycles or `cyclesDirty` end. -/
def scan (s : Scanner) : Except Fault Beam := do
  let hCount := s.cyclesFrameLast % cyclesScanline
  let vCount := (s.cyclesFrameLast / cyclesScanline) % scanlinesFrame
  let page := videoCurrentPage s.softswitches
  let mode := currentMode s.softswitches vCount
  assertThat (s.cyclesFrameLast ≤ s.cyclesVideoFrame)
  let cyclesCount := s.cyclesVideoFrame - s.cyclesFrameLast
  let cyclesCount := if cyclesCount ≤ s.cyclesDirty then cyclesCount else s.cyclesDirty
  forUpM cyclesCount (fun _ => scanCycle page) ⟨s, hCount, vCount, mode⟩

/-- The incomplete scanline flush of `video_scannerUpdate`. -/
def flushPart (t : Beam) : Except Fault Scanner := do
  if 0 < t.s.scanidx ∧ t.vCount < scanlinesVblBegin then
    let scanend := t.s.scancol + t.s.scanidx
    assertThat (scanend < cyclesVis)
    .ok { flushScanline t.s t.vCount scanend with scancol := scanend, scanidx := 0 }
  else .ok t.s

/-- What `video_scannerUpdate` does behind the loop: it flushes the columns of an incomplete line,
and rests when nothing is dirty any more. -/
def settle (t : Beam) : Except Fault Scanner := do
  let s ← flushPart t
  if s.cyclesDirty = 0 then do
    assertThat (s.scancol = 0)
    assertThat (s.scanidx = 0)
    .ok ({ s with cyclesFrameLast := s.cyclesVideoFrame, dirty := false }.call .frameComplete)
  else .ok s

/-- The idle path of `video_scannerUpdate`. -/
def idle (s : Scanner) : Except Fault Scanner := do
  let s := { s with cyclesFrameLast := s.cyclesVideoFrame }
  if cyclesFrame ≤ s.cyclesVideoFrame then
    let s ← endOfFrame s
    assertThat (s.cyclesVideoFrame < cyclesFrame)
    .ok s
  else
    assertThat (s.cyclesVideoFrame < cyclesFrame)
    .ok s

/-- `video_scannerUpdate`. -/
def videoScannerUpdate (s : Scanner) : Except Fault Scanner := do
  let s :=
    if s.resetScanner then { s with resetScanner := false, scancol := 0, scanidx := 0 } else s
  let s ← timingCheckpointCycles s
  if s.cyclesDirty = 0 then idle s
  else do
    let t ← scan s
    settle t

/-- `video_setDirty(A2_DIRTY_FLAG)`. -/
def videoSetDirty (s : Scanner) : Except Fault Scanner := do
  let s ← timingCheckpointCycles { s with dirty := true }
  let s :=
    if s.cyclesDirty = 0 then
      { s with cyclesFrameLast := s.cyclesVideoFrame - s.cyclesVideoFrame % cyclesScanline }
    else s
  let s ← videoScannerUpdate { s with cyclesDirty := uintMax }
  assertThat (s.cyclesFrameLast = s.cyclesVideoFrame)
  setScannerDirty s

/-! ## What happens to the scanner -/

/-- What happens on the CPU thread, at any cycle: `run n` executes `n` cycles, `checkpoint` stands
for the callers of `timing_checkpointCycles` other than the scanner, `reset` for `reinitialize`, and
`endBatch` for the end of a pass of `cpu_thread`, with the start of the next one. -/
inductive Op
  | run (n : ℕ)
  | checkpoint
  | setDirty
  | update
  | setSwitches (softswitches : BitVec 32)
  | store (bank : ℕ) (addr : UInt16) (b : UInt8)
  | reset
  | endBatch

def step (s : Scanner) : Op → Except Fault Scanner
  | .run n => .ok { s with cpu65CycleCount := s.cpu65CycleCount + n }
  | .checkpoint => timingCheckpointCycles s
  | .setDirty => videoSetDirty s
  | .update => videoScannerUpdate s
  | .setSwitches softswitches => .ok { s with softswitches := softswitches }
  | .store bank addr b =>
    .ok { s with
      appleIi64k := Function.update s.appleIi64k bank (Function.update (s.appleIi64k bank) addr b) }
  | .reset => videoScannerReset { s with cyclesCountTotal := 0, cyclesVideoFrame := 0 }
  | .endBatch => do
    let s ← videoScannerUpdate s
    .ok { s with cpu65CycleCount := 0, cyclesCheckpointCount := 0 }

/-- The first `reinitialize`, before which nothing ran. -/
def start (softswitches : BitVec 32) (appleIi64k : ℕ → UInt16 → UInt8) : Scanner where
  cpu65CycleCount := 0
  cyclesCheckpointCount := 0
  cyclesCountTotal := 0
  cyclesVideoFrame := 0
  cyclesFrameLast := 0
  cyclesDirty := cyclesFrame
  dirty := false
  resetScanner := true
  textFlashCounter := 0
  scanline := fun _ => 0
  scancol := 0
  scanidx := 0
  softswitches := softswitches
  appleIi64k := appleIi64k
  log := []

def runFrom (s : Scanner) (ops : List Op) : Except Fault Scanner := runM step s ops

end Apple2ix.Video.Scanning
