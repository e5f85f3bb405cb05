import Apple2ix.Vm.Switches

/-! The addresses the video scanner of video.c reads, line by line and column by column. -/
namespace Apple2ix.Video
open Vm
set_option autoImplicit false

/-! ## Tables -/

/-- Scanline text page offsets. -/
def vertOffsetTxt : List ℕ := [
  0x000, 0x080, 0x100, 0x180, 0x200, 0x280, 0x300, 0x380,
  0x000, 0x080, 0x100, 0x180, 0x200, 0x280, 0x300, 0x380,
  0x000, 0x080, 0x100, 0x180, 0x200, 0x280, 0x300, 0x380,
  0x000, 0x080, 0x100, 0x180, 0x200, 0x280, 0x300, 0x380,
  0x380]

/-- Scanline hires page offsets. -/
def vertOffsetHgr : List ℕ := [
  0x0000, 0x0400, 0x0800, 0x0C00, 0x1000, 0x1400, 0x1800, 0x1C00,
  0x0080, 0x0480, 0x0880, 0x0C80, 0x1080, 0x1480, 0x1880, 0x1C80,
  0x0100, 0x0500, 0x0900, 0x0D00, 0x1100, 0x1500, 0x1900, 0x1D00,
  0x0180, 0x0580, 0x0980, 0x0D80, 0x1180, 0x1580, 0x1980, 0x1D80,
  0x0200, 0x0600, 0x0A00, 0x0E00, 0x1200, 0x1600, 0x1A00, 0x1E00,
  0x0280, 0x0680, 0x0A80, 0x0E80, 0x1280, 0x1680, 0x1A80, 0x1E80,
  0x0300, 0x0700, 0x0B00, 0x0F00, 0x1300, 0x1700, 0x1B00, 0x1F00,
  0x0380, 0x0780, 0x0B80, 0x0F80, 0x1380, 0x1780, 0x1B80, 0x1F80,
  0x0000, 0x0400, 0x0800, 0x0C00, 0x1000, 0x1400, 0x1800, 0x1C00,
  0x0080, 0x0480, 0x0880, 0x0C80, 0x1080, 0x1480, 0x1880, 0x1C80,
  0x0100, 0x0500, 0x0900, 0x0D00, 0x1100, 0x1500, 0x1900, 0x1D00,
  0x0180, 0x0580, 0x0980, 0x0D80, 0x1180, 0x1580, 0x1980, 0x1D80,
  0x0200, 0x0600, 0x0A00, 0x0E00, 0x1200, 0x1600, 0x1A00, 0x1E00,
  0x0280, 0x0680, 0x0A80, 0x0E80, 0x1280, 0x1680, 0x1A80, 0x1E80,
  0x0300, 0x0700, 0x0B00, 0x0F00, 0x1300, 0x1700, 0x1B00, 0x1F00,
  0x0380, 0x0780, 0x0B80, 0x0F80, 0x1380, 0x1780, 0x1B80, 0x1F80,
  0x0000, 0x0400, 0x0800, 0x0C00, 0x1000, 0x1400, 0x1800, 0x1C00,
  0x0080, 0x0480, 0x0880, 0x0C80, 0x1080, 0x1480, 0x1880, 0x1C80,
  0x0100, 0x0500, 0x0900, 0x0D00, 0x1100, 0x1500, 0x1900, 0x1D00,
  0x0180, 0x0580, 0x0980, 0x0D80, 0x1180, 0x1580, 0x1980, 0x1D80,
  0x0200, 0x0600, 0x0A00, 0x0E00, 0x1200, 0x1600, 0x1A00, 0x1E00,
  0x0280, 0x0680, 0x0A80, 0x0E80, 0x1280, 0x1680, 0x1A80, 0x1E80,
  0x0300, 0x0700, 0x0B00, 0x0F00, 0x1300, 0x1700, 0x1B00, 0x1F00,
  0x0380, 0x0780, 0x0B80, 0x0F80, 0x1380, 0x1780, 0x1B80, 0x1F80,
  0x0000, 0x0400, 0x0800, 0x0C00, 0x1000, 0x1400, 0x1800, 0x1C00,
  0x0080, 0x0480, 0x0880, 0x0C80, 0x1080, 0x1480, 0x1880, 0x1C80,
  0x0100, 0x0500, 0x0900, 0x0D00, 0x1100, 0x1500, 0x1900, 0x1D00,
  0x0180, 0x0580, 0x0980, 0x0D80, 0x1180, 0x1580, 0x1980, 0x1D80,
  0x0200, 0x0600, 0x0A00, 0x0E00, 0x1200, 0x1600, 0x1A00, 0x1E00,
  0x0280, 0x0680, 0x0A80, 0x0E80, 0x1280, 0x1680, 0x1A80, 0x1E80,
  0x0300, 0x0700, 0x0B00, 0x0F00, 0x1300, 0x1700, 0x1B00, 0x1F00,
  0x0380, 0x0780, 0x0B80, 0x0F80, 0x1380, 0x1780, 0x1B80, 0x1F80,
  0x0B80, 0x0F80, 0x1380, 0x1780, 0x1B80, 0x1F80]

/-- Scanline horizontal offsets. -/
def scanOffset : List (List ℕ) := [
  [
    0x68,
    0x68, 0x69, 0x6A, 0x6B, 0x6C, 0x6D, 0x6E, 0x6F,
    0x70, 0x71, 0x72, 0x73, 0x74, 0x75, 0x76, 0x77,
    0x78, 0x79, 0x7A, 0x7B, 0x7C, 0x7D, 0x7E, 0x7F,
    0x00, 0x01, 0x02, 0x03, 0x04, 0x05, 0x06, 0x07,
    0x08, 0x09, 0x0A, 0x0B, 0x0C, 0x0D, 0x0E, 0x0F,
    0x10, 0x11, 0x12, 0x13, 0x14, 0x15, 0x16, 0x17,
    0x18, 0x19, 0x1A, 0x1B, 0x1C, 0x1D, 0x1E, 0x1F,
    0x20, 0x21, 0x22, 0x23, 0x24, 0x25, 0x26, 0x27],
  [
    0x10,
    0x10, 0x11, 0x12, 0x13, 0x14, 0x15, 0x16, 0x17,
    0x18, 0x19, 0x1A, 0x1B, 0x1C, 0x1D, 0x1E, 0x1F,
    0x20, 0x21, 0x22, 0x23, 0x24, 0x25, 0x26, 0x27,
    0x28, 0x29, 0x2A, 0x2B, 0x2C, 0x2D, 0x2E, 0x2F,
    0x30, 0x31, 0x32, 0x33, 0x34, 0x35, 0x36, 0x37,
    0x38, 0x39, 0x3A, 0x3B, 0x3C, 0x3D, 0x3E, 0x3F,
    0x40, 0x41, 0x42, 0x43, 0x44, 0x45, 0x46, 0x47,
    0x48, 0x49, 0x4A, 0x4B, 0x4C, 0x4D, 0x4E, 0x4F],
  [
    0x38,
    0x38, 0x39, 0x3A, 0x3B, 0x3C, 0x3D, 0x3E, 0x3F,
    0x40, 0x41, 0x42, 0x43, 0x44, 0x45, 0x46, 0x47,
    0x48, 0x49, 0x4A, 0x4B, 0x4C, 0x4D, 0x4E, 0x4F,
    0x50, 0x51, 0x52, 0x53, 0x54, 0x55, 0x56, 0x57,
    0x58, 0x59, 0x5A, 0x5B, 0x5C, 0x5D, 0x5E, 0x5F,
    0x60, 0x61, 0x62, 0x63, 0x64, 0x65, 0x66, 0x67,
    0x68, 0x69, 0x6A, 0x6B, 0x6C, 0x6D, 0x6E, 0x6F,
    0x70, 0x71, 0x72, 0x73, 0x74, 0x75, 0x76, 0x77],
  [
    0x60,
    0x60, 0x61, 0x62, 0x63, 0x64, 0x65, 0x66, 0x67,
    0x68, 0x69, 0x6A, 0x6B, 0x6C, 0x6D, 0x6E, 0x6F,
    0x70, 0x71, 0x72, 0x73, 0x74, 0x75, 0x76, 0x77,
    0x78, 0x79, 0x7A, 0x7B, 0x7C, 0x7D, 0x7E, 0x7F,
    0x00, 0x01, 0x02, 0x03, 0x04, 0x05, 0x06, 0x07,
    0x08, 0x09, 0x0A, 0x0B, 0x0C, 0x0D, 0x0E, 0x0F,
    0x10, 0x11, 0x12, 0x13, 0x14, 0x15, 0x16, 0x17,
    0x18, 0x19, 0x1A, 0x1B, 0x1C, 0x1D, 0x1E, 0x1F],
  [
    0x60,
    0x60, 0x61, 0x62, 0x63, 0x64, 0x65, 0x66, 0x67,
    0x68, 0x69, 0x6A, 0x6B, 0x6C, 0x6D, 0x6E, 0x6F,
    0x70, 0x71, 0x72, 0x73, 0x74, 0x75, 0x76, 0x77,
    0x78, 0x79, 0x7A, 0x7B, 0x7C, 0x7D, 0x7E, 0x7F,
    0x00, 0x01, 0x02, 0x03, 0x04, 0x05, 0x06, 0x07,
    0x08, 0x09, 0x0A, 0x0B, 0x0C, 0x0D, 0x0E, 0x0F,
    0x10, 0x11, 0x12, 0x13, 0x14, 0x15, 0x16, 0x17,
    0x18, 0x19, 0x1A, 0x1B, 0x1C, 0x1D, 0x1E, 0x1F]]

def textRows : ℕ := 24
def textCols : ℕ := 40
def cyclesVisBegin : ℕ := 25
def cyclesScanline : ℕ := 65
def scanlinesMix : ℕ := 160
def scanlinesVis : ℕ := 192
def scanlinesVblBegin : ℕ := scanlinesVis
def scanlinesFrame : ℕ := 262

/-- `video_line_offset`, which the handlers of vm.c are assigned by. -/
def videoLineOffset : List ℕ := [
  0x000, 0x080, 0x100, 0x180, 0x200, 0x280, 0x300, 0x380,
  0x028, 0x0A8, 0x128, 0x1A8, 0x228, 0x2A8, 0x328, 0x3A8,
  0x050, 0x0D0, 0x150, 0x1D0, 0x250, 0x2D0, 0x350, 0x3D0,
  0x078, 0x0F8, 0x178, 0x1F8, 0x278, 0x2F8, 0x378, 0x3F8,
  0x3F8]

/-! ## Modes and pages -/

/-- `drawpage_mode_t`; lores is drawn from the text page. -/
inductive DrawpageMode
  | text
  | hires
  deriving DecidableEq, Repr

def DrawpageMode.toNat : DrawpageMode → ℕ
  | text => 0
  | hires => 1

def videoCurrentMainMode (currswitches : BitVec 32) : DrawpageMode :=
  if Flag.has currswitches Switch.ssText then .text
  else if Flag.has currswitches Switch.ssHires then .hires
  else .text

def videoCurrentMixedMode (currswitches : BitVec 32) : DrawpageMode :=
  if Flag.has currswitches Switch.ssText || Flag.has currswitches Switch.ssMixed then .text
  else if Flag.has currswitches Switch.ssHires then .hires
  else .text

def videoCurrentPage (currswitches : BitVec 32) : ℕ :=
  if Flag.has currswitches Switch.ss80store then 0
  else if Flag.has currswitches Switch.ssPage2 then 1 else 0

/-! ## Addresses -/

def vertOffset : DrawpageMode → List ℕ
  | .text => vertOffsetTxt
  | .hires => vertOffsetHgr

/-- `_getScannerAddress`: text lines are eight scanlines high, graphics lines one. -/
def getScannerAddress (mode : DrawpageMode) (page vCount hCount : ℕ) : UInt16 :=
  let baseOff := 1 <<< 10 <<< (mode.toNat * 3) <<< page
  let vCount3 := vCount >>> ((1 - mode.toNat) * 3)
  UInt16.ofNat (baseOff + (vertOffset mode).getD vCount3 0 +
    (scanOffset.getD (vCount >>> 6) []).getD hCount 0)

/-- `_currentMode`: the mode the scanner draws line `vCount` in. -/
def currentMode (softswitches : BitVec 32) (vCount : ℕ) : DrawpageMode :=
  if vCount < scanlinesMix then videoCurrentMainMode softswitches
  else videoCurrentMixedMode softswitches

/-- `video_scannerAddress`, which trails the scanner by two cycles. -/
def videoScannerAddress (softswitches : BitVec 32) (cyclesVideoFrame : ℕ) : UInt16 :=
  let hCount := cyclesVideoFrame % cyclesScanline
  let vCount := (cyclesVideoFrame / cyclesScanline) % scanlinesFrame
  let at2 : ℕ × ℕ :=
    if hCount < 2 then
      (if vCount = 0 then scanlinesFrame - 1 else vCount - 1, hCount + cyclesScanline - 2)
    else (vCount, hCount - 2)
  let mode := if at2.1 < scanlinesVis then videoCurrentMainMode softswitches
    else videoCurrentMixedMode softswitches
  getScannerAddress mode (videoCurrentPage softswitches) at2.1 at2.2

/-- `*ptrIsVBL` of `video_scannerAddress`. -/
def isVbl (cyclesVideoFrame : ℕ) : Bool :=
  scanlinesVblBegin ≤ (cyclesVideoFrame / cyclesScanline) % scanlinesFrame

/-! ## What is on screen -/

/-- The scanner reads `addr`, in main and in auxiliary memory, for a visible position. -/
def Displayed (softswitches : BitVec 32) (addr : UInt16) : Prop :=
  ∃ vCount hCount, vCount < scanlinesVblBegin ∧ cyclesVisBegin ≤ hCount ∧ hCount < cyclesScanline ∧
    addr = getScannerAddress (currentMode softswitches vCount) (videoCurrentPage softswitches)
      vCount hCount

end Apple2ix.Video
