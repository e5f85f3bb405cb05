import Apple2ix.Foundations.Loops
import Apple2ix.Video.ScannerUpdate

/-! The graphics plotters of display.c: they turn the columns of a scanline into groups of 14 bits,
which are plotted through the colour tables or by the NTSC renderer of ntsc.c. -/
namespace Apple2ix.Video.Plotting
open Loops Scanning
set_option autoImplicit false

/-! ## The framebuffer -/

def fontWidthPixels : ℕ := 14
def fontHeightPixels : ℕ := 16
def fontGlyphY : ℕ := fontHeightPixels >>> 1
/-- `_FB_OFF`, the width of a margin. -/
def fbOff : ℕ := 4
/-- `_SCANWIDTH`, without the margins. -/
def lineWidth : ℕ := textCols * fontWidthPixels
def scanwidth : ℕ := lineWidth + (fbOff <<< 1)

/-- `screen_addresses`, by the offset of a byte in its page. -/
def screenAddresses : ℕ → ℕ :=
  forUp textRows (fun y addresses =>
    forUp fontGlyphY (fun y2 addresses =>
      forUp textCols (fun x addresses =>
        Function.update addresses (videoLineOffset.getD y 0 + 0x400 * y2 + x)
          ((y * fontHeightPixels + 2 * y2) * scanwidth + x * fontWidthPixels + fbOff))
        addresses) addresses) fun _ => 0

/-- `color_mode_t`. -/
inductive ColorMode
  | mono
  | color
  | interp
  | colorMonitor
  | monoTv
  | colorTv
  deriving DecidableEq, Repr

/-- The colour tables, which no plotter changes, and the preference that both display.c and ntsc.c
keep. -/
structure Palette where
  hires40Colors : ColorMode → ℕ → UInt32
  generalColors : ColorMode → ℕ → UInt32
  monoPixelsMonitor : ℕ → UInt32
  monoPixelsTv : ℕ → UInt32
  colorPixelsMonitor : ℕ → ℕ → UInt32
  colorPixelsTv : ℕ → ℕ → UInt32
  halfScanlines : Bool
  ntscHalfScanlines : Bool

structure Display where
  fbFull : ℕ → UInt32
  ntscSignalBits : ℕ
  ntscColorPhase : ℕ
  scanLastBit : UInt8

/-! ## ntsc.c -/

/-- `halfScanlineMonitor` and `halfScanlineTV`, which are the same. -/
def halfScanline (color0 : UInt32) : UInt32 := ((color0 &&& 0xFEFEFEFE) >>> 1) ||| 0xFF000000

/-- `getHalfColor`: the pixel two rows below is read, and not used. -/
def getHalfColor (p : Palette) (color0 : UInt32) : UInt32 :=
  if p.ntscHalfScanlines then halfScanline color0 else color0

def updateFbCommon (p : Palette) (signal fbPtr : ℕ) (colorTable : ℕ → UInt32) (s : Display) :
    Display :=
  let ntscSignalBits := ((s.ntscSignalBits <<< 1) ||| signal) &&& 0xFFF
  let color0 := colorTable ntscSignalBits
  let color1 := getHalfColor p color0
  { s with
    fbFull := Function.update (Function.update s.fbFull fbPtr color0) (fbPtr + scanwidth) color1
    ntscSignalBits := ntscSignalBits
    ntscColorPhase := (s.ntscColorPhase + 1) &&& 0x03 }

def pixelPlotter (p : Palette) (mode : ColorMode) (signal fbPtr : ℕ) (s : Display) : Display :=
  match mode with
  | .mono | .color | .interp => updateFbCommon p signal fbPtr p.monoPixelsMonitor s
  | .colorMonitor => updateFbCommon p signal fbPtr (p.colorPixelsMonitor s.ntscColorPhase) s
  | .monoTv => updateFbCommon p signal fbPtr p.monoPixelsTv s
  | .colorTv => updateFbCommon p signal fbPtr (p.colorPixelsTv s.ntscColorPhase) s

def ntscPlotBits (p : Palette) (mode : ColorMode) (bits14 fbPtr : ℕ) (s : Display) : Display :=
  forUp 14 (fun i s => pixelPlotter p mode ((bits14 >>> i) &&& 1) (fbPtr + i) s) s

def ntscFlushScanline (p : Palette) (mode : ColorMode) (fbPtr : ℕ) (s : Display) : Display :=
  let s := forUp 4 (fun i s => pixelPlotter p mode 0 (fbPtr + i) s) s
  { s with ntscColorPhase := 0, ntscSignalBits := 0 }

/-! ## Plotting -/

/-- `scanline_color`: `_color_half_scanline` or `_color_full_scanline`. -/
def scanlineColor (p : Palette) (color0 : UInt32) : UInt32 :=
  if p.halfScanlines then ((color0 &&& 0xFEFEFEFE) >>> 1) ||| 0xFF000000 else color0

def lastColShift : List ℕ := [0, 0, 0, 0, 0, 1]

/-- One pixel and the one below it. -/
def plotPixel (p : Palette) (fbPtr : ℕ) (pixel : UInt32) (fbFull : ℕ → UInt32) : ℕ → UInt32 :=
  Function.update (Function.update fbFull fbPtr pixel) (fbPtr + scanwidth) (scanlineColor p pixel)

/-- The bits that are scanned for a column: its own over those that are carried. -/
def scanbits (bits14 : UInt16) (col ntscSignalBits : ℕ) : ℕ :=
  let shift := 0x8 ||| ((col &&& 0x1) <<< 1)
  let mask := 0xFFFF ^^^ ((0xFF <<< shift) % 0x10000)
  (bits14.toNat <<< shift) ||| (ntscSignalBits &&& mask)

def plotOldschool (p : Palette) (bits14 : UInt16) (col : ℕ) (colors : ℕ → UInt32) (fbOff : ℕ)
    (s : Display) : Display :=
  let shift := 0x8 ||| ((col &&& 0x1) <<< 1)
  let off := ((shift &&& 0x8) >>> 1) + (shift &&& 0x2)
  let fbPtr := fbOff - off
  let scanbits32 := scanbits bits14 col s.ntscSignalBits
  let count := 3 + (((shift >>> 1) &&& 0x1) <<< lastColShift.getD ((col + 1) >>> 3) 0)
  let fbFull := forUp count (fun i fbFull =>
    let idx := ((scanbits32 >>> (4 * i)) &&& 0xFFF) <<< 2
    forUp 4 (fun j => plotPixel p (fbPtr + 4 * i + j) (colors (idx + j))) fbFull) s.fbFull
  let shift := ((shift &&& 0x8) >>> 1) ||| (((shift >>> 1) &&& 0x01) <<< 1)
  let mask := 0xFFFF ^^^ ((0xFFFF <<< (14 - shift)) % 0x10000)
  { s with fbFull := fbFull, ntscSignalBits := (bits14.toNat >>> shift) &&& mask }

/-- `plot`, with `_plot_oldschool` or `_plot_ntsc` for a mode. -/
def plot (p : Palette) (mode : ColorMode) (bits14 : UInt16) (col : ℕ) (colors : ℕ → UInt32)
    (fbOff : ℕ) (s : Display) : Display :=
  match mode with
  | .color | .interp => plotOldschool p bits14 col colors fbOff s
  | _ => ntscPlotBits p mode bits14.toNat fbOff s

def flushScanline (p : Palette) (mode : ColorMode) (fbOff : ℕ) (s : Display) : Display :=
  { ntscFlushScanline p mode (fbOff + lineWidth) s with scanLastBit := 0 }

/-- `flush`, which does nothing before the end of a line. -/
def flush (filterIdx : ℕ) (p : Palette) (mode : ColorMode) (fbOff : ℕ) (s : Display) : Display :=
  if filterIdx = 5 then flushScanline p mode fbOff s else s

/-- What the four plotters share. `column` gives the bits of a column, and the bit carried after it,
from the bit carried before it. -/
def plotScanline (p : Palette) (mode : ColorMode) (column : ℕ → UInt8 → UInt16 × UInt8)
    (colors : ℕ → UInt32) (fbBase fbRow : ℕ) (scandata : ScanData) (s : Display) : Display :=
  let s := forUp (scandata.scanend - scandata.scancol) (fun i s =>
    let col := scandata.scancol + i
    let bits := column col s.scanLastBit
    plot p mode bits.1 col colors (screenAddresses (fbBase + col) + fbRow)
      { s with scanLastBit := bits.2 }) s
  flush (scandata.scanend >>> 3) p mode (screenAddresses fbBase + fbRow) s

/-! ## Lores -/

/-- Which nibble of a byte a row shows: the low one in its upper four lines. -/
def loresShift (scanrow : ℕ) : UInt8 :=
  let hiNyb : UInt8 := if (scanrow &&& 0x07) >>> 2 = 0 then 0 else 1
  hiNyb <<< 2

def loresVal (scanrow : ℕ) (b : UInt8) : UInt8 :=
  (b &&& (0x0f <<< loresShift scanrow)) >>> loresShift scanrow

/-- The pixels of a nibble, which is turned in every other column. -/
def lores40Pixels (col : ℕ) (val : UInt8) : UInt16 :=
  let rot2 : UInt8 := UInt8.ofNat ((col &&& 0x1) <<< 1)
  let val := (val >>> rot2) ||| ((val &&& 0x03) <<< rot2)
  let val := val.toUInt16
  (val ||| (val <<< 4) ||| (val <<< 8) ||| (val <<< 12)) &&& 0x3FFF

def lores40Bits (scanrow col : ℕ) (mbd : UInt8) : UInt16 :=
  lores40Pixels col (loresVal scanrow mbd)

/-- `__shift_block80`: both nibbles of a byte of auxiliary memory, rotated. -/
def shiftBlock80 (b : UInt8) : UInt8 :=
  let b0 := b &&& 0x0F
  let b1 := (b &&& 0xF0) >>> 4
  let rot0 := (b0 &&& 0x8) >>> 3
  let rot1 := (b1 &&& 0x8) >>> 3
  let b0 := (b0 <<< 5) ||| (rot0 <<< 4)
  let b1 := (b1 <<< 5) ||| (rot1 <<< 4)
  (b0 >>> 4) ||| b1

/-- Seven pixels of a nibble, turned by its place `idx` in the line. -/
def lores80Pixels (idx : ℕ) (val : UInt8) : UInt8 :=
  let val := (val <<< 4) ||| val
  let val16 := val.toUInt16 ||| (val.toUInt16 <<< 8)
  let val16 := val16 >>> UInt16.ofNat (4 - (idx &&& 0x3))
  val16.toUInt8 &&& 0x7F

def lores80Half (scanrow idx : ℕ) (b : UInt8) : UInt8 := lores80Pixels idx (loresVal scanrow b)

def lores80Bits (scanrow col : ℕ) (aux mbd : UInt8) : UInt16 :=
  (lores80Half scanrow (col <<< 1) (shiftBlock80 aux)).toUInt16 |||
    ((lores80Half scanrow ((col <<< 1) + 1) mbd).toUInt16 <<< 7)

def plotLores40Scanline (p : Palette) (mode : ColorMode) (scandata : ScanData) (s : Display) :
    Display :=
  let rowOff := scandata.scanrow &&& 0x07
  plotScanline p mode
    (fun col last =>
      (lores40Bits scandata.scanrow col (scandata.scanline ((col <<< 1) + 1)), last))
    (p.generalColors mode) (videoLineOffset.getD (scandata.scanrow >>> 3) 0)
    ((rowOff <<< 1) * scanwidth) scandata s

def plotLores80Scanline (p : Palette) (mode : ColorMode) (scandata : ScanData) (s : Display) :
    Display :=
  let rowOff := scandata.scanrow &&& 0x07
  plotScanline p mode
    (fun col last =>
      (lores80Bits scandata.scanrow col (scandata.scanline (col <<< 1))
        (scandata.scanline ((col <<< 1) + 1)), last))
    (p.generalColors mode) (videoLineOffset.getD (scandata.scanrow >>> 3) 0)
    ((rowOff <<< 1) * scanwidth) scandata s

/-! ## Hires -/

def hires80Bits (aux mbd scanLastBit : UInt8) : UInt16 :=
  let aux := (aux &&& 0x7f).toUInt16
  let mbd := (mbd &&& 0x7f).toUInt16
  (((mbd <<< 7) ||| aux) <<< 1) ||| scanLastBit.toUInt16

/-- The seven pixels of a byte, each twice. -/
def doubledBits (mbd : UInt8) : UInt16 :=
  forUp 7 (fun i bits14 =>
    let b := (mbd &&& (1 <<< UInt8.ofNat i)).toUInt16
    bits14 ||| (b <<< UInt16.ofNat i) ||| (b <<< UInt16.ofNat (i + 1))) 0

def hires40Bits (mbd scanLastBit : UInt8) : UInt16 :=
  let shift := (mbd &&& 0x80) >>> 7
  ((doubledBits mbd <<< shift.toUInt16) ||| (scanLastBit >>> (1 - shift)).toUInt16) &&& 0x3FFF

def plotHires80Scanline (p : Palette) (mode : ColorMode) (scandata : ScanData) (s : Display) :
    Display :=
  plotScanline p mode
    (fun col last =>
      let bits14 := hires80Bits (scandata.scanline (col <<< 1))
        (scandata.scanline ((col <<< 1) + 1)) last
      (bits14, ((bits14 >>> 14) &&& 0x01).toUInt8))
    (p.generalColors mode)
    (videoLineOffset.getD (scandata.scanrow >>> 3) 0 + 0x400 * (scandata.scanrow &&& 0x07)) 0
    scandata s

def plotHires40Scanline (p : Palette) (mode : ColorMode) (scandata : ScanData) (s : Display) :
    Display :=
  plotScanline p mode
    (fun col last =>
      let mbd := scandata.scanline ((col <<< 1) + 1)
      (hires40Bits mbd last, (mbd &&& 0x40) >>> 6))
    (p.hires40Colors mode)
    (videoLineOffset.getD (scandata.scanrow >>> 3) 0 + 0x400 * (scandata.scanrow &&& 0x07)) 0
    scandata s

/-- The graphics modes a scanline is plotted in. -/
inductive Graphics
  | lores40
  | lores80
  | hires40
  | hires80
  deriving DecidableEq, Repr

def plotter (g : Graphics) (p : Palette) (mode : ColorMode) (scandata : ScanData) (s : Display) :
    Display :=
  match g with
  | .lores40 => plotLores40Scanline p mode scandata s
  | .lores80 => plotLores80Scanline p mode scandata s
  | .hires40 => plotHires40Scanline p mode scandata s
  | .hires80 => plotHires80Scanline p mode scandata s

end Apple2ix.Video.Plotting
