import Apple2ix.Foundations.Loops
import Apple2ix.Disk.Basic

/-! The 6-and-2 codec of one 256-byte sector: `nibblize_sector` and `denibblize_sector`. -/
namespace Apple2ix.Disk
open Loops
set_option autoImplicit false
set_option maxRecDepth 4000

/-! ## Tables -/

def translateTable6 : List UInt8 := [
  0x96, 0x97, 0x9a, 0x9b, 0x9d, 0x9e, 0x9f, 0xa6,
  0xa7, 0xab, 0xac, 0xad, 0xae, 0xaf, 0xb2, 0xb3,
  0xb4, 0xb5, 0xb6, 0xb7, 0xb9, 0xba, 0xbb, 0xbc,
  0xbd, 0xbe, 0xbf, 0xcb, 0xcd, 0xce, 0xcf, 0xd3,
  0xd6, 0xd7, 0xd9, 0xda, 0xdb, 0xdc, 0xdd, 0xde,
  0xdf, 0xe5, 0xe6, 0xe7, 0xe9, 0xea, 0xeb, 0xec,
  0xed, 0xee, 0xef, 0xf2, 0xf3, 0xf4, 0xf5, 0xf6,
  0xf7, 0xf9, 0xfa, 0xfb, 0xfc, 0xfd, 0xfe, 0xff]

/-- `rev_translate_table_6` as `_init_disk6` leaves it: cell 0 keeps its initial 1, the cells of
the disk bytes hold their index times four, every other cell is 0. -/
def revTranslateTable6 : Buf :=
  forUp 0x40 (fun i table =>
    Function.update table ((translateTable6.getD i 0).toNat - 0x80) (UInt8.ofNat (i <<< 2)))
    (fun i => if i = 0 then 0x01 else 0)

/-! ## nibblize_sector -/

def sixbitMask : UInt8 := 0x3F
def sixbitExtraBytes : ℕ := 0x56
def sixbitExtraWrap : ℕ := 0x53
def sixbitOffBegin : UInt8 := 0xAC
def numSixbitNibs : ℕ := 0x100 + sixbitExtraBytes

/-- `((b & 0x01) << 1) | ((b & 0x02) >> 1)`: the two low bits of a byte, reversed. -/
def lowPair (b : UInt8) : UInt8 := ((b &&& 0x01) <<< 1) ||| ((b &&& 0x02) >>> 1)

/-- The locals of the loop that packs three low pairs to a byte. -/
structure PackState where
  counter : ℕ
  offset : UInt8
  workBuf : Buf

/-- One pass of `while (offset != 0x02)`. -/
def packStep (src : Buf) (s : PackState) : PackState :=
  let value := lowPair (src s.offset.toNat)
  let offset := s.offset - UInt8.ofNat sixbitExtraBytes
  let value := (value <<< 2) ||| lowPair (src offset.toNat)
  let offset := offset - UInt8.ofNat sixbitExtraBytes
  let value := (value <<< 2) ||| lowPair (src offset.toNat)
  let offset := offset - UInt8.ofNat sixbitExtraWrap
  { counter := s.counter + 1
    offset := offset
    workBuf := Function.update s.workBuf s.counter (value <<< 2) }

/-- One pass of the checksum loop over the saved value and the work buffer. -/
def xorStep (i : ℕ) (s : UInt8 × Buf) : UInt8 × Buf :=
  (s.2 i, Function.update s.2 i (s.1 ^^^ s.2 i))

/-- The 342 six-bit bytes: the packed low bits, the last two masked, then the sector itself. -/
def sixbitBuffer (src : Buf) (s : PackState) : Buf :=
  let w := Function.update s.workBuf (s.counter - 2) (s.workBuf (s.counter - 2) &&& sixbitMask)
  let w := Function.update w (s.counter - 1) (w (s.counter - 1) &&& sixbitMask)
  Buf.copy w s.counter src 0x100

/-- The xor of the block with itself one byte later, with the final checksum byte. -/
def xorNibs (w : Buf) : Buf :=
  let saved := forUp numSixbitNibs xorStep (0, w)
  Function.update saved.2 numSixbitNibs saved.1

/-- The 343 disk bytes `nibblize_sector` stores at `out`. -/
def nibblizeSector (src : Buf) : Except Fault (List UInt8) := do
  let s ← whileLoop Fault.loopBound (fun s => s.offset != 0x02) (packStep src) 0x100
    { counter := 0, offset := sixbitOffBegin, workBuf := fun _ => 0 }
  assertThat (s.counter == sixbitExtraBytes) .nibblizingCounter
  let w := xorNibs (sixbitBuffer src s)
  return (List.range (numSixbitNibs + 1)).map fun i => translateTable6.getD (w i >>> 2).toNat 0

/-! ## denibblize_sector -/

/-- Disk byte to six-bit byte, with the check that the table knows it. -/
def lookupStep (src : Buf) (i : ℕ) (w : Buf) : Except Fault Buf := do
  let w := Function.update w i (revTranslateTable6 (src i &&& 0x7F).toNat)
  assertThat (w i != 0x1) .unknownNibble
  return w

/-- One pass of the loop that undoes the checksum. -/
def unxorStep (i : ℕ) (s : UInt8 × Buf) : UInt8 × Buf :=
  let w := Function.update s.2 i (s.1 ^^^ s.2 i)
  (w i, w)

/-- The locals of the loop that puts high and low bits together. -/
structure UnpackState where
  offset : UInt8
  counter : ℕ
  out : Buf

/-- One pass over low-bits byte `i`; `w` is the work buffer. -/
def unpackStep (w : Buf) (i : ℕ) (s : UnpackState) : UnpackState :=
  let sectorbase : Buf := fun k => w (sixbitExtraBytes + k)
  let s := if sixbitOffBegin ≤ s.offset then
      { s with
        out := Function.update s.out s.offset.toNat
          ((sectorbase s.offset.toNat &&& 0xFC : UInt8) ||| ((w i &&& 0x80 : UInt8) >>> 7)
            ||| ((w i &&& 0x40 : UInt8) >>> 5))
        counter := s.counter + 1 }
    else s
  let offset := s.offset - UInt8.ofNat sixbitExtraBytes
  let out := Function.update s.out offset.toNat
    ((sectorbase offset.toNat &&& 0xFC : UInt8) ||| ((w i &&& 0x20 : UInt8) >>> 5)
      ||| ((w i &&& 0x10 : UInt8) >>> 3))
  let offset := offset - UInt8.ofNat sixbitExtraBytes
  let out := Function.update out offset.toNat
    ((sectorbase offset.toNat &&& 0xFC : UInt8) ||| ((w i &&& 0x08 : UInt8) >>> 3)
      ||| ((w i &&& 0x04 : UInt8) >>> 1))
  { offset := offset - UInt8.ofNat sixbitExtraWrap
    counter := s.counter + 2
    out := out }

/-- `out` after `denibblize_sector` decoded the 343 disk bytes at `src` into it. -/
def denibblizeSector (src out : Buf) : Except Fault Buf := do
  let w ← forUpM (numSixbitNibs + 1) (lookupStep src) (fun _ => 0)
  let w := (forUp numSixbitNibs unxorStep (0, w)).2
  let s := forUp sixbitExtraBytes (unpackStep w)
    { offset := sixbitOffBegin, counter := 0, out := out }
  assertThat (s.counter == 0x100) .invalidBytesCount
  assertThat (s.offset == 2) .invalidBytesCount
  return s.out

end Apple2ix.Disk
