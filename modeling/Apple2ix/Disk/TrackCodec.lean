import Apple2ix.Disk.SectorCodec

/-! One track: `nibblize_track` and `denibblize_track`, for either setting of the compile-time
switch `CONFORMANT_TRACKS`. -/
namespace Apple2ix.Disk
open Loops
set_option autoImplicit false

/-! ## Sector skewing -/

def skewTable6Po : List ℕ :=
  [0x00, 0x08, 0x01, 0x09, 0x02, 0x0A, 0x03, 0x0B, 0x04, 0x0C, 0x05, 0x0D, 0x06, 0x0E, 0x07, 0x0F]
def skewTable6Do : List ℕ :=
  [0x00, 0x07, 0x0E, 0x06, 0x0D, 0x05, 0x0C, 0x04, 0x0B, 0x03, 0x0A, 0x02, 0x09, 0x01, 0x08, 0x0F]

def skewTable6 (po : Bool) : List ℕ := if po then skewTable6Po else skewTable6Do

/-- `256 * skew_table[sector]`. -/
def secOff (skew : List ℕ) (sector : ℕ) : ℕ := 256 * skew.getD sector 0

/-! ## nibblize_track -/

def code44A (a : ℕ) : UInt8 := UInt8.ofNat (((a >>> 1) &&& 0x55) ||| 0xAA)
def code44B (b : ℕ) : UInt8 := UInt8.ofNat ((b &&& 0x55) ||| 0xAA)

/-- Self-sync bytes before the first sector and after each sector. -/
def trackGap (conformant : Bool) : ℕ := if conformant then 48 else 8
def sectorGap (conformant : Bool) : ℕ := if conformant then 27 else 8

/-- Address field, the gap of six self-sync bytes and the data prologue of one sector. -/
def addressField (track sector : ℕ) : List UInt8 :=
  let checksum := (dskVolume ^^^ track ^^^ sector) % 256
  [0xD5, 0xAA, 0x96,
    code44A dskVolume, code44B dskVolume,
    code44A track, code44B track,
    code44A sector, code44B sector,
    code44A checksum, code44B checksum,
    0xDE, 0xAA, 0xEB] ++ List.replicate 6 0xFF ++ [0xD5, 0xAA, 0xAD]

/-- The bytes one pass of `while (sector < 16)` appends to the track. -/
def nibblizeTrackSector (conformant : Bool) (skew : List ℕ) (track : ℕ) (buf : Buf)
    (sector : ℕ) : Except Fault (List UInt8) := do
  let data ← nibblizeSector fun i => buf (secOff skew sector + i)
  return addressField track sector ++ data ++ [0xDE, 0xAA, 0xEB] ++
    List.replicate (sectorGap conformant) 0xFF

/-- The bytes `nibblize_track` writes from `output` on; their number is the width it returns. -/
def nibblizeTrack (conformant : Bool) (skew : List ℕ) (track : ℕ) (buf : Buf) :
    Except Fault (List UInt8) :=
  forUpM numSectors
    (fun sector output => do
      let bytes ← nibblizeTrackSector conformant skew track buf sector
      return output ++ bytes)
    (List.replicate (trackGap conformant) 0xFF)

/-- The image after the nibbles are written from `start` on. -/
def storeNibbles (image : Buf) (start : ℕ) (nibs : List UInt8) : Buf :=
  fun i => if start ≤ i ∧ i - start < nibs.length then nibs.getD (i - start) 0 else image i

/-! ## denibblize_track -/

/-- The search for a header or data prologue: at most `n` more bytes are looked at. The result
is the part of `prologue[3]` that was filled, and the offset after the last byte read. -/
def findPrologue (trackimage : Buf) (trackwidth : ℕ) :
    ℕ → List UInt8 → ℕ → List UInt8 × ℕ
  | 0, prologue, offset => (prologue, offset)
  | n + 1, prologue, offset =>
    let byte := trackimage offset
    let prologue := if !prologue.isEmpty || byte == 0xD5 then prologue ++ [byte] else prologue
    let offset := (offset + 1) % trackwidth
    if 3 ≤ prologue.length then (prologue, offset)
    else findPrologue trackimage trackwidth n prologue offset

/-- The locals of the decoder and the track it writes; `sector` is -1 when no header is open. -/
structure ScanState where
  offset : ℕ
  sector : ℤ
  dst : Buf

/-- The copy of the 343 bytes of a data field, with the offset that advances with it. -/
def copyDataField (trackimage : Buf) (trackwidth offset : ℕ) : ℕ × Buf :=
  forUp (numSixbitNibs + 1)
    (fun idx s => ((s.1 + 1) % trackwidth, Function.update s.2 idx (trackimage s.1)))
    (offset, fun _ => 0)

def sctoff : ℕ := 4

/-- One pass of the loop over headers and data sections. -/
def denibblizeStep (skew : List ℕ) (trackimage : Buf) (trackwidth : ℕ) (s : ScanState) :
    Except Fault ScanState :=
  let found := findPrologue trackimage trackwidth nibTrackSize [] s.offset
  let prologue := found.1
  let offset := found.2
  if prologue.getD 1 0 ≠ 0xAA then
    .ok { s with offset := offset }
  else if prologue.getD 2 0 = 0x96 then
    let offset := (offset + sctoff) % trackwidth
    let sector := ((trackimage offset).toNat &&& 0x55) <<< 1
    let offset := (offset + 1) % trackwidth
    let sector := sector ||| ((trackimage offset).toNat &&& 0x55)
    let offset := (offset + 1) % trackwidth
    .ok { s with offset := offset, sector := sector }
  else if prologue.getD 2 0 ≠ 0xAD then
    .ok { s with offset := offset }
  else do
    let copied := copyDataField trackimage trackwidth offset
    assertThat (0 ≤ s.sector && s.sector < 16) .invalidPreviousNibblization
    let off := secOff skew s.sector.toNat
    let sectorBuf ← denibblizeSector copied.2 fun i => s.dst (off + i)
    return { offset := copied.1
             sector := -1
             dst := fun i => if off ≤ i then sectorBuf (i - off) else s.dst i }

/-- `dst` after `denibblize_track` decoded the track at `src` into it. -/
def denibblizeTrack (skew : List ℕ) (trackwidth : ℕ) (src dst : Buf) : Except Fault Buf := do
  let s ← forUpM (2 * numSectors + 1) (fun _ => denibblizeStep skew src trackwidth)
    { offset := 0, sector := -1, dst := dst }
  return s.dst

end Apple2ix.Disk
