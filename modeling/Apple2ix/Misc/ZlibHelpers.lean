import Mathlib.Algebra.Group.Nat.Defs
import Apple2ix.Foundations.Integers
import Apple2ix.Foundations.Transfers
import Apple2ix.Foundations.Windows

/-! zlib-helpers.c: reading and writing through descriptors that may move fewer bytes than they
are asked for, and loading a disk image that may be gzipped to a buffer or in place. The streams
of zlib are parameters: what a gzip file inflates to, and what an image deflates to. -/
namespace Apple2ix.Zlib
open Transfers
set_option autoImplicit false

/-- The assertions of zlib-helpers.c. -/
inductive Fault
  | shortLength
  | expectedBytes
  | compressedSize
  deriving DecidableEq, Repr

/-- `assert(cond)`. -/
def assertThat (cond : Bool) (fault : Fault) : Except Fault Unit :=
  if cond then .ok () else .error fault

def uintMax : ℕ := 2 ^ 32 - 1

def zerrUnknown : String := "Unknown zlib error"

/-- The error returned for a count of bytes that is not the expected one; `gzerr` is what `_gzerr`
answers for the stream, when one is open. -/
def zlibError (gzerr : Option String) (bytescount : ℤ) (stream : Bool) (expected : ℕ) :
    Option String :=
  if bytescount ≠ expected then
    if stream then some (gzerr.getD zerrUnknown) else some zerrUnknown
  else none

/-! ## Descriptors -/

/-- An open file and its position. -/
structure OpenFile where
  bytes : List UInt8
  offset : ℕ

/-- The answers of the host to consecutive calls of `read`, `gzread` or `write`: an error, or one
byte more than the number given at most. -/
abbrev Calls := ℕ → Option ℕ

/-- What `read` delivers of the bytes from the file position on; nothing at the end of the file
and on an error. -/
def read (calls : Calls) (k len : ℕ) (rest : List UInt8) : List UInt8 :=
  match calls k with
  | none => []
  | some most => rest.take (min len (most + 1))

/-- What `gzread` delivers; it refuses a length that is no `int`. -/
def gzread (calls : Calls) (k len : ℕ) (rest : List UInt8) : List UInt8 :=
  if len < 2 ^ 31 then read calls k len rest else []

/-- What `write` takes of `data` to the file position, and the number of bytes taken. -/
def write (calls : Calls) (k : ℕ) (data : List UInt8) (file : OpenFile) : OpenFile × ℕ :=
  match calls k with
  | none => (file, 0)
  | some most =>
    let piece := data.take (most + 1)
    ({ bytes := file.bytes.take file.offset ++ piece ++ file.bytes.drop (file.offset + piece.length)
       offset := file.offset + piece.length }, piece.length)

/-! ## _gzread_data, _read_data, _write_data -/

/-- The bytes still to come, and the buffer being filled. -/
structure Reading where
  rest : List UInt8
  buf : Buf

/-- `piece` goes to `buf+bytescount`. -/
def Reading.store (s : Reading) (bytescount : ℕ) (piece : List UInt8) : Reading × ℕ :=
  ({ rest := s.rest.drop piece.length
     buf := s.buf.copy bytescount (piece.getD · 0) piece.length }, piece.length)

/-- The loop shared by `_gzread_data` and `_read_data`, which gives up after ten calls that
deliver nothing. -/
def fillBuffer (call : ℕ → ℕ → List UInt8 → Except Fault (List UInt8)) (rest : List UInt8)
    (expected : ℕ) (buf : Buf) : Except Fault (Reading × ℕ) :=
  transfer (fun k bytescount s =>
      call k (expected - bytescount) s.rest >>= fun piece => .ok (s.store bytescount piece))
    expected 10 0 0 ⟨rest, buf⟩

/-- `_gzread_data`: the value it returns and the buffer. -/
def gzreadData (calls : Calls) (rest : List UInt8) (expected : ℕ) (buf : Buf) :
    Except Fault (ℤ × Buf) := do
  let (s, bytescount) ← fillBuffer (fun k len rest =>
      .ok (gzread calls k len rest)) rest expected buf
  return (toInt32 bytescount, s.buf)

/-- `_read_data`: when all was read, the count it returns went through an `int`. -/
def readData (calls : Calls) (rest : List UInt8) (expected : ℕ) (buf : Buf) :
    Except Fault (ℤ × Buf) := do
  let (s, bytescount) ← fillBuffer (fun k len rest => do
    assertThat (len ≤ uintMax) .shortLength
    return read calls k len rest) rest expected buf
  return (if bytescount < expected then (bytescount : ℤ) else toInt32 expected, s.buf)

/-- `_write_data`: the file and the number of bytes written. -/
def writeData (calls : Calls) (file : OpenFile) (buf : Buf) (expected : ℕ) :
    Except Fault (OpenFile × ℕ) :=
  transfer (fun k bytescount file =>
    .ok (write calls k (window buf bytescount (expected - bytescount)) file)) expected 10 0 0 file

/-! ## _check_gzip_magick -/

/-- `a2gzip_t`. -/
inductive A2gzip
  | err
  | notGz
  | maybeGz
  deriving DecidableEq, Repr

/-- The answers of the host to one call of `zlib_inflate_to_buffer` or `zlib_inflate_inplace`;
`lseek k` tells whether call number `k` of `lseek` succeeds. -/
structure Host where
  dup : Bool
  magickReads : Calls
  lseek : ℕ → Bool
  malloc : Bool
  gzdopen : Bool
  gzreads : Calls
  dataReads : Calls
  writes : Calls
  ftruncate : Bool
  gzerr : Option String

/-- `_check_gzip_magick`: the two bytes at the file position, and the length of the file. -/
def checkGzipMagick (host : Host) (file : OpenFile) (expected : ℕ) : Except Fault A2gzip := do
  let (bytescount, stkbuf) ←
    readData host.magickReads (file.bytes.drop file.offset) 2 (fun _ => 0)
  if bytescount ≠ 2 then return .err
  else if host.lseek 0 = false then return .err
  else if stkbuf 0 = 0x1F ∧ stkbuf 1 = 0x8B then return .maybeGz
  else if expected ≤ file.bytes.length then return .notGz
  else return .err

/-! ## zlib_inflate_to_buffer -/

/-- `bytescount`, whether `gzsource` is open, and the buffer. -/
structure Loading where
  bytescount : ℤ
  gzsource : Bool
  buf : Buf

/-- The loading of a file with the gzip magic. -/
def inflateBuffer (inflate : List UInt8 → List UInt8) (host : Host) (file : OpenFile)
    (expected : ℕ) (buf : Buf) : Except Fault Loading :=
  if host.gzdopen = false then .ok ⟨0, false, buf⟩
  else do
    let (bytescount, buf) ← gzreadData host.gzreads (inflate file.bytes) expected buf
    if bytescount ≠ expected then
      if host.lseek 2 = false then return ⟨bytescount, true, buf⟩
      else
        let (bytescount, buf) ← readData host.dataReads file.bytes expected buf
        return ⟨if bytescount < expected then bytescount else expected, true, buf⟩
    else return ⟨bytescount, true, buf⟩

/-- The `do … while (0)` of `zlib_inflate_to_buffer`. -/
def loadBuffer (inflate : List UInt8 → List UInt8) (host : Host) (file : OpenFile)
    (expected : ℕ) (buf : Buf) : Except Fault Loading :=
  if host.dup = false then .ok ⟨0, false, buf⟩
  else do
    let val ← checkGzipMagick host file expected
    if val = .err then return ⟨0, false, buf⟩
    else if host.lseek 1 = false then return ⟨0, false, buf⟩
    else if val = .notGz then
      let (bytescount, buf) ← readData host.dataReads file.bytes expected buf
      return ⟨bytescount, false, buf⟩
    else inflateBuffer inflate host file expected buf

/-- `zlib_inflate_to_buffer`: the error it returns and the buffer. -/
def zlibInflateToBuffer (inflate : List UInt8 → List UInt8) (host : Host) (file : OpenFile)
    (expected : ℕ) (buf : Buf) : Except Fault (Option String × Buf) := do
  assertThat (0 < expected) .expectedBytes
  let loading ← loadBuffer inflate host file expected buf
  return (zlibError host.gzerr loading.bytescount loading.gzsource expected, loading.buf)

/-! ## zlib_inflate_inplace -/

/-- `bytescount`, whether `gzsource` is open, the bytes of the file and `*is_gzipped`. -/
structure Replacing where
  bytescount : ℤ
  gzsource : Bool
  file : List UInt8
  isGzipped : Bool

/-- The inflated image is written over the file, and the file cut after it. -/
def writeInflated (host : Host) (file : OpenFile) (expected : ℕ) (bytescount : ℤ) (buf : Buf) :
    Except Fault Replacing :=
  if host.lseek 2 = false then .ok ⟨bytescount, true, file.bytes, true⟩
  else do
    let (written, bytescount) ← writeData host.writes { file with offset := 0 } buf expected
    if bytescount = expected ∧ host.ftruncate then
      return ⟨bytescount, true, written.bytes.take expected, true⟩
    else return ⟨bytescount, true, written.bytes, true⟩

/-- The loading in place of a file with the gzip magic; `buf` is what `MALLOC` returned. -/
def inflateFile (inflate : List UInt8 → List UInt8) (host : Host) (file : OpenFile)
    (expected : ℕ) (buf : Buf) : Except Fault Replacing :=
  if host.malloc = false then .ok ⟨0, false, file.bytes, false⟩
  else if host.lseek 1 = false then .ok ⟨0, false, file.bytes, false⟩
  else if host.gzdopen = false then .ok ⟨0, false, file.bytes, false⟩
  else do
    let (bytescount, buf) ← gzreadData host.gzreads (inflate file.bytes) expected buf
    if bytescount ≠ expected then
      if host.lseek 2 = false then return ⟨-1, true, file.bytes, false⟩
      else return ⟨if file.bytes.length < expected then file.bytes.length else expected, true,
        file.bytes, false⟩
    else writeInflated host file expected bytescount buf

/-- The `do … while (0)` of `zlib_inflate_inplace`. -/
def replaceFile (inflate : List UInt8 → List UInt8) (host : Host) (file : OpenFile)
    (expected : ℕ) (buf : Buf) : Except Fault Replacing :=
  if host.dup = false then .ok ⟨0, false, file.bytes, false⟩
  else do
    let val ← checkGzipMagick host file expected
    if val = .err then return ⟨0, false, file.bytes, false⟩
    else if val = .notGz then return ⟨expected, false, file.bytes, false⟩
    else inflateFile inflate host file expected buf

/-- `zlib_inflate_inplace`: the error it returns, the bytes of the file and `*is_gzipped`. -/
def zlibInflateInplace (inflate : List UInt8 → List UInt8) (host : Host) (file : OpenFile)
    (expected : ℕ) (buf : Buf) : Except Fault (Option String × List UInt8 × Bool) := do
  assertThat (2 < expected) .expectedBytes
  let replacing ← replaceFile inflate host file expected buf
  return (zlibError host.gzerr replacing.bytescount replacing.gzsource expected, replacing.file,
    replacing.isGzipped)

end Apple2ix.Zlib
