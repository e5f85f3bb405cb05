import Mathlib.Data.List.Infix
import Mathlib.Data.List.TakeDrop
import Apple2ix.Foundations.Bytes

/-! What a program relies on when it packs bytes with gzip, and the packing into stored blocks that
deflate falls back to for bytes it cannot compress. -/
namespace Apple2ix
set_option autoImplicit false

/-- A lossless packer. `inflate` gives what a file inflates to up to its end or its first error;
of what follows a packed stream it may take more streams, or nothing. -/
structure Gzip where
  deflate : List UInt8 → List UInt8
  inflate : List UInt8 → List UInt8
  deflate_ne_nil : ∀ data, deflate data ≠ []
  inflate_deflate : ∀ data, inflate (deflate data) = data
  inflate_append : ∀ data rest, data <+: inflate (deflate data ++ rest)

namespace StoredGzip

/-! ## Stored blocks -/

/-- The bytes of a number, the lowest first. -/
def littleEndian : ℕ → ℕ → List UInt8
  | 0, _ => []
  | n + 1, x => UInt8.ofNat (x % 256) :: littleEndian n (x / 256)

/-- A stored block: the mark of the last one, the length twice, and the bytes. -/
def block (last : Bool) (data : List UInt8) : List UInt8 :=
  (if last then 1 else 0) ::
    (littleEndian 2 data.length ++ littleEndian 2 (0xFFFF - data.length)) ++ data

/-- The number of bytes that go to one block, as deflate with its default buffer has it. -/
def blockSize : ℕ := 16384

def blocks (data : List UInt8) : List UInt8 :=
  if data.length ≤ blockSize then block true data
  else block false (data.take blockSize) ++ blocks (data.drop blockSize)
termination_by data.length
decreasing_by
  have : 0 < blockSize := by decide
  rw [List.length_drop]
  omega

/-- The bytes of the blocks at the start of a stream. -/
def unblock (stream : List UInt8) : List UInt8 :=
  match stream with
  | last :: lo :: hi :: _ :: _ :: rest =>
    let n := lo.toNat + 256 * hi.toNat
    if last = 1 then rest.take n else rest.take n ++ unblock (rest.drop n)
  | _ => []
termination_by stream.length
decreasing_by
  simp only [List.length_cons, List.length_drop]
  omega

theorem length_bytes {n : ℕ} (h : n ≤ blockSize) :
    (UInt8.ofNat (n % 256)).toNat + 256 * (UInt8.ofNat (n / 256 % 256)).toNat = n := by
  have hsize : blockSize = 16384 := rfl
  have hbyte : UInt8.size = 256 := rfl
  rw [UInt8.toNat_ofNat_of_lt' (by omega), UInt8.toNat_ofNat_of_lt' (by omega)]
  omega

theorem unblock_last {data : List UInt8} (h : data.length ≤ blockSize) (rest : List UInt8) :
    unblock (block true data ++ rest) = data := by
  unfold unblock
  simp only [block, littleEndian, if_true, List.cons_append, List.nil_append]
  rw [length_bytes h, List.take_left]

theorem unblock_block {data : List UInt8} (h : data.length ≤ blockSize) (rest : List UInt8) :
    unblock (block false data ++ rest) = data ++ unblock rest := by
  conv_lhs => unfold unblock
  simp only [block, littleEndian, Bool.false_eq_true, if_false, List.cons_append, List.nil_append]
  rw [if_neg (by decide), length_bytes h, List.take_left, List.drop_left]

/-- **The blocks of any bytes hold them**, whatever follows. -/
theorem unblock_blocks (data rest : List UInt8) : unblock (blocks data ++ rest) = data := by
  induction data using blocks.induct with
  | case1 data h =>
    rw [blocks, if_pos h]
    exact unblock_last h rest
  | case2 data h ih =>
    rw [blocks, if_neg h, List.append_assoc,
      unblock_block (by rw [List.length_take]; omega), ih, List.take_append_drop]

theorem length_blocks (data : List UInt8) : data.length ≤ (blocks data).length := by
  induction data using blocks.induct with
  | case1 data h =>
    rw [blocks, if_pos h]
    simp only [block, List.length_append, List.length_cons]
    omega
  | case2 data h ih =>
    rw [blocks, if_neg h]
    rw [List.length_drop] at ih
    simp only [block, List.length_append, List.length_cons, List.length_take]
    omega

/-! ## gzip members -/

/-- One bit of the check sum of a gzip member. -/
def crcBit (crc : UInt32) : UInt32 :=
  if crc &&& 1 = 1 then (crc >>> 1) ^^^ 0xEDB88320 else crc >>> 1

def crc32 (data : List UInt8) : UInt32 :=
  data.foldl (fun crc b => crcBit^[8] (crc ^^^ b.toUInt32)) 0xFFFFFFFF ^^^ 0xFFFFFFFF

def header : List UInt8 := [0x1F, 0x8B, 8, 0, 0, 0, 0, 0, 0, 3]

/-- A gzip member of stored blocks. -/
def pack (data : List UInt8) : List UInt8 :=
  header ++ (blocks data ++ (littleEndian 4 (crc32 data).toNat ++ littleEndian 4 data.length))

/-- What a member of stored blocks holds; bytes without the header are passed on as they are. -/
def unpack (stream : List UInt8) : List UInt8 :=
  if stream.take header.length = header then unblock (stream.drop header.length) else stream

theorem unpack_pack (data rest : List UInt8) : unpack (pack data ++ rest) = data := by
  unfold unpack pack
  rw [List.append_assoc, List.take_left, if_pos rfl, List.drop_left, List.append_assoc,
    unblock_blocks]

/-- Stored blocks are longer than what they hold. -/
theorem length_pack (data : List UInt8) : data.length ≤ (pack data).length := by
  have h := length_blocks data
  simp only [pack, List.length_append]
  omega

end StoredGzip

/-- Packing without compression. -/
def Gzip.stored : Gzip where
  deflate := StoredGzip.pack
  inflate := StoredGzip.unpack
  deflate_ne_nil := nofun
  inflate_deflate data := by
    have h := StoredGzip.unpack_pack data []
    rwa [List.append_nil] at h
  inflate_append data rest := by rw [StoredGzip.unpack_pack]

end Apple2ix
