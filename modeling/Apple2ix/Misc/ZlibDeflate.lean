import Apple2ix.Foundations.Gzip
import Apple2ix.Disk.Insertion
import Apple2ix.Misc.ZlibReads

/-! `zlib_deflate_buffer`: an image is packed through a temporary file, and what was packed read
back into the destination buffer. -/
namespace Apple2ix.Zlib
open Transfers
set_option autoImplicit false

/-- The answers of the host to one `zlib_deflate_buffer`. -/
structure DeflateHost where
  openFile : Bool
  gzdopen : Bool
  gzwrites : Calls
  gzflush : Bool
  lseek : ℕ → Bool
  reads : Calls
  gzerr : Option String

/-- The number of bytes `gzwrite` takes of `len`. -/
def gzwrite (calls : Calls) (k len : ℕ) : ℕ :=
  match calls k with
  | none => 0
  | some most => min len (most + 1)

/-- The loop of calls of `gzwrite`, which gives up at the first that takes nothing. -/
def gzwriteData (calls : Calls) (expected : ℕ) : Except Fault ℕ := do
  let (_, bytescount) ← transfer (fun k bytescount _ => do
    assertThat (expected - bytescount ≤ uintMax) .shortLength
    return ((), gzwrite calls k (expected - bytescount))) expected 1 0 0 ()
  return bytescount

/-- `bytescount`, `expected_bytescount`, whether `gzdest` is open, the destination and
`*dst_size`. -/
structure Deflating where
  bytescount : ℤ
  expected : ℕ
  gzdest : Bool
  dst : Buf
  dstSize : ℤ

/-- From the flushed temporary file on: its size is asserted, and it is read back. -/
def readPacked (host : DeflateHost) (packed : List UInt8) (expected : ℕ) (dst : Buf) :
    Except Fault Deflating := do
  assertThat (packed.length < expected) .compressedSize
  if host.lseek 1 = false then return ⟨expected, packed.length, true, dst, -1⟩
  else
    let (bytescount, dst) ← readData host.reads packed packed.length dst
    if bytescount ≠ packed.length then return ⟨bytescount, packed.length, true, dst, -1⟩
    else return ⟨bytescount, packed.length, true, dst, packed.length⟩

/-- The `do … while (0)` of `zlib_deflate_buffer`. -/
def packBuffer (deflate : List UInt8 → List UInt8) (host : DeflateHost) (src : Buf)
    (expected : ℕ) (dst : Buf) : Except Fault Deflating :=
  if host.openFile = false then .ok ⟨0, expected, false, dst, -1⟩
  else if host.gzdopen = false then .ok ⟨0, expected, false, dst, -1⟩
  else do
    let bytescount ← gzwriteData host.gzwrites expected
    if bytescount ≠ expected then return ⟨bytescount, expected, true, dst, -1⟩
    else if host.gzflush = false then return ⟨bytescount, expected, true, dst, -1⟩
    else if host.lseek 0 = false then return ⟨bytescount, expected, true, dst, -1⟩
    else readPacked host (deflate (window src 0 expected)) expected dst

/-- `zlib_deflate_buffer`. -/
def zlibDeflateBuffer (deflate : List UInt8 → List UInt8) (host : DeflateHost) (src : Buf)
    (srcBytescount : ℕ) (dst : Buf) : Except Fault Disk.Deflated := do
  let packing ← packBuffer deflate host src srcBytescount dst
  return ⟨zlibError host.gzerr packing.bytescount packing.gzdest packing.expected, packing.dst,
    packing.dstSize⟩

/-! ## What the host lets through -/

/-- The bytes that the first `k` calls take at most. -/
def Calls.taken (calls : Calls) : ℕ → ℕ
  | 0 => 0
  | k + 1 => calls.taken k + (calls k).elim 0 (· + 1)

/-- `n` bytes are taken before a call fails. -/
def Calls.Take (calls : Calls) (n : ℕ) : Prop :=
  ∃ k, (∀ j, j < k → calls j ≠ none) ∧ n ≤ calls.taken k

/-- The image gets to the temporary file. -/
structure DeflateHost.Packs (host : DeflateHost) (n : ℕ) : Prop where
  openFile : host.openFile = true
  gzdopen : host.gzdopen = true
  gzwrites : host.gzwrites.Take n
  gzflush : host.gzflush = true
  lseek : host.lseek 0 = true

theorem Calls.taken_mono (calls : Calls) {j k : ℕ} (h : j ≤ k) : calls.taken j ≤ calls.taken k := by
  induction k, h using Nat.le_induction with
  | base => exact Nat.le_refl _
  | succ k _ ih => exact Nat.le_trans ih (Nat.le_add_right _ _)

theorem Calls.taken_succ {calls : Calls} {k most : ℕ} (h : calls k = some most) :
    calls.taken (k + 1) = calls.taken k + (most + 1) := by
  rw [taken, h, Option.elim_some]

/-- Calls that never fail take any number of bytes. -/
theorem Calls.OnlyShort.take {calls : Calls} (h : calls.OnlyShort) (n : ℕ) : calls.Take n := by
  refine ⟨n, fun j _ => h j, ?_⟩
  induction n with
  | zero => exact Nat.zero_le _
  | succ n ih =>
    obtain ⟨most, hn⟩ := Option.ne_none_iff_exists'.mp (h n)
    rw [Calls.taken_succ hn]
    omega

/-- The loop from call `k` on, when every call before took what it was given. -/
theorem gzwrite_loop (calls : Calls) {expected : ℕ} (hmax : expected ≤ uintMax) (k : ℕ)
    (hbefore : ∀ j, j < k → calls j ≠ none) (hcount : calls.taken k < expected) :
    ∃ count, transfer (fun k bytescount (_ : Unit) => do
        assertThat (expected - bytescount ≤ uintMax) .shortLength
        return ((), gzwrite calls k (expected - bytescount))) expected 1 k (calls.taken k) () =
          .ok ((), count) ∧ count ≤ expected ∧ (count = expected ↔ calls.Take expected) := by
  induction hm : expected - calls.taken k using Nat.strong_induction_on generalizing k with
  | _ m ih =>
    have hassert : decide (expected - calls.taken k ≤ uintMax) = true := decide_eq_true (by omega)
    rw [transfer, hassert]
    cases hk : calls k with
    | none =>
      refine ⟨calls.taken k, by simp only [gzwrite, hk]; rfl, Nat.le_of_lt hcount, ?_⟩
      refine iff_of_false (by omega) ?_
      rintro ⟨l, hl, hle⟩
      have hlt : ¬ k < l := fun hlt => hl k hlt hk
      have := calls.taken_mono (Nat.le_of_not_lt hlt)
      omega
    | some most =>
      have hnext := Calls.taken_succ hk
      have hpiece : gzwrite calls k (expected - calls.taken k) =
          min (expected - calls.taken k) (most + 1) := by rw [gzwrite, hk]
      have hall : ∀ j, j < k + 1 → calls j ≠ none := by
        intro j hj
        rcases Nat.lt_succ_iff_lt_or_eq.mp hj with hlt | rfl
        · exact hbefore j hlt
        · rw [hk]
          exact Option.some_ne_none _
      have hnone : ¬ min (expected - calls.taken k) (most + 1) = 0 := by omega
      change ∃ count, (if gzwrite calls k (expected - calls.taken k) = 0 then _ else
        if expected ≤ calls.taken k + gzwrite calls k (expected - calls.taken k) then _ else
          transfer _ expected 1 (k + 1)
            (calls.taken k + gzwrite calls k (expected - calls.taken k)) ()) = _ ∧ _
      rw [hpiece, if_neg hnone]
      by_cases hdone : expected ≤ calls.taken k + min (expected - calls.taken k) (most + 1)
      · rw [if_pos hdone]
        exact ⟨expected, rfl, Nat.le_refl _, iff_of_true rfl ⟨k + 1, hall, by omega⟩⟩
      · rw [if_neg hdone]
        have hsum : calls.taken k + min (expected - calls.taken k) (most + 1) =
            calls.taken (k + 1) := by omega
        rw [hsum]
        exact ih _ (by omega) (k + 1) hall (by omega) rfl

theorem gzwriteData_spec (calls : Calls) {expected : ℕ} (hpos : 0 < expected)
    (hmax : expected ≤ uintMax) :
    ∃ count, gzwriteData calls expected = .ok count ∧ (count = expected ↔ calls.Take expected) := by
  obtain ⟨count, hloop, -, htake⟩ := gzwrite_loop calls hmax 0 nofun hpos
  refine ⟨count, ?_, htake⟩
  have hstart : calls.taken 0 = 0 := rfl
  rw [hstart] at hloop
  rw [gzwriteData, hloop]
  rfl

/-! ## zlib_deflate_buffer -/

/-- Every call of the host succeeds; only the pieces it moves may be short. -/
structure DeflateHost.OnlyShort (host : DeflateHost) : Prop where
  openFile : host.openFile = true
  gzdopen : host.gzdopen = true
  gzwrites : host.gzwrites.OnlyShort
  gzflush : host.gzflush = true
  lseek : ∀ k, host.lseek k = true
  reads : host.reads.OnlyShort

theorem DeflateHost.OnlyShort.packs {host : DeflateHost} (h : host.OnlyShort) (n : ℕ) :
    host.Packs n :=
  ⟨h.openFile, h.gzdopen, h.gzwrites.take n, h.gzflush, h.lseek 0⟩

/-- What `zlib_deflate_buffer` leaves: the packed image in the destination, or no size at all. -/
structure PackedOk (packed : List UInt8) (dst : Buf) (n : ℕ) (r : Disk.Deflated) : Prop where
  outside : ∀ i, n ≤ i → r.dst i = dst i
  size : r.dstSize = -1 ∨ (r.err = none ∧ packed.length < n ∧ r.dstSize = packed.length ∧
    window r.dst 0 packed.length = packed)

/-- The result that the outcome of the `do … while (0)` stands for. -/
def Deflating.result (p : Deflating) (host : DeflateHost) : Disk.Deflated :=
  ⟨zlibError host.gzerr p.bytescount p.gzdest p.expected, p.dst, p.dstSize⟩

section Packing
variable {deflate : List UInt8 → List UInt8} {host : DeflateHost} {src dst : Buf}
  {packed : List UInt8} {n : ℕ}

variable (host dst) in
theorem readPacked_spec (hpos : 0 < packed.length) (hshrinks : packed.length < n)
    (hint : n < 2 ^ 31) :
    ∃ p, readPacked host packed n dst = .ok p ∧ PackedOk packed dst n (p.result host) ∧
      (host.lseek 1 = true → host.reads.OnlyShort → p.dstSize = packed.length) := by
  have huint : (2 : ℕ) ^ 31 ≤ uintMax := by decide
  rw [readPacked, decide_eq_true hshrinks]
  by_cases hseek : host.lseek 1 = false
  · rw [if_pos hseek]
    refine ⟨_, rfl, ⟨fun _ _ => rfl, Or.inl rfl⟩, fun htrue => ?_⟩
    rw [hseek] at htrue
    cases htrue
  · obtain ⟨count, out, hread, hle, hout, houtside, hshort⟩ :=
      readData_spec host.reads packed dst hpos (by omega)
    rw [toInt32_small (by omega)] at hread
    rw [if_neg hseek, hread]
    have hframe : ∀ i, n ≤ i → out i = dst i := fun i hi => houtside i (by omega)
    rcases Nat.lt_or_ge count packed.length with hlt | hge
    · have hne : (count : ℤ) ≠ packed.length := by omega
      refine ⟨⟨count, packed.length, true, out, -1⟩, ?_, ⟨hframe, Or.inl rfl⟩, fun _ hreads => ?_⟩
      · simp only [if_pos hlt, ok_bind, if_pos hne]
        rfl
      · have := hshort hreads
        omega
    · have hcount : count = packed.length := by omega
      subst hcount
      refine ⟨⟨packed.length, packed.length, true, out, packed.length⟩, ?_, ⟨hframe, Or.inr
        ⟨(zlibError_eq_none _ _ _ _).mpr rfl, hshrinks, rfl, ?_⟩⟩, fun _ _ => rfl⟩
      · simp only [if_neg (Nat.lt_irrefl _), ok_bind, ne_eq, not_true_eq_false, if_false]
        rfl
      · exact hout.trans (List.take_length)

variable (deflate host src dst) in
/-- An image that gets to the temporary file is read back from there; otherwise the destination
stays as it is. -/
theorem packBuffer_spec (hpos : 0 < n) (hint : n < 2 ^ 31) :
    (host.Packs n ∧
      packBuffer deflate host src n dst = readPacked host (deflate (window src 0 n)) n dst) ∨
    (¬ host.Packs n ∧ ∃ p, packBuffer deflate host src n dst = .ok p ∧ p.dst = dst ∧
      p.dstSize = -1) := by
  have huint : (2 : ℕ) ^ 31 ≤ uintMax := by decide
  obtain ⟨count, hcount, htake⟩ := gzwriteData_spec host.gzwrites hpos (by omega)
  rw [packBuffer]
  by_cases hopen : host.openFile = false
  · rw [if_pos hopen]
    exact Or.inr ⟨fun h => Bool.noConfusion (h.openFile.symm.trans hopen), _, rfl, rfl, rfl⟩
  by_cases hgz : host.gzdopen = false
  · rw [if_neg hopen, if_pos hgz]
    exact Or.inr ⟨fun h => Bool.noConfusion (h.gzdopen.symm.trans hgz), _, rfl, rfl, rfl⟩
  rw [if_neg hopen, if_neg hgz, hcount, ok_bind]
  by_cases hall : count = n
  · rw [if_neg (not_not_intro hall)]
    by_cases hflush : host.gzflush = false
    · rw [if_pos hflush]
      exact Or.inr ⟨fun h => Bool.noConfusion (h.gzflush.symm.trans hflush), _, rfl, rfl, rfl⟩
    by_cases hseek : host.lseek 0 = false
    · rw [if_neg hflush, if_pos hseek]
      exact Or.inr ⟨fun h => Bool.noConfusion (h.lseek.symm.trans hseek), _, rfl, rfl, rfl⟩
    rw [if_neg hflush, if_neg hseek]
    exact Or.inl ⟨⟨by simpa using hopen, by simpa using hgz, htake.mp hall,
      by simpa using hflush, by simpa using hseek⟩, rfl⟩
  · rw [if_pos hall]
    exact Or.inr ⟨fun h => hall (htake.mpr h.gzwrites), _, rfl, rfl, rfl⟩

/-- **An image that does not shrink stops the program** once it is in the temporary file. -/
theorem zlibDeflateBuffer_aborts (hpos : 0 < n) (hint : n < 2 ^ 31) (h : host.Packs n)
    (hbig : n ≤ (deflate (window src 0 n)).length) :
    zlibDeflateBuffer deflate host src n dst = .error .compressedSize := by
  rcases packBuffer_spec deflate host src dst hpos hint with
    ⟨-, hpack⟩ | ⟨hnot, -⟩
  · rw [zlibDeflateBuffer, hpack, readPacked, decide_eq_false (by omega)]
    rfl
  · exact absurd h hnot

variable (dst) in
/-- **Every other call returns**, with the packed image or without a size. -/
theorem zlibDeflateBuffer_ok (hpos : 0 < n) (hint : n < 2 ^ 31)
    (hne : deflate (window src 0 n) ≠ [])
    (h : ¬ (host.Packs n ∧ n ≤ (deflate (window src 0 n)).length)) :
    ∃ r, zlibDeflateBuffer deflate host src n dst = .ok r ∧
      PackedOk (deflate (window src 0 n)) dst n r ∧
      (host.OnlyShort → r.dstSize = (deflate (window src 0 n)).length) := by
  rcases packBuffer_spec deflate host src dst hpos hint with
    ⟨hpacks, hpack⟩ | ⟨hnot, p, hpack, hdst, hsize⟩
  · have hshrinks : (deflate (window src 0 n)).length < n :=
      Nat.lt_of_not_le fun hbig => h ⟨hpacks, hbig⟩
    obtain ⟨p, hp, hok, hall⟩ := readPacked_spec host dst
      (List.length_pos_iff.mpr hne) hshrinks hint
    refine ⟨p.result host, ?_, hok, fun hhost => hall (hhost.lseek 1) hhost.reads⟩
    rw [zlibDeflateBuffer, hpack, hp]
    rfl
  · refine ⟨p.result host, ?_, ⟨fun i _ => congrFun hdst i, Or.inl hsize⟩,
      fun hhost => absurd (hhost.packs n) hnot⟩
    rw [zlibDeflateBuffer, hpack]
    rfl

end Packing

end Apple2ix.Zlib
