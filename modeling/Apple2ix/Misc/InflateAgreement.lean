import Apple2ix.Misc.ZlibReads

/-! Inserting an image read-only and inserting it read/write: what `zlib_inflate_to_buffer` puts
into the buffer and what `zlib_inflate_inplace` leaves in the file are compared through the image
that a file stands for. -/
namespace Apple2ix.Zlib
open Transfers
set_option autoImplicit false

/-- Reads and writes may be short; every other call of the host succeeds. -/
structure Host.OnlyShort (host : Host) : Prop where
  dup : host.dup = true
  magickReads : host.magickReads.OnlyShort
  lseek : ∀ k, host.lseek k = true
  malloc : host.malloc = true
  gzdopen : host.gzdopen = true
  gzreads : host.gzreads.OnlyShort
  dataReads : host.dataReads.OnlyShort
  writes : host.writes.OnlyShort

/-! ## The image of a file -/

/-- What the magic at the file position and the length of the file tell. -/
def OpenFile.kind (file : OpenFile) (expected : ℕ) : A2gzip :=
  if file.bytes.length < file.offset + 2 then .err
  else if (file.bytes.drop file.offset).take 2 = [0x1F, 0x8B] then .maybeGz
  else if expected ≤ file.bytes.length then .notGz
  else .err

/-- The number of bytes of a gzip stream that `gzread` delivers when `expected` are wanted. -/
def gzAvailable (stream : List UInt8) (expected : ℕ) : ℕ :=
  if expected < 2 ^ 31 then min expected stream.length else 0

/-- The disk image in a file, if it has one: what the file inflates to, or the file itself. -/
def diskImage (inflate : List UInt8 → List UInt8) (file : OpenFile) (expected : ℕ) :
    Option (List UInt8) :=
  match file.kind expected with
  | .err => none
  | .notGz => some (file.bytes.take expected)
  | .maybeGz =>
    if gzAvailable (inflate file.bytes) expected = expected then
      some ((inflate file.bytes).take expected)
    else if expected ≤ file.bytes.length then some (file.bytes.take expected)
    else none

/-- A plain image that begins with the gzip magic. -/
def PlainWithMagick (inflate : List UInt8 → List UInt8) (file : OpenFile) (expected : ℕ) : Prop :=
  file.kind expected = .maybeGz ∧ (inflate file.bytes).length < expected ∧
    expected ≤ file.bytes.length

section Loading
variable {host : Host} (inflate : List UInt8 → List UInt8) (file : OpenFile) {expected : ℕ}

theorem checkGzipMagick_eq (h : host.OnlyShort) :
    checkGzipMagick host file expected = .ok (file.kind expected) := by
  obtain ⟨count, stkbuf, hread, hcount, -, hfull⟩ := readData_short h.magickReads
    (file.bytes.drop file.offset) (fun _ => 0) (by decide : 0 < 2) (by decide)
  rw [List.length_drop] at hcount hfull
  rw [checkGzipMagick, hread, ok_bind, OpenFile.kind]
  by_cases hshort : file.bytes.length < file.offset + 2
  · have hne : count ≠ 2 := by
      intro heq
      have := (hcount.mp heq).2
      omega
    rw [if_pos hshort]
    exact if_pos hne
  · have htwo : count = 2 := hcount.mpr ⟨by decide, by omega⟩
    have hbytes : (stkbuf 0 = 0x1F ∧ stkbuf 1 = 0x8B) ↔
        (file.bytes.drop file.offset).take 2 = [0x1F, 0x8B] := by
      rw [← hfull (by omega)]
      simp [window, List.range_succ]
    subst htwo
    rw [if_neg hshort]
    simp only [ne_eq, not_true_eq_false, if_false, h.lseek 0, Bool.true_eq_false, hbytes]
    split_ifs <;> rfl

theorem gzreadData_eq {calls : Calls} (h : calls.OnlyShort) (stream : List UInt8) (buf : Buf)
    (hpos : 0 < expected) :
    ∃ out, gzreadData calls stream expected buf = .ok (gzAvailable stream expected, out) ∧
      (gzAvailable stream expected = expected →
        window out 0 expected = stream.take expected) := by
  by_cases hint : expected < 2 ^ 31
  · obtain ⟨out, hread, hout⟩ := gzreadData_short h stream buf hpos hint
    refine ⟨out, ?_, fun hall => hout ?_⟩
    · rw [hread, gzAvailable, if_pos hint, Nat.cast_min]
    · rw [gzAvailable, if_pos hint] at hall
      omega
  · obtain ⟨out, hread⟩ := gzreadData_refused calls stream buf (by omega : 2 ^ 31 ≤ expected)
    refine ⟨out, ?_, fun hall => ?_⟩
    · rw [hread, gzAvailable, if_neg hint, Nat.cast_zero]
    · rw [gzAvailable, if_neg hint] at hall
      omega

/-! ## zlib_inflate_inplace -/

theorem writeInflated_eq (h : host.OnlyShort) (buf : Buf) (bytescount : ℤ) (hpos : 0 < expected) :
    ∃ written, writeInflated host file expected bytescount buf =
        .ok ⟨expected, true, written, true⟩ ∧ written.take expected = window buf 0 expected := by
  obtain ⟨written, hwrite, hbytes⟩ := writeData_short h.writes file.bytes buf hpos
  have htake : written.bytes.take expected = window buf 0 expected := by
    rw [hbytes, List.take_left' (window_length buf 0 expected)]
  have hloop : writeInflated host file expected bytescount buf =
      .ok ⟨expected, true,
        if host.ftruncate then written.bytes.take expected else written.bytes, true⟩ := by
    rw [writeInflated, if_neg (by rw [h.lseek 2]; decide), hwrite]
    cases hf : host.ftruncate <;> simp [ok_bind, pure, Except.pure]
  refine ⟨_, hloop, ?_⟩
  cases host.ftruncate
  · exact htake
  · rw [if_pos rfl, List.take_take, Nat.min_self, htake]

/-- The `bytescount` that `zlib_inflate_inplace` tests, and the file. -/
theorem replaceFile_spec (h : host.OnlyShort) (hexpected : 0 < expected) (buf : Buf) :
    ∃ r, replaceFile inflate host file expected buf = .ok r ∧
      (r.bytescount = expected ↔ (diskImage inflate file expected).isSome) ∧
      (r.bytescount = expected →
        diskImage inflate file expected = some (r.file.take expected)) ∧
      (PlainWithMagick inflate file expected → r.file = file.bytes) := by
  rw [replaceFile, if_neg (by rw [h.dup]; decide), checkGzipMagick_eq file h, ok_bind, diskImage,
    PlainWithMagick]
  cases hkind : file.kind expected with
  | err =>
    have hne : (0 : ℤ) ≠ expected := by omega
    exact ⟨_, rfl, by simp [hne], fun heq => absurd heq hne, nofun⟩
  | notGz => exact ⟨_, rfl, by simp, fun _ => rfl, nofun⟩
  | maybeGz =>
    obtain ⟨out, hread, hout⟩ := gzreadData_eq h.gzreads (inflate file.bytes) buf hexpected
    simp only [reduceCtorEq, if_false, inflateFile, h.malloc, h.lseek, h.gzdopen,
      Bool.true_eq_false, hread, ok_bind]
    by_cases hall : gzAvailable (inflate file.bytes) expected = expected
    · obtain ⟨written, hwrite, htake⟩ := writeInflated_eq file h out
        (gzAvailable (inflate file.bytes) expected) hexpected
      simp only [hall, ne_eq, not_true_eq_false, if_false, if_true]
      rw [hall] at hwrite
      refine ⟨_, hwrite, by simp, fun _ => ?_, fun hplain => ?_⟩
      · rw [htake, hout hall]
      · rw [gzAvailable] at hall
        split_ifs at hall
        · omega
        · omega
    · have hne : (gzAvailable (inflate file.bytes) expected : ℤ) ≠ expected := by
        exact_mod_cast hall
      rw [if_pos hne, if_neg hall]
      refine ⟨_, rfl, ?_, ?_, fun _ => rfl⟩
      all_goals
        rcases Nat.lt_or_ge file.bytes.length expected with hlt | hge
        · have hne : ¬ expected ≤ file.bytes.length := by omega
          simp [hlt, hne]
          omega
        · have hnlt : ¬ file.bytes.length < expected := by omega
          simp [hge, hnlt]

/-- **Inserting read/write loads the image of the file**, and leaves a plain file as it is. -/
theorem zlibInflateInplace_loads (h : host.OnlyShort) (hexpected : 2 < expected) (buf : Buf) :
    ∃ err left gz, zlibInflateInplace inflate host file expected buf = .ok (err, left, gz) ∧
      (err = none ↔ (diskImage inflate file expected).isSome) ∧
      (err = none → diskImage inflate file expected = some (left.take expected)) ∧
      (PlainWithMagick inflate file expected → left = file.bytes) := by
  obtain ⟨r, hr, hsome, himage, hplain⟩ :=
    replaceFile_spec inflate file h (by omega : 0 < expected) buf
  refine ⟨zlibError host.gzerr r.bytescount r.gzsource expected, r.file, r.isGzipped, ?_, ?_,
    fun hnone => himage ?_, hplain⟩
  · rw [zlibInflateInplace, decide_eq_true hexpected, hr]
    rfl
  · rw [zlibError_eq_none]
    exact hsome
  · exact (zlibError_eq_none _ _ _ _).mp hnone

/-! ## zlib_inflate_to_buffer -/

/-- The `bytescount` that `zlib_inflate_to_buffer` tests, and the buffer. -/
theorem loadBuffer_spec (h : host.OnlyShort) (hexpected : 0 < expected) (hmax : expected ≤ uintMax)
    (buf : Buf) :
    ∃ l, loadBuffer inflate host file expected buf = .ok l ∧
      (l.bytescount = expected ↔ expected < 2 ^ 31 ∧ (diskImage inflate file expected).isSome) ∧
      (l.bytescount = expected →
        diskImage inflate file expected = some (window l.buf 0 expected)) := by
  rw [loadBuffer, if_neg (by rw [h.dup]; decide), checkGzipMagick_eq file h, ok_bind, diskImage]
  cases hkind : file.kind expected with
  | err =>
    have hne : (0 : ℤ) ≠ expected := by omega
    exact ⟨_, rfl, by simp [hne], fun heq => absurd heq hne⟩
  | notGz =>
    obtain ⟨count, out, hread, hcount, -, hout⟩ := readData_short h.dataReads file.bytes buf
      hexpected hmax
    have hlen : expected ≤ file.bytes.length := by
      unfold OpenFile.kind at hkind
      split_ifs at hkind with _ _ hlen
      exact hlen
    simp only [reduceCtorEq, if_false, h.lseek, Bool.true_eq_false, if_true, hread, ok_bind]
    refine ⟨_, rfl, ?_, fun _ => by rw [hout hlen]⟩
    simp only [hcount, hlen, Option.isSome_some]
  | maybeGz =>
    obtain ⟨out, hgz, hall⟩ := gzreadData_eq h.gzreads (inflate file.bytes) buf hexpected
    obtain ⟨count, raw, hread, hcount, hle, hraw⟩ := readData_short h.dataReads file.bytes out
      hexpected hmax
    simp only [reduceCtorEq, if_false, inflateBuffer, h.lseek, h.gzdopen, Bool.true_eq_false, hgz,
      ok_bind]
    by_cases hgot : gzAvailable (inflate file.bytes) expected = expected
    · simp only [hgot, ne_eq, not_true_eq_false, if_false, if_true]
      have hint : expected < 2 ^ 31 := by
        by_contra hint
        rw [gzAvailable, if_neg hint] at hgot
        omega
      exact ⟨_, rfl, iff_of_true rfl ⟨hint, rfl⟩, fun _ => by rw [hall hgot]⟩
    · have hne : (gzAvailable (inflate file.bytes) expected : ℤ) ≠ expected := by
        exact_mod_cast hgot
      have hcounted : (if count < expected then count else expected) = count := by
        split_ifs
        · rfl
        · omega
      rw [if_pos hne, if_neg hgot, hread]
      refine ⟨_, rfl, ?_, fun hfull => ?_⟩
      · change (if count < expected then count else (expected : ℤ)) = expected ↔ _
        rw [hcounted, hcount]
        by_cases hlen : expected ≤ file.bytes.length
        · simp only [hlen, if_true, Option.isSome_some]
        · simp only [hlen, if_false, and_false, Option.isSome_none, Bool.false_eq_true]
      · change (if count < expected then count else (expected : ℤ)) = expected at hfull
        rw [hcounted, hcount] at hfull
        rw [if_pos hfull.2, hraw hfull.2]

/-- **Inserting read-only loads the image of the file** when its size is an `int`, and nothing
otherwise. -/
theorem zlibInflateToBuffer_loads (h : host.OnlyShort) (hexpected : 0 < expected)
    (hmax : expected ≤ uintMax) (buf : Buf) :
    ∃ err out, zlibInflateToBuffer inflate host file expected buf = .ok (err, out) ∧
      (err = none ↔ expected < 2 ^ 31 ∧ (diskImage inflate file expected).isSome) ∧
      (err = none → diskImage inflate file expected = some (window out 0 expected)) := by
  obtain ⟨l, hl, hsome, himage⟩ := loadBuffer_spec inflate file h hexpected hmax buf
  refine ⟨zlibError host.gzerr l.bytescount l.gzsource expected, l.buf, ?_, ?_,
    fun hnone => himage ?_⟩
  · rw [zlibInflateToBuffer, decide_eq_true hexpected, hl]
    rfl
  · rw [zlibError_eq_none]
    exact hsome
  · exact (zlibError_eq_none _ _ _ _).mp hnone

theorem PlainWithMagick.diskImage_eq (h : PlainWithMagick inflate file expected) :
    diskImage inflate file expected = some (file.bytes.take expected) := by
  obtain ⟨hkind, hshort, hlen⟩ := h
  have hne : gzAvailable (inflate file.bytes) expected ≠ expected := by
    unfold gzAvailable
    split_ifs <;> omega
  simp only [diskImage, hkind, hne, if_false, hlen, if_true]

/-- A file too large for an `int` count holds an image when it is long enough and its magic can be
read. -/
theorem diskImage_isSome_large (hint : ¬ expected < 2 ^ 31) :
    (diskImage inflate file expected).isSome ↔
      file.offset + 2 ≤ file.bytes.length ∧ expected ≤ file.bytes.length := by
  have hne : gzAvailable (inflate file.bytes) expected ≠ expected := by
    rw [gzAvailable, if_neg hint]
    rintro rfl
    exact hint (by decide)
  unfold diskImage OpenFile.kind
  rcases Nat.lt_or_ge file.bytes.length (file.offset + 2) with hmagick | hmagick
  · simp [hmagick]
  · have hnot : ¬ file.bytes.length < file.offset + 2 := by omega
    by_cases hlen : expected ≤ file.bytes.length
    · by_cases hgz : (file.bytes.drop file.offset).take 2 = [0x1F, 0x8B]
      · simp [hnot, hgz, hne, hlen, hmagick]
      · simp [hnot, hgz, hlen, hmagick]
    · by_cases hgz : (file.bytes.drop file.offset).take 2 = [0x1F, 0x8B]
      · simp [hnot, hgz, hne, hlen]
      · simp [hnot, hgz, hlen]

/-! ## The two insertions -/

/-- The file inserted read-only into a buffer and the file inserted read/write are the same disk:
one insertion succeeds when the other does, both hold the same image, and a plain image that
begins with the gzip magic is loaded unchanged by both. -/
def SameDisk (inflate : List UInt8 → List UInt8) (readonly writable : Host) (file : OpenFile)
    (expected : ℕ) (buf room : Buf) : Prop :=
  ∃ err out err' left gz,
    zlibInflateToBuffer inflate readonly file expected buf = .ok (err, out) ∧
    zlibInflateInplace inflate writable file expected room = .ok (err', left, gz) ∧
    (err = none ↔ err' = none) ∧
    (err = none → window out 0 expected = left.take expected) ∧
    (PlainWithMagick inflate file expected → err = none ∧ err' = none ∧
      window out 0 expected = file.bytes.take expected ∧ left = file.bytes)

/-- **Read-only and read/write insertion see the same disk** for every file and every size that
fits an `int`. For the unsigned sizes above, `_read_data` returns a negative count, so that the
read-only insertion fails on every file that the other one accepts. -/
theorem insertions_agree (inflate : List UInt8 → List UInt8) {readonly writable : Host}
    (hreadonly : readonly.OnlyShort) (hwritable : writable.OnlyShort) (file : OpenFile)
    {expected : ℕ} (hexpected : 2 < expected) (hmax : expected ≤ uintMax) (buf room : Buf) :
    SameDisk inflate readonly writable file expected buf room ↔
      expected < 2 ^ 31 ∨ file.bytes.length < expected ∨
        file.bytes.length < file.offset + 2 := by
  obtain ⟨err, out, hbuffer, hnone, hout⟩ := zlibInflateToBuffer_loads inflate file
    hreadonly (by omega : 0 < expected) hmax buf
  obtain ⟨err', left, gz, hinplace, hnone', hleft, hkept⟩ := zlibInflateInplace_loads inflate
    file hwritable hexpected room
  constructor
  · rintro ⟨e, o, e', l, g, hb, hi, hiff, -, -⟩
    rw [hbuffer] at hb
    rw [hinplace] at hi
    cases hb
    cases hi
    by_cases hint : expected < 2 ^ 31
    · exact Or.inl hint
    · have hfail : err ≠ none := fun h => hint (hnone.mp h).1
      have himage := (diskImage_isSome_large inflate file hint).not.mp
        fun hsome => hfail (hiff.mpr (hnone'.mpr hsome))
      omega
  · intro hcond
    have hagree : err = none ↔ err' = none := by
      rw [hnone, hnone']
      by_cases hint : expected < 2 ^ 31
      · exact and_iff_right hint
      · have hnosome : ¬ (diskImage inflate file expected).isSome := by
          rw [diskImage_isSome_large inflate file hint]
          omega
        exact iff_of_false (fun h => hint h.1) hnosome
    have hsame : err = none → window out 0 expected = left.take expected := fun h =>
      Option.some.inj ((hout h).symm.trans (hleft (hagree.mp h)))
    refine ⟨err, out, err', left, gz, hbuffer, hinplace, hagree, hsame, fun hplain => ?_⟩
    have hsome := hplain.diskImage_eq
    have hok' : err' = none := hnone'.mpr (by rw [hsome]; rfl)
    have hok := hagree.mpr hok'
    exact ⟨hok, hok', Option.some.inj ((hout hok).symm.trans hsome), hkept hplain⟩

end Loading

/-- A host that answers every call with one byte. -/
def bytewise : Host :=
  { dup := true, magickReads := fun _ => some 0, lseek := fun _ => true, malloc := true
    gzdopen := true, gzreads := fun _ => some 0, dataReads := fun _ => some 0
    writes := fun _ => some 0, ftruncate := true, gzerr := none }

theorem bytewise_onlyShort : bytewise.OnlyShort :=
  ⟨rfl, nofun, fun _ => rfl, rfl, rfl, nofun, nofun, nofun⟩

/-- `gzread` gives a file without the magic as it is, here four bytes of which three are wanted. -/
theorem insertions_agree_plain :
    SameDisk id bytewise bytewise ⟨[0xEE, 1, 2, 3], 0⟩ 3 zeros zeros ↔
      3 < 2 ^ 31 ∨ [(0xEE : UInt8), 1, 2, 3].length < 3 ∨
        [(0xEE : UInt8), 1, 2, 3].length < 0 + 2 :=
  insertions_agree id bytewise_onlyShort bytewise_onlyShort ⟨[0xEE, 1, 2, 3], 0⟩ (by decide)
    (by decide) zeros zeros

/-- Two gigabytes of zeros, inserted as an image of that size. -/
theorem insertions_differ_twoGigabytes :
    ¬ SameDisk id bytewise bytewise ⟨List.replicate (2 ^ 31) 0, 0⟩ (2 ^ 31) zeros zeros := by
  have hint : ¬ 2 ^ 31 < 2 ^ 31 := Nat.lt_irrefl _
  obtain ⟨err, out, hbuffer, hnone, -⟩ := zlibInflateToBuffer_loads id
    ⟨List.replicate (2 ^ 31) 0, 0⟩ bytewise_onlyShort (by decide : 0 < 2 ^ 31) (by decide) zeros
  obtain ⟨err', left, gz, hinplace, hnone', -⟩ := zlibInflateInplace_loads id
    ⟨List.replicate (2 ^ 31) 0, 0⟩ bytewise_onlyShort (by decide : 2 < 2 ^ 31) zeros
  have hlength : (List.replicate (2 ^ 31) (0 : UInt8)).length = 2 ^ 31 := List.length_replicate
  have hsome := (diskImage_isSome_large id ⟨List.replicate (2 ^ 31) 0, 0⟩ hint).mpr
    ⟨by rw [hlength]; decide, by rw [hlength]⟩
  rintro ⟨e, o, e', l, g, hb, hi, hiff, -, -⟩
  rw [hbuffer] at hb
  rw [hinplace] at hi
  cases hb
  cases hi
  exact hint (hnone.mp (hiff.mpr (hnone'.mpr hsome))).1

end Apple2ix.Zlib
