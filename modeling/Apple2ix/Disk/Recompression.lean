import Apple2ix.Disk.ControllerRuns
import Apple2ix.Disk.InsertedImages
import Apple2ix.Misc.ZlibDeflate

/-! `disk6_eject` with the code of `zlib_deflate_buffer`: when the eject of a gzipped image stops
the program, and what it leaves in the file when it does not. -/
namespace Apple2ix.Disk
open Runs Zlib
set_option autoImplicit false

/-! ## disk6_eject -/

/-- An assertion of disk.c or of zlib-helpers.c. -/
inductive EjectFault
  | disk (fault : Fault)
  | zlib (fault : Zlib.Fault)
  deriving DecidableEq, Repr

/-- The answers of the host to one `disk6_eject`, those to `zlib_deflate_buffer` included. -/
structure RecompressHost where
  deflate : Zlib.DeflateHost
  ftruncateOk : Bool

/-- The part of `disk6_eject` for writable images. -/
def closeCompressed (z : Gzip) (host : RecompressHost) (d : Diskette) :
    Except EjectFault (Diskette × Option String) :=
  if 0 < d.fd ∧ d.isProtected = false then do
    let flushed ← (flushDiskette d).mapError .disk
    if flushed.rawImageData = .mapFailed then return (flushed, none)
    else
      let name ← (deref flushed.fileName).mapError .disk
      if isGz name then
        let raw ← (deref flushed.raw).mapError .disk
        let deflated ← (Zlib.zlibDeflateBuffer z.deflate host.deflate raw flushed.wholeLen
          flushed.rawBuffer).mapError .zlib
        (recompress ⟨fun _ _ _ => deflated, host.ftruncateOk⟩ flushed).mapError .disk
      else return (flushed, none)
  else .ok (d, none)

/-- `disk6_eject`, with the error it returns. -/
def ejectCompressed (z : Gzip) (host : RecompressHost) (d : Diskette) :
    Except EjectFault (Diskette × Option String) := do
  let closed ← closeCompressed z host d
  return (closed.1.empty, closed.2)

theorem ok_mapError {ε ε' α : Type} (f : ε → ε') (a : α) :
    (Except.ok a : Except ε α).mapError f = .ok a := rfl

theorem mapError_ok {ε ε' α : Type} {f : ε → ε'} {x : Except ε α} {a : α} :
    x.mapError f = .ok a ↔ x = .ok a := by
  cases x <;> simp [Except.mapError]

/-- **An eject is one that the model of the controller allows**: with the deflated buffer it worked
out as the answer of `zlib_deflate_buffer`. -/
theorem ejectCompressed_ejectDiskette {z : Gzip} {host : RecompressHost} {d : Diskette}
    {r : Diskette × Option String} (h : ejectCompressed z host d = .ok r) :
    ∃ answers : EjectHost, ejectDiskette answers d = .ok r := by
  obtain ⟨closed, hclose, hr⟩ := bind_eq_ok.mp h
  cases hr
  suffices hclosed : ∃ answers : EjectHost, closeImage answers d = .ok closed by
    obtain ⟨answers, hclosed⟩ := hclosed
    exact ⟨answers, by rw [ejectDiskette, hclosed]; rfl⟩
  unfold closeCompressed at hclose
  split at hclose
  case isFalse hopen =>
    cases hclose
    exact ⟨⟨fun _ _ _ => ⟨none, zeros, 0⟩, true⟩, if_neg hopen⟩
  case isTrue hopen =>
    obtain ⟨flushed, hflush, hclose⟩ := bind_eq_ok.mp hclose
    have hrelease : ∀ answers, closeImage answers d = releaseImage answers flushed := by
      intro answers
      rw [closeImage, if_pos hopen, mapError_ok.mp hflush, ok_bind]
    split at hclose
    case isTrue hnone =>
      cases hclose
      exact ⟨⟨fun _ _ _ => ⟨none, zeros, 0⟩, true⟩, by rw [hrelease, releaseImage, if_pos hnone]⟩
    case isFalse hmapped =>
      obtain ⟨name, hname, hclose⟩ := bind_eq_ok.mp hclose
      have hgzip : ∀ answers, releaseImage answers flushed =
          if isGz name then recompress answers flushed else .ok (flushed, none) := by
        intro answers
        rw [releaseImage, if_neg hmapped, mapError_ok.mp hname, ok_bind]
        rfl
      split at hclose
      case isTrue hgz =>
        obtain ⟨raw, -, hclose⟩ := bind_eq_ok.mp hclose
        obtain ⟨deflated, -, hclose⟩ := bind_eq_ok.mp hclose
        refine ⟨⟨fun _ _ _ => deflated, host.ftruncateOk⟩, ?_⟩
        rw [hrelease, hgzip, if_pos hgz, mapError_ok.mp hclose]
      case isFalse hplain =>
        cases hclose
        exact ⟨⟨fun _ _ _ => ⟨none, zeros, 0⟩, true⟩, by rw [hrelease, hgzip, if_neg hplain]⟩

/-! ## The length of a mapped image -/

/-- The length that an inserted image was mapped with. -/
def Diskette.Sized (d : Diskette) : Prop :=
  0 ≤ d.fd → d.wholeLen = if d.nibblized then nibSize else dskSize

theorem Settled.sized {d e : Diskette} (h : d.Sized) (he : Settled d e) : e.Sized := by
  cases he <;> exact h

theorem DriveStep.sized {conformant : Bool} {s : Disk6} {i : ℕ} {op : Op} {d : Diskette}
    (h : ControllerOk conformant s) (hs : DriveStep conformant s i op d)
    (hsized : (s.disk i).Sized) : d.Sized := by
  have hflushed : ∀ e, flushDiskette (s.disk i) = .ok e → e.Sized := fun e he =>
    (flushDiskette_settled (h.drives i) he).sized hsized
  cases hs with
  | idle => exact hsized
  | moved => exact hsized
  | turned d _ _ ht =>
    generalize s.written = written at ht
    cases ht <;> exact hsized
  | left e _ _ _ hflush => exact hflushed e hflush
  | flushed _ _ _ hflush => exact hflushed _ hflush
  | reset e _ _ hflush => exact hflushed e hflush
  | ejected => exact fun hfd => absurd hfd (by decide : ¬ (0 : ℤ) ≤ -1)
  | inserted _ name readonly host _ _ r _ _ d err hinsert =>
    obtain ⟨r', err', hok, hinserted⟩ := insertImage_inserted conformant host r name readonly
    rw [hok] at hinsert
    cases hinsert
    cases hinserted with
    | refused => exact fun hfd => absurd hfd (by decide : ¬ (0 : ℤ) ≤ -1)
    | opened => exact fun _ => rfl

/-- Every drive of a run has its image mapped with the length of its format. -/
theorem run_sized {conformant : Bool} {ops : List Op} {s : Disk6}
    (h : runM (step conformant) initDisk6 ops = .ok s) (i : ℕ) : (s.disk i).Sized := by
  have hall : ControllerOk conformant s ∧ ∀ i, (s.disk i).Sized := by
    refine runM_invariant (fun u => ControllerOk conformant u ∧ ∀ i, (u.disk i).Sized) ?_
      ⟨initDisk6_ok conformant, fun _ hfd => absurd hfd (by decide : ¬ (0 : ℤ) ≤ -1)⟩ h
    rintro u op v ⟨hu, hsized⟩ hs
    obtain ⟨hdrive, hall⟩ := step_drives hu hs
    exact ⟨⟨hdrive, fun i => (hall i).headOk hu⟩, fun i => (hall i).sized hu (hsized i)⟩
  exact hall.2 i

/-! ## What an eject leaves -/

/-- The bytes of a file. -/
def ImageFile.content (f : ImageFile) : List UInt8 := window f.bytes 0 f.length

/-- The raw image of a mapped file. -/
def Diskette.image (d : Diskette) : List UInt8 := window d.file.bytes 0 d.wholeLen

/-- The raw image at the eject, with the dirty track written back. -/
def Diskette.ejectImage (d : Diskette) : List UInt8 :=
  match flushDiskette d with
  | .ok flushed => flushed.image
  | .error _ => d.image

/-- A writable image from a file that is named like a gzipped one. -/
structure Diskette.OpenGzip (d : Diskette) : Prop where
  closes : d.Closes
  named : ∃ name, d.fileName = some name ∧ isGz name = true

/-- The file holds the packed image: all of it is the packed image where it could be cut, and
otherwise the image is still what it inflates to first. -/
structure Recompressed (z : Gzip) (host : RecompressHost) (d : Diskette) (file : ImageFile) :
    Prop where
  smaller : (z.deflate d.image).length < d.wholeLen
  inflates : host.ftruncateOk = true → z.inflate file.content = d.image
  inflates_first : d.wholeLen ≤ d.file.length → d.image <+: z.inflate file.content

/-- What the eject of the flushed diskette `d` owes: it writes inside the mapped image and the raw
buffer, and leaves the image packed, or as it is when packing fails or gains nothing. -/
structure Ejected (z : Gzip) (host : RecompressHost) (d e : Diskette) (err : Option String) :
    Prop where
  mapped : ∀ i, d.wholeLen ≤ i → e.file.bytes i = d.file.bytes i
  buffer : ∀ i, d.wholeLen ≤ i → e.rawBuffer i = d.rawBuffer i
  kept_or_packed : e.file = d.file ∨ Recompressed z host d e.file
  kept_of_err : err ≠ none → e.file = d.file
  packed : host.deflate.OnlyShort → (z.deflate d.image).length < d.wholeLen →
    Recompressed z host d e.file

/-- The eject does not abort, and leaves what it owes. -/
def EjectKeeps (z : Gzip) (host : RecompressHost) (d : Diskette) : Prop :=
  ∃ flushed e err, flushDiskette d = .ok flushed ∧ ejectCompressed z host d = .ok (e, err) ∧
    Ejected z host flushed e err

section Eject
variable {conformant : Bool} {z : Gzip} {host : RecompressHost} {d flushed : Diskette}

/-- The diskette once its dirty track is written back. -/
theorem Settled.mapped (h : d.HeadOk conformant) (hsized : d.Sized) (hopen : d.OpenGzip)
    (hs : Settled d flushed) :
    flushed.rawImageData = .mapping ∧ flushed.fileName = d.fileName ∧
      flushed.wholeLen = d.wholeLen ∧ 0 < d.wholeLen ∧ d.wholeLen < 2 ^ 31 := by
  have hfd : 0 ≤ d.fd := le_of_lt hopen.closes.1
  have hraw := (h.loaded hfd).raw
  rw [hopen.closes.2] at hraw
  have hlen := hsized hfd
  have hbounds : 0 < d.wholeLen ∧ d.wholeLen < 2 ^ 31 := by
    rw [hlen]
    cases d.nibblized <;> decide
  cases hs with
  | clean => exact ⟨hraw, rfl, rfl, hbounds⟩
  | saved => exact ⟨hraw, rfl, rfl, hbounds⟩

variable (z host) in
/-- The eject of a mapped gzipped image, after its flush. -/
theorem ejectCompressed_flushed (hopen : d.OpenGzip) (hflush : flushDiskette d = .ok flushed)
    (hraw : flushed.rawImageData = .mapping) (hname : flushed.fileName = d.fileName) :
    ejectCompressed z host d =
      ((Zlib.zlibDeflateBuffer z.deflate host.deflate flushed.file.bytes flushed.wholeLen
        flushed.rawBuffer).mapError .zlib >>= fun deflated =>
      (recompress ⟨fun _ _ _ => deflated, host.ftruncateOk⟩ flushed).mapError .disk >>= fun
        closed =>
      .ok (closed.1.empty, closed.2)) := by
  obtain ⟨name, hd, hgz⟩ := hopen.named
  have hguard : 0 < d.fd ∧ d.isProtected = false := hopen.closes
  have hbytes : flushed.raw = some flushed.file.bytes := by rw [Diskette.raw, hraw]
  have hclose : closeCompressed z host d =
      ((Zlib.zlibDeflateBuffer z.deflate host.deflate flushed.file.bytes flushed.wholeLen
        flushed.rawBuffer).mapError .zlib >>= fun deflated =>
      (recompress ⟨fun _ _ _ => deflated, host.ftruncateOk⟩ flushed).mapError .disk) := by
    rw [closeCompressed, if_pos hguard, hflush]
    simp only [ok_mapError, ok_bind, hraw, reduceCtorEq, if_false, hname, hd, deref, hgz, if_true,
      hbytes]
  rw [ejectCompressed, hclose]
  exact bind_assoc _ _ _

/-- The packed image is copied over the start of the mapped one, and the file cut after it. -/
theorem recompress_packed (hraw : d.rawImageData = .mapping) {deflated : Deflated}
    (hsize : 0 < deflated.dstSize) (hless : deflated.dstSize < d.wholeLen) (ftruncateOk : Bool) :
    recompress ⟨fun _ _ _ => deflated, ftruncateOk⟩ d =
      .ok ({ d with
        rawBuffer := deflated.dst
        file :=
          { bytes := d.file.bytes.copy 0 deflated.dst deflated.dstSize.toNat
            length := if ftruncateOk then deflated.dstSize.toNat else d.file.length } },
        deflated.err) := by
  have hbytes : d.raw = some d.file.bytes := by rw [Diskette.raw, hraw]
  rw [recompress, hbytes]
  simp only [deref, ok_bind, if_pos hsize, decide_eq_true hless, assertThat_true, Diskette.setRaw,
    hraw]
  rfl

theorem recompress_unpacked (hraw : d.rawImageData = .mapping) {deflated : Deflated}
    (hsize : deflated.dstSize = -1) (ftruncateOk : Bool) :
    recompress ⟨fun _ _ _ => deflated, ftruncateOk⟩ d =
      .ok ({ d with rawBuffer := deflated.dst }, deflated.err) := by
  have hbytes : d.raw = some d.file.bytes := by rw [Diskette.raw, hraw]
  rw [recompress, hbytes]
  simp only [deref, ok_bind, hsize]
  rfl

/-- The file after the packed image was copied over its start. -/
theorem copied_content_cut {bytes dst : Buf} {packed : List UInt8}
    (hdst : window dst 0 packed.length = packed) :
    ImageFile.content ⟨bytes.copy 0 dst packed.length, packed.length⟩ = packed := by
  refine Eq.trans (window_congr fun i hi => ?_) hdst
  exact (Buf.copy_inside bytes dst 0 packed.length i hi).trans (by rw [Nat.zero_add])

theorem copied_content (bytes : Buf) {dst : Buf} {packed : List UInt8}
    (hdst : window dst 0 packed.length = packed) {length : ℕ} (hlen : packed.length ≤ length) :
    ∃ rest, ImageFile.content ⟨bytes.copy 0 dst packed.length, length⟩ = packed ++ rest := by
  refine ⟨window (bytes.copy 0 dst packed.length) packed.length (length - packed.length), ?_⟩
  have hcopied : window (bytes.copy 0 dst packed.length) 0 packed.length = packed :=
    copied_content_cut hdst
  have happend := window_append (bytes.copy 0 dst packed.length) 0 packed.length
    (length - packed.length)
  rw [Nat.zero_add, hcopied, Nat.add_sub_cancel' hlen] at happend
  exact happend.symm

variable (host) in
/-- What `zlib_deflate_buffer` left makes an eject that leaves what it owes. -/
theorem recompress_ejected (hraw : d.rawImageData = .mapping)
    {deflated : Deflated} (hok : Zlib.PackedOk (z.deflate d.image) d.rawBuffer d.wholeLen deflated)
    (hall : host.deflate.OnlyShort → deflated.dstSize = (z.deflate d.image).length) :
    ∃ e err, recompress ⟨fun _ _ _ => deflated, host.ftruncateOk⟩ d = .ok (e, err) ∧
      Ejected z host d e.empty err := by
  have hpos : 0 < (z.deflate d.image).length := List.length_pos_iff.mpr (z.deflate_ne_nil _)
  rcases hok.size with hnone | ⟨herr, hless, hsize, hdst⟩
  · refine ⟨_, _, recompress_unpacked hraw hnone _, fun _ _ => rfl, hok.outside, Or.inl rfl,
      fun _ => rfl, fun hhost => ?_⟩
    have := hall hhost
    omega
  · have hnat : deflated.dstSize.toNat = (z.deflate d.image).length := by omega
    have hpacked : Recompressed z host d
        { bytes := d.file.bytes.copy 0 deflated.dst deflated.dstSize.toNat
          length := if host.ftruncateOk then deflated.dstSize.toNat else d.file.length } := by
      rw [hnat]
      refine ⟨hless, fun hcut => ?_, fun hfile => ?_⟩
      · rw [if_pos hcut, copied_content_cut hdst, z.inflate_deflate]
      · obtain ⟨rest, hcontent⟩ := copied_content d.file.bytes hdst
          (by split <;> omega : (z.deflate d.image).length ≤
            if host.ftruncateOk then (z.deflate d.image).length else d.file.length)
        rw [hcontent]
        exact z.inflate_append d.image rest
    refine ⟨_, _, recompress_packed hraw (by omega) (by omega) _, fun i hi => ?_, hok.outside,
      Or.inr hpacked, fun hne => absurd herr hne, fun _ _ => hpacked⟩
    exact Buf.copy_outside _ _ _ _ _ (Or.inr (by omega))

/-- **An eject keeps the image** when its flush can decode the dirty track, and the image shrinks or
does not get as far as the temporary file. -/
theorem ejectKeeps_iff (h : d.HeadOk conformant) (hsized : d.Sized) (hopen : d.OpenGzip) :
    EjectKeeps z host d ↔ (d.trackDirty = true → d.WriteBackOk) ∧
      ¬ (host.deflate.Packs d.wholeLen ∧ d.wholeLen ≤ (z.deflate d.ejectImage).length) := by
  by_cases hback : d.trackDirty = true → d.WriteBackOk
  · obtain ⟨flushed, hflush, hsettled⟩ := flushDiskette_ok h hback
    obtain ⟨hraw, hname, hlen, hpos, hint⟩ := hsettled.mapped h hsized hopen
    have himage : d.ejectImage = window flushed.file.bytes 0 d.wholeLen := by
      rw [Diskette.ejectImage, hflush, ← hlen]
      rfl
    have heject := ejectCompressed_flushed z host hopen hflush hraw hname
    rw [hlen] at heject
    rw [and_iff_right hback, himage]
    constructor
    · rintro ⟨_, e, err, -, hok, -⟩ ⟨hpacks, hbig⟩
      rw [heject, Zlib.zlibDeflateBuffer_aborts hpos hint hpacks hbig] at hok
      cases hok
    · intro hcond
      obtain ⟨deflated, hdeflate, hpacked, hall⟩ := Zlib.zlibDeflateBuffer_ok
        flushed.rawBuffer hpos hint (z.deflate_ne_nil _) hcond
      have himage' : flushed.image = window flushed.file.bytes 0 d.wholeLen := by
        rw [Diskette.image, hlen]
      rw [← himage'] at hpacked hall
      obtain ⟨e, err, hrecompress, hejected⟩ :=
        recompress_ejected host hraw (by rw [hlen]; exact hpacked) hall
      refine ⟨flushed, e.empty, err, hflush, ?_, hejected⟩
      rw [heject, hdeflate, ok_mapError, ok_bind, hrecompress]
      rfl
  · obtain ⟨hd, hbad⟩ := Classical.not_imp.mp hback
    refine iff_of_false ?_ fun hcond => hback hcond.1
    rintro ⟨flushed, _, _, hflush, -⟩
    rw [flushDiskette_error h hd hbad] at hflush
    cases hflush

end Eject

/-! ## Ejects in a run -/

/-- **Ejecting a gzipped image after any run** of the controller: the program aborts when the dirty
track cannot be decoded, or the image was packed and did not get smaller; in every other case the
image is kept, packed or as it is. -/
theorem eject_keeps_image {conformant : Bool} {ops : List Op} {s : Disk6}
    (hrun : runM (step conformant) initDisk6 ops = .ok s) (drive : Fin 2)
    (hopen : (s.disk drive).OpenGzip) (z : Gzip) (host : RecompressHost) :
    EjectKeeps z host (s.disk drive) ↔
      ((s.disk drive).trackDirty = true → (s.disk drive).WriteBackOk) ∧
      ¬ (host.deflate.Packs (s.disk drive).wholeLen ∧
        (s.disk drive).wholeLen ≤ (z.deflate (s.disk drive).ejectImage).length) :=
  ejectKeeps_iff ((run_ok hrun).drives drive) (run_sized hrun drive) hopen

/-! ## Images that do not shrink -/

/-- `a.dsk.gz`. -/
def gzName : List UInt8 := [0x61, 0x2E, 0x64, 0x73, 0x6B, 0x2E, 0x67, 0x7A]

/-- A host that answers every call with one byte. -/
def bytewise : RecompressHost where
  deflate :=
    { openFile := true, gzdopen := true, gzwrites := fun _ => some 0, gzflush := true
      lseek := fun _ => true, reads := fun _ => some 0, gzerr := none }
  ftruncateOk := true

/-- A host without room for the temporary file. -/
def roomless : RecompressHost where
  deflate := { bytewise.deflate with openFile := false }
  ftruncateOk := true

/-- A host that finds the image `b` in the file it inserts. -/
def imageHost (b : Buf) : InsertHost where
  zlibDeflateBuffer := fun _ _ dst => ⟨none, dst, -1⟩
  ftruncateOk := true
  zlibInflateToBuffer := fun _ dst => (none, dst)
  dup := some 3
  zlibInflateInplace := fun n => (none, ⟨b, n⟩)
  mmapOk := true

/-- The image `b` in a drive that nothing was written to. -/
structure Diskette.Holding (b : Buf) (d : Diskette) : Prop where
  openGzip : d.OpenGzip
  clean : d.trackDirty = false
  mapping : d.rawImageData = .mapping
  file : d.file = ⟨b, dskSize⟩
  wholeLen : d.wholeLen = dskSize

theorem Diskette.Holding.ejectImage {b : Buf} {d : Diskette} (h : d.Holding b) :
    d.ejectImage = window b 0 dskSize := by
  have himage : d.ejectImage = d.image := by rw [Diskette.ejectImage, flushDiskette_clean h.clean]
  rw [himage, Diskette.image, h.file, h.wholeLen]

/-- The image is inserted. -/
theorem image_inserted (b : Buf) : ∃ d,
    runM (step false) initDisk6 [.insert 0 gzName false (imageHost b)] =
      .ok (initDisk6.setDisk 0 d) ∧ d.Holding b := by
  obtain ⟨d, err, hstep, hinserted⟩ := insert_inserted false (imageHost b) gzName false
  refine ⟨d, by rw [runM_cons_ok [] hstep, runM_nil], ?_⟩
  cases hinserted with
  | refused o err hclosed => exact absurd rfl hclosed
  | opened fd rb b' f ptr w hopens hopen hfd =>
    have hfile : ⟨b, dskSize⟩ = f := congrArg Diskette.file hopen
    have hthree : 3 = fd := congrArg Diskette.fd hopen
    exact ⟨⟨⟨hthree ▸ (by decide : (0 : ℤ) < 3), rfl⟩, gzName, rfl, by decide⟩, rfl, rfl,
      hfile.symm,
      rfl⟩

theorem bytewise_packs (n : ℕ) : bytewise.deflate.Packs n :=
  DeflateHost.OnlyShort.packs ⟨rfl, rfl, fun _ => Option.some_ne_none 0, rfl,
    fun _ => rfl, fun _ => Option.some_ne_none 0⟩ n

/-- Bytes in which deflate finds nothing to compress. -/
def noise : Buf := fun i => UInt8.ofNat (i ^ 3 / 1009)

/-- Without a temporary file the eject leaves the inserted noise as it is. -/
theorem eject_keeps_image_noise : ∃ d,
    runM (step false) initDisk6 [.insert 0 gzName false (imageHost noise)] =
        .ok (initDisk6.setDisk 0 d) ∧
      d.Holding noise ∧ EjectKeeps .stored roomless d := by
  obtain ⟨d, hrun, hholds⟩ := image_inserted noise
  have hdisk : (initDisk6.setDisk 0 d).disk (0 : Fin 2) = d :=
    Disk6.setDisk_self (s := initDisk6) 0 d
  have hkeeps := eject_keeps_image hrun 0 (hdisk.symm ▸ hholds.openGzip) .stored roomless
  rw [hdisk] at hkeeps
  refine ⟨d, hrun, hholds, hkeeps.mpr ⟨fun hdirty => ?_, fun hfull => ?_⟩⟩
  · rw [hholds.clean] at hdirty
    cases hdirty
  · exact absurd hfull.1.openFile Bool.false_ne_true

/-- With one, the eject stops the program. -/
theorem eject_aborts_noise : ∃ d,
    runM (step false) initDisk6 [.insert 0 gzName false (imageHost noise)] =
        .ok (initDisk6.setDisk 0 d) ∧
      d.Holding noise ∧ ¬ EjectKeeps .stored bytewise d := by
  obtain ⟨d, hrun, hholds⟩ := image_inserted noise
  have hdisk : (initDisk6.setDisk 0 d).disk 0 = d := Disk6.setDisk_self (s := initDisk6) 0 d
  have hok := (run_ok hrun).drives 0
  have hsized := run_sized hrun 0
  rw [hdisk] at hok hsized
  have hbig : dskSize ≤ (Gzip.stored.deflate (window noise 0 dskSize)).length := by
    have h := StoredGzip.length_pack (window noise 0 dskSize)
    rwa [window_length] at h
  refine ⟨d, hrun, hholds, fun hkeeps => ?_⟩
  refine ((ejectKeeps_iff hok hsized hholds.openGzip).mp hkeeps).2 ⟨bytewise_packs _, ?_⟩
  rw [hholds.ejectImage, hholds.wholeLen]
  exact hbig

end Apple2ix.Disk
