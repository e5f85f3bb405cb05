import Apple2ix.Disk.DriveSteps

/-! Inserting an image: every track of a DSK image is nibblized with the same width, no assertion
fires, and the drive meets the head invariant whether or not the host could open the image. -/
namespace Apple2ix.Disk
open Loops
set_option autoImplicit false

/-- An image that was opened and waits for its nibbles. -/
structure Diskette.Opened (d : Diskette) : Prop where
  fd_nonneg : 0 ≤ d.fd
  named : ∃ name, d.fileName = some name
  raw : d.rawImageData = if d.isProtected then .rawBuffer else .mapping
  invalid : d.trackValid = false
  clean : d.trackDirty = false
  phase_le : d.phase ≤ 69
  len : d.nibblized = true → d.wholeLen = nibSize
  skew : d.nibblized = false → ∃ po, d.skewTable = some (skewTable6 po)

section Attach
variable {conformant : Bool} {d : Diskette}

theorem raw_of_ptr (h : d.rawImageData = if d.isProtected then .rawBuffer else .mapping) :
    ∃ raw, d.raw = some raw := by
  rcases Bool.eq_false_or_eq_true d.isProtected with hp | hp
  · exact ⟨d.rawBuffer, by simp [Diskette.raw, h, hp]⟩
  · exact ⟨d.file.bytes, by simp [Diskette.raw, h, hp]⟩

/-- The invariant of the nibblizing loop after `n` tracks. -/
def Nibblizing (conformant : Bool) (d : Diskette) (n : ℕ) (t : Diskette) : Prop :=
  (∃ b w p,
      t = { d with nibImageData := .nibBuffer, nibBuffer := b, trackWidth := w, phase := p }) ∧
    DiskBytes conformant n t.nibBuffer ∧
    t.trackWidth = if n = 0 then 0 else trackWidth conformant

theorem nibblizeStep_ok (h : d.Opened) (hn : d.nibblized = false) (n : ℕ) (t : Diskette)
    (ht : Nibblizing conformant d n t) :
    ∃ t', nibblizeStep conformant n t = .ok t' ∧ Nibblizing conformant d (n + 1) t' := by
  obtain ⟨⟨b, w, p, rfl⟩, hbytes, hw⟩ := ht
  obtain ⟨po, hskew⟩ := h.skew hn
  obtain ⟨raw, hraw⟩ := raw_of_ptr h.raw
  have htrack : Diskette.track { d with phase := n <<< 1 } = n := Nat.shiftLeft_shiftRight n 1
  obtain ⟨nibs, hnibs⟩ : ∃ nibs, nibblizeTrack conformant (skewTable6 po)
      (Diskette.track { d with phase := n <<< 1 })
      (raw.from (dskTrackSize * Diskette.track { d with phase := n <<< 1 })) = .ok nibs :=
    ⟨_, nibblizeTrack_eq conformant (skewTable6 po) _ _⟩
  have hload := loadTrackData_dsk
    (d := { d with nibImageData := .nibBuffer, nibBuffer := b, trackWidth := w, phase := n <<< 1 })
    hn hraw rfl hskew hnibs
  have hfits : decide (trackWidth conformant ≤ nibTrackSize) = true := by
    have := trackWidth_le conformant
    simp only [decide_eq_true_eq]
    omega
  generalize hc :
    storeNibbles b (nibTrackSize * Diskette.track { d with phase := n <<< 1 }) nibs = c
  have hstored : DiskBytes conformant (n + 1) c := by
    rw [← hc, htrack]
    apply storeNibbles_diskBytes conformant (n + 1) n b nibs
      (nibblizeTrack_length _ _ _ _ _ hnibs) (nibblizeTrack_ge _ _ _ _ _ hnibs)
    intro trk i htrk hne hi
    exact hbytes trk i (by omega) hi
  have hload' : loadTrackData conformant
      { d with nibImageData := .nibBuffer, nibBuffer := b, trackWidth := w, phase := n <<< 1 } =
      .ok ({ d with nibImageData := .nibBuffer, nibBuffer := c, trackWidth := w, phase := n <<< 1 },
        trackWidth conformant) := by
    rw [hload, ← hc]
    rfl
  refine ⟨{ d with
      nibImageData := .nibBuffer, nibBuffer := c, trackWidth := trackWidth conformant,
      phase := n <<< 1 }, ?_, ⟨_, _, _, rfl⟩, hstored, (if_neg (Nat.succ_ne_zero n)).symm⟩
  unfold nibblizeStep
  rw [hload', ok_bind, hfits, assertThat_true, ok_bind]
  by_cases hzero : n = 0
  · rw [if_pos hzero] at hw
    exact if_pos hw
  · rw [if_neg hzero] at hw
    obtain rfl : w = trackWidth conformant := hw
    have hne : ¬ trackWidth conformant = 0 := Nat.pos_iff_ne_zero.mp (trackWidth_pos conformant)
    refine (if_neg hne).trans ?_
    simp only [decide_true, assertThat_true, ok_bind]
    rfl

variable (conformant) in
/-- The nibbles of an opened image: the drive then meets the head invariant. -/
theorem attachNibbles_ok (h : d.Opened) :
    ∃ p b w, attachNibbles conformant d =
        .ok { d with nibImageData := p, nibBuffer := b, trackWidth := w } ∧
      ({ d with nibImageData := p, nibBuffer := b, trackWidth := w } : Diskette).HeadOk
        conformant := by
  have hneg : ¬ d.fd < 0 := Int.not_lt.mpr h.fd_nonneg
  rcases Bool.eq_false_or_eq_true d.nibblized with hn | hn
  · refine ⟨.rawImage, d.nibBuffer, nibTrackSize, if_pos hn, ?_⟩
    refine ⟨h.phase_le, fun hv => ?_, fun hd => ?_, fun hd => ?_, fun hfd => absurd hfd hneg,
      fun _ => ⟨h.named, h.raw, fun _ => ⟨rfl, rfl, h.len hn⟩, fun hf => ?_⟩⟩
    · exact absurd (hv.symm.trans h.invalid) (by decide)
    · exact absurd (hd.symm.trans h.clean) (by decide)
    · exact absurd (hd.symm.trans h.clean) (by decide)
    · exact absurd (hn.symm.trans hf) (by decide)
  · have hstart : Nibblizing conformant d 0
        { d with nibImageData := .nibBuffer, trackWidth := 0 } := by
      refine ⟨⟨_, _, _, rfl⟩, ?_, rfl⟩
      intro trk i htrk
      omega
    obtain ⟨t, hloop, ⟨b, w, p, rfl⟩, hbytes, hw⟩ := forUpM_invariant
      (Nibblizing conformant d) numTracks hstart fun i t _ => nibblizeStep_ok h hn i t
    refine ⟨.nibBuffer, b, w, ?_, ?_⟩
    · rw [attachNibbles, if_neg (by rw [hn]; decide), hloop]
      rfl
    · refine ⟨h.phase_le, fun hv => ?_, fun hd => ?_, fun hd => ?_, fun hfd => absurd hfd hneg,
        fun _ => ⟨h.named, h.raw, fun hf => ?_, fun _ => ⟨rfl, hw, h.skew hn, hbytes⟩⟩⟩
      · exact absurd (hv.symm.trans h.invalid) (by decide)
      · exact absurd (hd.symm.trans h.clean) (by decide)
      · exact absurd (hd.symm.trans h.clean) (by decide)
      · exact absurd (hf.symm.trans hn) (by decide)

/-! ## disk6_insert -/

theorem Diskette.named_skew (d : Diskette) (name : List UInt8) (readonly : Bool)
    (hn : (d.named name readonly).nibblized = false) :
    ∃ po, (d.named name readonly).skewTable = some (skewTable6 po) := by
  have hnib : isNib name = false := hn
  refine ⟨isPo name, ?_⟩
  unfold named skewTable6
  simp only [hnib, Bool.false_eq_true, if_false]

/-- What opening an image leads to: an image, or an error that leaves the drive to be ejected
without a close. -/
theorem openImage_cases (host : InsertHost) (hp : d.phase ≤ 69) (name : List UInt8)
    (readonly : Bool) :
    ∃ o err go, openImage host (d.empty.named name readonly) = (o, err, go) ∧
      o.phase = d.phase ∧ (go = true → o.Opened) ∧
      (go = true → err ≠ none → o.isProtected = true) ∧
      (go = false → err ≠ none ∧ o.rawImageData = .mapFailed ∧ o.trackDirty = false) := by
  have hskew := d.empty.named_skew name readonly
  have hlen : (d.empty.named name readonly).nibblized = true →
      (d.empty.named name readonly).wholeLen = nibSize := fun hn => if_pos hn
  unfold openImage
  rcases Bool.eq_false_or_eq_true readonly with hr | hr
  · refine ⟨_, _, _, if_pos hr, rfl, fun _ => ?_, fun _ _ => hr, nofun⟩
    have hfd : (0 : ℤ) ≤ readonlyFd := by decide
    refine ⟨hfd, ⟨name, rfl⟩, ?_, rfl, rfl, hp, hlen, hskew⟩
    exact (if_pos hr).symm
  · have hprot : ¬ (d.empty.named name readonly).isProtected = true := by
      rw [show (d.empty.named name readonly).isProtected = readonly from rfl, hr]
      decide
    rw [if_neg hprot]
    cases host.dup with
    | none => exact ⟨_, _, _, rfl, rfl, nofun, nofun, fun _ => ⟨nofun, rfl, rfl⟩⟩
    | some fd =>
      cases hinflate : (host.zlibInflateInplace (d.empty.named name readonly).wholeLen).1 with
      | some err =>
        simp only [hinflate]
        exact ⟨_, _, _, rfl, rfl, nofun, nofun, fun _ => ⟨nofun, rfl, rfl⟩⟩
      | none =>
        simp only [hinflate]
        cases host.mmapOk with
        | false => exact ⟨_, _, _, rfl, rfl, nofun, nofun, fun _ => ⟨nofun, rfl, rfl⟩⟩
        | true =>
          refine ⟨_, _, _, rfl, rfl, fun _ => ?_, fun _ hne => absurd rfl hne, nofun⟩
          refine ⟨Int.natCast_nonneg fd, ⟨name, rfl⟩, ?_, rfl, rfl, hp, hlen, hskew⟩
          exact (if_neg hprot).symm

/-- The descriptor of an opened image is the one `dup` returned, or that of a read-only image. -/
theorem openImage_fd (host : InsertHost) (name : List UInt8) (readonly : Bool) :
    (openImage host (d.empty.named name readonly)).1.fd = -1 ∨
      (openImage host (d.empty.named name readonly)).1.fd = readonlyFd ∨
      ∃ fd : ℕ, host.dup = some fd ∧
        (openImage host (d.empty.named name readonly)).1.fd = fd := by
  unfold openImage
  cases readonly with
  | true => exact Or.inr (Or.inl rfl)
  | false =>
    have hprot : ¬ (d.empty.named name false).isProtected = true := nofun
    rw [if_neg hprot]
    cases host.dup with
    | none => exact Or.inl rfl
    | some fd =>
      refine Or.inr (Or.inr ⟨fd, rfl, ?_⟩)
      dsimp only
      split
      · rfl
      · split <;> rfl

/-- Ejecting after a failed insert never fails. -/
theorem ejectDiskette_failed (host : EjectHost)
    (h : d.isProtected = true ∨ d.rawImageData = .mapFailed) :
    ejectDiskette host d = .ok (d.empty, none) := by
  by_cases hc : d.Closes
  · have hnone := h.resolve_left (by rw [hc.2]; decide)
    have hflush : flushDiskette d = .ok d := by
      unfold flushDiskette
      rw [if_neg (by have := hc.1; omega), if_neg (by rw [hc.2]; decide), if_pos hnone]
    rw [ejectDiskette_close host hc, hflush, ok_bind, releaseImage, if_pos hnone]
    rfl
  · exact ejectDiskette_skip host hc

variable (conformant) in
/-- **An insert into an empty drive stays in the program**, and leaves a drive that meets the head
invariant with nothing unsaved. -/
theorem insertImage_ok (host : InsertHost) (hp : d.phase ≤ 69) (name : List UInt8)
    (readonly : Bool) :
    ∃ r err, insertImage conformant host d.empty name readonly = .ok (r, err) ∧
      r.HeadOk conformant ∧ r.trackDirty = false ∧
      (r.fd = -1 ∨ r.fd = (openImage host (d.empty.named name readonly)).1.fd) := by
  obtain ⟨o, err, go, hopen, hphase, hopened, hprot, hfailed⟩ :=
    openImage_cases host hp name readonly
  unfold insertImage
  simp only [hopen]
  cases go with
  | false =>
    obtain ⟨herr, hnone, -⟩ := hfailed rfl
    obtain ⟨e, rfl⟩ := Option.ne_none_iff_exists'.mp herr
    refine ⟨o.empty, some e, ?_, o.empty_headOk (by rw [hphase]; exact hp), rfl, Or.inl rfl⟩
    simp only [Bool.false_eq_true, if_false, ok_bind,
      ejectDiskette_failed host.toEjectHost (Or.inr hnone)]
    rfl
  | true =>
    obtain ⟨p, b, w, hattach, hhead⟩ :=
      attachNibbles_ok conformant (hopened rfl)
    simp only [if_true, hattach, ok_bind]
    cases err with
    | none => exact ⟨_, none, rfl, hhead, (hopened rfl).clean, Or.inr rfl⟩
    | some e =>
      have heject := ejectDiskette_failed host.toEjectHost
        (d := { o with nibImageData := p, nibBuffer := b, trackWidth := w })
        (Or.inl (hprot rfl nofun))
      refine ⟨_, some e, ?_, Diskette.empty_headOk _ hhead.phase_le, rfl, Or.inl rfl⟩
      simp only [heject, ok_bind]
      rfl

variable (conformant) in
/-- The drive after a writable image was inserted. -/
theorem insertImage_mapped (host : InsertHost) (hp : d.phase ≤ 69) (name : List UInt8) {fd : ℕ}
    {f : ImageFile} (hdup : host.dup = some fd)
    (hinflate : host.zlibInflateInplace (d.empty.named name false).wholeLen = (none, f))
    (hmmap : host.mmapOk = true) :
    ∃ p b w, insertImage conformant host d.empty name false =
        .ok ({ d.empty.named name false with
          fd := fd, file := f, rawImageData := .mapping, nibImageData := p, nibBuffer := b,
          trackWidth := w }, none) ∧
      ({ d.empty.named name false with
          fd := fd, file := f, rawImageData := .mapping, nibImageData := p, nibBuffer := b,
          trackWidth := w } : Diskette).HeadOk conformant := by
  have hopen : openImage host (d.empty.named name false) =
      ({ d.empty.named name false with fd := fd, file := f, rawImageData := .mapping },
        none, true) := by
    have hprot : ¬ (d.empty.named name false).isProtected = true := nofun
    unfold openImage
    rw [if_neg hprot, hdup]
    simp only [hinflate, hmmap, if_true]
  obtain ⟨o, err, go, ho, -, hopened, -, -⟩ := openImage_cases host hp name false
  rw [hopen] at ho
  cases ho
  obtain ⟨p, b, w, hattach, hhead⟩ :=
    attachNibbles_ok conformant (hopened rfl)
  refine ⟨p, b, w, ?_, hhead⟩
  unfold insertImage
  simp only [hopen, if_true, hattach, ok_bind]
  rfl

end Attach

end Apple2ix.Disk
