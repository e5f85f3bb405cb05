import Apple2ix.Disk.HeadInvariant

/-! Write-backs, seeks, flushes, ejects and inserts of one drive that meets the head invariant:
when they succeed, when they fail and what they leave. -/
namespace Apple2ix.Disk
open Loops
set_option autoImplicit false

/-! ## save_track_data -/

/-- The nibbles of the track under the head. -/
def Diskette.nibbles (d : Diskette) : Buf := d.nibBuffer.from (nibTrackSize * d.track)

/-- A write-back of the track under the head can decode it. -/
def Diskette.WriteBackOk (d : Diskette) : Prop :=
  d.nibblized = false → NumberedTrack d.nibbles d.trackWidth

/-- `image` is the raw image of `d` once `nibs` are decoded into track `track` of it. -/
def Diskette.Saves (d : Diskette) (track : ℕ) (nibs image : Buf) : Prop :=
  ∃ skew decoded, d.skewTable = some skew ∧
    denibblizeTrack skew d.trackWidth nibs (d.file.bytes.from (dskTrackSize * track)) =
      .ok decoded ∧
    image = d.file.bytes.splice (dskTrackSize * track) decoded

/-- The diskette after a write-back left `image` in the mapped file. -/
def Diskette.saved (d : Diskette) (image : Buf) : Diskette :=
  { d with file := { d.file with bytes := image }, trackDirty := false }

section Drive
variable {conformant : Bool} {d : Diskette}

theorem Diskette.HeadOk.fd_of_dirty (h : d.HeadOk conformant) (hd : d.trackDirty = true) :
    0 ≤ d.fd := h.fd_of_valid (h.dirty_valid hd)

/-- A dirty track belongs to a mapped file. -/
theorem Diskette.HeadOk.mapped (h : d.HeadOk conformant) (hd : d.trackDirty = true) :
    d.rawImageData = .mapping := by
  have hraw := (h.loaded (h.fd_of_dirty hd)).raw
  rwa [h.dirty_writable hd] at hraw

theorem Diskette.HeadOk.saved (h : d.HeadOk conformant) (image : Buf) :
    (d.saved image).HeadOk conformant := by
  refine ⟨h.phase_le, h.runByte_lt, nofun, nofun, h.absent, fun hfd => ?_⟩
  obtain ⟨hnamed, hraw, hnib, hdsk⟩ := h.loaded hfd
  exact ⟨hnamed, hraw, hnib, hdsk⟩

/-- The nibbles a write-back reads never fail the decoder's table. -/
theorem Diskette.HeadOk.nibbles_known (h : d.HeadOk conformant) (hfd : 0 ≤ d.fd)
    (hn : d.nibblized = false) (p : ℕ) : ring d.nibbles d.trackWidth p &&& 0x7F ≠ 0 := by
  obtain ⟨-, hwidth, -, hbytes⟩ := (h.loaded hfd).dsk hn
  have hge := hbytes d.track (p % d.trackWidth) h.track_lt
    (by rw [hwidth]; exact Nat.mod_lt _ (trackWidth_pos conformant))
  have hall : ∀ x : UInt8, (0x96 : UInt8) ≤ x → x &&& 0x7F ≠ 0 := forall_uint8 (by decide)
  exact hall _ hge

/-- **A write-back that can decode its track** leaves the decoded track in the raw image, and
every byte outside the 4096 of the track as it was. -/
theorem saveTrackData_ok (h : d.HeadOk conformant) (hd : d.trackDirty = true)
    (hok : d.WriteBackOk) :
    ∃ image, saveTrackData d = .ok (d.saved image) ∧
      (d.nibblized = true → image = d.file.bytes) ∧
      (d.nibblized = false → d.Saves d.track d.nibbles image) ∧
      ∀ i, ¬ (dskTrackSize * d.track ≤ i ∧ i < dskTrackSize * d.track + dskTrackSize) →
        image i = d.file.bytes i := by
  have hfd := h.fd_of_dirty hd
  have hl := h.loaded hfd
  rcases Bool.eq_false_or_eq_true d.nibblized with hn | hn
  · refine ⟨d.file.bytes, ?_, fun _ => rfl, by simp [hn], fun _ _ => rfl⟩
    rw [saveTrackData, if_pos hn]
    rfl
  · obtain ⟨hptr, hwidth, ⟨po, hskew⟩, -⟩ := hl.dsk hn
    have hraw : d.raw = some d.file.bytes := by simp [Diskette.raw, h.mapped hd]
    have hnib : d.nib = some d.nibBuffer := by simp [Diskette.nib, hptr]
    obtain ⟨decoded, hdecode, hframe⟩ := denibblizeTrack_ok po d.nibbles d.trackWidth
      (by rw [hwidth]; exact trackWidth_pos conformant)
      (by rw [hwidth]; exact trackWidth_le conformant)
      (h.nibbles_known hfd hn) (d.file.bytes.from (dskTrackSize * d.track)) (hok hn)
    refine ⟨d.file.bytes.splice (dskTrackSize * d.track) decoded, ?_, by simp [hn],
      fun _ => ⟨_, decoded, hskew, hdecode, rfl⟩, ?_⟩
    · have hdec : denibblizeTrack (skewTable6 po) d.trackWidth
          (d.nibBuffer.from (nibTrackSize * d.track))
          (d.file.bytes.from (dskTrackSize * d.track)) = .ok decoded := hdecode
      rw [saveTrackData, if_neg (by rw [hn]; decide), hraw, hnib, hskew]
      simp only [deref, ok_bind, hdec, pure, Except.pure]
      unfold Diskette.setRaw Diskette.saved
      rw [h.mapped hd]
    · intro i hi
      by_cases hlow : dskTrackSize * d.track ≤ i
      · have hin : dskTrackSize ≤ i - dskTrackSize * d.track := by omega
        rw [Buf.splice, if_pos hlow, hframe _ hin, Buf.from,
          show dskTrackSize * d.track + (i - dskTrackSize * d.track) = i by omega]
      · rw [Buf.splice, if_neg hlow]

/-- Any other write-back stops the program. -/
theorem saveTrackData_error (h : d.HeadOk conformant) (hd : d.trackDirty = true)
    (hbad : ¬ d.WriteBackOk) : saveTrackData d = .error .invalidPreviousNibblization := by
  have hfd := h.fd_of_dirty hd
  rcases Bool.eq_false_or_eq_true d.nibblized with hn | hn
  · exact absurd (by simp [Diskette.WriteBackOk, hn]) hbad
  · obtain ⟨hptr, hwidth, ⟨po, hskew⟩, -⟩ := (h.loaded hfd).dsk hn
    have hraw : d.raw = some d.file.bytes := by simp [Diskette.raw, h.mapped hd]
    have hnib : d.nib = some d.nibBuffer := by simp [Diskette.nib, hptr]
    have hdec : denibblizeTrack (skewTable6 po) d.trackWidth
        (d.nibBuffer.from (nibTrackSize * d.track))
        (d.file.bytes.from (dskTrackSize * d.track)) = .error .invalidPreviousNibblization := by
      apply denibblizeTrack_error po d.nibbles d.trackWidth
      · rw [hwidth]
        exact trackWidth_pos conformant
      · rw [hwidth]
        exact trackWidth_le conformant
      · exact h.nibbles_known hfd hn
      · exact fun hnum => hbad fun _ => hnum
    rw [saveTrackData, if_neg (by rw [hn]; decide), hraw, hnib, hskew]
    simp only [deref, ok_bind, hdec, error_bind]

/-! ## disk6_flush -/

/-- A drive without unsaved writes is flushed without a change. -/
theorem flushDiskette_clean {d : Diskette} (h : d.trackDirty = false) :
    flushDiskette d = .ok d := by
  rw [flushDiskette, h, if_neg Bool.false_ne_true]
  simp only [ite_self]

/-- What a flush leaves of the diskette: a dirty track is in the raw image, and no byte outside
the track has changed. -/
inductive Settled (d : Diskette) : Diskette → Prop
  | clean (hd : d.trackDirty = false) : Settled d d
  | saved (image : Buf) (hd : d.trackDirty = true)
      (hnib : d.nibblized = true → image = d.file.bytes)
      (hdsk : d.nibblized = false → d.Saves d.track d.nibbles image)
      (hframe : ∀ i, ¬ (dskTrackSize * d.track ≤ i ∧ i < dskTrackSize * d.track + dskTrackSize) →
        image i = d.file.bytes i) : Settled d (d.saved image)

/-- The early returns of `disk6_flush` never pass over a dirty track. -/
theorem flushDiskette_eq (h : d.HeadOk conformant) :
    flushDiskette d = if d.trackDirty then saveTrackData d else .ok d := by
  rcases Bool.eq_false_or_eq_true d.trackDirty with hd | hd
  · have hneg : ¬ d.fd < 0 := Int.not_lt.mpr (h.fd_of_dirty hd)
    rw [flushDiskette, if_neg hneg, if_neg (by rw [h.dirty_writable hd]; decide),
      if_neg (by rw [h.mapped hd]; decide)]
  · unfold flushDiskette
    simp [hd]

theorem flushDiskette_ok (h : d.HeadOk conformant)
    (hok : d.trackDirty = true → d.WriteBackOk) : ∃ e, flushDiskette d = .ok e ∧ Settled d e := by
  rw [flushDiskette_eq h]
  rcases Bool.eq_false_or_eq_true d.trackDirty with hd | hd
  · obtain ⟨image, hsave, hnib, hdsk, hframe⟩ := saveTrackData_ok h hd (hok hd)
    rw [if_pos hd, hsave]
    exact ⟨_, rfl, Settled.saved image hd hnib hdsk hframe⟩
  · rw [if_neg (by rw [hd]; decide)]
    exact ⟨d, rfl, Settled.clean hd⟩

theorem flushDiskette_error (h : d.HeadOk conformant) (hd : d.trackDirty = true)
    (hbad : ¬ d.WriteBackOk) : flushDiskette d = .error .invalidPreviousNibblization := by
  rw [flushDiskette_eq h, if_pos hd]
  exact saveTrackData_error h hd hbad

/-- A flush that succeeds could decode the track. -/
theorem flushDiskette_settled (h : d.HeadOk conformant) {e : Diskette}
    (he : flushDiskette d = .ok e) : Settled d e := by
  by_cases hok : d.trackDirty = true → d.WriteBackOk
  · obtain ⟨e', he', hsettled⟩ := flushDiskette_ok h hok
    rw [he] at he'
    cases he'
    exact hsettled
  · obtain ⟨hd, hbad⟩ := Classical.not_imp.mp hok
    rw [flushDiskette_error h hd hbad] at he
    cases he

theorem Settled.headOk {e : Diskette} (h : d.HeadOk conformant) (he : Settled d e) :
    e.HeadOk conformant := by
  cases he with
  | clean => exact h
  | saved image => exact h.saved image

theorem Settled.not_dirty {e : Diskette} (he : Settled d e) : e.trackDirty = false := by
  cases he with
  | clean hd => exact hd
  | saved => rfl

theorem Settled.phase {e : Diskette} (he : Settled d e) : e.phase = d.phase := by
  cases he <;> rfl

/-! ## _disk6_phaseChange -/

/-- Where the magnets pull the head. -/
def headAfter (stepperPhases : BitVec 32) (d : Diskette) : ℕ :=
  nextPhase d.phase (stepDirection stepperPhases d.phase)

/-- The head leaves its track. -/
def LeavesTrack (stepperPhases : BitVec 32) (d : Diskette) : Prop :=
  headAfter stepperPhases d >>> 1 ≠ d.track

theorem nextPhase_le (phase : ℕ) (direction : ℤ) : nextPhase phase direction ≤ 69 := by
  unfold nextPhase
  omega

theorem nextPhase_zero (phase : ℕ) (h : phase ≤ 69) : nextPhase phase 0 = phase := by
  unfold nextPhase
  omega

/-- A head that stays on its track takes nothing with it. -/
theorem moveHead_stays {stepperPhases : BitVec 32} (h : d.HeadOk conformant)
    (hstay : ¬ LeavesTrack stepperPhases d) :
    moveHead stepperPhases d = .ok { d with phase := headAfter stepperPhases d } := by
  have heq : ¬ d.phase >>> 1 ≠ headAfter stepperPhases d >>> 1 := fun hne =>
    hstay fun he => hne he.symm
  unfold moveHead
  by_cases hdir : stepDirection stepperPhases d.phase = 0
  · have hsame : headAfter stepperPhases d = d.phase := by
      rw [headAfter, hdir]
      exact nextPhase_zero d.phase h.phase_le
    rw [hsame]
    exact if_pos hdir
  · exact (if_neg hdir).trans (if_neg heq)

/-- A head that leaves its track leaves it flushed. -/
theorem moveHead_leaves {stepperPhases : BitVec 32} (h : d.HeadOk conformant)
    (hleave : LeavesTrack stepperPhases d) :
    moveHead stepperPhases d = (do
      let e ← flushDiskette d
      return { e with trackValid := false, phase := headAfter stepperPhases d }) := by
  have hne : d.phase >>> 1 ≠ headAfter stepperPhases d >>> 1 := fun he => hleave he.symm
  have hdir : stepDirection stepperPhases d.phase ≠ 0 := by
    intro hdir
    apply hne
    rw [headAfter, hdir, nextPhase_zero d.phase h.phase_le]
  have hmove : moveHead stepperPhases d = (do
      let left ← leaveTrack d
      return { left with phase := headAfter stepperPhases d }) := (if_neg hdir).trans (if_pos hne)
  rw [hmove, flushDiskette_eq h, leaveTrack]
  rcases Bool.eq_false_or_eq_true d.trackDirty with hd | hd
  · rw [if_pos hd, if_pos hd]
    cases saveTrackData d <;> rfl
  · rw [if_neg (by rw [hd]; decide), if_neg (by rw [hd]; decide)]
    rfl

theorem Diskette.HeadOk.moved (h : d.HeadOk conformant) (phase : ℕ) (hp : phase ≤ 69) :
    ({ d with phase := phase } : Diskette).HeadOk conformant := by
  refine ⟨hp, h.runByte_lt, h.dirty_valid, h.dirty_writable, h.absent, fun hfd => ?_⟩
  obtain ⟨hnamed, hraw, hnib, hdsk⟩ := h.loaded hfd
  exact ⟨hnamed, hraw, hnib, hdsk⟩

/-- A clean track may be given up. -/
theorem Diskette.HeadOk.dropped (h : d.HeadOk conformant) (hd : d.trackDirty = false)
    (phase : ℕ) (hp : phase ≤ 69) :
    ({ d with trackValid := false, phase := phase } : Diskette).HeadOk conformant := by
  refine ⟨hp, nofun, fun hd' => ?_, h.dirty_writable, fun _ => rfl, fun hfd => ?_⟩
  · rw [show d.trackDirty = true from hd'] at hd
    cases hd
  · obtain ⟨hnamed, hraw, hnib, hdsk⟩ := h.loaded hfd
    exact ⟨hnamed, hraw, hnib, hdsk⟩

theorem Diskette.HeadOk.reset (h : d.HeadOk conformant) : d.reset.HeadOk conformant := by
  refine ⟨Nat.zero_le _, nofun, nofun, nofun, fun _ => rfl, fun hfd => ?_⟩
  obtain ⟨hnamed, hraw, hnib, hdsk⟩ := h.loaded hfd
  exact ⟨hnamed, hraw, hnib, hdsk⟩

/-! ## disk6_eject -/

theorem Diskette.empty_headOk (d : Diskette) (hp : d.phase ≤ 69) : d.empty.HeadOk conformant := by
  refine ⟨hp, nofun, nofun, nofun, fun _ => rfl, fun hfd => ?_⟩
  exact absurd hfd (by decide : ¬ (0 : ℤ) ≤ -1)

/-- `e` is `d` but for the raw buffer and the file. -/
def SameDrive (d e : Diskette) : Prop := ∃ rb f, e = { d with rawBuffer := rb, file := f }

theorem Diskette.setRaw_sameDrive (d : Diskette) (b : Buf) : SameDrive d (d.setRaw b) := by
  unfold setRaw
  split <;> exact ⟨_, _, rfl⟩

theorem recompress_cases (host : EjectHost) {raw : Buf} (hraw : d.raw = some raw) :
    (∃ e err, recompress host d = .ok (e, err) ∧ SameDrive d e) ∨
      recompress host d = .error .compressedSize := by
  unfold recompress
  rw [hraw]
  simp only [deref, ok_bind]
  split
  case isFalse =>
    left
    exact ⟨_, _, rfl, _, _, rfl⟩
  case isTrue =>
    obtain ⟨rb, f, hset⟩ := Diskette.setRaw_sameDrive
      { d with rawBuffer := (host.zlibDeflateBuffer raw d.wholeLen d.rawBuffer).dst }
      (raw.copy 0 (host.zlibDeflateBuffer raw d.wholeLen d.rawBuffer).dst
        (host.zlibDeflateBuffer raw d.wholeLen d.rawBuffer).dstSize.toNat)
    rw [hset]
    cases decide ((host.zlibDeflateBuffer raw d.wholeLen d.rawBuffer).dstSize < d.wholeLen) with
    | true =>
      left
      exact ⟨_, _, rfl, rb, _, rfl⟩
    | false =>
      right
      rfl

/-- Giving the image back keeps the rest of the drive, and can fail one assertion only. -/
theorem releaseImage_cases (host : EjectHost)
    (himage : d.rawImageData = .mapFailed ∨
      (∃ name, d.fileName = some name) ∧ ∃ raw, d.raw = some raw) :
    (∃ e err, releaseImage host d = .ok (e, err) ∧ SameDrive d e) ∨
      releaseImage host d = .error .compressedSize := by
  unfold releaseImage
  by_cases hnone : d.rawImageData = .mapFailed
  · left
    exact ⟨d, none, if_pos hnone, _, _, rfl⟩
  · obtain ⟨⟨name, hname⟩, raw, hraw⟩ := himage.resolve_left hnone
    rw [if_neg hnone, hname]
    simp only [deref, ok_bind]
    split
    case isTrue => exact recompress_cases host hraw
    case isFalse =>
      left
      exact ⟨d, none, rfl, _, _, rfl⟩

/-- The part of an eject that writes the image back runs. -/
def Diskette.Closes (d : Diskette) : Prop := 0 < d.fd ∧ d.isProtected = false

/-- Ejecting a diskette whose image is not closed only empties the drive. -/
theorem ejectDiskette_skip (host : EjectHost) (hc : ¬ d.Closes) :
    ejectDiskette host d = .ok (d.empty, none) := by
  have hclose : closeImage host d = .ok (d, none) := if_neg hc
  rw [ejectDiskette, hclose]
  rfl

/-- Ejecting a closed image: it is flushed, given back to its file, and the drive emptied. -/
theorem ejectDiskette_close (host : EjectHost) (hc : d.Closes) :
    ejectDiskette host d = (do
      let flushed ← flushDiskette d
      let closed ← releaseImage host flushed
      return (closed.1.empty, closed.2)) := by
  have hclose : closeImage host d = (do
      let flushed ← flushDiskette d
      releaseImage host flushed) := if_pos hc
  rw [ejectDiskette, hclose, bind_assoc]

/-- An eject from a drive that meets the invariant: what its write-back could not decode, or a
compressed image that is too large, stops the program. -/
theorem ejectDiskette_cases (host : EjectHost) (h : d.HeadOk conformant)
    (hok : d.Closes → d.trackDirty = true → d.WriteBackOk) :
    (∃ (e : Diskette) (err : Option String),
        ejectDiskette host d = .ok (e.empty, err) ∧ e.phase = d.phase) ∨
      ejectDiskette host d = .error .compressedSize := by
  by_cases hc : d.Closes
  · obtain ⟨e, he, hsettled⟩ := flushDiskette_ok h (hok hc)
    have hhead := hsettled.headOk h
    have hfd : 0 ≤ e.fd := by
      have hpos : 0 ≤ d.fd := le_of_lt hc.1
      cases hsettled <;> exact hpos
    have hl := hhead.loaded hfd
    rw [ejectDiskette_close host hc, he, ok_bind]
    rcases releaseImage_cases host (d := e) (Or.inr ⟨hl.named, hl.raw_some⟩) with
      ⟨e', err, hrelease, rb, f, rfl⟩ | hrelease
    · left
      rw [hrelease]
      exact ⟨_, err, rfl, hsettled.phase⟩
    · right
      rw [hrelease]
      rfl
  · left
    exact ⟨d, none, ejectDiskette_skip host hc, rfl⟩

/-- An eject that would write back a track it cannot decode stops the program. -/
theorem ejectDiskette_error (host : EjectHost) (h : d.HeadOk conformant) (hc : d.Closes)
    (hd : d.trackDirty = true) (hbad : ¬ d.WriteBackOk) :
    ejectDiskette host d = .error .invalidPreviousNibblization := by
  rw [ejectDiskette_close host hc, flushDiskette_error h hd hbad]
  rfl

end Drive

end Apple2ix.Disk
