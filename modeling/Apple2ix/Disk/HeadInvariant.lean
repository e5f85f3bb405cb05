import Apple2ix.Foundations.Results
import Apple2ix.Disk.Insertion
import Apple2ix.Disk.TrackWriteBack

/-! The head invariant of the controller. `Diskette.HeadOk` is what holds of a drive in every
reachable state; each function of the controller is shown to stay in the program from there, up
to the assertions a write-back or an eject can fail, and to keep it. -/
namespace Apple2ix.Disk
open Loops
set_option autoImplicit false

/-! ## Disk bytes -/

/-- The first `n` tracks of a nibble image hold bytes from 0x96 on only. -/
def DiskBytes (conformant : Bool) (n : ℕ) (b : Buf) : Prop :=
  ∀ trk i, trk < n → i < trackWidth conformant → (0x96 : UInt8) ≤ b (nibTrackSize * trk + i)

theorem code44_ge (y : ℕ) (hy : y < 0x56) : (0x96 : UInt8) ≤ UInt8.ofNat (y ||| 0xAA) := by
  have h : ∀ y, y < 0x56 → (0x96 : UInt8) ≤ UInt8.ofNat (y ||| 0xAA) := by decide
  exact h y hy

theorem addressField_ge (track sector : ℕ) (b : UInt8) (hb : b ∈ addressField track sector) :
    (0x96 : UInt8) ≤ b := by
  have hA : ∀ a, (0x96 : UInt8) ≤ code44A a :=
    fun a => code44_ge _ (Nat.lt_succ_of_le Nat.and_le_right)
  have hB : ∀ a, (0x96 : UInt8) ≤ code44B a :=
    fun a => code44_ge _ (Nat.lt_succ_of_le Nat.and_le_right)
  simp only [addressField, List.mem_append, List.mem_cons, List.not_mem_nil, or_false,
    List.mem_replicate] at hb
  rcases hb with ((rfl | rfl | rfl | rfl | rfl | rfl | rfl | rfl | rfl | rfl | rfl | rfl | rfl |
    rfl) | ⟨-, rfl⟩) | (rfl | rfl | rfl)
  all_goals first | exact hA _ | exact hB _ | decide

theorem trackBlock_ge (conformant : Bool) (skew : List ℕ) (track : ℕ) (buf : Buf) (sector : ℕ)
    (b : UInt8) (hb : b ∈ trackBlock conformant skew track buf sector) : (0x96 : UInt8) ≤ b := by
  simp only [trackBlock, List.mem_append, List.mem_map, List.mem_cons, List.not_mem_nil, or_false,
    List.mem_replicate] at hb
  rcases hb with ((hb | ⟨i, -, rfl⟩) | (rfl | rfl | rfl)) | ⟨-, rfl⟩
  · exact addressField_ge track sector b hb
  · exact translate_ge _
  all_goals decide

/-- The encoder writes disk bytes only. -/
theorem nibblizeTrack_ge (conformant : Bool) (skew : List ℕ) (track : ℕ) (buf : Buf)
    (nibs : List UInt8) (h : nibblizeTrack conformant skew track buf = .ok nibs) (b : UInt8)
    (hb : b ∈ nibs) : (0x96 : UInt8) ≤ b := by
  rw [nibblizeTrack_eq] at h
  cases h
  rw [List.mem_append, List.mem_replicate, List.mem_flatMap] at hb
  rcases hb with ⟨-, rfl⟩ | ⟨sector, -, hb⟩
  · decide
  · exact trackBlock_ge conformant skew track buf sector b hb

/-- A track stored in place keeps the tracks that hold disk bytes, and becomes one of them. -/
theorem storeNibbles_diskBytes (conformant : Bool) (n t : ℕ) (b : Buf) (nibs : List UInt8)
    (hlen : nibs.length = trackWidth conformant) (hnibs : ∀ x ∈ nibs, (0x96 : UInt8) ≤ x)
    (h : ∀ trk i, trk < n → trk ≠ t → i < trackWidth conformant →
      (0x96 : UInt8) ≤ b (nibTrackSize * trk + i)) :
    DiskBytes conformant n (storeNibbles b (nibTrackSize * t) nibs) := by
  have hw := trackWidth_le conformant
  intro trk i htrk hi
  by_cases ht : trk = t
  · subst ht
    have hin : nibTrackSize * trk ≤ nibTrackSize * trk + i ∧
        nibTrackSize * trk + i - nibTrackSize * trk < nibs.length := by omega
    rw [storeNibbles, if_pos hin, List.getD_eq_getElem _ _ hin.2]
    exact hnibs _ (List.getElem_mem _)
  · have hout : ¬ (nibTrackSize * t ≤ nibTrackSize * trk + i ∧
        nibTrackSize * trk + i - nibTrackSize * t < nibs.length) := by
      rintro ⟨hge, hlt⟩
      rcases Nat.lt_or_gt_of_ne ht with hless | hmore
      · have := Nat.mul_le_mul_left nibTrackSize (Nat.succ_le_of_lt hless)
        rw [Nat.mul_succ] at this
        omega
      · have := Nat.mul_le_mul_left nibTrackSize (Nat.succ_le_of_lt hmore)
        rw [Nat.mul_succ] at this
        omega
    rw [storeNibbles, if_neg hout]
    exact h trk i htrk ht hi

/-! ## The invariant of a drive -/

/-- An inserted image, by its type. -/
structure Diskette.Loaded (conformant : Bool) (d : Diskette) : Prop where
  named : ∃ name, d.fileName = some name
  raw : d.rawImageData = if d.isProtected then .rawBuffer else .mapping
  nib : d.nibblized = true →
    d.nibImageData = .rawImage ∧ d.trackWidth = nibTrackSize ∧ d.wholeLen = nibSize
  dsk : d.nibblized = false → d.nibImageData = .nibBuffer ∧
    d.trackWidth = Disk.trackWidth conformant ∧ (∃ po, d.skewTable = some (skewTable6 po)) ∧
    DiskBytes conformant numTracks d.nibBuffer

/-- **The head invariant** of one drive. -/
structure Diskette.HeadOk (conformant : Bool) (d : Diskette) : Prop where
  phase_le : d.phase ≤ 69
  runByte_lt : d.trackValid = true → d.runByte < d.trackWidth
  dirty_valid : d.trackDirty = true → d.trackValid = true
  dirty_writable : d.trackDirty = true → d.isProtected = false
  absent : d.fd < 0 → d.trackValid = false
  loaded : 0 ≤ d.fd → d.Loaded conformant

section Drive
variable {conformant : Bool} {d : Diskette}

theorem Diskette.HeadOk.track_lt (h : d.HeadOk conformant) : d.track < numTracks := by
  have := h.phase_le
  rw [track, Nat.shiftRight_eq_div_pow, numTracks]
  omega

theorem Diskette.HeadOk.fd_of_valid (h : d.HeadOk conformant) (hv : d.trackValid = true) :
    0 ≤ d.fd := by
  by_contra hneg
  have := h.absent (by omega)
  rw [hv] at this
  cases this

theorem Diskette.Loaded.width (h : d.Loaded conformant) :
    0 < d.trackWidth ∧ d.trackWidth ≤ nibTrackSize := by
  cases hn : d.nibblized with
  | true =>
    rw [(h.nib hn).2.1]
    exact ⟨by decide, le_refl _⟩
  | false =>
    rw [(h.dsk hn).2.1]
    have := trackWidth_le conformant
    exact ⟨trackWidth_pos conformant, by omega⟩

theorem Diskette.Loaded.raw_some (h : d.Loaded conformant) : ∃ raw, d.raw = some raw := by
  have hraw := h.raw
  cases hp : d.isProtected with
  | true => exact ⟨d.rawBuffer, by simp [Diskette.raw, hraw, hp]⟩
  | false => exact ⟨d.file.bytes, by simp [Diskette.raw, hraw, hp]⟩

theorem Diskette.Loaded.nib_some (h : d.Loaded conformant) : ∃ nib, d.nib = some nib := by
  cases hn : d.nibblized with
  | true =>
    obtain ⟨raw, hraw⟩ := h.raw_some
    exact ⟨raw, by simp [Diskette.nib, (h.nib hn).1, hraw]⟩
  | false => exact ⟨d.nibBuffer, by simp [Diskette.nib, (h.dsk hn).1]⟩

/-- **The cell under the head** lies inside the nibble image. -/
theorem Diskette.HeadOk.trackIdx_lt (h : d.HeadOk conformant) (hv : d.trackValid = true) :
    d.trackIdx < nibSize := by
  have htrk := h.track_lt
  have hrun := h.runByte_lt hv
  have hwidth := (h.loaded (h.fd_of_valid hv)).width.2
  have hmul := Nat.mul_le_mul_left nibTrackSize (Nat.succ_le_of_lt htrk)
  rw [Nat.mul_succ] at hmul
  rw [trackIdx, nibSize, Nat.mul_comm numTracks]
  omega

/-! ## load_track_data -/

theorem Diskette.setNib_nibBuffer (d : Diskette) (h : d.nibImageData = .nibBuffer) (b : Buf) :
    d.setNib b = { d with nibBuffer := b } := by
  unfold setNib
  rw [h]

theorem loadTrackData_dsk {raw : Buf} {po : Bool} {nibs : List UInt8} (hn : d.nibblized = false)
    (hraw : d.raw = some raw) (hnib : d.nibImageData = .nibBuffer)
    (hskew : d.skewTable = some (skewTable6 po))
    (hnibs : nibblizeTrack conformant (skewTable6 po) d.track
      (raw.from (dskTrackSize * d.track)) = .ok nibs) :
    loadTrackData conformant d =
      .ok ({ d with nibBuffer := storeNibbles d.nibBuffer (nibTrackSize * d.track) nibs },
        trackWidth conformant) := by
  have hlen := nibblizeTrack_length _ _ _ _ _ hnibs
  have hptr : d.nib = some d.nibBuffer := by simp [Diskette.nib, hnib]
  rw [← d.setNib_nibBuffer hnib]
  simp only [loadTrackData, hn, hraw, hptr, hskew, deref, ok_bind, hnibs, Bool.false_eq_true,
    if_false, pure, Except.pure, hlen]

/-- The nibble buffer and the place of the head once the track under it is valid. -/
inductive Ensured (conformant : Bool) (d : Diskette) : Buf → ℕ → Prop
  | valid (hv : d.trackValid = true) : Ensured conformant d d.nibBuffer d.runByte
  | nib (hv : d.trackValid = false) (hn : d.nibblized = true) :
      Ensured conformant d d.nibBuffer 0
  | dsk (hv : d.trackValid = false) (hn : d.nibblized = false) (raw : Buf) (po : Bool)
      (nibs : List UInt8) (hraw : d.raw = some raw) (hskew : d.skewTable = some (skewTable6 po))
      (hnibs : nibblizeTrack conformant (skewTable6 po) d.track
        (raw.from (dskTrackSize * d.track)) = .ok nibs) :
      Ensured conformant d (storeNibbles d.nibBuffer (nibTrackSize * d.track) nibs) 0

theorem Ensured.lt {b : Buf} {r : ℕ} (h : d.HeadOk conformant) (hfd : 0 ≤ d.fd)
    (he : Ensured conformant d b r) : r < d.trackWidth := by
  cases he with
  | valid hv => exact h.runByte_lt hv
  | nib => exact (h.loaded hfd).width.1
  | dsk => exact (h.loaded hfd).width.1

theorem Ensured.diskBytes {b : Buf} {r : ℕ} (h : d.HeadOk conformant) (hfd : 0 ≤ d.fd)
    (he : Ensured conformant d b r) (hn : d.nibblized = false) :
    DiskBytes conformant numTracks b := by
  have hbytes := ((h.loaded hfd).dsk hn).2.2.2
  cases he with
  | valid => exact hbytes
  | nib => exact hbytes
  | dsk hv _ raw po nibs hraw hskew hnibs =>
    apply storeNibbles_diskBytes conformant numTracks d.track d.nibBuffer nibs
      (nibblizeTrack_length _ _ _ _ _ hnibs) (nibblizeTrack_ge _ _ _ _ _ hnibs)
    intro trk i htrk _ hi
    exact hbytes trk i htrk hi

theorem Diskette.HeadOk.clean (h : d.HeadOk conformant) (hv : d.trackValid = false) :
    d.trackDirty = false := by
  cases hd : d.trackDirty with
  | true => rw [h.dirty_valid hd] at hv; cases hv
  | false => rfl

/-- **The assertion before a load never fires**, and the load always gives a valid track. -/
theorem Diskette.HeadOk.ensure (h : d.HeadOk conformant) (hfd : 0 ≤ d.fd) :
    ∃ b r, Ensured conformant d b r ∧ ensureTrack conformant d =
      .ok ({ d with nibBuffer := b, trackValid := true, runByte := r }, true) := by
  rcases Bool.eq_false_or_eq_true d.trackValid with hv | hv
  · refine ⟨d.nibBuffer, d.runByte, Ensured.valid hv, ?_⟩
    rw [ensureTrack, if_pos hv, ← hv]
  · have hl := h.loaded hfd
    have hload : ∀ b, loadTrackData conformant d = .ok ({ d with nibBuffer := b }, d.trackWidth) →
        ensureTrack conformant d =
          .ok ({ d with nibBuffer := b, trackValid := true, runByte := 0 }, true) := by
      intro b hb
      simp [ensureTrack, hv, h.clean hv, hb, ok_bind, pure, Except.pure]
    rcases Bool.eq_false_or_eq_true d.nibblized with hn | hn
    · refine ⟨d.nibBuffer, 0, Ensured.nib hv hn, hload d.nibBuffer ?_⟩
      rw [loadTrackData, if_pos hn, ← (hl.nib hn).2.1]
    · obtain ⟨hptr, hwidth, ⟨po, hskew⟩, -⟩ := hl.dsk hn
      obtain ⟨raw, hraw⟩ := hl.raw_some
      have hnibs := nibblizeTrack_eq conformant (skewTable6 po) d.track
        (raw.from (dskTrackSize * d.track))
      refine ⟨_, 0, Ensured.dsk hv hn raw po _ hraw hskew hnibs, hload _ ?_⟩
      rw [loadTrackData_dsk hn hraw hptr hskew hnibs, ← hwidth]

/-! ## _disk_readWriteByte -/

/-- The place of the head after a transfer at `r`. -/
def Diskette.nextByte (d : Diskette) (r : ℕ) : ℕ := if d.trackWidth ≤ r + 1 then 0 else r + 1

theorem Diskette.nextByte_lt (r : ℕ) (hr : r < d.trackWidth) : d.nextByte r < d.trackWidth := by
  unfold nextByte
  split <;> omega

/-- What an access to C0EC does to the selected diskette; `written` is the byte it stores. -/
inductive Turned (conformant : Bool) (d : Diskette) : Option UInt8 → Diskette → Prop
  | absent (hfd : d.fd < 0) : Turned conformant d none d.advance
  | passed (b : Buf) (r : ℕ) (hfd : 0 ≤ d.fd) (he : Ensured conformant d b r) :
      Turned conformant d none
        { d with nibBuffer := b, trackValid := true, runByte := d.nextByte r }
  | storedNib (x : UInt8) (b : Buf) (r : ℕ) (f : ImageFile) (hfd : 0 ≤ d.fd)
      (he : Ensured conformant d b r) (hwritable : d.isProtected = false)
      (hn : d.nibblized = true) :
      Turned conformant d (some x)
        { d with nibBuffer := b, file := f, trackValid := true, trackDirty := true,
                 runByte := d.nextByte r }
  | storedDsk (x : UInt8) (b : Buf) (r : ℕ) (hfd : 0 ≤ d.fd) (he : Ensured conformant d b r)
      (hwritable : d.isProtected = false) (hx : (0x96 : UInt8) ≤ x) (hn : d.nibblized = false) :
      Turned conformant d (some x)
        { d with nibBuffer := Function.update b (nibTrackSize * d.track + r) x,
                 trackValid := true, trackDirty := true, runByte := d.nextByte r }

/-- The byte an access to C0EC stores, if any. -/
def Disk6.written (s : Disk6) : Option UInt8 :=
  if s.ddrw ≠ 0 ∧ 0 ≤ (s.disk s.drive).fd ∧ (s.disk s.drive).isProtected = false ∧
      (0x96 : UInt8) ≤ s.diskByte then some s.diskByte
  else none

/-- Storing a disk byte in a cell keeps the disk bytes. -/
theorem DiskBytes.update {n : ℕ} {b : Buf} (h : DiskBytes conformant n b) (cell : ℕ) (x : UInt8)
    (hx : (0x96 : UInt8) ≤ x) : DiskBytes conformant n (Function.update b cell x) := by
  intro trk i htrk hi
  rcases eq_or_ne (nibTrackSize * trk + i) cell with he | hne
  · rw [he, Function.update_self]
    exact hx
  · rw [Function.update_of_ne hne]
    exact h trk i htrk hi

/-- A track that was loaded or written to. -/
theorem Diskette.HeadOk.turned (h : d.HeadOk conformant) (hfd : 0 ≤ d.fd) (b : Buf) (f : ImageFile)
    (r : ℕ) (dirty : Bool) (hr : r < d.trackWidth)
    (hdirty : dirty = true → d.isProtected = false)
    (hbytes : d.nibblized = false → DiskBytes conformant numTracks b) :
    ({ d with nibBuffer := b, file := f, trackValid := true, trackDirty := dirty,
              runByte := r } : Diskette).HeadOk conformant := by
  have hl := h.loaded hfd
  refine ⟨h.phase_le, fun _ => hr, fun _ => rfl, hdirty, fun hneg => ?_, fun _ => ?_⟩
  · exact absurd hfd (Int.not_le.mpr hneg)
  · refine ⟨hl.named, hl.raw, hl.nib, fun hn => ?_⟩
    obtain ⟨hptr, hwidth, hskew, -⟩ := hl.dsk hn
    exact ⟨hptr, hwidth, hskew, hbytes hn⟩

theorem Turned.headOk {w : Option UInt8} {d' : Diskette} (h : d.HeadOk conformant)
    (ht : Turned conformant d w d') : d'.HeadOk conformant := by
  cases ht with
  | absent hfd =>
    refine ⟨h.phase_le, fun hv => ?_, h.dirty_valid, h.dirty_writable, h.absent, fun hpos => ?_⟩
    · rw [show d.advance.trackValid = d.trackValid from rfl, h.absent hfd] at hv
      cases hv
    · exact absurd hfd (Int.not_lt.mpr hpos)
  | passed b r hfd he =>
    exact h.turned hfd b d.file _ d.trackDirty (d.nextByte_lt r (he.lt h hfd)) h.dirty_writable
      (he.diskBytes h hfd)
  | storedNib x b r f hfd he hwritable hn =>
    exact h.turned hfd b f _ true (d.nextByte_lt r (he.lt h hfd)) (fun _ => hwritable)
      (he.diskBytes h hfd)
  | storedDsk x b r hfd he hwritable hx hn =>
    exact h.turned hfd _ d.file _ true (d.nextByte_lt r (he.lt h hfd)) (fun _ => hwritable)
      fun hn => (he.diskBytes h hfd hn).update _ x hx

/-- Where a store through `nib_image_data` goes. -/
theorem Diskette.Loaded.setNib (h : d.Loaded conformant) (hw : d.isProtected = false) (c : Buf) :
    d.setNib c = if d.nibblized then { d with file := { d.file with bytes := c } }
      else { d with nibBuffer := c } := by
  have hraw : d.rawImageData = .mapping := by
    have := h.raw
    rwa [hw] at this
  rcases Bool.eq_false_or_eq_true d.nibblized with hn | hn
  · rw [if_pos hn]
    unfold Diskette.setNib Diskette.setRaw
    rw [(h.nib hn).1, hraw]
  · rw [if_neg (by rw [hn]; decide)]
    exact d.setNib_nibBuffer (h.dsk hn).1 c

section Access
variable {s : Disk6}

@[simp] theorem Disk6.setDisk_drive (i : ℕ) (e : Diskette) : (s.setDisk i e).drive = s.drive := rfl

@[simp] theorem Disk6.setDisk_self (i : ℕ) (e : Diskette) : (s.setDisk i e).disk i = e := by
  simp only [setDisk, Function.update_self]

theorem Disk6.setDisk_ne {i j : ℕ} (e : Diskette) (h : j ≠ i) :
    (s.setDisk i e).disk j = s.disk j := by
  simp only [setDisk, Function.update_of_ne h]

@[simp] theorem Disk6.setDisk_setDisk (i : ℕ) (a b : Diskette) :
    (s.setDisk i a).setDisk i b = s.setDisk i b := by
  simp only [setDisk, Function.update_idem]

@[simp] theorem Disk6.setDisk_same (i : ℕ) : s.setDisk i (s.disk i) = s := by
  simp only [setDisk, Function.update_eq_self]

variable (conformant) in
/-- Without a store the transfer changes the latch and the motor only. -/
theorem transferByte_none (hfd : 0 ≤ (s.disk s.drive).fd)
    (hl : (s.disk s.drive).Loaded conformant) (hw : s.written = none) :
    ∃ m x, transferByte s = .ok { s with motorOff := m, diskByte := x } := by
  obtain ⟨nib, hnib⟩ := hl.nib_some
  unfold transferByte
  by_cases hddrw : s.ddrw ≠ 0
  · refine ⟨s.motorOff, s.diskByte, ?_⟩
    rw [if_pos hddrw]
    by_cases hprot : (s.disk s.drive).isProtected = true
    · rw [if_pos hprot]
    · have hlow : s.diskByte < 0x96 := by
        by_contra hge
        have hsome : s.written = some s.diskByte :=
          if_pos ⟨hddrw, hfd, by simpa using hprot, UInt8.not_lt.mp hge⟩
        rw [hsome] at hw
        cases hw
      rw [if_neg hprot, if_pos hlow]
  · rw [if_neg hddrw]
    by_cases hoff : 99 < s.motorOff
    · exact ⟨s.motorOff, 0xFF, if_pos hoff⟩
    · rw [if_neg hoff, hnib]
      exact ⟨_, _, rfl⟩

variable (conformant) in
theorem transferByte_some {y : UInt8} (hl : (s.disk s.drive).Loaded conformant)
    (hw : s.written = some y) :
    ∃ nib, (s.disk s.drive).nib = some nib ∧ transferByte s = .ok (s.setDisk s.drive
      { (s.disk s.drive).setNib (Function.update nib (s.disk s.drive).trackIdx y) with
        trackDirty := true }) := by
  obtain ⟨nib, hnib⟩ := hl.nib_some
  refine ⟨nib, hnib, ?_⟩
  unfold Disk6.written at hw
  split at hw
  case isTrue hc =>
    obtain ⟨hddrw, -, hprot, hge⟩ := hc
    cases hw
    have hlow : ¬ s.diskByte < 0x96 := UInt8.not_lt.mpr hge
    unfold transferByte
    rw [if_pos hddrw, if_neg (by rw [hprot]; decide), if_neg hlow, hnib]
    rfl
  case isFalse => cases hw

theorem written_some {y : UInt8} (hw : s.written = some y) :
    0 ≤ (s.disk s.drive).fd ∧ (s.disk s.drive).isProtected = false ∧ (0x96 : UInt8) ≤ y := by
  unfold Disk6.written at hw
  split at hw
  case isTrue hc =>
    cases hw
    exact hc.2
  case isFalse => cases hw

/-- **An access to C0EC stays in the program** and does one of the three things of `Turned`. -/
theorem diskReadWriteByte_ok (h : (s.disk s.drive).HeadOk conformant) :
    ∃ d' m x, diskReadWriteByte conformant s =
        .ok { s.setDisk s.drive d' with motorOff := m, diskByte := x } ∧
      Turned conformant (s.disk s.drive) s.written d' := by
  rcases Int.lt_or_le (s.disk s.drive).fd 0 with hfd | hfd
  · have hw : s.written = none := if_neg fun hc => absurd hc.2.1 (Int.not_le.mpr hfd)
    refine ⟨(s.disk s.drive).advance, s.motorOff, 0xFF, ?_, ?_⟩
    · simp only [diskReadWriteByte, accessByte, hfd, if_true, ok_bind]
      rfl
    · rw [hw]
      exact Turned.absent hfd
  · obtain ⟨b, r, he, hload⟩ := h.ensure hfd
    have hneg : ¬ (s.disk s.drive).fd < 0 := Int.not_lt.mpr hfd
    have hhead := h.turned hfd b (s.disk s.drive).file r _ (he.lt h hfd) h.dirty_writable
      (he.diskBytes h hfd)
    have hl := hhead.loaded hfd
    simp only [diskReadWriteByte, accessByte, hneg, if_false, hload, ok_bind, if_true]
    -- the state after the load; it stores what the state before it would store
    generalize ht : s.setDisk s.drive { s.disk s.drive with
      nibBuffer := b, trackValid := true, runByte := r } = t
    have hdrive : t.drive = s.drive := by rw [← ht]; rfl
    have hdisk : t.disk s.drive = { s.disk s.drive with
      nibBuffer := b, trackValid := true, runByte := r } := by rw [← ht, Disk6.setDisk_self]
    have hwritten : t.written = s.written := by
      unfold Disk6.written
      rw [hdrive, hdisk, ← ht]
      rfl
    cases hw : s.written with
    | none =>
      obtain ⟨m, x, htransfer⟩ := transferByte_none conformant (s := t)
        (by rw [hdrive, hdisk]; exact hfd) (by rw [hdrive, hdisk]; exact hl) (hwritten.trans hw)
      rw [htransfer, ok_bind]
      refine ⟨_, m, x, ?_, Turned.passed b r hfd he⟩
      show Except.ok { t.setDisk t.drive (t.disk t.drive).advance with
        motorOff := m, diskByte := x } = _
      rw [hdrive, hdisk, ← ht, Disk6.setDisk_setDisk]
      rfl
    | some y =>
      obtain ⟨nib, hnib, htransfer⟩ := transferByte_some conformant (s := t)
        (by rw [hdrive, hdisk]; exact hl) (hwritten.trans hw)
      obtain ⟨-, hprot, hge⟩ := written_some hw
      rw [hdrive, hdisk] at hnib htransfer
      rw [hl.setNib hprot] at htransfer
      rw [htransfer, ok_bind]
      simp only [Disk6.setDisk_drive, Disk6.setDisk_self, Disk6.setDisk_setDisk, ← ht]
      rcases Bool.eq_false_or_eq_true (s.disk s.drive).nibblized with hn | hn
      · rw [if_pos hn]
        refine ⟨_, s.motorOff, s.diskByte, rfl, ?_⟩
        exact Turned.storedNib y b r _ hfd he hprot hn
      · rw [if_neg (by rw [hn]; decide)]
        have hb : nib = b := by
          simp only [Diskette.nib, ((h.loaded hfd).dsk hn).1, Option.some.injEq] at hnib
          exact hnib.symm
        rw [hb]
        refine ⟨_, s.motorOff, s.diskByte, rfl, ?_⟩
        exact Turned.storedDsk y b r hfd he hprot hge hn

end Access

end Drive

end Apple2ix.Disk
