import Apple2ix.Foundations.Runs
import Apple2ix.Disk.ControllerRuns
import Apple2ix.Disk.StateFile

/-! The fields of the controller that are saved fit the bytes they are saved in, after any calls,
loads of damaged files among them. -/
namespace Apple2ix.Disk
open Runs Loader
set_option autoImplicit false

/-- The saved fields of a drive fit their bytes, and an empty drive is not write-protected. -/
structure Diskette.Fits (d : Diskette) : Prop where
  phase_lt : d.phase < 2 ^ 8
  runByte_lt : d.runByte < 2 ^ 16
  width_le : d.trackWidth ≤ nibTrackSize
  absent : d.fileName = none → d.isProtected = false

/-- The saved fields of the controller fit their bytes. -/
structure Disk6.Fits (s : Disk6) : Prop where
  motorOff_lt : s.motorOff < 2 ^ 8
  drive_lt : s.drive < 2 ^ 8
  ddrw_lt : s.ddrw < 2 ^ 8
  disk : ∀ i, (s.disk i).Fits

theorem initDisk6_fits : initDisk6.Fits :=
  ⟨by decide, by decide, by decide, fun _ =>
    ⟨Nat.two_pow_pos 8, Nat.two_pow_pos 16, Nat.zero_le _, fun _ => rfl⟩⟩

/-! ## Drives -/

section Drive
variable {conformant : Bool} {d e : Diskette}

theorem Diskette.setNib_frame (d : Diskette) (b : Buf) :
    ∃ nb rb f, d.setNib b = { d with nibBuffer := nb, rawBuffer := rb, file := f } := by
  unfold setNib
  split
  · exact ⟨_, _, _, rfl⟩
  · obtain ⟨rb, f, h⟩ := d.setRaw_sameDrive b
    exact ⟨d.nibBuffer, rb, f, h⟩
  · exact ⟨_, _, _, rfl⟩

theorem loadTrackData_frame {w : ℕ} (h : loadTrackData conformant d = .ok (e, w)) :
    ∃ nb rb f, e = { d with nibBuffer := nb, rawBuffer := rb, file := f } := by
  unfold loadTrackData at h
  by_cases hn : d.nibblized = true
  · rw [if_pos hn] at h
    cases h
    exact ⟨_, _, _, rfl⟩
  · rw [if_neg hn] at h
    obtain ⟨raw, -, h⟩ := bind_eq_ok.mp h
    obtain ⟨nib, -, h⟩ := bind_eq_ok.mp h
    obtain ⟨skew, -, h⟩ := bind_eq_ok.mp h
    obtain ⟨nibs, -, h⟩ := bind_eq_ok.mp h
    cases h
    exact d.setNib_frame _

theorem ensureTrack_fits {valid : Bool} (hd : d.Fits)
    (h : ensureTrack conformant d = .ok (e, valid)) : e.Fits := by
  unfold ensureTrack at h
  by_cases hv : d.trackValid = true
  · rw [if_pos hv] at h
    cases h
    exact hd
  · rw [if_neg hv] at h
    obtain ⟨_, -, h⟩ := bind_eq_ok.mp h
    obtain ⟨⟨l, w⟩, hl, h⟩ := bind_eq_ok.mp h
    obtain ⟨nb, rb, f, rfl⟩ := loadTrackData_frame hl
    split at h
    · cases h
      exact ⟨hd.phase_lt, hd.runByte_lt, hd.width_le, hd.absent⟩
    · cases h
      exact ⟨hd.phase_lt, Nat.two_pow_pos 16, hd.width_le, hd.absent⟩

theorem Diskette.Fits.advance (h : d.Fits) : d.advance.Fits := by
  have hw : d.trackWidth ≤ 0x1A00 := h.width_le
  refine ⟨h.phase_lt, ?_, h.width_le, h.absent⟩
  show (if d.trackWidth ≤ d.runByte + 1 then 0 else d.runByte + 1) < 2 ^ 16
  split <;> omega

theorem Diskette.Fits.flushed (h : d.Fits) (he : flushDiskette d = .ok e) : e.Fits := by
  obtain ⟨rb, f, dirty, rfl⟩ := flushDiskette_frame he
  exact ⟨h.phase_lt, h.runByte_lt, h.width_le, h.absent⟩

theorem moveHead_fits {stepperPhases : BitVec 32} (h : d.Fits)
    (he : moveHead stepperPhases d = .ok e) : e.Fits := by
  have hnext : ∀ direction, nextPhase d.phase direction < 2 ^ 8 := fun direction =>
    lt_of_le_of_lt (nextPhase_le d.phase direction) (by decide)
  unfold moveHead at he
  simp only at he
  split at he
  · cases he
    exact h
  · split at he
    · obtain ⟨l, hl, he⟩ := bind_eq_ok.mp he
      cases he
      unfold leaveTrack at hl
      split at hl
      · obtain ⟨saved, hsaved, hl⟩ := bind_eq_ok.mp hl
        cases hl
        obtain ⟨rb, f, rfl⟩ := saveTrackData_frame hsaved
        exact ⟨hnext _, h.runByte_lt, h.width_le, h.absent⟩
      · cases hl
        exact ⟨hnext _, h.runByte_lt, h.width_le, h.absent⟩
    · cases he
      exact ⟨hnext _, h.runByte_lt, h.width_le, h.absent⟩

theorem Diskette.Fits.empty (h : d.Fits) : d.empty.Fits :=
  ⟨h.phase_lt, h.runByte_lt, Nat.zero_le _, fun _ => rfl⟩

theorem recompress_frame {host : EjectHost} {err : Option String}
    (h : recompress host d = .ok (e, err)) : SameDrive d e := by
  unfold recompress at h
  obtain ⟨raw, -, h⟩ := bind_eq_ok.mp h
  simp only at h
  split at h
  · obtain ⟨_, -, h⟩ := bind_eq_ok.mp h
    cases h
    obtain ⟨rb, f, hset⟩ := Diskette.setRaw_sameDrive
      { d with rawBuffer := (host.zlibDeflateBuffer raw d.wholeLen d.rawBuffer).dst }
      (raw.copy 0 (host.zlibDeflateBuffer raw d.wholeLen d.rawBuffer).dst
        (host.zlibDeflateBuffer raw d.wholeLen d.rawBuffer).dstSize.toNat)
    rw [hset]
    exact ⟨rb, _, rfl⟩
  · cases h
    exact ⟨_, _, rfl⟩

theorem closeImage_fits {host : EjectHost} {err : Option String} (h : d.Fits)
    (he : closeImage host d = .ok (e, err)) : e.Fits := by
  unfold closeImage at he
  split at he
  · obtain ⟨flushed, hflushed, he⟩ := bind_eq_ok.mp he
    have hf := h.flushed hflushed
    unfold releaseImage at he
    split at he
    · cases he
      exact hf
    · obtain ⟨name, -, he⟩ := bind_eq_ok.mp he
      split at he
      · obtain ⟨rb, f, rfl⟩ := recompress_frame he
        exact ⟨hf.phase_lt, hf.runByte_lt, hf.width_le, hf.absent⟩
      · cases he
        exact hf
  · cases he
    exact h

theorem ejectDiskette_fits {host : EjectHost} {err : Option String} (h : d.Fits)
    (he : ejectDiskette host d = .ok (e, err)) : e.Fits := by
  obtain ⟨r, hr, rfl⟩ := ejectDiskette_eq_ok he
  exact (closeImage_fits h hr).empty

theorem Inserted.fits {host : InsertHost} {name : List UInt8} {readonly : Bool}
    {err : Option String} (h : d.Fits) (hi : Inserted conformant host d name readonly e err) :
    e.Fits := by
  cases hi with
  | refused o err _ hphase hrun =>
    refine ⟨?_, ?_, Nat.zero_le _, fun _ => rfl⟩
    · show o.phase < 2 ^ 8
      rw [hphase]
      exact h.phase_lt
    · show o.runByte < 2 ^ 16
      rw [hrun]
      exact h.runByte_lt
  | opened fd rb b f ptr w _ _ hfd hhead =>
    exact ⟨h.phase_lt, h.runByte_lt, ((hhead 0 (Nat.zero_le _)).loaded hfd).width.2, nofun⟩

theorem insertDiskette_fits {host : InsertHost} {name : List UInt8} {readonly : Bool}
    {err : Option String} (h : d.Fits)
    (he : insertDiskette conformant host d name readonly = .ok (e, err)) : e.Fits := by
  unfold insertDiskette at he
  obtain ⟨⟨u, err'⟩, hu, he⟩ := bind_eq_ok.mp he
  obtain ⟨r, hr, rfl⟩ := ejectDiskette_eq_ok hu
  obtain ⟨e', err'', hok, hi⟩ := insertImage_inserted conformant host r name readonly
  rw [hok] at he
  cases he
  exact hi.fits (closeImage_fits h hr)

end Drive

/-! ## Calls -/

section Calls
variable {conformant : Bool} {s t : Disk6}

theorem Disk6.Fits.setDisk (h : s.Fits) (i : ℕ) {d : Diskette} (hd : d.Fits) :
    (s.setDisk i d).Fits := by
  refine ⟨h.motorOff_lt, h.drive_lt, h.ddrw_lt, fun j => ?_⟩
  rcases eq_or_ne j i with rfl | hj
  · rw [Disk6.setDisk_self]
    exact hd
  · rw [Disk6.setDisk_ne d hj]
    exact h.disk j

theorem transferByte_fits (h : s.Fits) (ht : transferByte s = .ok t) : t.Fits := by
  have hd := h.disk s.drive
  unfold transferByte at ht
  simp only at ht
  split at ht
  · split at ht
    · cases ht
      exact h
    · split at ht
      · cases ht
        exact h
      · obtain ⟨nib, -, ht⟩ := bind_eq_ok.mp ht
        cases ht
        obtain ⟨nb, rb, f, hset⟩ := (s.disk s.drive).setNib_frame
          (Function.update nib (s.disk s.drive).trackIdx s.diskByte)
        rw [hset]
        exact h.setDisk _ ⟨hd.phase_lt, hd.runByte_lt, hd.width_le, hd.absent⟩
  · split at ht
    · cases ht
      exact ⟨h.motorOff_lt, h.drive_lt, h.ddrw_lt, h.disk⟩
    · obtain ⟨nib, -, ht⟩ := bind_eq_ok.mp ht
      cases ht
      refine ⟨?_, h.drive_lt, h.ddrw_lt, h.disk⟩
      show (if s.motorOff = 0 then 0 else s.motorOff + 1) < 2 ^ 8
      split <;> omega

theorem diskReadWriteByte_fits (h : s.Fits) (ht : diskReadWriteByte conformant s = .ok t) :
    t.Fits := by
  unfold diskReadWriteByte at ht
  obtain ⟨u, hu, ht⟩ := bind_eq_ok.mp ht
  have hfits : u.Fits := by
    unfold accessByte at hu
    simp only at hu
    split at hu
    · cases hu
      exact ⟨h.motorOff_lt, h.drive_lt, h.ddrw_lt, h.disk⟩
    · obtain ⟨⟨d, valid⟩, hd, hu⟩ := bind_eq_ok.mp hu
      have hset := h.setDisk s.drive (ensureTrack_fits (h.disk s.drive) hd)
      split at hu
      · exact transferByte_fits hset hu
      · cases hu
        exact ⟨hset.motorOff_lt, hset.drive_lt, hset.ddrw_lt, hset.disk⟩
  cases ht
  exact hfits.setDisk _ (hfits.disk _).advance

theorem disk6Switch_fits {latch : Disk6 → Disk6} (hlatch : ∀ u : Disk6, u.Fits → (latch u).Fits)
    {ea : UInt16} (h : s.Fits) (ht : disk6Switch conformant latch s ea = .ok t) : t.Fits := by
  unfold disk6Switch at ht
  simp only at ht
  split at ht
  · obtain ⟨d, hd, ht⟩ := bind_eq_ok.mp ht
    cases ht
    have hset := h.setDisk s.drive (moveHead_fits (h.disk s.drive) hd)
    exact ⟨hset.motorOff_lt, hset.drive_lt, hset.ddrw_lt, hset.disk⟩
  · split at ht
    · cases ht
      refine ⟨?_, h.drive_lt, h.ddrw_lt, h.disk⟩
      show (if ea &&& 1 ≠ 0 then 0 else 1) < 2 ^ 8
      split <;> decide
    · split at ht
      · cases ht
        refine ⟨h.motorOff_lt, ?_, h.ddrw_lt, h.disk⟩
        show (if ea &&& 1 ≠ 0 then 1 else 0) < 2 ^ 8
        split <;> decide
      · split at ht
        · exact diskReadWriteByte_fits h ht
        · split at ht
          · cases ht
            exact hlatch s h
          · cases ht
            refine ⟨h.motorOff_lt, h.drive_lt, ?_, h.disk⟩
            show (ea &&& 1).toNat < 2 ^ 8
            rw [UInt16.toNat_and]
            exact lt_of_le_of_lt Nat.and_le_right (by decide)

theorem diskReadLatch_fits (h : s.Fits) : (diskReadLatch s).Fits := by
  unfold diskReadLatch
  split
  · exact ⟨h.motorOff_lt, h.drive_lt, h.ddrw_lt, h.disk⟩
  · exact h

theorem disk6Flush_fits (h : s.Fits) {i : ℕ} (ht : disk6Flush s i = .ok t) : t.Fits := by
  obtain ⟨d, hd, ht⟩ := bind_eq_ok.mp ht
  cases ht
  exact h.setDisk i ((h.disk i).flushed hd)

theorem saveDrive_fits (h : s.Fits) {helper : StateHelper} {i : ℕ} {a : Disk6 × StateHelper × Bool}
    (ha : saveDrive s i helper = .ok a) : a.1.Fits := by
  obtain ⟨e, he, hs⟩ := saveDrive_ok ha
  rw [hs]
  exact h.setDisk i ((h.disk i).flushed he)

theorem disk6SaveState_fits (h : s.Fits) {helper : StateHelper} {a : Disk6 × StateHelper × Bool}
    (ha : disk6SaveState s helper = .ok a) : a.1.Fits := by
  unfold disk6SaveState at ha
  simp only at ha
  split at ha
  · obtain ⟨b, hb, ha⟩ := bind_eq_ok.mp ha
    have hfits := saveDrive_fits h hb
    split at ha
    · exact saveDrive_fits hfits ha
    · cases ha
      exact hfits
  · cases ha
    exact h

theorem Diskette.Fits.reset {d : Diskette} (h : d.Fits) : d.reset.Fits :=
  ⟨Nat.two_pow_pos 8, Nat.two_pow_pos 16, h.width_le, h.absent⟩

theorem disk6Init_fits (h : s.Fits) (ht : disk6Init s = .ok t) : t.Fits := by
  unfold disk6Init at ht
  obtain ⟨u, hu, ht⟩ := bind_eq_ok.mp ht
  obtain ⟨v, hv, ht⟩ := bind_eq_ok.mp ht
  cases ht
  have hfits := disk6Flush_fits (disk6Flush_fits h hu) hv
  have hset := (hfits.setDisk 0 (hfits.disk 0).reset).setDisk 1 (hfits.disk 1).reset
  exact ⟨Nat.one_lt_two_pow (by decide), Nat.two_pow_pos 8, Nat.two_pow_pos 8, hset.disk⟩

theorem step_fits (h : s.Fits) {op : Op} (ht : step conformant s op = .ok t) : t.Fits := by
  cases op with
  | ioRead ea floatingBus =>
    cases hr : disk6IoRead conformant floatingBus s ea with
    | error f => rw [step, hr] at ht; cases ht
    | ok r =>
      rw [step, hr] at ht
      cases ht
      obtain ⟨u, hu, hr⟩ := bind_eq_ok.mp hr
      cases hr
      exact disk6Switch_fits (fun _ => diskReadLatch_fits) h hu
  | ioWrite ea b =>
    obtain ⟨u, hu, ht⟩ := bind_eq_ok.mp ht
    have hfits := disk6Switch_fits (fun _ hu => hu) h hu
    cases ht
    split
    · exact ⟨hfits.motorOff_lt, hfits.drive_lt, hfits.ddrw_lt, hfits.disk⟩
    · exact hfits
  | init => exact disk6Init_fits h ht
  | insert drive name readonly host =>
    obtain ⟨⟨d, err⟩, hd, ht⟩ := bind_eq_ok.mp ht
    cases ht
    exact h.setDisk _ (insertDiskette_fits (h.disk _) hd)
  | eject drive host =>
    obtain ⟨⟨d, err⟩, hd, ht⟩ := bind_eq_ok.mp ht
    cases ht
    exact h.setDisk _ (ejectDiskette_fits (h.disk _) hd)
  | flush drive => exact disk6Flush_fits h ht
  | saveState helper =>
    cases ha : disk6SaveState s helper with
    | error f => rw [step, ha] at ht; cases ht
    | ok a =>
      rw [step, ha] at ht
      cases ht
      exact disk6SaveState_fits h ha

end Calls

/-! ## Loads -/

section Loads
variable (conformant : Bool)

theorem disk6Eject_fits {host : EjectHost} {i : ℕ} {s t : Disk6} (h : s.Fits)
    (ht : disk6Eject host i s = .ok t) : t.Fits := by
  obtain ⟨⟨d, err⟩, hd, ht⟩ := bind_eq_ok.mp ht
  cases ht
  exact h.setDisk i (ejectDiskette_fits (h.disk i) hd)

theorem DriveRecord.runByte_lt (high low : UInt8) :
    (high.toNat <<< 8) ||| low.toNat < 2 ^ 16 := by
  have hh := high.toNat_lt
  have hl := low.toNat_lt
  refine Nat.or_lt_two_pow ?_ (by omega)
  rw [Nat.shiftLeft_eq]
  omega

theorem preserves_loadDrive (host : LoadHost) (i : ℕ) :
    Preserves Disk6.Fits (loadDrive conformant host i) := by
  refine preserves_read fun state => preserves_read fun serialized => preserves_all ?_
  simp only [List.forall_mem_cons]
  refine ⟨preserves_effect fun s t hs => disk6Eject_fits hs, ?_, ?_, ?_, ?_, ?_,
    List.forall_mem_nil _⟩
  · unfold loadImage
    split
    · refine preserves_field fun bytes s t hs ht => ?_
      obtain ⟨⟨d, err⟩, hd, ht⟩ := bind_eq_ok.mp ht
      cases ht
      exact hs.setDisk i (insertDiskette_fits (hs.disk i) hd)
    · exact preserves_step fun s hs => hs
  · refine preserves_field fun bytes s t hs ht => ?_
    cases ht
    exact ⟨hs.motorOff_lt, hs.drive_lt, hs.ddrw_lt, hs.disk⟩
  · refine preserves_field fun bytes s t hs ht => ?_
    cases ht
    exact hs
  · refine preserves_field fun bytes s t hs ht => ?_
    cases ht
    have hd := hs.disk i
    exact hs.setDisk i ⟨UInt8.toNat_lt _, hd.runByte_lt, hd.width_le, hd.absent⟩
  · refine preserves_field fun bytes s t hs ht => ?_
    cases ht
    have hd := hs.disk i
    exact hs.setDisk i ⟨hd.phase_lt, DriveRecord.runByte_lt _ _, hd.width_le, hd.absent⟩

theorem preserves_loadHeader : Preserves Disk6.Fits loadHeader := by
  refine preserves_all ?_
  simp only [List.forall_mem_cons]
  refine ⟨?_, ?_, ?_, ?_, List.forall_mem_nil _⟩
  · refine preserves_field fun bytes s t hs ht => ?_
    cases ht
    exact ⟨UInt8.toNat_lt _, hs.drive_lt, hs.ddrw_lt, hs.disk⟩
  · refine preserves_field fun bytes s t hs ht => ?_
    cases ht
    exact ⟨hs.motorOff_lt, UInt8.toNat_lt _, hs.ddrw_lt, hs.disk⟩
  · refine preserves_field fun bytes s t hs ht => ?_
    cases ht
    exact ⟨hs.motorOff_lt, hs.drive_lt, UInt8.toNat_lt _, hs.disk⟩
  · refine preserves_field fun bytes s t hs ht => ?_
    cases ht
    exact ⟨hs.motorOff_lt, hs.drive_lt, hs.ddrw_lt, hs.disk⟩

theorem preserves_disk6LoadState (hosts : Fin 2 → LoadHost) :
    Preserves Disk6.Fits (disk6LoadState conformant hosts) := by
  refine (preserves_loadHeader).andThen ?_
  intro s input t rest loaded hs h
  have hdrives : Preserves Disk6.Fits
      (.all [loadDrive conformant (hosts 0) 0, loadDrive conformant (hosts 1) 1]) := by
    refine preserves_all ?_
    simp only [List.forall_mem_cons]
    exact ⟨preserves_loadDrive conformant _ _, preserves_loadDrive conformant _ _,
      List.forall_mem_nil _⟩
  unfold loadDrives at h
  obtain ⟨⟨u, left, got⟩, hu, h⟩ := bind_eq_ok.mp h
  have hfits := hdrives s input u left got hs hu
  split at h
  · cases h
    exact hfits
  · obtain ⟨v, hv, h⟩ := bind_eq_ok.mp h
    obtain ⟨w, hw, h⟩ := bind_eq_ok.mp h
    cases h
    exact disk6Eject_fits (disk6Eject_fits hfits hv) hw

/-- **After any calls the saved fields fit their bytes.** -/
theorem calls_fit {calls : List Call} {s : Disk6}
    (h : runM (call conformant) initDisk6 calls = .ok s) : s.Fits := by
  refine runM_invariant Disk6.Fits ?_ initDisk6_fits h
  intro s c t hs ht
  cases c with
  | op op => exact step_fits hs ht
  | loadState hosts input =>
    cases hl : disk6LoadState conformant hosts s input with
    | error f => rw [call, hl] at ht; cases ht
    | ok l =>
      obtain ⟨u, rest, loaded⟩ := l
      rw [call, hl] at ht
      cases ht
      exact preserves_disk6LoadState conformant hosts s input u rest loaded hs hl

end Loads

end Apple2ix.Disk
