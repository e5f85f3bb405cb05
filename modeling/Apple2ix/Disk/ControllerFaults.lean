import Apple2ix.Disk.ControllerRuns

/-! The assertions a run of the controller can fail. A step fails the decoder's assertion exactly
when it writes back a track whose data fields are not numbered; no other assertion of the track
codec is ever met. -/
namespace Apple2ix.Disk
open Runs
set_option autoImplicit false

section Steps
variable {conformant : Bool} {s t : Disk6}

/-! ## Steps that stop the program -/

/-- The operation writes back a track that the decoder cannot number. -/
def BadWriteBack (s : Disk6) (op : Op) (i : ℕ) : Prop :=
  WritesBack s i op ∧ (s.disk i).trackDirty = true ∧ ¬ (s.disk i).WriteBackOk

/-- A flush fails on a bad track only. -/
theorem flushDiskette_fails {d : Diskette} (hd : d.HeadOk conformant) {f : Fault}
    (hf : flushDiskette d = .error f) :
    f = .invalidPreviousNibblization ∧ d.trackDirty = true ∧ ¬ d.WriteBackOk := by
  by_cases hok : d.trackDirty = true → d.WriteBackOk
  · obtain ⟨e, he, -⟩ := flushDiskette_ok hd hok
    rw [he] at hf
    cases hf
  · obtain ⟨hdirty, hbad⟩ := Classical.not_imp.mp hok
    rw [flushDiskette_error hd hdirty hbad] at hf
    cases hf
    exact ⟨rfl, hdirty, hbad⟩

theorem ejectDiskette_fails {d : Diskette} (hd : d.HeadOk conformant) {host : EjectHost}
    {f : Fault} (hf : ejectDiskette host d = .error f) :
    f = .compressedSize ∨ f = .invalidPreviousNibblization ∧ d.Closes ∧ d.trackDirty = true ∧
      ¬ d.WriteBackOk := by
  by_cases hok : d.Closes → d.trackDirty = true → d.WriteBackOk
  · rcases ejectDiskette_cases host hd hok with ⟨e, err, he, -⟩ | he
    · rw [he] at hf
      cases hf
    · rw [he] at hf
      cases hf
      exact Or.inl rfl
  · obtain ⟨hclose, hbad⟩ := Classical.not_imp.mp hok
    obtain ⟨hdirty, hbad⟩ := Classical.not_imp.mp hbad
    rw [ejectDiskette_error host hd hclose hdirty hbad] at hf
    cases hf
    exact Or.inr ⟨rfl, hclose, hdirty, hbad⟩

theorem saveDrive_fails {helper : StateHelper} {i : ℕ} {f : Fault}
    (hf : saveDrive s i helper = .error f) :
    f = .nameLength ∨ flushDiskette (s.disk i) = .error f := by
  unfold saveDrive disk6Flush at hf
  rcases bind_eq_error.mp hf with hflush | ⟨u, -, hf⟩
  · right
    rcases bind_eq_error.mp hflush with he | ⟨e, -, he⟩
    · exact he
    · cases he
  · left
    simp only at hf
    generalize helper.save _ = saved at hf
    split at hf
    case isTrue =>
      rcases bind_eq_error.mp hf with hname | ⟨-, -, hf⟩
      · unfold assertThat at hname
        split at hname
        · cases hname
        · cases hname
          rfl
      · cases hf
    case isFalse => cases hf

/-- In an access only a seek off a bad track fails. -/
theorem switch_fails (h : ControllerOk conformant s) {op : Op} {ea : UInt16} (hop : op.IsIo ea)
    {latch : Disk6 → Disk6} {f : Fault} (hf : disk6Switch conformant latch s ea = .error f) :
    f = .invalidPreviousNibblization ∧ ∃ i, BadWriteBack s op i := by
  unfold disk6Switch at hf
  simp only at hf
  by_cases hsw : ea &&& 0xF ≤ 0x7
  · rw [if_pos hsw, disk6PhaseChange] at hf
    have hi := h.drives s.drive
    rcases bind_eq_error.mp hf with hmove | ⟨d, -, hf⟩
    · by_cases hleave : LeavesTrack (steppersAfter s.stepperPhases ea) (s.disk s.drive)
      · rw [moveHead_leaves hi hleave] at hmove
        rcases bind_eq_error.mp hmove with hflush | ⟨e, -, he⟩
        · obtain ⟨hf', hdirty, hbad⟩ := flushDiskette_fails hi hflush
          exact ⟨hf', s.drive, (hop.writesBack _).mpr ⟨rfl, hsw, hleave⟩, hdirty, hbad⟩
        · cases he
      · rw [moveHead_stays hi hleave] at hmove
        cases hmove
    · cases hf
  · rw [if_neg hsw] at hf
    split at hf
    · cases hf
    · split at hf
      · cases hf
      · split at hf
        · obtain ⟨d, m, x, hok, -⟩ := diskReadWriteByte_ok (h.drives s.drive)
          rw [hok] at hf
          cases hf
        · split at hf <;> cases hf

theorem saveState_fails (h : ControllerOk conformant s) {helper : StateHelper} {f : Fault}
    (hf : disk6SaveState s helper = .error f) :
    f = .nameLength ∨
      f = .invalidPreviousNibblization ∧ ∃ i, BadWriteBack s (.saveState helper) i := by
  unfold disk6SaveState at hf
  simp only at hf
  split at hf
  case isFalse => cases hf
  case isTrue hheader =>
    rcases bind_eq_error.mp hf with hzero | ⟨a, ha, hf⟩
    · rcases saveDrive_fails hzero with hname | hflush
      · exact Or.inl hname
      · obtain ⟨hf', hdirty, hbad⟩ := flushDiskette_fails (h.drives 0) hflush
        exact Or.inr ⟨hf', 0, ⟨hheader, Or.inl rfl⟩, hdirty, hbad⟩
    · split at hf
      case isFalse => cases hf
      case isTrue hgo =>
        obtain ⟨e, -, has⟩ := saveDrive_ok ha
        rcases saveDrive_fails hf with hname | hflush
        · exact Or.inl hname
        · rw [has, Disk6.setDisk_ne e (by decide : (1 : ℕ) ≠ 0)] at hflush
          obtain ⟨hf', hdirty, hbad⟩ := flushDiskette_fails (h.drives 1) hflush
          refine Or.inr ⟨hf', 1, ⟨hheader, Or.inr ⟨rfl, a.1, a.2.1, ?_⟩⟩, hdirty, hbad⟩
          rw [ha, ← hgo]

/-- **What stops the program**: a write-back of a bad track, an image that does not compress, or
a file name of 4 GiB. -/
theorem step_fails (h : ControllerOk conformant s) {op : Op} {f : Fault}
    (hf : step conformant s op = .error f) :
    f = .compressedSize ∨ f = .nameLength ∨
      f = .invalidPreviousNibblization ∧ ∃ i, BadWriteBack s op i := by
  cases op with
  | ioRead ea floatingBus =>
    cases hsw : disk6Switch conformant diskReadLatch s ea with
    | ok u => rw [step, disk6IoRead, hsw] at hf; cases hf
    | error e =>
      rw [step, disk6IoRead, hsw] at hf
      cases hf
      exact Or.inr (Or.inr (switch_fails h (Or.inl ⟨floatingBus, rfl⟩) hsw))
  | ioWrite ea b =>
    rcases bind_eq_error.mp hf with hsw | ⟨u, -, hf⟩
    · exact Or.inr (Or.inr (switch_fails h (Or.inr ⟨b, rfl⟩) hsw))
    · cases hf
  | init =>
    unfold step disk6Init disk6Flush at hf
    rcases bind_eq_error.mp hf with hu | ⟨u, hu, hf⟩
    · rcases bind_eq_error.mp hu with he | ⟨e, -, he⟩
      · obtain ⟨hf', hdirty, hbad⟩ := flushDiskette_fails (h.drives 0) he
        exact Or.inr (Or.inr ⟨hf', 0, Nat.zero_lt_two, hdirty, hbad⟩)
      · cases he
    · obtain ⟨e, -, hu⟩ := bind_eq_ok.mp hu
      cases hu
      rw [Disk6.setDisk_ne e (by decide : (1 : ℕ) ≠ 0)] at hf
      rcases bind_eq_error.mp hf with hv | ⟨v, -, hf⟩
      · rcases bind_eq_error.mp hv with he | ⟨e', -, he⟩
        · obtain ⟨hf', hdirty, hbad⟩ := flushDiskette_fails (h.drives 1) he
          exact Or.inr (Or.inr ⟨hf', 1, Nat.one_lt_two, hdirty, hbad⟩)
        · cases he
      · cases hf
  | insert drive name readonly host =>
    rcases bind_eq_error.mp hf with hinsert | ⟨r, -, hf⟩
    · unfold insertDiskette at hinsert
      rcases bind_eq_error.mp hinsert with he | ⟨⟨e, err⟩, heject, hinsert⟩
      · rcases ejectDiskette_fails (h.drives drive) he with hc | ⟨hf', hclose, hdirty, hbad⟩
        · exact Or.inl hc
        · exact Or.inr (Or.inr ⟨hf', drive, ⟨rfl, hclose⟩, hdirty, hbad⟩)
      · obtain ⟨r, hclose, rfl⟩ := ejectDiskette_eq_ok heject
        have hphase : r.phase ≤ 69 := by
          rw [closeImage_phase (h.drives drive) _ hclose]
          exact (h.drives drive).phase_le
        obtain ⟨d, err', hok, -⟩ :=
          insertImage_ok conformant host hphase name readonly
        rw [hok] at hinsert
        cases hinsert
    · cases hf
  | eject drive host =>
    rcases bind_eq_error.mp hf with he | ⟨e, -, he⟩
    · rcases ejectDiskette_fails (h.drives drive) he with hc | ⟨hf', hclose, hdirty, hbad⟩
      · exact Or.inl hc
      · exact Or.inr (Or.inr ⟨hf', drive, ⟨rfl, hclose⟩, hdirty, hbad⟩)
    · cases he
  | flush drive =>
    rcases bind_eq_error.mp hf with he | ⟨e, -, he⟩
    · obtain ⟨hf', hdirty, hbad⟩ := flushDiskette_fails (h.drives drive) he
      exact Or.inr (Or.inr ⟨hf', drive, rfl, hdirty, hbad⟩)
    · cases he
  | saveState helper =>
    cases hsave : disk6SaveState s helper with
    | ok a => rw [step, hsave] at hf; cases hf
    | error e =>
      rw [step, hsave] at hf
      cases hf
      exact Or.inr (saveState_fails h hsave)

/-! ## Bad tracks always stop it -/

theorem saveDrive_stops {helper : StateHelper} {i : ℕ} {f : Fault}
    (hf : flushDiskette (s.disk i) = .error f) : saveDrive s i helper = .error f := by
  rw [saveDrive, disk6Flush, hf]
  rfl

/-- The first of two flushes either stops the program in the same way or leaves the second
drive alone. -/
theorem flush_then (h : ControllerOk conformant s) {α : Type} (k : Disk6 → Except Fault α)
    (hk : ∀ e, k (s.setDisk 0 e) = .error .invalidPreviousNibblization) :
    (disk6Flush s 0 >>= k) = .error .invalidPreviousNibblization := by
  unfold disk6Flush
  cases he : flushDiskette (s.disk 0) with
  | ok e => exact hk e
  | error f =>
    obtain ⟨rfl, -, -⟩ := flushDiskette_fails (h.drives 0) he
    rfl

theorem step_stops (h : ControllerOk conformant s) {op : Op} {i : ℕ} (hbad : BadWriteBack s op i) :
    step conformant s op = .error .invalidPreviousNibblization := by
  obtain ⟨hback, hdirty, hwb⟩ := hbad
  have hflush := flushDiskette_error (h.drives i) hdirty hwb
  have hseek : ∀ latch ea, i = s.drive → ea &&& 0xF ≤ 0x7 →
      LeavesTrack (steppersAfter s.stepperPhases ea) (s.disk i) →
      disk6Switch conformant latch s ea = .error .invalidPreviousNibblization := by
    rintro latch ea rfl hsw hleave
    unfold disk6Switch
    simp only
    rw [if_pos hsw, disk6PhaseChange, moveHead_leaves (h.drives s.drive) hleave, hflush]
    rfl
  cases op with
  | ioRead ea floatingBus =>
    obtain ⟨hi, hsw, hleave⟩ := hback
    rw [step, disk6IoRead, hseek _ ea hi hsw hleave]
    rfl
  | ioWrite ea b =>
    obtain ⟨hi, hsw, hleave⟩ := hback
    rw [step, disk6IoWrite, hseek _ ea hi hsw hleave]
    rfl
  | init =>
    have hi : i = 0 ∨ i = 1 := by
      have : i < 2 := hback
      omega
    rcases hi with rfl | rfl
    · rw [step, disk6Init, disk6Flush, hflush]
      rfl
    · apply flush_then h
      intro e
      rw [disk6Flush, Disk6.setDisk_ne e (by decide : (1 : ℕ) ≠ 0), hflush]
      rfl
  | insert drive name readonly host =>
    obtain ⟨rfl, hclose⟩ := hback
    rw [step, insertDiskette, ejectDiskette_error _ (h.drives drive) hclose hdirty hwb]
    rfl
  | eject drive host =>
    obtain ⟨rfl, hclose⟩ := hback
    rw [step, ejectDiskette_error _ (h.drives drive) hclose hdirty hwb]
    rfl
  | flush drive =>
    have hi : i = drive := hback
    subst hi
    rw [step, disk6Flush, hflush]
    rfl
  | saveState helper =>
    obtain ⟨hheader, rfl | ⟨rfl, u, saved, hu⟩⟩ := hback
    · rw [step, disk6SaveState]
      simp only [hheader, if_true, saveDrive_stops hflush, error_bind]
      rfl
    · obtain ⟨e, -, hue⟩ := saveDrive_ok hu
      have hflush' : flushDiskette (u.disk 1) = .error .invalidPreviousNibblization := by
        rw [show u = s.setDisk 0 e from hue, Disk6.setDisk_ne e (by decide : (1 : ℕ) ≠ 0)]
        exact hflush
      rw [step, disk6SaveState]
      simp only [hheader, if_true, hu, ok_bind, saveDrive_stops hflush']
      rfl

/-- **Exactly the write-backs of bad tracks fail the assertion of the decoder.** -/
theorem step_stops_iff (h : ControllerOk conformant s) (op : Op) :
    step conformant s op = .error .invalidPreviousNibblization ↔ ∃ i, BadWriteBack s op i := by
  constructor
  · intro hf
    rcases step_fails h hf with hc | hc | ⟨-, hbad⟩
    · cases hc
    · cases hc
    · exact hbad
  · rintro ⟨i, hbad⟩
    exact step_stops h hbad

end Steps

/-! ## The head over whole runs -/

/-- The cell of the next access is one of a nibble image. -/
theorem ControllerOk.cell_inside {conformant : Bool} {s : Disk6} (h : ControllerOk conformant s)
    (hfd : 0 ≤ (s.disk s.drive).fd) :
    ((s.disk s.drive).nibImageData = .nibBuffer ∨
      (s.disk s.drive).nibImageData = .rawImage ∧ (s.disk s.drive).wholeLen = nibSize) ∧
    ∃ d, ensureTrack conformant (s.disk s.drive) = .ok (d, true) ∧ d.trackIdx < nibSize := by
  have hi := h.drives s.drive
  constructor
  · have hl := hi.loaded hfd
    rcases Bool.eq_false_or_eq_true (s.disk s.drive).nibblized with hn | hn
    · exact Or.inr ⟨(hl.nib hn).1, (hl.nib hn).2.2⟩
    · exact Or.inl (hl.dsk hn).1
  · obtain ⟨b, r, he, hensure⟩ := hi.ensure hfd
    refine ⟨_, hensure, ?_⟩
    have hhead := hi.turned hfd b (s.disk s.drive).file r _ (he.lt hi hfd) hi.dirty_writable
      (he.diskBytes hi hfd)
    exact hhead.trackIdx_lt rfl

/-- **Head invariant.** After any run, on both drives: the head is over the disk, the rotation
inside the track, and a dirty track valid. The cell `_disk_readWriteByte` uses next is one of the
nibble image, and no run meets a dirty track before a load. -/
theorem head_invariant (conformant : Bool) (ops : List Op) :
    runM (step conformant) initDisk6 ops ≠ .error .trackDirty ∧
    ∀ s, runM (step conformant) initDisk6 ops = .ok s →
      (∀ i, (s.disk i).phase ≤ 69 ∧
        ((s.disk i).trackValid = true → (s.disk i).runByte < (s.disk i).trackWidth) ∧
        ((s.disk i).trackDirty = true → (s.disk i).trackValid = true)) ∧
      (0 ≤ (s.disk s.drive).fd →
        ((s.disk s.drive).nibImageData = .nibBuffer ∨
          (s.disk s.drive).nibImageData = .rawImage ∧ (s.disk s.drive).wholeLen = nibSize) ∧
        ∃ d, ensureTrack conformant (s.disk s.drive) = .ok (d, true) ∧ d.trackIdx < nibSize) := by
  constructor
  · intro hf
    obtain ⟨pre, op, post, s, -, hpre, hstep⟩ := (runM_error_iff _ _ _).mp hf
    rcases step_fails (run_ok hpre) hstep with hc | hc | ⟨hc, -⟩ <;> cases hc
  · intro s hs
    have h := run_ok hs
    refine ⟨fun i => ?_, h.cell_inside⟩
    exact ⟨(h.drives i).phase_le, (h.drives i).runByte_lt, (h.drives i).dirty_valid⟩

end Apple2ix.Disk
