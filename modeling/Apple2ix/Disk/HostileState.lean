import Apple2ix.Disk.ControllerFaults
import Apple2ix.Disk.SaveLoad

/-! Loading whatever file: the drive, the phases and the places of the heads are taken from the file
as they are, and the head invariant holds afterwards exactly when they meet it. -/
namespace Apple2ix.Disk
open Runs Loader
set_option autoImplicit false

/-! ## The head invariant and what depends on it -/

/-- The selected drive exists, each head is over the disk, and each rotation inside the track unless
there is no image. -/
def HeadInvariant (s : Disk6) : Prop :=
  s.drive < 2 ∧
    ∀ i : Fin 2, (s.disk i).phase ≤ 69 ∧
      ((s.disk i).fd < 0 ∨ (s.disk i).runByte < (s.disk i).trackWidth)

/-- After any further operations the next access indexes inside `disk6.disk` and inside the nibble
image. -/
def StaysInside (conformant : Bool) (s : Disk6) : Prop :=
  ∀ ops u, runM (step conformant) s ops = .ok u →
    u.drive < 2 ∧
      (0 ≤ (u.disk u.drive).fd →
        ∃ d, ensureTrack conformant (u.disk u.drive) = .ok (d, true) ∧ d.trackIdx < nibSize)

theorem ControllerOk.staysInside {conformant : Bool} {s : Disk6} (h : ControllerOk conformant s) :
    StaysInside conformant s := by
  intro ops u hu
  have hok : ControllerOk conformant u := by
    refine runM_invariant (ControllerOk conformant) ?_ h hu
    intro v op w hv hw
    obtain ⟨hdrive, hall⟩ := step_drives hv hw
    exact ⟨hdrive, fun i => (hall i).headOk hv⟩
  exact ⟨hok.drive_lt, fun hfd => (hok.cell_inside hfd).2⟩

/-! ## Drives there are none of -/

/-- What the model has past the two drives of the array never holds an image. -/
structure Diskette.Phantom (d : Diskette) : Prop where
  fd_neg : d.fd < 0
  invalid : d.trackValid = false
  clean : d.trackDirty = false
  phase_le : d.phase ≤ 69

section Phantoms
variable {conformant : Bool} {s t : Disk6}

theorem Diskette.Phantom.headOk {d : Diskette} (h : d.Phantom) : d.HeadOk conformant := by
  refine ⟨h.phase_le, fun hv => ?_, fun hd => ?_, fun hd => ?_, fun _ => h.invalid, fun hfd => ?_⟩
  · exact absurd (hv.symm.trans h.invalid) (by decide)
  · exact absurd (hd.symm.trans h.clean) (by decide)
  · exact absurd (hd.symm.trans h.clean) (by decide)
  · exact absurd hfd (Int.not_le.mpr h.fd_neg)

theorem moveHead_phantom {stepperPhases : BitVec 32} {d e : Diskette} (h : d.Phantom)
    (he : moveHead stepperPhases d = .ok e) : e.Phantom := by
  unfold moveHead at he
  simp only at he
  split at he
  · cases he
    exact h
  · split at he
    · unfold leaveTrack at he
      rw [if_neg (by rw [h.clean]; decide), ok_bind] at he
      cases he
      exact ⟨h.fd_neg, rfl, h.clean, nextPhase_le _ _⟩
    · cases he
      exact ⟨h.fd_neg, h.invalid, h.clean, nextPhase_le _ _⟩

theorem setDisk_phantom {i j : ℕ} {d : Diskette} (h : (s.disk i).Phantom)
    (hd : i = j → d.Phantom) : ((s.setDisk j d).disk i).Phantom := by
  rcases eq_or_ne i j with rfl | hij
  · rw [Disk6.setDisk_self]
    exact hd rfl
  · rw [Disk6.setDisk_ne d hij]
    exact h

theorem transferByte_frame {i : ℕ} (hi : i ≠ s.drive) (ht : transferByte s = .ok t) :
    t.drive = s.drive ∧ t.disk i = s.disk i := by
  unfold transferByte at ht
  simp only at ht
  split at ht
  · split at ht
    · cases ht
      exact ⟨rfl, rfl⟩
    · split at ht
      · cases ht
        exact ⟨rfl, rfl⟩
      · obtain ⟨nib, -, ht⟩ := bind_eq_ok.mp ht
        cases ht
        exact ⟨rfl, Disk6.setDisk_ne _ hi⟩
  · split at ht
    · cases ht
      exact ⟨rfl, rfl⟩
    · obtain ⟨nib, -, ht⟩ := bind_eq_ok.mp ht
      cases ht
      exact ⟨rfl, rfl⟩

/-- An access leaves the drives alone that are not selected. -/
theorem accessByte_frame {i : ℕ} (hi : i ≠ s.drive) (ht : accessByte conformant s = .ok t) :
    t.drive = s.drive ∧ t.disk i = s.disk i := by
  unfold accessByte at ht
  simp only at ht
  split at ht
  · cases ht
    exact ⟨rfl, rfl⟩
  · obtain ⟨⟨d, valid⟩, -, ht⟩ := bind_eq_ok.mp ht
    split at ht
    · obtain ⟨hdrive, hdisk⟩ := transferByte_frame (s := s.setDisk s.drive d) hi ht
      exact ⟨hdrive, hdisk.trans (Disk6.setDisk_ne d hi)⟩
    · cases ht
      exact ⟨rfl, Disk6.setDisk_ne d hi⟩

theorem diskReadWriteByte_phantom {i : ℕ} (h : (s.disk i).Phantom)
    (ht : diskReadWriteByte conformant s = .ok t) : (t.disk i).Phantom := by
  obtain ⟨u, hu, ht⟩ := bind_eq_ok.mp ht
  cases ht
  by_cases hi : i = s.drive
  · rw [hi] at h
    have hneg : accessByte conformant s = .ok { s with diskByte := 0xFF } := if_pos h.fd_neg
    rw [hneg] at hu
    cases hu
    rw [hi]
    show ((Disk6.setDisk _ s.drive (s.disk s.drive).advance).disk s.drive).Phantom
    rw [Disk6.setDisk_self]
    exact ⟨h.fd_neg, h.invalid, h.clean, h.phase_le⟩
  · obtain ⟨hdrive, hdisk⟩ := accessByte_frame hi hu
    rw [hdrive, Disk6.setDisk_ne _ hi, hdisk]
    exact h

theorem switch_phantom {latch : Disk6 → Disk6} (hlatch : ∀ u, (latch u).disk = u.disk)
    {ea : UInt16} {i : ℕ} (h : (s.disk i).Phantom)
    (ht : disk6Switch conformant latch s ea = .ok t) : (t.disk i).Phantom := by
  unfold disk6Switch at ht
  simp only at ht
  split at ht
  · obtain ⟨d, hd, ht⟩ := bind_eq_ok.mp ht
    cases ht
    refine setDisk_phantom h fun hi => ?_
    rw [← hi] at hd
    exact moveHead_phantom h hd
  · split at ht
    · cases ht
      exact h
    · split at ht
      · cases ht
        exact h
      · split at ht
        · exact diskReadWriteByte_phantom h ht
        · split at ht
          · cases ht
            rw [hlatch]
            exact h
          · cases ht
            exact h

theorem disk6Flush_others {i j : ℕ} (hij : i ≠ j) (ht : disk6Flush s j = .ok t) :
    t.disk i = s.disk i := by
  obtain ⟨d, -, ht⟩ := bind_eq_ok.mp ht
  cases ht
  exact Disk6.setDisk_ne d hij

theorem step_phantom {op : Op} {i : ℕ} (hi : 2 ≤ i) (h : (s.disk i).Phantom)
    (ht : step conformant s op = .ok t) : (t.disk i).Phantom := by
  have hne : ∀ drive : Fin 2, i ≠ drive := fun drive => by omega
  have h0 : i ≠ 0 := hne 0
  have h1 : i ≠ 1 := hne 1
  cases op with
  | ioRead ea floatingBus =>
    cases hr : disk6IoRead conformant floatingBus s ea with
    | error f => rw [step, hr] at ht; cases ht
    | ok r =>
      rw [step, hr] at ht
      cases ht
      obtain ⟨u, hu, hr⟩ := bind_eq_ok.mp hr
      cases hr
      exact switch_phantom (fun v => (diskReadLatch_frame v).1) h hu
  | ioWrite ea b =>
    obtain ⟨u, hu, ht⟩ := bind_eq_ok.mp ht
    have hphantom := switch_phantom (fun _ => rfl) h hu
    cases ht
    split <;> exact hphantom
  | init =>
    obtain ⟨u, hu, ht⟩ := bind_eq_ok.mp ht
    obtain ⟨v, hv, ht⟩ := bind_eq_ok.mp ht
    cases ht
    show (((v.setDisk 0 _).setDisk 1 _).disk i).Phantom
    rw [Disk6.setDisk_ne _ h1, Disk6.setDisk_ne _ h0, disk6Flush_others h1 hv,
      disk6Flush_others h0 hu]
    exact h
  | insert drive name readonly host =>
    obtain ⟨r, -, ht⟩ := bind_eq_ok.mp ht
    cases ht
    rw [Disk6.setDisk_ne _ (hne drive)]
    exact h
  | eject drive host =>
    obtain ⟨r, -, ht⟩ := bind_eq_ok.mp ht
    cases ht
    rw [Disk6.setDisk_ne _ (hne drive)]
    exact h
  | flush drive =>
    rw [disk6Flush_others (hne drive) ht]
    exact h
  | saveState helper =>
    cases ha : disk6SaveState s helper with
    | error f => rw [step, ha] at ht; cases ht
    | ok a =>
      rw [step, ha] at ht
      cases ht
      unfold disk6SaveState at ha
      simp only at ha
      split at ha
      · obtain ⟨b, hb, ha⟩ := bind_eq_ok.mp ha
        obtain ⟨d, -, hbs⟩ := saveDrive_ok hb
        split at ha
        · obtain ⟨d', -, has⟩ := saveDrive_ok ha
          rw [has, hbs, Disk6.setDisk_ne _ h1, Disk6.setDisk_ne _ h0]
          exact h
        · cases ha
          rw [hbs, Disk6.setDisk_ne _ h0]
          exact h
      · cases ha
        exact h

end Phantoms

section Loads
variable (conformant : Bool)

theorem disk6Eject_others {host : EjectHost} {i j : ℕ} {s t : Disk6} (hij : i ≠ j)
    (ht : disk6Eject host j s = .ok t) : t.disk i = s.disk i := by
  obtain ⟨r, -, ht⟩ := bind_eq_ok.mp ht
  cases ht
  exact Disk6.setDisk_ne _ hij

theorem keeps_loadDrive (host : LoadHost) {i j : ℕ} (hij : i ≠ j) :
    Keeps (fun s : Disk6 => s.disk i) (loadDrive conformant host j) := by
  refine keeps_read fun state => keeps_read fun serialized => keeps_all ?_
  simp only [List.forall_mem_cons]
  refine ⟨keeps_effect fun s t ht => disk6Eject_others hij ht, ?_, ?_, ?_, ?_, ?_,
    List.forall_mem_nil _⟩
  · unfold loadImage
    split
    · refine keeps_field fun bytes s t ht => ?_
      obtain ⟨r, -, ht⟩ := bind_eq_ok.mp ht
      cases ht
      exact Disk6.setDisk_ne _ hij
    · exact keeps_step fun _ => rfl
  · refine keeps_field fun bytes s t ht => ?_
    cases ht
    rfl
  · refine keeps_field fun bytes s t ht => ?_
    cases ht
    rfl
  · refine keeps_field fun bytes s t ht => ?_
    cases ht
    exact Disk6.setDisk_ne _ hij
  · refine keeps_field fun bytes s t ht => ?_
    cases ht
    exact Disk6.setDisk_ne _ hij

theorem keeps_disk6LoadState (hosts : Fin 2 → LoadHost) {i : ℕ} (hi : 2 ≤ i) :
    Keeps (fun s : Disk6 => s.disk i) (disk6LoadState conformant hosts) := by
  have h0 : i ≠ 0 := by omega
  have h1 : i ≠ 1 := by omega
  refine Keeps.andThen ?_ ?_
  · refine keeps_all ?_
    simp only [List.forall_mem_cons]
    refine ⟨?_, ?_, ?_, ?_, List.forall_mem_nil _⟩
    all_goals
      refine keeps_field fun bytes s t ht => ?_
      cases ht
      rfl
  · intro s input t rest loaded h
    have hdrives : Keeps (fun s : Disk6 => s.disk i)
        (.all [loadDrive conformant (hosts 0) 0, loadDrive conformant (hosts 1) 1]) := by
      refine keeps_all ?_
      simp only [List.forall_mem_cons]
      exact ⟨keeps_loadDrive conformant _ h0, keeps_loadDrive conformant _ h1,
        List.forall_mem_nil _⟩
    unfold loadDrives at h
    obtain ⟨⟨u, left, got⟩, hu, h⟩ := bind_eq_ok.mp h
    have hkeep := hdrives s input u left got hu
    split at h
    · cases h
      exact hkeep
    · obtain ⟨v, hv, h⟩ := bind_eq_ok.mp h
      obtain ⟨w, hw, h⟩ := bind_eq_ok.mp h
      cases h
      exact (disk6Eject_others h1 hw).trans ((disk6Eject_others h0 hv).trans hkeep)

theorem calls_phantom {calls : List Call} {s : Disk6}
    (h : runM (call conformant) initDisk6 calls = .ok s) (i : ℕ) (hi : 2 ≤ i) :
    (s.disk i).Phantom := by
  refine runM_invariant (fun s : Disk6 => (s.disk i).Phantom) ?_ ?_ h
  · intro u c t hu ht
    cases c with
    | op op => exact step_phantom hi hu ht
    | loadState hosts input =>
      cases hl : disk6LoadState conformant hosts u input with
      | error f => rw [call, hl] at ht; cases ht
      | ok l =>
        obtain ⟨v, rest, loaded⟩ := l
        rw [call, hl] at ht
        cases ht
        show (v.disk i).Phantom
        rw [show v.disk i = u.disk i from
          keeps_disk6LoadState conformant hosts hi u input v rest loaded hl]
        exact hu
  · exact ⟨Int.negSucc_lt_zero 0, rfl, rfl, Nat.zero_le _⟩

end Loads

/-! ## Drives that were loaded -/

/-- The width of the tracks of an image, by its name. -/
def imageWidth (conformant : Bool) (name : List UInt8) : ℕ :=
  if isNib name then nibTrackSize else trackWidth conformant

section Drives
variable {conformant : Bool} {host : InsertHost} {d f : Diskette} {r : DriveRecord}

/-- The rotation of a track that will be loaded first does not matter. -/
theorem Diskette.HeadOk.rotated (h : d.HeadOk conformant) (hv : d.trackValid = false) (n : ℕ) :
    ({ d with runByte := n } : Diskette).HeadOk conformant := by
  refine ⟨h.phase_le, fun hv' => ?_, h.dirty_valid, h.dirty_writable, h.absent, fun hfd => ?_⟩
  · exact absurd (hv'.symm.trans hv) (by decide)
  · obtain ⟨hnamed, hraw, hnib, hdsk⟩ := h.loaded hfd
    exact ⟨hnamed, hraw, hnib, hdsk⟩

theorem DriveRecord.Image.headOk (h : r.Image conformant host d f) (hp : r.phase.toNat ≤ 69) :
    (r.restored f).HeadOk conformant := by
  have hempty : ∀ o : Diskette, (r.restored o.empty).HeadOk conformant := fun o =>
    (Diskette.empty_headOk { o with phase := r.phase.toNat } hp).rotated rfl r.runByte
  cases h with
  | none => exact hempty d
  | inserted _ f err hi =>
    cases hi with
    | refused o => exact hempty o
    | opened fd rb b f ptr w _ _ _ hhead => exact (hhead _ hp).rotated rfl r.runByte

/-- The rotation is inside the track exactly when no image was opened or the record says so. -/
theorem DriveRecord.Image.rotation (h : r.Image conformant host d f) :
    ((r.restored f).fd < 0 ∨ (r.restored f).runByte < (r.restored f).trackWidth) ↔
      (r.name ≠ [] → host.Opens d (cString r.name) (r.isProtected != 0) →
        r.runByte < imageWidth conformant (cString r.name)) := by
  have hneg : (-1 : ℤ) < 0 := by decide
  cases h with
  | none hname => exact iff_of_true (.inl hneg) fun hne => absurd hname hne
  | inserted hne f err hi =>
    cases hi with
    | refused o err hclosed =>
      exact iff_of_true (.inl hneg) fun _ hopens => absurd hopens hclosed
    | opened fd rb b f ptr w hopens hopen hfd hhead =>
      have hl := (hhead 0 (Nat.zero_le _)).loaded hfd
      have hw : w = imageWidth conformant (cString r.name) := by
        unfold imageWidth
        cases hn : isNib (cString r.name) with
        | true => exact (hl.nib hn).2.1
        | false => exact (hl.dsk hn).2.1
      have hpos : ¬ (r.restored { d.empty.named (cString r.name) (r.isProtected != 0) with
          fd := fd, rawBuffer := rb, file := f
          rawImageData := if r.isProtected != 0 then .rawBuffer else .mapping
          nibImageData := ptr, nibBuffer := b, trackWidth := w }).fd < 0 := Int.not_lt.mpr hfd
      rw [← hw]
      exact ⟨fun h _ _ => h.resolve_left hpos, fun h => .inr (h hne hopens)⟩

end Drives

/-! ## Files -/

/-- What a file must say for the head invariant to hold once it is loaded in the state `s`: an
existing drive, heads over the disk, and for each image that can be opened a place inside its
tracks. -/
structure StateFile.Sound (conformant : Bool) (hosts : Fin 2 → LoadHost) (s : Disk6)
    (file : StateFile) : Prop where
  drive_le : file.drive ≤ 1
  phase_le : ∀ i, (file.drives i).phase ≤ 69
  runByte_lt : ∀ i e err, ejectDiskette (hosts i).eject (s.disk i) = .ok (e, err) →
    (file.drives i).name ≠ [] →
    (hosts i).insert.Opens e (cString (file.drives i).name) ((file.drives i).isProtected != 0) →
    (file.drives i).runByte < imageWidth conformant (cString (file.drives i).name)

/-- A state whose drive and phases were in range is safe, wherever the rotation stands. -/
theorem Loaded.controllerOk {conformant : Bool} {hosts : Fin 2 → LoadHost} {s t : Disk6}
    {file : StateFile} (hl : Loaded conformant hosts s file t)
    (hs : ∀ i, 2 ≤ i → (s.disk i).Phantom) (hdrive : file.drive ≤ 1)
    (hphase : ∀ i, (file.drives i).phase ≤ 69) : ControllerOk conformant t := by
  have hloaded : ∀ i : Fin 2, (t.disk i).HeadOk conformant := by
    intro i
    obtain ⟨e, err, f, -, himage, hdisk⟩ := hl.drives i
    rw [hdisk]
    exact himage.headOk (UInt8.le_iff_toNat_le.mp (hphase i))
  refine ⟨?_, fun i => ?_⟩
  · rw [hl.drive]
    exact Nat.lt_succ_of_le (UInt8.le_iff_toNat_le.mp hdrive)
  · by_cases hi : i < 2
    · exact hloaded ⟨i, hi⟩
    · have hge : 2 ≤ i := by omega
      rw [hl.others i hge]
      exact (hs i hge).headOk

/-- **Loading whatever file** in whatever state: an accepted file begins with one of the format, and
the state it leaves meets the head invariant, and stays inside the drives and the nibble images from
then on, exactly when the file is sound. -/
theorem hostile_disk_state (conformant : Bool) {calls : List Call} {s t : Disk6}
    (hs : runM (call conformant) initDisk6 calls = .ok s) (hosts : Fin 2 → LoadHost)
    {input rest : List UInt8}
    (hload : disk6LoadState conformant hosts s input = .ok (t, rest, true)) :
    (∃ file : StateFile, input = file.bytes ++ rest) ∧
      ∀ file : StateFile, input = file.bytes ++ rest →
        (HeadInvariant t ∧ StaysInside conformant t ↔ file.Sound conformant hosts s) := by
  constructor
  · obtain ⟨bytes, ⟨file, rfl⟩, heq⟩ :=
      accepts_disk6LoadState conformant hosts s input t rest hload
    exact ⟨file, heq⟩
  · rintro file rfl
    obtain ⟨i, f, -, hstop⟩ | ⟨t', hreads, hl⟩ := reads_disk6LoadState conformant hosts s file
    · rw [hstop rest] at hload
      cases hload
    · rw [hreads rest] at hload
      cases hload
      constructor
      · rintro ⟨⟨hdrive, hheads⟩, -⟩
        rw [hl.drive] at hdrive
        refine ⟨UInt8.le_iff_toNat_le.mpr (Nat.le_of_lt_succ hdrive), fun i => ?_, ?_⟩
        · obtain ⟨e, err, f, -, -, hdisk⟩ := hl.drives i
          have hphase := (hheads i).1
          rw [hdisk] at hphase
          exact UInt8.le_iff_toNat_le.mpr hphase
        · intro i e err heject
          obtain ⟨e', err', f, heject', himage, hdisk⟩ := hl.drives i
          rw [heject'] at heject
          cases heject
          have hrotation := (hheads i).2
          rw [hdisk] at hrotation
          exact himage.rotation.mp hrotation
      · intro hsound
        have hok := hl.controllerOk (calls_phantom conformant hs) hsound.drive_le hsound.phase_le
        refine ⟨⟨hok.drive_lt, fun i => ⟨(hok.drives i).phase_le, ?_⟩⟩, hok.staysInside⟩
        obtain ⟨e, err, f, heject, himage, hdisk⟩ := hl.drives i
        rw [hdisk]
        have hrun := hsound.runByte_lt i e.empty err heject
        exact himage.rotation.mpr hrun

/-- A file without images that selects the given drive. -/
def driveFile (drive : UInt8) : StateFile where
  motorOff := 0
  drive := drive
  ddrw := 0
  diskByte := 0
  drives := fun _ => blankRecord

theorem driveFile_accepted (drive : UInt8) :
    ∃ t, disk6LoadState true (fun _ => closedHost) initDisk6 (driveFile drive).bytes =
      .ok (t, [], true) ∧ t.drive = drive.toNat := by
  obtain ⟨i, f, heject, -⟩ | ⟨t, hreads, hl⟩ :=
    reads_disk6LoadState true (fun _ => closedHost) initDisk6 (driveFile drive)
  · cases heject
  · have hload := hreads []
    rw [List.append_nil] at hload
    exact ⟨t, hload, hl.drive⟩

/-- An image is inserted, and the head is over its third track. -/
theorem hostile_disk_state_image :
    ∃ t, disk6LoadState true (fun _ => openHost) initDisk6 imageFile.bytes = .ok (t, [], true) ∧
      HeadInvariant t ∧ StaysInside true t ∧ (t.disk 0).fileName = some dskName ∧
      (t.disk 0).phase = 4 ∧ (t.disk 0).runByte = 3 := by
  have hrun : runM (call true) initDisk6 [] = .ok initDisk6 := rfl
  obtain ⟨i, f, heject, -⟩ | ⟨t, hreads, hl⟩ :=
    reads_disk6LoadState true (fun _ => openHost) initDisk6 imageFile
  · cases heject
  have hload := hreads []
  have hsound : imageFile.Sound true (fun _ => openHost) initDisk6 := by
    refine ⟨by decide, Fin.forall_fin_two.mpr ⟨by decide, by decide⟩, ?_⟩
    refine Fin.forall_fin_two.mpr ⟨?_, ?_⟩
    · intro _ _ _ _ _
      decide
    · intro _ _ _ hname _
      exact absurd rfl hname
  obtain ⟨hinvariant, hinside⟩ :=
    ((hostile_disk_state true hrun (fun _ => openHost) hload).2 imageFile rfl).mpr hsound
  rw [List.append_nil] at hload
  obtain ⟨e, err, f, -, himage, hdisk⟩ := hl.drives 0
  have hname : f.fileName = some dskName := by
    cases himage with
    | none hempty => cases hempty
    | inserted _ f err hi =>
      cases hi with
      | refused o err hclosed => exact absurd (blankHost_opens _ _ _) hclosed
      | opened => rfl
  refine ⟨t, hload, hinvariant, hinside, ?_, ?_, ?_⟩
  · rw [show (0 : ℕ) = ((0 : Fin 2) : ℕ) from rfl, hdisk]
    exact hname
  · rw [show (0 : ℕ) = ((0 : Fin 2) : ℕ) from rfl, hdisk]
    rfl
  · rw [show (0 : ℕ) = ((0 : Fin 2) : ℕ) from rfl, hdisk]
    rfl

theorem drive2_accepted :
    ∃ t, disk6LoadState true (fun _ => closedHost) initDisk6 (driveFile 2).bytes =
        .ok (t, [], true) ∧
      ¬ HeadInvariant t := by
  obtain ⟨t, ht, hdrive⟩ := driveFile_accepted 2
  refine ⟨t, ht, fun h => ?_⟩
  have hlt := h.1
  rw [hdrive] at hlt
  exact absurd hlt (by decide)

end Apple2ix.Disk
