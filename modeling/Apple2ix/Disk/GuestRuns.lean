import Apple2ix.Disk.ControllerFaults

/-! Following a guest program on a writable DSK image in drive 0: what each access to C0EC does to
the nibble buffer and the head, without running the codec. -/
namespace Apple2ix.Disk
open Runs
set_option autoImplicit false

section Ensured
variable {conformant : Bool} {d : Diskette}

/-- The nibbles and the place of the head after a load are determined. -/
theorem Ensured.unique {b b' : Buf} {r r' : ℕ} (he : Ensured conformant d b r)
    (he' : Ensured conformant d b' r') : b = b' ∧ r = r' := by
  cases he with
  | valid hv =>
    cases he' with
    | valid => exact ⟨rfl, rfl⟩
    | nib hv' => rw [hv] at hv'; cases hv'
    | dsk hv' => rw [hv] at hv'; cases hv'
  | nib hv hn =>
    cases he' with
    | valid hv' => rw [hv] at hv'; cases hv'
    | nib => exact ⟨rfl, rfl⟩
    | dsk _ hn' => rw [hn] at hn'; cases hn'
  | dsk hv hn raw po nibs hraw hskew hnibs =>
    cases he' with
    | valid hv' => rw [hv] at hv'; cases hv'
    | nib _ hn' => rw [hn] at hn'; cases hn'
    | dsk _ _ raw' po' nibs' hraw' hskew' hnibs' =>
      rw [hraw] at hraw'
      cases hraw'
      rw [hskew, Option.some.injEq] at hskew'
      rw [← hskew', hnibs] at hnibs'
      cases hnibs'
      exact ⟨rfl, rfl⟩

/-- The diskette `d` while the guest works on a track of it. -/
def Diskette.spun (d : Diskette) (b : Buf) (r : ℕ) (dirty : Bool) : Diskette :=
  { d with nibBuffer := b, trackValid := true, trackDirty := dirty, runByte := r }

@[simp] theorem spun_spun (b b' : Buf) (r r' : ℕ) (dirty dirty' : Bool) :
    (d.spun b r dirty).spun b' r' dirty' = d.spun b' r' dirty' := rfl

@[simp] theorem spun_track (b : Buf) (r : ℕ) (dirty : Bool) :
    (d.spun b r dirty).track = d.track := rfl

@[simp] theorem spun_nextByte (b : Buf) (r q : ℕ) (dirty : Bool) :
    (d.spun b r dirty).nextByte q = d.nextByte q := rfl

theorem ensured_spun (b : Buf) (r : ℕ) (dirty : Bool) :
    Ensured conformant (d.spun b r dirty) b r := Ensured.valid rfl

theorem Turned.eq_passed {d' : Diskette} {b : Buf} {r : ℕ} (hfd : 0 ≤ d.fd)
    (he : Ensured conformant d b r) (ht : Turned conformant d none d') :
    d' = d.spun b (d.nextByte r) d.trackDirty := by
  cases ht with
  | absent hneg => exact absurd hfd (Int.not_le.mpr hneg)
  | passed b' r' _ he' =>
    obtain ⟨rfl, rfl⟩ := he.unique he'
    rfl

theorem Turned.eq_stored {d' : Diskette} {b : Buf} {r : ℕ} {x : UInt8} (hn : d.nibblized = false)
    (he : Ensured conformant d b r) (ht : Turned conformant d (some x) d') :
    d' = d.spun (Function.update b (nibTrackSize * d.track + r) x) (d.nextByte r) true := by
  cases ht with
  | storedNib _ b' r' f _ he' _ hn' => rw [hn] at hn'; cases hn'
  | storedDsk _ b' r' _ he' =>
    obtain ⟨rfl, rfl⟩ := he.unique he'
    rfl

end Ensured

/-! ## Accesses to C0EC -/

/-- Drive 0 is selected and holds `e`, with the controller in the given mode. -/
structure Session (conformant : Bool) (s : Disk6) (ddrw : ℕ) (e : Diskette) : Prop where
  ok : ControllerOk conformant s
  drive : s.drive = 0
  mode : s.ddrw = ddrw
  steppers : s.stepperPhases = 0
  disk : s.disk 0 = e

section Session
variable {conformant : Bool} {s : Disk6} {e : Diskette} {b : Buf} {r : ℕ}

theorem Session.written_none (h : Session conformant s 0 e) : s.written = none :=
  if_neg fun hc => hc.1 h.mode

theorem Session.written_some (h : Session conformant s 1 e) (hfd : 0 ≤ e.fd)
    (hw : e.isProtected = false) (hx : (0x96 : UInt8) ≤ s.diskByte) :
    s.written = some s.diskByte := by
  refine if_pos ⟨by rw [h.mode]; decide, ?_, ?_, hx⟩
  · rw [h.drive, h.disk]
    exact hfd
  · rw [h.drive, h.disk]
    exact hw

/-- The session after the operation `op`, which changes drive 0 only. -/
theorem Session.next {t : Disk6} {ddrw : ℕ} {op : Op} (h : Session conformant s ddrw e)
    (ddrw' : ℕ) (hs : step conformant s op = .ok t) (hdrive : t.drive = s.drive)
    (hmode : t.ddrw = ddrw')
    (hsteppers : t.stepperPhases = s.stepperPhases) :
    Session conformant t ddrw' (t.disk 0) := by
  obtain ⟨hlt, hall⟩ := step_drives h.ok hs
  exact ⟨⟨hlt, fun i => (hall i).headOk h.ok⟩, hdrive.trans h.drive, hmode,
    hsteppers.trans h.steppers, rfl⟩

/-- A read at C0EC moves the head on. -/
theorem Session.read (h : Session conformant s 0 e) (hfd : 0 ≤ e.fd)
    (he : Ensured conformant e b r) :
    ∃ t, step conformant s (.ioRead 0xC0EC 0) = .ok t ∧
      Session conformant t 0 (e.spun b (e.nextByte r) e.trackDirty) ∧ t.disk 1 = s.disk 1 := by
  obtain ⟨d', m, x, hrw, ht⟩ := diskReadWriteByte_ok (h.ok.drives s.drive)
  have hs : step conformant s (.ioRead 0xC0EC 0) =
      .ok { s.setDisk s.drive d' with motorOff := m, diskByte := x } := by
    have hsw : disk6Switch conformant diskReadLatch s 0xC0EC = diskReadWriteByte conformant s := rfl
    rw [step, disk6IoRead, hsw, hrw]
    rfl
  rw [h.written_none, h.drive, h.disk] at ht
  have hd' := ht.eq_passed hfd he
  have hnext := h.next 0 hs rfl h.mode rfl
  have hdisk :
      ({ s.setDisk s.drive d' with motorOff := m, diskByte := x } : Disk6).disk 0 = d' := by
    rw [h.drive]
    exact Disk6.setDisk_self (s := s) 0 d'
  have hother : ({ s.setDisk s.drive d' with motorOff := m, diskByte := x } : Disk6).disk 1 =
      s.disk 1 := by
    rw [h.drive]
    exact Disk6.setDisk_ne (s := s) d' Nat.one_ne_zero
  rw [hdisk] at hnext
  rw [← hd']
  exact ⟨_, hs, hnext, hother⟩

/-- `n + 1` reads move it on by as many cells. -/
theorem Session.reads (h : Session conformant s 0 e) (hfd : 0 ≤ e.fd)
    (he : Ensured conformant e b r) (n : ℕ) (hn : r + n + 1 < e.trackWidth) :
    ∃ t, runM (step conformant) s (List.replicate (n + 1) (.ioRead 0xC0EC 0)) = .ok t ∧
      Session conformant t 0 (e.spun b (r + n + 1) e.trackDirty) ∧ t.disk 1 = s.disk 1 := by
  induction n generalizing s e r with
  | zero =>
    obtain ⟨t, ht, hsession, hother⟩ := h.read hfd he
    rw [show e.nextByte r = r + 1 from if_neg (Nat.not_le.mpr hn)] at hsession
    exact ⟨t, runM_cons_ok [] ht, hsession, hother⟩
  | succ n ih =>
    obtain ⟨t, ht, hsession, hother⟩ := h.read hfd he
    rw [show e.nextByte r = r + 1 from if_neg (by omega)] at hsession
    have hmore : r + 1 + n + 1 < (e.spun b (r + 1) e.trackDirty).trackWidth := by
      show r + 1 + n + 1 < e.trackWidth
      omega
    obtain ⟨u, hu, hlast, hrest⟩ := ih hsession hfd (ensured_spun b (r + 1) e.trackDirty) hmore
    rw [show r + 1 + n + 1 = r + (n + 1) + 1 by omega] at hlast
    exact ⟨u, (runM_cons_ok _ ht).trans hu, hlast, hrest.trans hother⟩

/-- A write at C0EC in write mode stores the latch, and then loads it. -/
theorem Session.write (h : Session conformant s 1 e) (hfd : 0 ≤ e.fd) (hw : e.isProtected = false)
    (hn : e.nibblized = false) (he : Ensured conformant e b r)
    (hx : (0x96 : UInt8) ≤ s.diskByte) (y : UInt8) :
    ∃ t, step conformant s (.ioWrite 0xC0EC y) = .ok t ∧ t.diskByte = y ∧
      Session conformant t 1 (e.spun (Function.update b (nibTrackSize * e.track + r) s.diskByte)
        (e.nextByte r) true) := by
  obtain ⟨d', m, x, hrw, ht⟩ := diskReadWriteByte_ok (h.ok.drives s.drive)
  have hmode : s.ddrw ≠ 0 := by rw [h.mode]; decide
  have hs : step conformant s (.ioWrite 0xC0EC y) =
      .ok { s.setDisk s.drive d' with motorOff := m, diskByte := y } := by
    have hsw : disk6Switch conformant id s 0xC0EC = diskReadWriteByte conformant s := rfl
    rw [step, disk6IoWrite, hsw, hrw, ok_bind]
    exact congrArg Except.ok (if_pos hmode)
  rw [h.written_some hfd hw hx, h.drive, h.disk] at ht
  have hd' := ht.eq_stored hn he
  refine ⟨_, hs, rfl, ?_⟩
  have hnext := h.next 1 hs rfl h.mode rfl
  have hdisk :
      ({ s.setDisk s.drive d' with motorOff := m, diskByte := y } : Disk6).disk 0 = d' := by
    rw [h.drive]
    exact Disk6.setDisk_self (s := s) 0 d'
  rw [hdisk] at hnext
  rw [← hd']
  exact hnext

/-- A write at C0EF selects write mode and loads the latch. -/
theorem Session.writeMode (h : Session conformant s 0 e) (y : UInt8) :
    ∃ t, step conformant s (.ioWrite 0xC0EF y) = .ok t ∧ t.diskByte = y ∧
      Session conformant t 1 e := by
  have hs : step conformant s (.ioWrite 0xC0EF y) = .ok { s with ddrw := 1, diskByte := y } := rfl
  refine ⟨_, hs, rfl, ?_⟩
  have hnext := h.next 1 hs rfl rfl rfl
  have hdisk : ({ s with ddrw := 1, diskByte := y } : Disk6).disk 0 = e := h.disk
  rw [hdisk] at hnext
  exact hnext

end Session

/-! ## A blank image in drive 0 -/

/-- A host whose `dup` gives `fd` for a blank DSK image. -/
def blankHost (fd : ℕ) : InsertHost where
  zlibDeflateBuffer _ _ dst := { err := none, dst := dst, dstSize := -1 }
  ftruncateOk := true
  zlibInflateToBuffer _ dst := (none, dst)
  dup := some fd
  zlibInflateInplace _ := (none, { bytes := fun _ => 0, length := dskSize })
  mmapOk := true

/-- `a.dsk`. -/
def dskName : List UInt8 := [0x61, 0x2E, 0x64, 0x73, 0x6B]

/-- The drive that holds the blank image, with the nibbles of all tracks in `b`. -/
def blankDisk (conformant : Bool) (fd : ℕ) (b : Buf) : Diskette :=
  { (initDisk6.disk 0).empty.named dskName false with
    fd := fd, file := { bytes := fun _ => 0, length := dskSize }, rawImageData := .mapping,
    nibImageData := .nibBuffer, nibBuffer := b, trackWidth := trackWidth conformant }

@[simp] theorem blankDisk_track (conformant : Bool) (fd : ℕ) (b : Buf) :
    (blankDisk conformant fd b).track = 0 := Nat.zero_shiftRight 1

theorem blankDisk_nextByte (conformant : Bool) (fd : ℕ) (b : Buf) (r : ℕ)
    (hr : r + 1 < trackWidth conformant) : (blankDisk conformant fd b).nextByte r = r + 1 :=
  if_neg (Nat.not_le.mpr hr)

theorem session_insert (conformant : Bool) (fd : ℕ) :
    ∃ b t, step conformant initDisk6 (.insert 0 dskName false (blankHost fd)) = .ok t ∧
      Session conformant t 0 (blankDisk conformant fd b) := by
  obtain ⟨p, b, w, hinsert, hhead⟩ := insertImage_mapped conformant
    (d := initDisk6.disk 0) (blankHost fd) (Nat.zero_le _) dskName rfl rfl rfl
  obtain ⟨hptr, hwidth, -, -⟩ := (hhead.loaded (Int.natCast_nonneg fd)).dsk rfl
  simp only at hptr hwidth
  subst hptr hwidth
  have heject : ejectDiskette (blankHost fd).toEjectHost (initDisk6.disk 0) =
      .ok ((initDisk6.disk 0).empty, none) := ejectDiskette_skip _ fun hc => absurd hc.1 (by decide)
  have hs : step conformant initDisk6 (.insert 0 dskName false (blankHost fd)) =
      .ok (initDisk6.setDisk 0 (blankDisk conformant fd b)) := by
    show (insertDiskette conformant (blankHost fd) (initDisk6.disk 0) dskName false >>= _) = _
    rw [insertDiskette, heject, ok_bind, hinsert]
    rfl
  refine ⟨b, _, hs, ?_⟩
  obtain ⟨hlt, hall⟩ := step_drives (initDisk6_ok conformant) hs
  exact ⟨⟨hlt, fun i => (hall i).headOk (initDisk6_ok conformant)⟩, rfl, rfl, rfl,
    Disk6.setDisk_self (s := initDisk6) 0 _⟩

/-- The first nibbles of the blank image: track 0 is loaded when it is first met. -/
theorem ensured_blank (conformant : Bool) (fd : ℕ) (b : Buf) :
    ∃ nibs, nibblizeTrack conformant (skewTable6 false) 0 (fun _ => 0) = .ok nibs ∧
      Ensured conformant (blankDisk conformant fd b) (storeNibbles b 0 nibs) 0 := by
  obtain ⟨nibs, hnibs⟩ : ∃ nibs,
      nibblizeTrack conformant (skewTable6 false) 0 (fun _ => 0) = .ok nibs :=
    ⟨_, nibblizeTrack_eq conformant (skewTable6 false) 0 _⟩
  have htrack := blankDisk_track conformant fd b
  have hzero : ∀ off, Buf.from (fun _ => 0) off = fun _ => 0 := fun _ => rfl
  have he := Ensured.dsk (d := blankDisk conformant fd b) rfl rfl
    (fun _ => 0) false nibs rfl rfl (by rw [htrack, hzero]; exact hnibs)
  rw [htrack, Nat.mul_zero] at he
  exact ⟨nibs, hnibs, he⟩

end Apple2ix.Disk
