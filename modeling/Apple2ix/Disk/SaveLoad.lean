import Mathlib.Data.List.TakeWhile
import Apple2ix.Disk.GuestRuns
import Apple2ix.Disk.SavedFields

/-! Saving the state of the controller and loading it again, in the same program or in another one:
everything comes back but the stepper magnets 2 and 3. -/
namespace Apple2ix.Disk
open Runs Loader
set_option autoImplicit false

/-! ## What is asked of a load -/

/-- The state `t` has what is to be restored of the state `s`. -/
structure Restores (s t : Disk6) : Prop where
  motorOff : t.motorOff = s.motorOff
  drive : t.drive = s.drive
  ddrw : t.ddrw = s.ddrw
  diskByte : t.diskByte = s.diskByte
  magnets : ∀ k < 4, t.stepperPhases.getLsbD k = s.stepperPhases.getLsbD k
  isProtected : ∀ i : Fin 2, (t.disk i).isProtected = (s.disk i).isProtected
  fileName : ∀ i : Fin 2, (t.disk i).fileName = (s.disk i).fileName
  phase : ∀ i : Fin 2, (t.disk i).phase = (s.disk i).phase
  runByte : ∀ i : Fin 2, (t.disk i).runByte = (s.disk i).runByte

/-- The state `t` has of the state `s` what comes back whatever the magnets were: the two high ones
are off afterwards. An image comes back when its name is a C string that is not empty. -/
structure Resumes (s t : Disk6) : Prop where
  motorOff : t.motorOff = s.motorOff
  drive : t.drive = s.drive
  ddrw : t.ddrw = s.ddrw
  diskByte : t.diskByte = s.diskByte
  magnets : ∀ k < 4, t.stepperPhases.getLsbD k = (decide (k < 2) && s.stepperPhases.getLsbD k)
  phase : ∀ i : Fin 2, (t.disk i).phase = (s.disk i).phase
  runByte : ∀ i : Fin 2, (t.disk i).runByte = (s.disk i).runByte
  image : ∀ i : Fin 2, (∀ name, (s.disk i).fileName = some name → name ≠ [] ∧ 0 ∉ name) →
    (t.disk i).isProtected = (s.disk i).isProtected ∧ (t.disk i).fileName = (s.disk i).fileName

/-- The magnets 2 and 3 are off. -/
def HighMagnetsOff (s : Disk6) : Prop :=
  s.stepperPhases.getLsbD 2 = false ∧ s.stepperPhases.getLsbD 3 = false

/-- The file names are C strings, and none of them is empty. -/
def NamesPlain (s : Disk6) : Prop :=
  ∀ (i : Fin 2) (name : List UInt8), (s.disk i).fileName = some name → name ≠ [] ∧ 0 ∉ name

/-- The images of the drives of `s` can be opened again, whatever the drives hold by then. -/
def Readable (hosts : Fin 2 → LoadHost) (s : Disk6) : Prop :=
  ∀ (i : Fin 2) (name : List UInt8), (s.disk i).fileName = some name →
    ∀ d, (hosts i).insert.Opens d name (s.disk i).isProtected

/-! ## Fields -/

theorem magnet_steppers {r : DriveRecord} {stepperPhases : BitVec 32}
    (h : r.stepperPhases = UInt8.ofNat stepperPhases.toNat) {k : ℕ} (hk : k < 4) :
    r.steppers.getLsbD k = (decide (k < 2) && stepperPhases.getLsbD k) := by
  have hmask : Nat.testBit 3 k = decide (k < 2) := by
    have hall : ∀ k < 4, Nat.testBit 3 k = decide (k < 2) := by decide
    exact hall k hk
  unfold DriveRecord.steppers
  rw [h, BitVec.getLsbD_ofNat, UInt8.toNat_ofNat', Nat.testBit_and, Nat.testBit_mod_two_pow, hmask,
    BitVec.testBit_toNat]
  simp only [show k < 8 by omega, show k < 32 by omega, decide_true, Bool.true_and, Bool.and_comm]

theorem runByte_saved {r : DriveRecord} {stepperPhases : BitVec 32} {d : Diskette}
    (h : r.Saves stepperPhases d) (hlt : d.runByte < 2 ^ 16) : r.runByte = d.runByte := by
  have hbyte : ∀ n : ℕ, n &&& 0xFF = n % 256 := fun n => Nat.and_two_pow_sub_one_eq_mod n 8
  have hhigh : (d.runByte &&& 0xFF00) >>> 8 = d.runByte / 2 ^ 8 % 256 := byte_of_word d.runByte 8
  unfold DriveRecord.runByte
  rw [h.runByteHigh, h.runByteLow, hhigh, hbyte, UInt8.toNat_ofNat', UInt8.toNat_ofNat',
    ← Nat.shiftLeft_add_eq_or_of_lt (by omega), Nat.shiftLeft_eq]
  omega

theorem cString_plain {name : List UInt8} (h : 0 ∉ name) : cString name = name := by
  refine List.takeWhile_eq_self_iff.mpr fun b hb => ?_
  rw [bne_iff_ne]
  rintro rfl
  exact h hb

theorem zero_not_mem_cString (name : List UInt8) : 0 ∉ cString name := by
  intro h
  have := List.mem_takeWhile_imp h
  simp at this

/-- The name of the image that a load leaves in a drive. -/
theorem DriveRecord.Image.fileName {conformant : Bool} {host : InsertHost} {d f : Diskette}
    {r : DriveRecord} (h : r.Image conformant host d f) :
    f.fileName = Option.none ∨ r.name ≠ [] ∧ f.fileName = some (cString r.name) := by
  cases h with
  | none => exact .inl rfl
  | inserted hname f err hi =>
    cases hi with
    | refused => exact .inl rfl
    | opened => exact .inr ⟨hname, rfl⟩

section Drive
variable {conformant : Bool} {host : InsertHost} {d e f : Diskette} {r : DriveRecord}
  {stepperPhases : BitVec 32}

/-- Only a plain name comes back. -/
theorem plain_of_fileName (himage : r.Image conformant host e f) (hsaves : r.Saves stepperPhases d)
    (hback : f.fileName = d.fileName) (name : List UInt8) (hname : d.fileName = some name) :
    name ≠ [] ∧ 0 ∉ name := by
  have hr : r.name = name := by rw [hsaves.name, hname, Option.getD_some]
  rw [hname] at hback
  obtain hnone | ⟨hne, hsome⟩ := himage.fileName
  · rw [hnone] at hback
    cases hback
  · rw [hsome, Option.some.injEq] at hback
    rw [hr] at hne hback
    refine ⟨hne, ?_⟩
    rw [← hback]
    exact zero_not_mem_cString name

/-- An image with a plain name that can be opened comes back with its write-protect flag. -/
theorem image_restored (hfits : d.Fits) (himage : r.Image conformant host e f)
    (hsaves : r.Saves stepperPhases d)
    (hplain : ∀ name, d.fileName = some name → name ≠ [] ∧ 0 ∉ name)
    (hopens : ∀ name, d.fileName = some name → host.Opens e name d.isProtected) :
    f.isProtected = d.isProtected ∧ f.fileName = d.fileName := by
  cases hname : d.fileName with
  | none =>
    have hr : r.name = [] := by rw [hsaves.name, hname, Option.getD_none]
    cases himage with
    | none => exact ⟨(hfits.absent hname).symm, rfl⟩
    | inserted hne => exact absurd hr hne
  | some name =>
    obtain ⟨hne, hzero⟩ := hplain name hname
    have hr : r.name = name := by rw [hsaves.name, hname, Option.getD_some]
    have hprot : (r.isProtected != 0) = d.isProtected := by
      rw [hsaves.isProtected]
      cases d.isProtected <;> rfl
    cases himage with
    | none hnil => exact absurd (hr.symm.trans hnil) hne
    | inserted _ f err hi =>
      rw [hr, cString_plain hzero, hprot] at hi
      cases hi with
      | refused o err hclosed => exact absurd (hopens name hname) hclosed
      | opened => exact ⟨rfl, rfl⟩

end Drive

/-! ## Saves that succeed -/

theorem saveDrive_room {s : Disk6} {i : ℕ} {helper : StateHelper}
    (hclean : (s.disk i).trackDirty = false)
    (hname : ((s.disk i).fileName.getD []).length ≤ 0xFFFFFFFF) (hroom : helper.TakesAll) :
    ∃ saved, saveDrive s i helper = .ok (s, saved, true) ∧ saved.host = helper.host := by
  let flag : List UInt8 := [if (s.disk i).isProtected then 1 else 0]
  let chunks := driveChunks s (s.disk i)
  have hflag : (helper.save flag).2 = true := decide_eq_true (hroom _ _)
  have hall : (helper.save flag).1.saveAll chunks =
      (((helper.save flag).1.saveAll chunks).1, true) := by
    rw [← (helper.save flag).1.saveAll_room (hroom.of_host rfl) chunks]
  have hflush : disk6Flush s i = .ok s := by
    rw [disk6Flush, flushDiskette_clean hclean, ok_bind, Disk6.setDisk_same]
    rfl
  refine ⟨((helper.save flag).1.saveAll chunks).1, ?_, ?_⟩
  · rw [saveDrive, hflush, ok_bind]
    simp only []
    rw [if_pos hflag, decide_eq_true hname, ← hall]
    rfl
  · rw [StateHelper.saveAll_host]
    rfl

/-- The state of a controller without unsaved writes is saved whole if there is room for it. -/
theorem disk6SaveState_room {s : Disk6} {helper : StateHelper}
    (hclean : ∀ i : Fin 2, (s.disk i).trackDirty = false)
    (hname : ∀ i : Fin 2, ((s.disk i).fileName.getD []).length ≤ 0xFFFFFFFF)
    (hroom : helper.TakesAll) :
    ∃ saved, disk6SaveState s helper = .ok (s, saved, true) ∧ saved.host = helper.host := by
  let header : List (List UInt8) :=
    [[UInt8.ofNat s.motorOff], [UInt8.ofNat s.drive], [UInt8.ofNat s.ddrw], [s.diskByte]]
  have hheader : (helper.saveAll header).2 = true := helper.saveAll_room hroom header
  have hhost : (helper.saveAll header).1.host = helper.host := helper.saveAll_host header
  obtain ⟨first, hfirst, hfirstHost⟩ :=
    saveDrive_room (hclean 0) (hname 0) (hroom.of_host hhost)
  obtain ⟨second, hsecond, hsecondHost⟩ :=
    saveDrive_room (hclean 1) (hname 1) (hroom.of_host (hfirstHost.trans hhost))
  refine ⟨second, ?_, hsecondHost.trans (hfirstHost.trans hhost)⟩
  rw [disk6SaveState, if_pos hheader]
  change (saveDrive s 0 (helper.saveAll header).1 >>= _) = _
  have hfirst' : saveDrive s 0 (helper.saveAll header).1 = .ok (s, first, true) := hfirst
  have hsecond' : saveDrive s 1 first = .ok (s, second, true) := hsecond
  rw [hfirst', ok_bind]
  exact hsecond'

/-! ## Whole states -/

section Load
variable {conformant : Bool} {hosts : Fin 2 → LoadHost} {s t u : Disk6} {file : StateFile}

/-- What was loaded of a saved state, whatever the magnets were. -/
theorem resumes_loaded (hfits : s.Fits) (hsaves : file.Saves s) (hreadable : Readable hosts s)
    (hl : Loaded conformant hosts u file t) : Resumes s t where
  motorOff := by
    rw [hl.motorOff, hsaves.motorOff, UInt8.toNat_ofNat', Nat.mod_eq_of_lt hfits.motorOff_lt]
  drive := by
    rw [hl.drive, hsaves.drive, UInt8.toNat_ofNat', Nat.mod_eq_of_lt hfits.drive_lt]
  ddrw := by
    rw [hl.ddrw, hsaves.ddrw, UInt8.toNat_ofNat', Nat.mod_eq_of_lt hfits.ddrw_lt]
  diskByte := by rw [hl.diskByte, hsaves.diskByte]
  magnets := by
    intro k hk
    rw [hl.steppers]
    exact magnet_steppers (hsaves.drives 1).stepperPhases hk
  phase := by
    intro i
    obtain ⟨e, err, f, -, -, hdisk⟩ := hl.drives i
    rw [hdisk]
    show (file.drives i).phase.toNat = _
    rw [(hsaves.drives i).phase, UInt8.toNat_ofNat', Nat.mod_eq_of_lt (hfits.disk i).phase_lt]
  runByte := by
    intro i
    obtain ⟨e, err, f, -, -, hdisk⟩ := hl.drives i
    rw [hdisk]
    exact runByte_saved (hsaves.drives i) (hfits.disk i).runByte_lt
  image := by
    intro i hplain
    obtain ⟨e, err, f, -, himage, hdisk⟩ := hl.drives i
    rw [hdisk]
    show f.isProtected = _ ∧ f.fileName = _
    exact image_restored (hfits.disk i) himage (hsaves.drives i) hplain
      fun name hname => hreadable i name hname e

/-- What was loaded of a saved state restores it exactly when the two high magnets were off. -/
theorem restores_iff (hfits : s.Fits) (hsaves : file.Saves s) (hreadable : Readable hosts s)
    (hl : Loaded conformant hosts u file t) :
    Restores s t ↔ HighMagnetsOff s ∧ NamesPlain s := by
  have hresumes := resumes_loaded hfits hsaves hreadable hl
  constructor
  · intro h
    refine ⟨⟨?_, ?_⟩, fun i name hname => ?_⟩
    · rw [← h.magnets 2 (by decide), hresumes.magnets 2 (by decide)]
      rfl
    · rw [← h.magnets 3 (by decide), hresumes.magnets 3 (by decide)]
      rfl
    · obtain ⟨e, err, f, -, himage, hdisk⟩ := hl.drives i
      have hback : f.fileName = (s.disk i).fileName := by
        rw [← h.fileName i, hdisk]
        rfl
      exact plain_of_fileName himage (hsaves.drives i) hback name hname
  · rintro ⟨⟨htwo, hthree⟩, hplain⟩
    have himage := fun i => hresumes.image i (hplain i)
    refine ⟨hresumes.motorOff, hresumes.drive, hresumes.ddrw, hresumes.diskByte, fun k hk => ?_,
      fun i => (himage i).1, fun i => (himage i).2, hresumes.phase, hresumes.runByte⟩
    rw [hresumes.magnets k hk]
    match k, hk with
    | 0, _ => rfl
    | 1, _ => rfl
    | 2, _ => exact htwo.symm
    | 3, _ => exact hthree.symm

end Load

/-- **Save and load.** The state of the controller after any calls is saved, and the file is loaded
in any state. Unless giving up an image of that state stops the program, the load succeeds and takes
exactly the bytes that were saved, and it restores what was saved if and only if the magnets 2 and 3
were off; an image whose name is no C string, or an empty one, does not come back either. -/
theorem disk_state_restored (conformant : Bool) {calls : List Call} {s s' : Disk6}
    (hs : runM (call conformant) initDisk6 calls = .ok s) {helper saved : StateHelper}
    (hsave : disk6SaveState s helper = .ok (s', saved, true)) (hosts : Fin 2 → LoadHost)
    (hreadable : Readable hosts s) (u : Disk6) (rest : List UInt8) :
    ∃ bytes, saved.file = helper.file ++ bytes ∧
      ((∃ i f, ejectDiskette (hosts i).eject (u.disk i) = .error f ∧
          disk6LoadState conformant hosts u (bytes ++ rest) = .error f) ∨
        ∃ t, disk6LoadState conformant hosts u (bytes ++ rest) = .ok (t, rest, true) ∧
          (Restores s t ↔ HighMagnetsOff s ∧ NamesPlain s)) := by
  obtain ⟨file, hfile, hsaves⟩ := saved_file hsave
  refine ⟨file.bytes, hfile, ?_⟩
  obtain ⟨i, f, heject, hstop⟩ | ⟨t, hreads, hl⟩ := reads_disk6LoadState conformant hosts u file
  · exact .inl ⟨i, f, heject, hstop rest⟩
  · exact .inr ⟨t, hreads rest, restores_iff (calls_fit conformant hs) hsaves hreadable hl⟩

/-- A file that takes everything. -/
def roomyFile : StateHelper where
  file := []
  host := fun _ bytes => bytes.length

/-! ## A write-protected image -/

/-- A host that opens every image. -/
def openHost : LoadHost := ⟨(blankHost 3).toEjectHost, blankHost 3, (blankHost 3).toEjectHost⟩

theorem blankHost_opens (d : Diskette) (name : List UInt8) (readonly : Bool) :
    (blankHost 3).Opens d name readonly := by
  cases readonly <;> rfl

/-- A write-protected image is inserted, and three nibbles of it are read. -/
def protectedRun : List Op :=
  .insert 0 dskName true (blankHost 3) :: List.replicate 3 (.ioRead 0xC0EC 0)

theorem protectedRun_session : ∃ e s, runM (step true) initDisk6 protectedRun = .ok s ∧
    Session true s 0 e ∧ e.fileName = some dskName ∧ e.isProtected = true ∧ e.runByte = 3 ∧
    e.trackDirty = false ∧ s.disk 1 = initDisk6.disk 1 := by
  obtain ⟨d, err, hstep, hinserted⟩ := insert_inserted true (blankHost 3) dskName true
  obtain ⟨hlt, hall⟩ := step_drives (initDisk6_ok true) hstep
  have hok : ControllerOk true (initDisk6.setDisk 0 d) :=
    ⟨hlt, fun i => (hall i).headOk (initDisk6_ok true)⟩
  have hdisk : (initDisk6.setDisk 0 d).disk 0 = d := Disk6.setDisk_self (s := initDisk6) 0 d
  have hother : (initDisk6.setDisk 0 d).disk 1 = initDisk6.disk 1 :=
    Disk6.setDisk_ne (s := initDisk6) d Nat.one_ne_zero
  have hsession : Session true (initDisk6.setDisk 0 d) 0 d := ⟨hok, rfl, rfl, rfl, hdisk⟩
  have hhead : d.HeadOk true := hdisk ▸ hok.drives 0
  cases hinserted with
  | refused o err hclosed => exact absurd (blankHost_opens _ _ _) hclosed
  | opened fd rb b f ptr w hopens hopen hfd =>
    obtain ⟨b', r, he, -⟩ := hhead.ensure hfd
    have hwidth := ((hhead.loaded hfd).dsk rfl).2.1
    have hzero : r = 0 := by
      cases he with
      | valid hv => cases hv
      | nib => rfl
      | dsk => rfl
    subst hzero
    obtain ⟨s, hreads, hs, hrest⟩ := hsession.reads hfd he 2 (by rw [hwidth]; decide)
    exact ⟨_, s, (runM_cons_ok _ hstep).trans hreads, hs, rfl, rfl, rfl, rfl, hrest.trans hother⟩

theorem runM_ops (conformant : Bool) (s : Disk6) (ops : List Op) :
    runM (call conformant) s (ops.map .op) = runM (step conformant) s ops := by
  induction ops generalizing s with
  | nil => rfl
  | cons op ops ih =>
    have hcall : call conformant s (.op op) = step conformant s op := rfl
    rw [List.map_cons, runM, runM, hcall]
    split
    · exact ih _
    · rfl

/-- Its name, its write protection and the place of the head come back in a controller that was
just switched on. -/
theorem disk_state_restored_protected : ∃ s saved t,
    runM (call true) initDisk6 (protectedRun.map .op) = .ok s ∧
    ((s.disk 0).fileName, (s.disk 0).isProtected, (s.disk 0).runByte) = (some dskName, true, 3) ∧
    disk6SaveState s roomyFile = .ok (s, saved, true) ∧
    disk6LoadState true (fun _ => openHost) initDisk6 saved.file = .ok (t, [], true) ∧
    Restores s t := by
  obtain ⟨e, s, hrun, hs, hname, hprot, hbyte, hclean, hother⟩ := protectedRun_session
  rw [← runM_ops] at hrun
  have hdisk : s.disk (0 : Fin 2) = e := hs.disk
  have hdisk' : s.disk (1 : Fin 2) = initDisk6.disk 1 := hother
  have hroom : roomyFile.TakesAll := fun _ _ => Nat.le_refl _
  have hnames : ∀ (i : Fin 2) (name : List UInt8), (s.disk i).fileName = some name →
      name = dskName := by
    refine Fin.forall_fin_two.mpr ⟨fun name h => ?_, fun name h => ?_⟩
    · rw [hdisk, hname, Option.some.injEq] at h
      exact h.symm
    · rw [hdisk'] at h
      cases h
  obtain ⟨saved, hsave, -⟩ := @disk6SaveState_room s roomyFile
    (Fin.forall_fin_two.mpr ⟨by rw [hdisk, hclean], by rw [hdisk']; rfl⟩)
    (Fin.forall_fin_two.mpr ⟨by rw [hdisk, hname]; decide, by rw [hdisk']; decide⟩) hroom
  have hreadable : Readable (fun _ => openHost) s := fun _ name _ d => blankHost_opens d name _
  obtain ⟨bytes, hfile, hload⟩ :=
    disk_state_restored true hrun hsave (fun _ => openHost) hreadable initDisk6 []
  rw [List.append_nil, ← List.nil_append bytes, ← show roomyFile.file = [] from rfl, ← hfile]
    at hload
  obtain ⟨i, f, heject, -⟩ | ⟨t, hloaded, hrestores⟩ := hload
  · cases heject
  refine ⟨s, saved, t, hrun, ?_, hsave, hloaded, hrestores.mpr ⟨?_, ?_⟩⟩
  · rw [hs.disk, hname, hprot, hbyte]
  · rw [HighMagnetsOff, hs.steppers]
    exact ⟨rfl, rfl⟩
  · intro i name h
    rw [hnames i name h]
    decide

/-- A host that opens no image. -/
def closedHost : LoadHost :=
  let eject : EjectHost :=
    { zlibDeflateBuffer := fun _ _ dst => { err := none, dst := dst, dstSize := -1 }
      ftruncateOk := true }
  { eject := eject
    insert :=
      { eject with
        zlibInflateToBuffer := fun _ dst => (some errCannotDup, dst)
        dup := none
        zlibInflateInplace := fun _ => (none, { bytes := fun _ => 0, length := 0 })
        mmapOk := false }
    giveUp := eject }

theorem readable_empty {hosts : Fin 2 → LoadHost} {s : Disk6}
    (h : ∀ i : Fin 2, (s.disk i).fileName = none) : Readable hosts s := by
  intro i name hname
  rw [h i] at hname
  cases hname

/-- The magnet 2 is switched on, and the state saved and loaded. -/
theorem magnet_not_restored :
    ∃ s s' saved t,
      runM (call true) initDisk6 [.op (.ioRead 0xC0E5 0)] = .ok s ∧
      disk6SaveState s roomyFile = .ok (s', saved, true) ∧ Readable (fun _ => closedHost) s ∧
      disk6LoadState true (fun _ => closedHost) initDisk6 saved.file = .ok (t, [], true) ∧
      ¬ Restores s t := by
  have hrun : ∃ s, runM (call true) initDisk6 [.op (.ioRead 0xC0E5 0)] = .ok s ∧
      s.stepperPhases.getLsbD 2 = true ∧ (∀ i : Fin 2, (s.disk i).fileName = none) ∧
      ∃ s' saved, disk6SaveState s roomyFile = .ok (s', saved, true) :=
    ⟨_, rfl, by decide, Fin.forall_fin_two.mpr ⟨rfl, rfl⟩, _, _, rfl⟩
  obtain ⟨s, hs, hmagnet, hempty, s', saved, hsave⟩ := hrun
  obtain ⟨file, hfile, hsaves⟩ := saved_file hsave
  have hreadable : Readable (fun _ => closedHost) s := readable_empty hempty
  obtain ⟨i, f, heject, -⟩ | ⟨t, hreads, hl⟩ :=
    reads_disk6LoadState true (fun _ => closedHost) initDisk6 file
  · cases heject
  · refine ⟨s, s', saved, t, hs, hsave, hreadable, ?_, fun h => ?_⟩
    · have hload := hreads []
      rwa [List.append_nil, ← List.nil_append file.bytes, ← show roomyFile.file = [] from rfl,
        ← hfile] at hload
    · have hoff := ((restores_iff (calls_fit true hs) hsaves hreadable hl).mp h).1.1
      rw [hmagnet] at hoff
      cases hoff

end Apple2ix.Disk
