import Apple2ix.Foundations.Runs
import Apple2ix.Disk.InsertSteps

/-! Runs of the controller. `DriveStep` lists everything one operation can do to one drive; the
head invariant, the fate of unsaved writes and the reach of write-backs are read off it. -/
namespace Apple2ix.Disk
open Runs
set_option autoImplicit false

/-! ## What an operation asks of a drive -/

/-- An access to C0EC. -/
def Op.Accesses : Op → Prop
  | .ioRead ea _ | .ioWrite ea _ => ea &&& 0xF = 0xC
  | _ => False

/-- The drive is ejected, if only to insert another image. -/
def Op.Empties (i : ℕ) : Op → Prop
  | .insert drive _ _ _ | .eject drive _ => i = drive
  | _ => False

/-- `disk6_saveState` gets as far as drive `i` when every `helper->save` before it succeeds. -/
def SaveReaches (s : Disk6) (helper : StateHelper) (i : ℕ) : Prop :=
  let header := helper.saveAll
    [[UInt8.ofNat s.motorOff], [UInt8.ofNat s.drive], [UInt8.ofNat s.ddrw], [s.diskByte]]
  header.2 = true ∧ (i = 0 ∨ i = 1 ∧ ∃ t saved, saveDrive s 0 header.1 = .ok (t, saved, true))

/-- The operation writes drive `i` back if its track is dirty. -/
def WritesBack (s : Disk6) (i : ℕ) : Op → Prop
  | .ioRead ea _ | .ioWrite ea _ => i = s.drive ∧ ea &&& 0xF ≤ 0x7 ∧
      LeavesTrack (steppersAfter s.stepperPhases ea) (s.disk i)
  | .init => i < 2
  | .insert drive _ _ _ | .eject drive _ => i = drive ∧ (s.disk i).Closes
  | .flush drive => i = drive
  | .saveState helper => SaveReaches s helper i

/-- Everything a successful operation can do to drive `i`, which holds `s.disk i` before it. -/
inductive DriveStep (conformant : Bool) (s : Disk6) (i : ℕ) (op : Op) : Diskette → Prop
  | idle (hidle : ¬ WritesBack s i op) (hquiet : ¬ (op.Accesses ∧ i = s.drive))
      (hkeep : ¬ op.Empties i) : DriveStep conformant s i op (s.disk i)
  | moved (phase : ℕ) (hidle : ¬ WritesBack s i op) (hquiet : ¬ op.Accesses)
      (hkeep : ¬ op.Empties i) (hphase : phase ≤ 69) (htrack : phase >>> 1 = (s.disk i).track) :
      DriveStep conformant s i op { s.disk i with phase := phase }
  | turned (d : Diskette) (hop : op.Accesses) (hdrive : i = s.drive)
      (ht : Turned conformant (s.disk i) s.written d) : DriveStep conformant s i op d
  | left (e : Diskette) (phase : ℕ) (hback : WritesBack s i op) (hquiet : ¬ op.Accesses)
      (hflush : flushDiskette (s.disk i) = .ok e) (hphase : phase ≤ 69) :
      DriveStep conformant s i op { e with trackValid := false, phase := phase }
  | flushed (e : Diskette) (hback : WritesBack s i op) (hquiet : ¬ op.Accesses)
      (hflush : flushDiskette (s.disk i) = .ok e) : DriveStep conformant s i op e
  | reset (e : Diskette) (hop : op = .init) (hback : WritesBack s i op)
      (hflush : flushDiskette (s.disk i) = .ok e) : DriveStep conformant s i op e.reset
  | ejected (drive : Fin 2) (host : EjectHost) (hop : op = .eject drive host) (hdrive : i = drive)
      (r : Diskette) (err : Option String) (hclose : closeImage host (s.disk i) = .ok (r, err))
      (hphase : r.phase ≤ 69) : DriveStep conformant s i op r.empty
  | inserted (drive : Fin 2) (name : List UInt8) (readonly : Bool) (host : InsertHost)
      (hop : op = .insert drive name readonly host) (hdrive : i = drive)
      (r : Diskette) (err : Option String)
      (hclose : closeImage host.toEjectHost (s.disk i) = .ok (r, err))
      (d : Diskette) (err' : Option String)
      (hinsert : insertImage conformant host r.empty name readonly = .ok (d, err'))
      (hhead : d.HeadOk conformant) (hclean : d.trackDirty = false) :
      DriveStep conformant s i op d

/-- **The controller invariant**: the selected drive exists, and each drive meets the head
invariant. -/
structure ControllerOk (conformant : Bool) (s : Disk6) : Prop where
  drive_lt : s.drive < 2
  drives : ∀ i, (s.disk i).HeadOk conformant

theorem initDisk6_ok (conformant : Bool) : ControllerOk conformant initDisk6 := by
  refine ⟨by decide, fun i => ⟨Nat.zero_le _, nofun, nofun, nofun, fun _ => rfl, fun hfd => ?_⟩⟩
  exact absurd hfd (by decide : ¬ (0 : ℤ) ≤ -1)

section Steps
variable {conformant : Bool} {s t : Disk6}

/-- Each outcome of a step keeps the head invariant. -/
theorem DriveStep.headOk {i : ℕ} {op : Op} {d : Diskette} (h : ControllerOk conformant s)
    (hs : DriveStep conformant s i op d) : d.HeadOk conformant := by
  have hi := h.drives i
  cases hs with
  | idle => exact hi
  | moved phase _ _ _ hphase => exact hi.moved phase hphase
  | turned d _ _ ht => exact ht.headOk hi
  | left e phase _ _ hflush hphase =>
    have hsettled := flushDiskette_settled hi hflush
    exact (hsettled.headOk hi).dropped hsettled.not_dirty phase hphase
  | flushed e _ _ hflush => exact (flushDiskette_settled hi hflush).headOk hi
  | reset e _ _ hflush => exact ((flushDiskette_settled hi hflush).headOk hi).reset
  | ejected _ _ _ _ r _ _ hphase => exact r.empty_headOk hphase
  | inserted _ _ _ _ _ _ _ _ _ d _ _ hhead => exact hhead

/-- An operation that changes one drive. -/
theorem setDisk_drives {op : Op} {j : ℕ} {d : Diskette} (hj : DriveStep conformant s j op d)
    (hi : ∀ i, i ≠ j → DriveStep conformant s i op (s.disk i)) (i : ℕ) :
    DriveStep conformant s i op ((s.setDisk j d).disk i) := by
  rcases eq_or_ne i j with rfl | hne
  · rw [Disk6.setDisk_self]
    exact hj
  · rw [Disk6.setDisk_ne d hne]
    exact hi i hne

/-! ## Accesses of the guest -/

/-- `op` is an access to `ea`. -/
def Op.IsIo (op : Op) (ea : UInt16) : Prop :=
  (∃ floatingBus, op = .ioRead ea floatingBus) ∨ ∃ b, op = .ioWrite ea b

theorem Op.IsIo.accesses {op : Op} {ea : UInt16} (hop : op.IsIo ea) :
    op.Accesses ↔ ea &&& 0xF = 0xC := by
  rcases hop with ⟨_, rfl⟩ | ⟨_, rfl⟩ <;> rfl

theorem Op.IsIo.writesBack {op : Op} {ea : UInt16} (hop : op.IsIo ea) (i : ℕ) :
    WritesBack s i op ↔ i = s.drive ∧ ea &&& 0xF ≤ 0x7 ∧
      LeavesTrack (steppersAfter s.stepperPhases ea) (s.disk i) := by
  rcases hop with ⟨_, rfl⟩ | ⟨_, rfl⟩ <;> rfl

theorem Op.IsIo.not_empties {op : Op} {ea : UInt16} (hop : op.IsIo ea) (i : ℕ) :
    ¬ op.Empties i := by
  rcases hop with ⟨_, rfl⟩ | ⟨_, rfl⟩ <;> exact id

/-- A seek, as far as the selected drive is concerned. -/
theorem moveHead_drive (h : ControllerOk conformant s) {op : Op} {ea : UInt16} (hop : op.IsIo ea)
    (hsw : ea &&& 0xF ≤ 0x7) {d : Diskette}
    (hd : moveHead (steppersAfter s.stepperPhases ea) (s.disk s.drive) = .ok d) :
    DriveStep conformant s s.drive op d := by
  have hi := h.drives s.drive
  have hquiet : ¬ op.Accesses := by
    rw [hop.accesses]
    intro hc
    rw [hc] at hsw
    exact absurd hsw (by decide)
  by_cases hleave : LeavesTrack (steppersAfter s.stepperPhases ea) (s.disk s.drive)
  · rw [moveHead_leaves hi hleave] at hd
    obtain ⟨e, he, hd⟩ := bind_eq_ok.mp hd
    cases hd
    exact DriveStep.left e _ ((hop.writesBack _).mpr ⟨rfl, hsw, hleave⟩) hquiet he
      (nextPhase_le _ _)
  · rw [moveHead_stays hi hleave] at hd
    cases hd
    refine DriveStep.moved _ (fun hback => ?_) hquiet (hop.not_empties _) (nextPhase_le _ _)
      (not_not.mp hleave)
    exact hleave ((hop.writesBack _).mp hback).2.2

/-- An access to C0E0 - C0EF. -/
theorem switch_drives (h : ControllerOk conformant s) {op : Op} {ea : UInt16} (hop : op.IsIo ea)
    {latch : Disk6 → Disk6} (hlatch : ∀ u, (latch u).disk = u.disk ∧ (latch u).drive = u.drive)
    (hs : disk6Switch conformant latch s ea = .ok t) :
    t.drive < 2 ∧ ∀ i, DriveStep conformant s i op (t.disk i) := by
  have hother : ∀ i, i ≠ s.drive → DriveStep conformant s i op (s.disk i) := by
    intro i hi
    refine DriveStep.idle (fun hback => ?_) (fun hq => hi hq.2) (hop.not_empties i)
    exact hi ((hop.writesBack i).mp hback).1
  have hsame : ¬ ea &&& 0xF ≤ 0x7 → ¬ ea &&& 0xF = 0xC →
      ∀ i, DriveStep conformant s i op (s.disk i) := by
    intro hsw hrw i
    refine DriveStep.idle (fun hback => ?_) (fun hq => ?_) (hop.not_empties i)
    · exact hsw ((hop.writesBack i).mp hback).2.1
    · exact hrw (hop.accesses.mp hq.1)
  unfold disk6Switch at hs
  simp only at hs
  by_cases hsw : ea &&& 0xF ≤ 0x7
  · rw [if_pos hsw, disk6PhaseChange] at hs
    obtain ⟨d, hd, hs⟩ := bind_eq_ok.mp hs
    cases hs
    exact ⟨h.drive_lt, setDisk_drives (moveHead_drive h hop hsw hd) hother⟩
  · rw [if_neg hsw] at hs
    by_cases hmotor : ea &&& 0xF ≤ 0x9
    · rw [if_pos hmotor] at hs
      cases hs
      have hne : ¬ ea &&& 0xF = 0xC := fun he => absurd (he ▸ hmotor) (by decide)
      exact ⟨h.drive_lt, hsame hsw hne⟩
    · rw [if_neg hmotor] at hs
      by_cases hdrive : ea &&& 0xF ≤ 0xB
      · rw [if_pos hdrive] at hs
        cases hs
        have hne : ¬ ea &&& 0xF = 0xC := fun he => absurd (he ▸ hdrive) (by decide)
        refine ⟨?_, hsame hsw hne⟩
        show (if ea &&& 1 ≠ 0 then 1 else 0) < 2
        split <;> decide
      · rw [if_neg hdrive] at hs
        by_cases hrw : ea &&& 0xF = 0xC
        · rw [if_pos hrw] at hs
          obtain ⟨d, m, x, hok, ht⟩ := diskReadWriteByte_ok (h.drives s.drive)
          rw [hok] at hs
          cases hs
          refine ⟨h.drive_lt, setDisk_drives ?_ hother⟩
          exact DriveStep.turned d (hop.accesses.mpr hrw) rfl ht
        · rw [if_neg hrw] at hs
          by_cases hlat : ea &&& 0xF = 0xD
          · rw [if_pos hlat] at hs
            cases hs
            rw [(hlatch s).1, (hlatch s).2]
            exact ⟨h.drive_lt, hsame hsw hrw⟩
          · rw [if_neg hlat] at hs
            cases hs
            exact ⟨h.drive_lt, hsame hsw hrw⟩

theorem diskReadLatch_frame (u : Disk6) :
    (diskReadLatch u).disk = u.disk ∧ (diskReadLatch u).drive = u.drive := by
  unfold diskReadLatch
  split <;> exact ⟨rfl, rfl⟩

/-! ## The other operations -/

/-- Closing an image keeps the head where it is. -/
theorem closeImage_phase {d r : Diskette} (hd : d.HeadOk conformant) (host : EjectHost)
    {err : Option String} (hc : closeImage host d = .ok (r, err)) : r.phase = d.phase := by
  by_cases hclose : d.Closes
  · have heq : closeImage host d = (do
        let flushed ← flushDiskette d
        releaseImage host flushed) := if_pos hclose
    rw [heq] at hc
    obtain ⟨e, he, hr⟩ := bind_eq_ok.mp hc
    have hsettled := flushDiskette_settled hd he
    have hfd : 0 ≤ e.fd := by
      have hpos : 0 ≤ d.fd := le_of_lt hclose.1
      cases hsettled <;> exact hpos
    have hl := (hsettled.headOk hd).loaded hfd
    rcases releaseImage_cases host (d := e) (Or.inr ⟨hl.named, hl.raw_some⟩) with
      ⟨e', err', hrelease, rb, f, rfl⟩ | hrelease
    · rw [hrelease] at hr
      cases hr
      exact hsettled.phase
    · rw [hrelease] at hr
      cases hr
  · have heq : closeImage host d = .ok (d, none) := if_neg hclose
    rw [heq] at hc
    cases hc
    rfl

theorem ejectDiskette_eq_ok {host : EjectHost} {d e : Diskette} {err : Option String}
    (he : ejectDiskette host d = .ok (e, err)) :
    ∃ r, closeImage host d = .ok (r, err) ∧ e = r.empty := by
  unfold ejectDiskette at he
  obtain ⟨⟨r, err'⟩, hr, he⟩ := bind_eq_ok.mp he
  cases he
  exact ⟨r, hr, rfl⟩

theorem saveDrive_ok {helper : StateHelper} {i : ℕ} {a : Disk6 × StateHelper × Bool}
    (ha : saveDrive s i helper = .ok a) :
    ∃ e, flushDiskette (s.disk i) = .ok e ∧ a.1 = s.setDisk i e := by
  unfold saveDrive disk6Flush at ha
  obtain ⟨u, hu, ha⟩ := bind_eq_ok.mp ha
  obtain ⟨e, he, hu⟩ := bind_eq_ok.mp hu
  cases hu
  refine ⟨e, he, ?_⟩
  simp only at ha
  generalize helper.save _ = saved at ha
  split at ha
  case isTrue =>
    obtain ⟨-, -, ha⟩ := bind_eq_ok.mp ha
    cases ha
    rfl
  case isFalse =>
    cases ha
    rfl

theorem saveState_drives (h : ControllerOk conformant s) (helper : StateHelper)
    (hs : (disk6SaveState s helper).map Prod.fst = .ok t) :
    t.drive < 2 ∧ ∀ i, DriveStep conformant s i (.saveState helper) (t.disk i) := by
  have hidle : ∀ i, ¬ SaveReaches s helper i →
      DriveStep conformant s i (.saveState helper) (s.disk i) :=
    fun i hi => DriveStep.idle hi (fun hq => hq.1) id
  cases hok : disk6SaveState s helper with
  | error e => rw [hok] at hs; cases hs
  | ok a =>
    rw [hok] at hs
    cases hs
    unfold disk6SaveState at hok
    simp only at hok
    split at hok
    case isFalse hheader =>
      cases hok
      exact ⟨h.drive_lt, fun i => hidle i fun hr => hheader hr.1⟩
    case isTrue hheader =>
      obtain ⟨b, hb, hok⟩ := bind_eq_ok.mp hok
      obtain ⟨e, he, hbs⟩ := saveDrive_ok hb
      have hzero : DriveStep conformant s 0 (.saveState helper) e :=
        DriveStep.flushed e ⟨hheader, Or.inl rfl⟩ id he
      split at hok
      case isFalse hstop =>
        cases hok
        rw [hbs]
        refine ⟨h.drive_lt, fun i => ?_⟩
        rcases eq_or_ne i 0 with rfl | hi
        · rw [Disk6.setDisk_self]
          exact hzero
        · rw [Disk6.setDisk_ne e hi]
          refine hidle i fun hr => ?_
          rcases hr.2 with h0 | ⟨-, u, saved, hu⟩
          · exact hi h0
          · rw [hb] at hu
            cases hu
            exact hstop rfl
      case isTrue hgo =>
        obtain ⟨e', he', hcs⟩ := saveDrive_ok hok
        rw [hbs, Disk6.setDisk_ne e (by decide : (1 : ℕ) ≠ 0)] at he'
        have hone : DriveStep conformant s 1 (.saveState helper) e' := by
          refine DriveStep.flushed e' ⟨hheader, Or.inr ⟨rfl, b.1, b.2.1, ?_⟩⟩ id he'
          rw [hb, ← hgo]
        rw [hcs, hbs]
        refine ⟨h.drive_lt, fun i => ?_⟩
        rcases eq_or_ne i 1 with rfl | hi1
        · rw [Disk6.setDisk_self]
          exact hone
        · rw [Disk6.setDisk_ne e' hi1]
          rcases eq_or_ne i 0 with rfl | hi0
          · rw [Disk6.setDisk_self]
            exact hzero
          · rw [Disk6.setDisk_ne e hi0]
            refine hidle i fun hr => ?_
            rcases hr.2 with h0 | ⟨h1, -⟩
            · exact hi0 h0
            · exact hi1 h1

theorem init_drives (hs : disk6Init s = .ok t) :
    t.drive < 2 ∧ ∀ i, DriveStep conformant s i .init (t.disk i) := by
  unfold disk6Init disk6Flush at hs
  obtain ⟨u, hu, hs⟩ := bind_eq_ok.mp hs
  obtain ⟨e, he, hu⟩ := bind_eq_ok.mp hu
  cases hu
  obtain ⟨v, hv, hs⟩ := bind_eq_ok.mp hs
  obtain ⟨e', he', hv⟩ := bind_eq_ok.mp hv
  cases hv
  cases hs
  rw [Disk6.setDisk_ne e (by decide : (1 : ℕ) ≠ 0)] at he'
  refine ⟨Nat.zero_lt_two, fun i => ?_⟩
  have hreset : ∀ d, i < 2 → flushDiskette (s.disk i) = .ok d →
      DriveStep conformant s i .init d.reset := fun d hi hd => DriveStep.reset d rfl hi hd
  show DriveStep conformant s i .init
    (((((s.setDisk 0 e).setDisk 1 e').setDisk 0 _).setDisk 1 _).disk i)
  rcases eq_or_ne i 1 with rfl | hi1
  · rw [Disk6.setDisk_self, Disk6.setDisk_self]
    exact hreset e' (by decide) he'
  · rw [Disk6.setDisk_ne _ hi1]
    rcases eq_or_ne i 0 with rfl | hi0
    · rw [Disk6.setDisk_self, Disk6.setDisk_ne _ hi1, Disk6.setDisk_self]
      exact hreset e (by decide) he
    · rw [Disk6.setDisk_ne _ hi0, Disk6.setDisk_ne _ hi1, Disk6.setDisk_ne _ hi0]
      have hi : ¬ i < 2 := by omega
      exact DriveStep.idle hi (fun hq => hq.1) id

/-- **One operation**, whatever it is, does to each drive one of the things `DriveStep` lists. -/
theorem step_drives (h : ControllerOk conformant s) {op : Op} (hs : step conformant s op = .ok t) :
    t.drive < 2 ∧ ∀ i, DriveStep conformant s i op (t.disk i) := by
  cases op with
  | ioRead ea floatingBus =>
    cases hsw : disk6Switch conformant diskReadLatch s ea with
    | error e => rw [step, disk6IoRead, hsw] at hs; cases hs
    | ok u =>
      rw [step, disk6IoRead, hsw] at hs
      cases hs
      exact switch_drives h (Or.inl ⟨floatingBus, rfl⟩) diskReadLatch_frame hsw
  | ioWrite ea b =>
    cases hsw : disk6Switch conformant id s ea with
    | error e => rw [step, disk6IoWrite, hsw] at hs; cases hs
    | ok u =>
      rw [step, disk6IoWrite, hsw] at hs
      have hu := switch_drives h (Or.inr ⟨b, rfl⟩) (fun _ => ⟨rfl, rfl⟩) hsw
      by_cases hddrw : u.ddrw ≠ 0
      · have ht : t = { u with diskByte := b } := by
          rw [ok_bind, if_pos hddrw] at hs
          cases hs
          rfl
        rw [ht]
        exact hu
      · have ht : t = u := by
          rw [ok_bind, if_neg hddrw] at hs
          cases hs
          rfl
        rw [ht]
        exact hu
  | init => exact init_drives hs
  | insert drive name readonly host =>
    obtain ⟨⟨d, err'⟩, hinsert, hs⟩ := bind_eq_ok.mp hs
    cases hs
    unfold insertDiskette at hinsert
    obtain ⟨⟨e, err⟩, heject, hinsert⟩ := bind_eq_ok.mp hinsert
    obtain ⟨r, hclose, rfl⟩ := ejectDiskette_eq_ok heject
    have hphase : r.phase ≤ 69 := by
      rw [closeImage_phase (h.drives drive) _ hclose]
      exact (h.drives drive).phase_le
    obtain ⟨d', err'', hok, hhead, hclean, -⟩ :=
      insertImage_ok conformant host hphase name readonly
    rw [hok] at hinsert
    cases hinsert
    refine ⟨h.drive_lt, setDisk_drives ?_ fun i hi => ?_⟩
    · exact DriveStep.inserted drive name readonly host rfl rfl r err hclose _ _ hok hhead hclean
    · exact DriveStep.idle (fun hb => hi hb.1) (fun hq => hq.1) hi
  | eject drive host =>
    obtain ⟨⟨e, err⟩, heject, hs⟩ := bind_eq_ok.mp hs
    cases hs
    obtain ⟨r, hclose, rfl⟩ := ejectDiskette_eq_ok heject
    have hphase : r.phase ≤ 69 := by
      rw [closeImage_phase (h.drives drive) _ hclose]
      exact (h.drives drive).phase_le
    refine ⟨h.drive_lt, setDisk_drives ?_ fun i hi => ?_⟩
    · exact DriveStep.ejected drive host rfl rfl r err hclose hphase
    · exact DriveStep.idle (fun hb => hi hb.1) (fun hq => hq.1) hi
  | flush drive =>
    obtain ⟨e, he, hs⟩ := bind_eq_ok.mp hs
    cases hs
    refine ⟨h.drive_lt, setDisk_drives (DriveStep.flushed e rfl id he) fun i hi => ?_⟩
    exact DriveStep.idle hi (fun hq => hq.1) id
  | saveState helper => exact saveState_drives h helper hs

/-- Every run keeps the invariant. -/
theorem run_ok {ops : List Op} (h : runM (step conformant) initDisk6 ops = .ok s) :
    ControllerOk conformant s := by
  refine runM_invariant (ControllerOk conformant) ?_ (initDisk6_ok conformant) h
  intro u op v hu hs
  obtain ⟨hdrive, hall⟩ := step_drives hu hs
  exact ⟨hdrive, fun i => (hall i).headOk hu⟩

end Steps

end Apple2ix.Disk
