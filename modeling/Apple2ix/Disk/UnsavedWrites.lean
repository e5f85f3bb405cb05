import Apple2ix.Disk.GuestRuns

/-! The fate of what the guest writes to a DSK image. A run is replayed with, for each drive, the
track number and the nibbles of the last write that is not saved yet; when the controller leaves
or gives up the track, it has decoded these nibbles into the raw image. -/
namespace Apple2ix.Disk
open Runs
set_option autoImplicit false

/-! ## The history of a run -/

/-- The track a guest wrote to, and its nibbles after the write. -/
structure GuestTrack where
  track : ℕ
  nibs : Buf

/-- The operation stores a nibble in the DSK image in drive `i`. -/
def GuestWrites (s : Disk6) (i : ℕ) (op : Op) : Prop :=
  op.Accesses ∧ i = s.drive ∧ s.written ≠ none ∧ (s.disk i).nibblized = false

/-- The operation leaves, flushes, saves or ejects the track under the head of drive `i`. -/
def Settles (s : Disk6) (i : ℕ) (op : Op) : Prop := WritesBack s i op ∨ op.Empties i

open Classical in
/-- The unsaved writes of each drive after an operation that led from `s` to `t`. -/
noncomputable def unsavedAfter (s t : Disk6) (op : Op) (unsaved : ℕ → Option GuestTrack) :
    ℕ → Option GuestTrack := fun i =>
  if GuestWrites s i op then some { track := (t.disk i).track, nibs := (t.disk i).nibbles }
  else if Settles s i op then none
  else unsaved i

/-- One operation, with the history it leaves. -/
noncomputable def recordedStep (conformant : Bool) (r : Disk6 × (ℕ → Option GuestTrack)) (op : Op) :
    Except Fault (Disk6 × (ℕ → Option GuestTrack)) := do
  let t ← step conformant r.1 op
  return (t, unsavedAfter r.1 t op r.2)

/-- A run from the start of the program, with its history. -/
noncomputable def recordedRun (conformant : Bool) (ops : List Op) :
    Except Fault (Disk6 × (ℕ → Option GuestTrack)) :=
  runM (recordedStep conformant) (initDisk6, fun _ => none) ops

theorem recordedRun_run {conformant : Bool} {ops : List Op} {s : Disk6}
    {unsaved : ℕ → Option GuestTrack} (h : recordedRun conformant ops = .ok (s, unsaved)) :
    runM (step conformant) initDisk6 ops = .ok s := by
  refine runM_map Prod.fst ?_ h
  intro r op r' hr
  obtain ⟨t, ht, hr⟩ := bind_eq_ok.mp hr
  cases hr
  exact ht

theorem run_recordedRun {conformant : Bool} {ops : List Op} {s : Disk6}
    (h : runM (step conformant) initDisk6 ops = .ok s) :
    ∃ unsaved, recordedRun conformant ops = .ok (s, unsaved) := by
  obtain ⟨⟨t, unsaved⟩, hrun, rfl⟩ :=
    runM_lift (x := (initDisk6, fun _ => none)) Prod.fst
      (fun r op t ht => show ∃ y, recordedStep conformant r op = .ok y ∧ y.1 = t from
        ⟨(t, _), by rw [recordedStep, ht]; rfl, rfl⟩) h
  exact ⟨unsaved, hrun⟩

/-! ## Saved writes -/

/-- The write `w` to the drive `d` has reached the image by the time the drive is `d'`: the raw
image, or what was given back to the file, holds its nibbles decoded into its track. -/
inductive Committed (conformant : Bool) (op : Op) (d : Diskette) (w : GuestTrack) :
    Diskette → Prop
  | held (image : Buf) (d' : Diskette) (hsaves : d.Saves w.track w.nibs image)
      (hraw : d'.raw = some image) : Committed conformant op d w d'
  | ejected (image : Buf) (hsaves : d.Saves w.track w.nibs image) (drive : Fin 2)
      (host : EjectHost) (hop : op = .eject drive host) (r : Diskette) (err : Option String)
      (hrelease : releaseImage host (d.saved image) = .ok (r, err)) :
      Committed conformant op d w r.empty
  | replaced (image : Buf) (hsaves : d.Saves w.track w.nibs image) (drive : Fin 2)
      (name : List UInt8) (readonly : Bool) (host : InsertHost)
      (hop : op = .insert drive name readonly host) (r : Diskette) (err : Option String)
      (hrelease : releaseImage host.toEjectHost (d.saved image) = .ok (r, err)) (d' : Diskette)
      (err' : Option String)
      (hinsert : insertImage conformant host r.empty name readonly = .ok (d', err')) :
      Committed conformant op d w d'

/-- What a step from `s` to `t` owes the unsaved writes before it: a further write adds one cell
to them, what settles them commits them, and anything else leaves them where they are. No track of
a DSK image stops being dirty or valid otherwise. -/
structure WritesKept (conformant : Bool) (s : Disk6) (unsaved : ℕ → Option GuestTrack) (op : Op)
    (t : Disk6) : Prop where
  added : ∀ i w, unsaved i = some w → GuestWrites s i op →
    (t.disk i).trackDirty = true ∧ (t.disk i).trackValid = true ∧ (t.disk i).track = w.track ∧
      ∃ cell x, (t.disk i).nibbles = Function.update w.nibs cell x
  kept : ∀ i w, unsaved i = some w → ¬ GuestWrites s i op → ¬ Settles s i op →
    (t.disk i).trackDirty = true ∧ (t.disk i).trackValid = true ∧ (t.disk i).track = w.track ∧
      (t.disk i).nibbles = w.nibs
  settled : ∀ i w, unsaved i = some w → Settles s i op →
    Committed conformant op (s.disk i) w (t.disk i)
  cleared : ∀ i, (s.disk i).trackDirty = true → (s.disk i).nibblized = false →
    ((t.disk i).trackDirty = false ∨ (t.disk i).trackValid = false) →
    ∃ w, unsaved i = some w ∧ Committed conformant op (s.disk i) w (t.disk i)

/-! ## What a drive still has to save -/

/-- The unsaved write of a drive can be read off its flags. -/
def Diskette.pending (d : Diskette) : Option GuestTrack :=
  if d.trackDirty = true ∧ d.nibblized = false then
    some { track := d.track, nibs := d.nibbles }
  else none

section Pending
variable {d e : Diskette}

theorem pending_clean (hd : d.trackDirty = false) : d.pending = none :=
  if_neg fun hc => absurd (hc.1.symm.trans hd) (by decide)

theorem pending_nib (hn : d.nibblized = true) : d.pending = none :=
  if_neg fun hc => absurd (hn.symm.trans hc.2) (by decide)

theorem pending_dsk (hd : d.trackDirty = true) (hn : d.nibblized = false) :
    d.pending = some { track := d.track, nibs := d.nibbles } := if_pos ⟨hd, hn⟩

theorem pending_eq_some {w : GuestTrack} (h : d.pending = some w) :
    d.trackDirty = true ∧ d.nibblized = false ∧ d.track = w.track ∧ d.nibbles = w.nibs := by
  unfold Diskette.pending at h
  split at h
  case isTrue hc =>
    cases h
    exact ⟨hc.1, hc.2, rfl, rfl⟩
  case isFalse => cases h

theorem pending_congr (hd : e.trackDirty = d.trackDirty) (hn : e.nibblized = d.nibblized)
    (ht : e.track = d.track) (hb : d.trackDirty = true → e.nibBuffer = d.nibBuffer) :
    e.pending = d.pending := by
  rcases Bool.eq_false_or_eq_true d.trackDirty with hdirty | hdirty
  · unfold Diskette.pending Diskette.nibbles
    rw [hd, hn, ht, hb hdirty]
  · rw [pending_clean hdirty, pending_clean (hd.trans hdirty)]

end Pending

section Steps
variable {conformant : Bool} {s : Disk6} {i : ℕ} {op : Op} {d : Diskette}

/-- An access to C0EC leaves the head on its track. -/
theorem Op.Accesses.not_settles (hop : op.Accesses) : ¬ Settles s i op := by
  have hseek : ∀ ea : UInt16, ea &&& 0xF = 0xC → ¬ ea &&& 0xF ≤ 0x7 := by
    intro ea hea hle
    rw [hea] at hle
    exact absurd hle (by decide)
  cases op with
  | ioRead ea _ => exact fun hset => hset.elim (fun hb => hseek ea hop hb.2.1) id
  | ioWrite ea _ => exact fun hset => hset.elim (fun hb => hseek ea hop hb.2.1) id
  | _ => exact absurd hop id

/-- A track that is dirty is not loaded again. -/
theorem Ensured.of_dirty {b : Buf} {r : ℕ} (h : d.HeadOk conformant) (hd : d.trackDirty = true)
    (he : Ensured conformant d b r) : b = d.nibBuffer ∧ r = d.runByte :=
  he.unique (Ensured.valid (h.dirty_valid hd))

theorem Settled.pending {e : Diskette} (he : Settled d e) : e.pending = none :=
  pending_clean he.not_dirty

/-- What settles a drive leaves nothing unsaved in it. -/
theorem DriveStep.pending_settled (h : ControllerOk conformant s)
    (hs : DriveStep conformant s i op d) (hset : Settles s i op) : d.pending = none := by
  have hi := h.drives i
  cases hs with
  | idle hidle _ hkeep => exact absurd hset (not_or.mpr ⟨hidle, hkeep⟩)
  | moved _ hidle _ hkeep => exact absurd hset (not_or.mpr ⟨hidle, hkeep⟩)
  | turned _ hop => exact absurd hset hop.not_settles
  | left e _ _ _ hflush => exact pending_clean (flushDiskette_settled hi hflush).not_dirty
  | flushed e _ _ hflush => exact pending_clean (flushDiskette_settled hi hflush).not_dirty
  | reset => exact pending_clean rfl
  | ejected => exact pending_clean rfl
  | inserted _ _ _ _ _ _ _ _ _ _ _ _ _ hclean => exact pending_clean hclean

/-- What neither writes to a drive nor settles it keeps its unsaved writes. -/
theorem DriveStep.pending_kept (h : ControllerOk conformant s)
    (hs : DriveStep conformant s i op d) (hwrite : ¬ GuestWrites s i op)
    (hset : ¬ Settles s i op) : d.pending = (s.disk i).pending := by
  have hi := h.drives i
  obtain ⟨hback, hempty⟩ := not_or.mp hset
  cases hs with
  | idle => rfl
  | moved phase _ _ _ _ htrack => exact pending_congr rfl rfl htrack fun _ => rfl
  | turned d hop hdrive ht =>
    generalize hw : s.written = written at ht
    cases ht with
    | absent => exact pending_congr rfl rfl rfl fun _ => rfl
    | passed b r _ he => exact pending_congr rfl rfl rfl fun hd => (he.of_dirty hi hd).1
    | storedNib x b r f _ _ _ hn =>
      rw [pending_nib hn]
      exact pending_nib hn
    | storedDsk x b r _ _ _ _ hn => exact absurd ⟨hop, hdrive, by rw [hw]; nofun, hn⟩ hwrite
  | left _ _ hb => exact absurd hb hback
  | flushed _ hb => exact absurd hb hback
  | reset _ _ hb => exact absurd hb hback
  | ejected drive host hop hdrive =>
    subst hop
    exact absurd hdrive hempty
  | inserted drive name readonly host hop hdrive =>
    subst hop
    exact absurd hdrive hempty

/-- A store in a cell of the track under the head. -/
theorem from_update (b : Buf) (off cell : ℕ) (x : UInt8) :
    Buf.from (Function.update b (off + cell) x) off = Function.update (b.from off) cell x := by
  funext j
  rcases eq_or_ne j cell with rfl | hne
  · rw [Buf.from, Function.update_self, Function.update_self]
  · have hcell : off + j ≠ off + cell := fun he => hne (Nat.add_left_cancel he)
    rw [Buf.from, Function.update_of_ne hcell, Function.update_of_ne hne]
    rfl

/-- A write of the guest adds one cell to the unsaved writes. -/
theorem DriveStep.pending_added (h : ControllerOk conformant s)
    (hs : DriveStep conformant s i op d) (hwrite : GuestWrites s i op) :
    d.pending = some { track := (s.disk i).track, nibs := d.nibbles } ∧
      ∀ w, (s.disk i).pending = some w → ∃ cell x, d.nibbles = Function.update w.nibs cell x := by
  have hi := h.drives i
  obtain ⟨hop, hdrive, hsome, hn⟩ := hwrite
  cases hs with
  | idle _ hquiet => exact absurd ⟨hop, hdrive⟩ hquiet
  | moved _ _ hquiet => exact absurd hop hquiet
  | turned d _ _ ht =>
    generalize s.written = written at ht hsome
    cases ht with
    | absent => exact absurd rfl hsome
    | passed => exact absurd rfl hsome
    | storedNib x b r f _ _ _ hn' => exact absurd (hn.symm.trans hn') (by decide)
    | storedDsk x b r _ he =>
      refine ⟨pending_dsk rfl hn, fun w hw => ?_⟩
      obtain ⟨hd, -, -, hnibs⟩ := pending_eq_some hw
      obtain ⟨rfl, rfl⟩ := he.of_dirty hi hd
      refine ⟨(s.disk i).runByte, x, ?_⟩
      rw [← hnibs]
      exact from_update _ _ _ _
  | left _ _ _ hquiet => exact absurd hop hquiet
  | flushed _ _ hquiet => exact absurd hop hquiet
  | reset _ hop' =>
    subst hop'
    exact absurd hop id
  | ejected _ _ hop' =>
    subst hop'
    exact absurd hop id
  | inserted _ _ _ _ hop' =>
    subst hop'
    exact absurd hop id

/-! ## Runs -/

/-- Recorded runs keep track of exactly what the drives have to save. -/
theorem unsavedAfter_pending {t : Disk6} (h : ControllerOk conformant s)
    (hs : step conformant s op = .ok t) {unsaved : ℕ → Option GuestTrack}
    (hunsaved : ∀ i, unsaved i = (s.disk i).pending) (i : ℕ) :
    unsavedAfter s t op unsaved i = (t.disk i).pending := by
  have hi := (step_drives h hs).2 i
  unfold unsavedAfter
  by_cases hwrite : GuestWrites s i op
  · obtain ⟨hpending, -⟩ := hi.pending_added h hwrite
    obtain ⟨-, -, htrack, -⟩ := pending_eq_some hpending
    rw [if_pos hwrite, hpending, htrack]
  · rw [if_neg hwrite]
    by_cases hset : Settles s i op
    · rw [if_pos hset, hi.pending_settled h hset]
    · rw [if_neg hset, hunsaved, hi.pending_kept h hwrite hset]

theorem recordedRun_pending {ops : List Op} {unsaved : ℕ → Option GuestTrack}
    (h : recordedRun conformant ops = .ok (s, unsaved)) (i : ℕ) :
    unsaved i = (s.disk i).pending := by
  have hrule := runM_invariant
    (fun r : Disk6 × (ℕ → Option GuestTrack) => ControllerOk conformant r.1 ∧
      ∀ i, r.2 i = (r.1.disk i).pending) ?_
    ⟨initDisk6_ok conformant, fun _ => rfl⟩ h
  · exact hrule.2 i
  · rintro ⟨s, unsaved⟩ op r ⟨hok, hunsaved⟩ hr
    obtain ⟨t, ht, hr⟩ := bind_eq_ok.mp hr
    cases hr
    obtain ⟨hdrive, hall⟩ := step_drives hok ht
    exact ⟨⟨hdrive, fun i => (hall i).headOk hok⟩, unsavedAfter_pending hok ht hunsaved⟩

/-- A flush that settles a dirty DSK image commits its unsaved write. -/
theorem Settled.committed {e d' : Diskette} {w : GuestTrack} (hd : d.HeadOk conformant)
    (he : Settled d e) (hw : d.pending = some w) (hraw : d'.raw = e.raw) :
    Committed conformant op d w d' := by
  obtain ⟨hdirty, hn, htrack, hnibs⟩ := pending_eq_some hw
  cases he with
  | clean hclean => exact absurd (hdirty.symm.trans hclean) (by decide)
  | saved image _ _ hdsk =>
    have hsaves := hdsk hn
    rw [htrack, hnibs] at hsaves
    refine Committed.held image d' hsaves (hraw.trans ?_)
    unfold Diskette.raw Diskette.saved
    simp only [hd.mapped hdirty]

/-- Closing a dirty DSK image flushes it, and gives back what the flush left. -/
theorem closeImage_committed {host : EjectHost} {r : Diskette} {err : Option String}
    {w : GuestTrack} (hd : d.HeadOk conformant) (hw : d.pending = some w) (hfd : d.fd ≠ 0)
    (hclose : closeImage host d = .ok (r, err)) :
    ∃ image, d.Saves w.track w.nibs image ∧ releaseImage host (d.saved image) = .ok (r, err) := by
  obtain ⟨hdirty, hn, htrack, hnibs⟩ := pending_eq_some hw
  have hcloses : 0 < d.fd ∧ d.isProtected = false := by
    refine ⟨?_, hd.dirty_writable hdirty⟩
    have := hd.fd_of_dirty hdirty
    omega
  unfold closeImage at hclose
  rw [if_pos hcloses] at hclose
  obtain ⟨e, hflush, hrelease⟩ := bind_eq_ok.mp hclose
  cases flushDiskette_settled hd hflush with
  | clean hclean => exact absurd (hdirty.symm.trans hclean) (by decide)
  | saved image _ _ hdsk =>
    have hsaves := hdsk hn
    rw [htrack, hnibs] at hsaves
    exact ⟨image, hsaves, hrelease⟩

/-- What settles a drive commits its unsaved write, unless it is an eject of descriptor 0. -/
theorem DriveStep.committed {w : GuestTrack} (h : ControllerOk conformant s)
    (hs : DriveStep conformant s i op d) (hset : Settles s i op) (hw : (s.disk i).pending = some w)
    (hfd : op.Empties i → (s.disk i).fd ≠ 0) : Committed conformant op (s.disk i) w d := by
  have hi := h.drives i
  cases hs with
  | idle hidle _ hkeep => exact absurd hset (not_or.mpr ⟨hidle, hkeep⟩)
  | moved _ hidle _ hkeep => exact absurd hset (not_or.mpr ⟨hidle, hkeep⟩)
  | turned _ hop => exact absurd hset hop.not_settles
  | left e _ _ _ hflush => exact (flushDiskette_settled hi hflush).committed hi hw rfl
  | flushed e _ _ hflush => exact (flushDiskette_settled hi hflush).committed hi hw rfl
  | reset e _ _ hflush => exact (flushDiskette_settled hi hflush).committed hi hw rfl
  | ejected drive host hop hdrive r err hclose =>
    subst hop
    obtain ⟨image, hsaves, hrelease⟩ := closeImage_committed hi hw (hfd hdrive) hclose
    exact Committed.ejected image hsaves drive host rfl r err hrelease
  | inserted drive name readonly host hop hdrive r err hclose d err' hinsert =>
    subst hop
    obtain ⟨image, hsaves, hrelease⟩ := closeImage_committed hi hw (hfd hdrive) hclose
    exact Committed.replaced image hsaves drive name readonly host rfl r err hrelease d err' hinsert

end Steps

/-- No operation of the run empties a drive with a dirty DSK image on descriptor 0, which the eject
takes for an empty drive. -/
def ClosesDirty (conformant : Bool) (ops : List Op) : Prop :=
  ∀ pre op post s, ops = pre ++ op :: post → runM (step conformant) initDisk6 pre = .ok s →
    ∀ i, op.Empties i → (s.disk i).trackDirty = true → (s.disk i).nibblized = false →
      (s.disk i).fd ≠ 0

/-- Every step of the run keeps the unsaved writes before it or commits them. -/
def NoLostWrite (conformant : Bool) (ops : List Op) : Prop :=
  ∀ pre op post s unsaved t, ops = pre ++ op :: post →
    recordedRun conformant pre = .ok (s, unsaved) → step conformant s op = .ok t →
    WritesKept conformant s unsaved op t

/-- **No lost disk write**, in a run that never empties a drive with a dirty DSK image on
descriptor 0. -/
theorem no_lost_write (conformant : Bool) (ops : List Op) (hcloses : ClosesDirty conformant ops) :
    NoLostWrite conformant ops := by
  intro pre op post s unsaved t hops hpre hstep
  have hrun := recordedRun_run hpre
  have h := run_ok hrun
  have ht := run_ok (runM_append_ok hrun ((runM_cons_ok [] hstep).trans (runM_nil t)))
  have hpending := recordedRun_pending hpre
  have hall := (step_drives h hstep).2
  have hcommit : ∀ i w, unsaved i = some w → Settles s i op →
      Committed conformant op (s.disk i) w (t.disk i) := by
    intro i w hw hset
    rw [hpending] at hw
    obtain ⟨hdirty, hn, -⟩ := pending_eq_some hw
    exact (hall i).committed h hset hw fun hempty =>
      hcloses pre op post s hops hrun i hempty hdirty hn
  have hadded : ∀ i, GuestWrites s i op → (t.disk i).trackDirty = true ∧
      (t.disk i).track = (s.disk i).track := by
    intro i hwrite
    obtain ⟨hdirty, -, htrack, -⟩ := pending_eq_some ((hall i).pending_added h hwrite).1
    exact ⟨hdirty, htrack⟩
  refine ⟨?_, ?_, hcommit, ?_⟩
  · intro i w hw hwrite
    rw [hpending] at hw
    obtain ⟨-, -, htrack, -⟩ := pending_eq_some hw
    obtain ⟨hdirty, hsame⟩ := hadded i hwrite
    exact ⟨hdirty, (ht.drives i).dirty_valid hdirty, hsame.trans htrack,
      ((hall i).pending_added h hwrite).2 w hw⟩
  · intro i w hw hwrite hset
    rw [hpending, ← (hall i).pending_kept h hwrite hset] at hw
    obtain ⟨hdirty, -, htrack, hnibs⟩ := pending_eq_some hw
    exact ⟨hdirty, (ht.drives i).dirty_valid hdirty, htrack, hnibs⟩
  · intro i hdirty hn hcleared
    have hw : unsaved i = some { track := (s.disk i).track, nibs := (s.disk i).nibbles } := by
      rw [hpending]
      exact pending_dsk hdirty hn
    have hset : Settles s i op := by
      by_contra hset
      have hstill : (t.disk i).trackDirty = true := by
        by_cases hwrite : GuestWrites s i op
        · exact (hadded i hwrite).1
        · rw [hpending, ← (hall i).pending_kept h hwrite hset] at hw
          exact (pending_eq_some hw).1
      have hvalid := (ht.drives i).dirty_valid hstill
      rcases hcleared with hc | hc
      · exact absurd (hstill.symm.trans hc) (by decide)
      · exact absurd (hvalid.symm.trans hc) (by decide)
    exact ⟨_, hw, hcommit i _ hw hset⟩

/-! ## Descriptor 0 -/

/-- No image of the run is inserted on descriptor 0. -/
def NoDescriptorZero (ops : List Op) : Prop :=
  ∀ drive name readonly host, Op.insert drive name readonly host ∈ ops → host.dup ≠ some 0

theorem DriveStep.fd_ne {conformant : Bool} {s : Disk6} {i : ℕ} {op : Op} {d : Diskette}
    (h : ControllerOk conformant s) (hs : DriveStep conformant s i op d)
    (hdup : NoDescriptorZero [op]) (hfd : (s.disk i).fd ≠ 0) : d.fd ≠ 0 := by
  have hi := h.drives i
  have hflushed : ∀ e, flushDiskette (s.disk i) = .ok e → e.fd ≠ 0 := by
    intro e he
    cases flushDiskette_settled hi he with
    | clean => exact hfd
    | saved => exact hfd
  cases hs with
  | idle => exact hfd
  | moved => exact hfd
  | turned d _ _ ht =>
    generalize s.written = written at ht
    cases ht <;> exact hfd
  | left e _ _ _ hflush => exact hflushed e hflush
  | flushed _ _ _ hflush => exact hflushed _ hflush
  | reset e _ _ hflush => exact hflushed e hflush
  | ejected => exact (by decide : (-1 : ℤ) ≠ 0)
  | inserted drive name readonly host hop hdrive r err hclose d err' hinsert =>
    have hphase : r.phase ≤ 69 := by
      rw [closeImage_phase hi _ hclose]
      exact hi.phase_le
    obtain ⟨e, err'', hok, -, -, hdesc⟩ :=
      insertImage_ok conformant host hphase name readonly
    rw [hok] at hinsert
    cases hinsert
    rcases hdesc with hnone | hopen
    · rw [hnone]
      decide
    · rw [hopen]
      rcases openImage_fd (d := r) host name readonly with hnone | hro | ⟨fd, hfd', heq⟩
      · rw [hnone]
        decide
      · rw [hro]
        decide
      · have hne := hdup drive name readonly host (by rw [hop]; exact List.mem_singleton.mpr rfl)
        rw [heq]
        intro hzero
        rw [hfd', Int.natCast_eq_zero.mp hzero] at hne
        exact hne rfl

/-- Images on other descriptors are always closed. -/
theorem closesDirty_of_descriptors (conformant : Bool) (ops : List Op)
    (hdup : NoDescriptorZero ops) : ClosesDirty conformant ops := by
  have hfd : ∀ pre s, (∀ op ∈ pre, op ∈ ops) → runM (step conformant) initDisk6 pre = .ok s →
      ∀ i, (s.disk i).fd ≠ 0 := by
    intro pre
    induction pre using List.reverseRecOn with
    | nil =>
      intro s _ hs i
      cases hs
      exact (by decide : (-1 : ℤ) ≠ 0)
    | append_singleton pre op ih =>
      intro s hsub hs i
      obtain ⟨t, hpre, hlast⟩ := runM_prefix hs
      have hstep : step conformant t op = .ok s := by
        cases ht : step conformant t op with
        | ok r =>
          rw [runM_cons_ok [] ht] at hlast
          exact hlast
        | error f =>
          rw [runM_cons_error [] ht] at hlast
          cases hlast
      have ht := ih t (fun o ho => hsub o (List.mem_append_left _ ho)) hpre i
      refine ((step_drives (run_ok hpre) hstep).2 i).fd_ne (run_ok hpre) ?_ ht
      intro drive name readonly host hmem
      exact hdup drive name readonly host (hsub _ (List.mem_append_right _ hmem))
  intro pre op post s hops hpre i _ _ _
  apply hfd pre s _ hpre i
  intro o ho
  rw [hops]
  exact List.mem_append_left _ ho

/-! ## A lost write -/

/-- The image with 1 in its first byte. -/
def markedImage : Buf := fun i => if i = 0 then 1 else 0

/-- Its first byte changes two nibbles of the track. -/
theorem markedBlock_zero :
    trackBlock false (skewTable6 false) 0 markedImage 0 =
      ((trackBlock false (skewTable6 false) 0 (fun _ => 0) 0).set 23 0x9A).set 24 0x9A := by
  decide +kernel

theorem markedBlock_succ (sector : ℕ) (hs : sector + 1 < numSectors) :
    trackBlock false (skewTable6 false) 0 markedImage (sector + 1) =
      trackBlock false (skewTable6 false) 0 (fun _ => 0) (sector + 1) := by
  have hskew : ∀ s, s < 15 → 0 < secOff (skewTable6 false) (s + 1) := by decide
  have hpos := hskew sector (by rw [numSectors] at hs; omega)
  have hbuf : (fun i => markedImage (secOff (skewTable6 false) (sector + 1) + i)) = fun _ => 0 := by
    funext i
    exact if_neg (by omega)
  rw [trackBlock, trackBlock, hbuf]

theorem markedNibbles (i : ℕ) (hi : i < trackWidth false) :
    trackNibbles false (skewTable6 false) 0 markedImage i =
      Function.update (Function.update (trackNibbles false (skewTable6 false) 0 fun _ => 0)
        31 0x9A) 32 0x9A i := by
  have hwidth : trackWidth false = 8 + 16 * 377 := rfl
  by_cases hgap : i < 8
  · rw [Function.update_of_ne (by omega), Function.update_of_ne (by omega),
      trackNibbles_gap false _ _ _ i hgap, trackNibbles_gap false _ _ _ i hgap]
  · obtain ⟨sector, j, hsector, hj, rfl⟩ :
        ∃ sector j, sector < 16 ∧ j < 377 ∧ i = 8 + sector * 377 + j :=
      ⟨(i - 8) / 377, (i - 8) % 377, by omega, by omega, by omega⟩
    have hblock := fun buf =>
      trackNibbles_block false (skewTable6 false) 0 buf sector j hsector hj
    have hlen : j < (trackBlock false (skewTable6 false) 0 (fun _ => 0) sector).length := by
      rw [trackBlock_length]
      exact hj
    have hstart : blockStart false sector + j = 8 + sector * 377 + j := rfl
    rw [hstart] at hblock
    rw [hblock]
    cases sector with
    | zero =>
      rw [markedBlock_zero, List.getD_eq_getElem _ _ (by simpa using hlen), List.getElem_set,
        List.getElem_set, Function.update_apply, Function.update_apply, hblock,
        List.getD_eq_getElem _ _ hlen]
      have h31 : 8 + 0 * 377 + j = 31 ↔ 23 = j := by omega
      have h32 : 8 + 0 * 377 + j = 32 ↔ 24 = j := by omega
      simp only [h31, h32]
    | succ sector =>
      rw [markedBlock_succ sector hsector, Function.update_of_ne (by omega),
        Function.update_of_ne (by omega), hblock]

/-- With a blank image in drive 0 on descriptor `fd` the guest waits for the first data field,
stores two nibbles in it and ejects the image. -/
def markedRun (fd : ℕ) : List Op :=
  .insert 0 dskName false (blankHost fd) :: (List.replicate 31 (.ioRead 0xC0EC 0) ++
    [.ioWrite 0xC0EF 0x9A, .ioWrite 0xC0EC 0x9A, .ioWrite 0xC0EC 0x9A])

/-- The stores turn the nibbles of the blank track into those of the marked one. -/
theorem marked_stored (fd : ℕ) : ∃ s b stored,
    runM (step false) initDisk6 (markedRun fd) = .ok s ∧
    Session false s 1 ((blankDisk false fd b).spun stored 33 true) ∧
    ring stored (trackWidth false) = trackRing false (skewTable6 false) 0 markedImage := by
  have hfd : (0 : ℤ) ≤ fd := Int.natCast_nonneg fd
  obtain ⟨b, s1, hs1, h1⟩ := session_insert false fd
  obtain ⟨nibs, hnibs, he1⟩ := ensured_blank false fd b
  obtain ⟨s2, hs2, h2, -⟩ := h1.reads hfd he1 30 (by decide : 0 + 30 + 1 < trackWidth false)
  obtain ⟨s3, hs3, hlatch3, h3⟩ := h2.writeMode 0x9A
  obtain ⟨s4, hs4, hlatch4, h4⟩ :=
    h3.write hfd rfl rfl (ensured_spun _ _ _) (by rw [hlatch3]; decide) 0x9A
  obtain ⟨s5, hs5, -, h5⟩ :=
    h4.write hfd rfl rfl (ensured_spun _ _ _) (by rw [hlatch4]; decide) 0x9A
  have hnext : ∀ r, r < 33 → (blankDisk false fd b).nextByte r = r + 1 := fun r hr =>
    blankDisk_nextByte false fd b r (Nat.lt_of_le_of_lt hr (by decide))
  simp only [spun_spun, spun_track, spun_nextByte, blankDisk_track, hnext, hlatch3, hlatch4,
    Nat.mul_zero, Nat.zero_add, Nat.reduceLT, Nat.reduceAdd] at h5
  refine ⟨s5, b, _, ?_, h5, ?_⟩
  · exact (runM_cons_ok _ hs1).trans <| runM_append_ok hs2 <| (runM_cons_ok _ hs3).trans <|
      (runM_cons_ok _ hs4).trans <| runM_cons_ok _ hs5
  · apply ring_congr _ _ _ (trackWidth_pos false)
    intro i hi
    have hlen := nibblizeTrack_length _ _ _ _ _ hnibs
    rw [nibblizeTrack_eq] at hnibs
    cases hnibs
    have hblank : ∀ i, i < trackWidth false → storeNibbles b 0 _ i =
        trackNibbles false (skewTable6 false) 0 (fun _ => 0) i := fun i hi =>
      if_pos ⟨Nat.zero_le i, Nat.lt_of_lt_of_eq hi hlen.symm⟩
    rw [markedNibbles i hi, Function.update_apply, Function.update_apply, hblank i hi,
      Function.update_apply, Function.update_apply]

/-- Saving the guest's stores would mark the image. -/
theorem marked_saves {fd : ℕ} {b stored image : Buf}
    (hring : ring stored (trackWidth false) = trackRing false (skewTable6 false) 0 markedImage)
    (hsaves : ((blankDisk false fd b).spun stored 33 true).Saves 0 (stored.from 0) image) :
    image 0 = 1 := by
  obtain ⟨skew, decoded, hskew, hdecode, rfl⟩ := hsaves
  have hskew' : skewTable6 false = skew := Option.some.inj hskew
  have hfrom : stored.from 0 = stored := by
    funext i
    rw [Buf.from, Nat.zero_add]
  have hwidth : ((blankDisk false fd b).spun stored 33 true).trackWidth = trackWidth false := rfl
  rw [hfrom, hwidth, ← hskew', decode_track false (skewTable6 false) 0 markedImage stored hring]
    at hdecode
  cases hdecode
  have hin : InSectors (skewTable6 false) numSectors 0 :=
    (inSectors_skewTable6 false 0).mpr (by decide)
  rw [Buf.splice, Nat.mul_zero, if_pos (Nat.le_refl 0), Nat.sub_zero, if_pos hin]
  rfl

/-- **The counterexample**: on descriptor 0 the eject leaves the blank image as it was. -/
theorem markedRun_loses :
    ¬ NoLostWrite false (markedRun 0 ++ [.eject 0 (blankHost 0).toEjectHost]) := by
  intro h
  obtain ⟨s, b, stored, hrun, hsession, hring⟩ := marked_stored 0
  obtain ⟨unsaved, hrecorded⟩ := run_recordedRun hrun
  have hfd : ((blankDisk false 0 b).spun stored 33 true).fd = 0 := rfl
  have hskip : ejectDiskette (blankHost 0).toEjectHost (s.disk 0) =
      .ok ((s.disk 0).empty, none) := by
    apply ejectDiskette_skip
    rintro ⟨hpos, -⟩
    rw [hsession.disk, hfd] at hpos
    exact absurd hpos (by decide)
  have hstep : step false s (.eject 0 (blankHost 0).toEjectHost) =
      .ok (s.setDisk 0 (s.disk 0).empty) := by
    show (ejectDiskette (blankHost 0).toEjectHost (s.disk 0) >>= _) = _
    rw [hskip]
    rfl
  have hpending : unsaved 0 = some { track := 0, nibs := stored.from 0 } := by
    rw [recordedRun_pending hrecorded, hsession.disk, pending_dsk rfl rfl, Diskette.nibbles,
      spun_track, blankDisk_track]
    rfl
  have hcommitted := (h _ _ [] s unsaved _ rfl hrecorded hstep).settled 0 _ hpending (Or.inr rfl)
  rw [Disk6.setDisk_self, hsession.disk] at hcommitted
  generalize hejected : ((blankDisk false 0 b).spun stored 33 true).empty = d' at hcommitted
  cases hcommitted with
  | held image _ _ hraw =>
    subst hejected
    cases hraw
  | ejected image hsaves drive host hop r err hrelease =>
    -- the image is not compressed, and would have been given back as it was saved
    have hplain : releaseImage host (((blankDisk false 0 b).spun stored 33 true).saved image) =
        .ok (((blankDisk false 0 b).spun stored 33 true).saved image, none) := rfl
    rw [hplain] at hrelease
    cases hrelease
    have hmarked := marked_saves hring hsaves
    have hsame := congrArg (fun d => d.file.bytes 0) hejected
    have hblank : (0 : UInt8) = image 0 := hsame
    rw [hmarked] at hblank
    exact absurd hblank (by decide)
  | replaced _ _ _ _ _ _ hop => cases hop

/-- On any other descriptor it is saved. -/
theorem markedRun_kept :
    NoLostWrite false (markedRun 3 ++ [.eject 0 (blankHost 3).toEjectHost]) := by
  apply no_lost_write
  apply closesDirty_of_descriptors
  intro drive name readonly host hmem
  simp only [markedRun, List.cons_append, List.mem_cons, List.mem_append, List.mem_replicate,
    List.not_mem_nil, or_false, Op.insert.injEq, reduceCtorEq, and_false] at hmem
  obtain ⟨-, -, -, rfl⟩ := hmem
  exact (by decide : some 3 ≠ some 0)

end Apple2ix.Disk
