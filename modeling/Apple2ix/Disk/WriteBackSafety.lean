import Apple2ix.Disk.GuestRuns

/-! Write-backs of guest tracks over whole runs. They complete, and stay inside the 4096 bytes of
their track, exactly in the runs that write back numbered tracks only; a guest that stores a data
prologue without a header stops the program at the next seek. -/
namespace Apple2ix.Disk
open Runs
set_option autoImplicit false

/-- The assertions of `denibblize_track` and `denibblize_sector`. -/
def Fault.ofWriteBack : Fault → Bool
  | .unknownNibble | .invalidBytesCount | .invalidPreviousNibblization => true
  | _ => false

/-- Every write-back of the run completes without an assertion, and changes no byte of the raw
image outside the track it saves. -/
def WriteBacksSafe (conformant : Bool) (ops : List Op) : Prop :=
  (∀ f, runM (step conformant) initDisk6 ops = .error f → f.ofWriteBack = false) ∧
  ∀ pre op post s t, ops = pre ++ op :: post → runM (step conformant) initDisk6 pre = .ok s →
    step conformant s op = .ok t → ∀ i, WritesBack s i op → (s.disk i).trackDirty = true →
    ∃ e, saveTrackData (s.disk i) = .ok e ∧
      (∀ j, ¬ (dskTrackSize * (s.disk i).track ≤ j ∧
          j < dskTrackSize * (s.disk i).track + dskTrackSize) →
        e.file.bytes j = (s.disk i).file.bytes j) ∧
      (¬ op.Empties i → (t.disk i).file = e.file)

section Step
variable {conformant : Bool} {s : Disk6} {i : ℕ} {op : Op} {d : Diskette}

/-- A drive that was written back holds the file the flush left. -/
theorem DriveStep.file (hs : DriveStep conformant s i op d) (hback : WritesBack s i op)
    (hempties : ¬ op.Empties i) {e : Diskette} (he : flushDiskette (s.disk i) = .ok e) :
    d.file = e.file := by
  have hsame : ∀ e', flushDiskette (s.disk i) = .ok e' → e'.file = e.file := by
    intro e' he'
    rw [he] at he'
    cases he'
    rfl
  cases hs with
  | idle hidle => exact absurd hback hidle
  | moved _ hidle => exact absurd hback hidle
  | turned d hop =>
    -- an access to C0EC never moves the head
    cases op with
    | ioRead ea _ =>
      have hea : ea &&& 0xF = 0xC := hop
      exact absurd (hea ▸ hback.2.1) (by decide)
    | ioWrite ea _ =>
      have hea : ea &&& 0xF = 0xC := hop
      exact absurd (hea ▸ hback.2.1) (by decide)
    | _ => exact absurd hop id
  | left e' _ _ _ hflush => exact hsame e' hflush
  | flushed e' _ _ hflush => exact hsame _ hflush
  | reset e' _ _ hflush => exact hsame e' hflush
  | ejected drive host hop hdrive =>
    subst hop
    exact absurd hdrive hempties
  | inserted drive name readonly host hop hdrive =>
    subst hop
    exact absurd hdrive hempties

end Step

/-- **Write-back safety.** A run's write-backs are safe if and only if no operation of it writes
back a track with a data field that is not numbered. -/
theorem write_back_safety (conformant : Bool) (ops : List Op) :
    WriteBacksSafe conformant ops ↔
      ∀ pre op post s, ops = pre ++ op :: post → runM (step conformant) initDisk6 pre = .ok s →
        ∀ i, WritesBack s i op → (s.disk i).trackDirty = true → (s.disk i).WriteBackOk := by
  constructor
  · intro h pre op post s hops hpre i hback hdirty
    by_contra hbad
    have hstop := step_stops (run_ok hpre) ⟨hback, hdirty, hbad⟩
    have hrun := (runM_error_iff initDisk6 ops _).mpr ⟨pre, op, post, s, hops, hpre, hstop⟩
    exact absurd (h.1 _ hrun) (by decide)
  · intro h
    refine ⟨fun f hf => ?_, fun pre op post s t hops hpre hstep i hback hdirty => ?_⟩
    · obtain ⟨pre, op, post, s, hops, hpre, hstep⟩ := (runM_error_iff _ _ _).mp hf
      rcases step_fails (run_ok hpre) hstep with rfl | rfl | ⟨-, i, hback, hdirty, hbad⟩
      · rfl
      · rfl
      · exact absurd (h pre op post s hops hpre i hback hdirty) hbad
    · have hi := (run_ok hpre).drives i
      obtain ⟨image, hsave, -, -, hframe⟩ :=
        saveTrackData_ok hi hdirty (h pre op post s hops hpre i hback hdirty)
      refine ⟨_, hsave, hframe, fun hempties => ?_⟩
      obtain ⟨-, hall⟩ := step_drives (run_ok hpre) hstep
      refine (hall i).file hback hempties ?_
      rw [flushDiskette_eq hi, if_pos hdirty]
      exact hsave

/-! ## A guest that stops the program -/

/-- With a blank image in drive 0 the guest stores D5 AA AD at the start of track 0, and moves the
head to track 1. -/
def orphanRun : List Op :=
  [.insert 0 dskName false (blankHost 3), .ioWrite 0xC0EF 0xD5, .ioWrite 0xC0EC 0xAA,
    .ioWrite 0xC0EC 0xAD, .ioWrite 0xC0EC 0xFF, .ioRead 0xC0E3 0, .ioRead 0xC0E5 0]

/-- A track that begins with a data prologue is not numbered. -/
theorem not_numbered_of_orphan (src : Buf) (w : ℕ) (hw : 3 ≤ w) (h0 : src 0 = 0xD5)
    (h1 : src 1 = 0xAA) (h2 : src 2 = 0xAD) : ¬ NumberedTrack src w := by
  have hring : ∀ j, j < 3 → ring src w j = src j := fun j hj => ring_of_lt src w j (by omega)
  intro h
  have hfirst : FirstD5 (ring src w) 0 0 := ⟨nofun, (hring 0 (by omega)).trans h0⟩
  have haa : ring src w (0 + 0 + 1) = 0xAA := (hring 1 (by omega)).trans h1
  have had : ring src w (0 + 0 + 2) = 0xAD := (hring 2 (by omega)).trans h2
  have hfield := h 0 hfirst
  rw [haa, had, if_neg (by decide), if_pos (by decide)] at hfield
  obtain ⟨⟨sector, hnone, -⟩, -⟩ := hfield
  cases hnone

/-- The guest's stores end up at the start of track 0. -/
theorem orphan_stored : ∃ s b stored,
    runM (step false) initDisk6 (orphanRun.take 5) = .ok s ∧
    Session false s 1 ((blankDisk false 3 b).spun stored 3 true) ∧
    stored 0 = 0xD5 ∧ stored 1 = 0xAA ∧ stored 2 = 0xAD := by
  obtain ⟨b, s1, hs1, h1⟩ := session_insert false 3
  obtain ⟨nibs, -, he1⟩ := ensured_blank false 3 b
  obtain ⟨s2, hs2, hlatch2, h2⟩ := h1.writeMode 0xD5
  have hnext : ∀ r, r < 3 → (blankDisk false 3 b).nextByte r = r + 1 := fun r hr =>
    blankDisk_nextByte false 3 b r (Nat.lt_of_le_of_lt hr (by decide))
  -- three stores, at the cells 0, 1 and 2 of the track
  obtain ⟨s3, hs3, hlatch3, h3⟩ :=
    h2.write (Int.natCast_nonneg 3) rfl rfl he1 (by rw [hlatch2]; decide) 0xAA
  obtain ⟨s4, hs4, hlatch4, h4⟩ :=
    h3.write (Int.natCast_nonneg 3) rfl rfl (ensured_spun _ _ _) (by rw [hlatch3]; decide) 0xAD
  obtain ⟨s5, hs5, -, h5⟩ :=
    h4.write (Int.natCast_nonneg 3) rfl rfl (ensured_spun _ _ _) (by rw [hlatch4]; decide) 0xFF
  simp only [spun_spun, spun_track, spun_nextByte, blankDisk_track, hnext, hlatch2, hlatch3,
    hlatch4, Nat.mul_zero, Nat.zero_add, Nat.reduceLT, Nat.reduceAdd] at h5
  refine ⟨s5, b, _, ?_, h5, ?_, ?_, ?_⟩
  · exact (runM_cons_ok _ hs1).trans <| (runM_cons_ok _ hs2).trans <| (runM_cons_ok _ hs3).trans <|
      (runM_cons_ok _ hs4).trans <| runM_cons_ok _ hs5
  · simp
  · simp
  · simp

/-- The magnet of phase 1 pulls the head half a track on. -/
theorem session_half_step {s : Disk6} {e : Diskette} (h : Session false s 1 e) (hp : e.phase = 0) :
    step false s (.ioRead 0xC0E3 0) =
      .ok { s.setDisk 0 { e with phase := 1 } with stepperPhases := 2 } := by
  have hsw : disk6Switch false diskReadLatch s 0xC0E3 = disk6PhaseChange s 0xC0E3 := rfl
  have hsteppers : steppersAfter 0 0xC0E3 = 2 := by decide
  have hhead : headAfter 2 e = 1 := by
    rw [headAfter, hp]
    decide
  have hstay : ¬ LeavesTrack 2 e := by
    rw [LeavesTrack, hhead, Diskette.track, hp]
    decide
  have hok := h.ok.drives 0
  rw [h.disk] at hok
  rw [step, disk6IoRead, hsw, disk6PhaseChange, h.steppers, h.drive, h.disk, hsteppers,
    moveHead_stays hok hstay, hhead]
  rfl

/-- **The counterexample**: the seek at the end of this run fails the assertion on the sector. -/
theorem orphanRun_stops :
    runM (step false) initDisk6 orphanRun = .error .invalidPreviousNibblization := by
  obtain ⟨s, b, stored, hrun, h, h0, h1, h2⟩ := orphan_stored
  have hhalf := session_half_step h rfl
  generalize ht : ({ s.setDisk 0 { (blankDisk false 3 b).spun stored 3 true with phase := 1 } with
    stepperPhases := 2 } : Disk6) = t at hhalf
  have hdisk : t.disk 0 = { (blankDisk false 3 b).spun stored 3 true with phase := 1 } := by
    rw [← ht]
    exact Disk6.setDisk_self (s := s) 0 _
  have hpre : runM (step false) initDisk6 (orphanRun.take 5 ++ [.ioRead 0xC0E3 0]) = .ok t :=
    runM_append_ok hrun (runM_cons_ok [] hhalf)
  refine (runM_error_iff _ _ _).mpr ⟨_, .ioRead 0xC0E5 0, [], t, rfl, hpre, ?_⟩
  -- the magnet of phase 2 pulls it off the track
  apply step_stops (i := 0) (run_ok hpre)
  refine ⟨⟨?_, by decide, ?_⟩, ?_, ?_⟩
  · rw [← ht]
    exact h.drive.symm
  · rw [hdisk, ← ht]
    show nextPhase 1 (stepDirection (steppersAfter 2 0xC0E5) 1) >>> 1 ≠ 1 >>> 1
    decide
  · rw [hdisk]
    rfl
  · rw [hdisk]
    intro hok
    have hnum := hok rfl
    rw [Diskette.nibbles, Diskette.track, show 1 >>> 1 = 0 by decide, Nat.mul_zero] at hnum
    refine not_numbered_of_orphan _ _ ?_ ?_ ?_ ?_ hnum
    · exact (by decide : 3 ≤ trackWidth false)
    · exact h0
    · exact h1
    · exact h2

end Apple2ix.Disk
