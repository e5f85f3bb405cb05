import Apple2ix.Disk.InsertSteps

/-! What an insert leaves in a drive, wherever its head stands. The phase of a diskette may be any
byte after a state was loaded, but no part of `disk6_insert` looks at it. -/
namespace Apple2ix.Disk
open Loops
set_option autoImplicit false

/-! ## The phase -/

section Phase
variable {conformant : Bool} {d : Diskette}

theorem nibblize_loop_phase (phase n : ℕ) :
    forUpM (n + 1) (nibblizeStep conformant) { d with phase := phase } =
      forUpM (n + 1) (nibblizeStep conformant) d := by
  induction n with
  | zero => rfl
  | succ n ih => rw [forUpM_succ, ih, ← forUpM_succ]

/-- The nibbles of an image do not depend on where the head stands. -/
theorem attachNibbles_phase (phase : ℕ) :
    attachNibbles conformant { d with phase := phase } =
      (attachNibbles conformant d).map fun e => { e with phase := phase } := by
  unfold attachNibbles
  rcases Bool.eq_false_or_eq_true d.nibblized with hn | hn
  · rw [if_pos hn, if_pos hn]
    rfl
  · have hloop : forUpM numTracks (nibblizeStep conformant)
          { d with nibImageData := .nibBuffer, trackWidth := 0, phase := phase } =
        forUpM numTracks (nibblizeStep conformant)
          { d with nibImageData := .nibBuffer, trackWidth := 0 } :=
      nibblize_loop_phase (d := { d with nibImageData := .nibBuffer, trackWidth := 0 }) phase
        (numTracks - 1)
    rw [if_neg (by rw [hn]; decide), if_neg (by rw [hn]; decide), hloop]
    cases forUpM numTracks (nibblizeStep conformant)
      { d with nibImageData := .nibBuffer, trackWidth := 0 } <;> rfl

theorem openImage_phase (host : InsertHost) (phase : ℕ) :
    openImage host { d with phase := phase } =
      ({ (openImage host d).1 with phase := phase }, (openImage host d).2) := by
  unfold openImage
  rcases Bool.eq_false_or_eq_true d.isProtected with hp | hp
  · rw [if_pos hp, if_pos hp]
  · rw [if_neg (by rw [hp]; decide), if_neg (by rw [hp]; decide)]
    cases host.dup with
    | none => rfl
    | some fd =>
      cases hinflate : (host.zlibInflateInplace d.wholeLen).1 with
      | some err => simp only [hinflate]
      | none =>
        simp only [hinflate]
        cases host.mmapOk <;> rfl

/-- Opening an image sets what it reads and where it reads it from. -/
theorem openImage_frame (host : InsertHost) (d : Diskette) :
    ∃ fd ptr rb f, (openImage host d).1 =
      { d with fd := fd, rawImageData := ptr, rawBuffer := rb, file := f } := by
  unfold openImage
  rcases Bool.eq_false_or_eq_true d.isProtected with hp | hp
  · rw [if_pos hp]
    exact ⟨_, _, _, _, rfl⟩
  · rw [if_neg (by rw [hp]; decide)]
    cases host.dup with
    | none => exact ⟨_, _, _, _, rfl⟩
    | some fd =>
      cases hinflate : (host.zlibInflateInplace d.wholeLen).1 with
      | some err =>
        simp only [hinflate]
        exact ⟨_, _, _, _, rfl⟩
      | none =>
        simp only [hinflate]
        cases host.mmapOk <;> exact ⟨_, _, _, _, rfl⟩

end Phase

/-! ## Inserts -/

/-- The image can be opened in the drive `d`. -/
def InsertHost.Opens (host : InsertHost) (d : Diskette) (name : List UInt8) (readonly : Bool) :
    Prop := (openImage host (d.empty.named name readonly)).2 = (none, true)

/-- What `disk6_insert` leaves in the drive `d`, and the error it returns. -/
inductive Inserted (conformant : Bool) (host : InsertHost) (d : Diskette) (name : List UInt8)
    (readonly : Bool) : Diskette → Option String → Prop
  | refused (o : Diskette) (err : String) (hclosed : ¬ host.Opens d name readonly)
      (hphase : o.phase = d.phase) (hrun : o.runByte = d.runByte) :
      Inserted conformant host d name readonly o.empty (some err)
  | opened (fd : ℤ) (rb b : Buf) (f : ImageFile) (ptr : NibPtr) (w : ℕ)
      (hopens : host.Opens d name readonly)
      (hopen : (openImage host (d.empty.named name readonly)).1 =
        { d.empty.named name readonly with
          fd := fd, rawBuffer := rb, file := f
          rawImageData := if readonly then .rawBuffer else .mapping })
      (hfd : 0 ≤ fd)
      (hhead : ∀ phase ≤ 69, ({ d.empty.named name readonly with
          fd := fd, rawBuffer := rb, file := f
          rawImageData := if readonly then .rawBuffer else .mapping
          nibImageData := ptr, nibBuffer := b, trackWidth := w, phase := phase } :
        Diskette).HeadOk conformant) :
      Inserted conformant host d name readonly
        { d.empty.named name readonly with
          fd := fd, rawBuffer := rb, file := f
          rawImageData := if readonly then .rawBuffer else .mapping
          nibImageData := ptr, nibBuffer := b, trackWidth := w }
        none

section Inserts
variable (conformant : Bool) (host : InsertHost) (d : Diskette) (name : List UInt8)
  (readonly : Bool)

/-- **An insert into any empty drive stays in the program.** -/
theorem insertImage_inserted :
    ∃ r err, insertImage conformant host d.empty name readonly = .ok (r, err) ∧
      Inserted conformant host d name readonly r err := by
  obtain ⟨o, err, go, hopen, -, hopened, hprot, hfailed⟩ :=
    openImage_cases host (d := { d with phase := 0 }) (Nat.zero_le _) name readonly
  obtain ⟨fd, ptr, rb, f, hframe⟩ :=
    openImage_frame host (({ d with phase := 0 } : Diskette).empty.named name readonly)
  have hopen' : openImage host (d.empty.named name readonly) =
      ({ o with phase := d.phase }, err, go) := by
    have h :=
      openImage_phase host (d := ({ d with phase := 0 } : Diskette).empty.named name readonly)
      d.phase
    rw [hopen] at h
    exact h
  rw [hopen] at hframe
  simp only at hframe
  unfold insertImage
  simp only [hopen']
  cases go with
  | false =>
    obtain ⟨herr, hnone, -⟩ := hfailed rfl
    obtain ⟨e, rfl⟩ := Option.ne_none_iff_exists'.mp herr
    refine ⟨_, some e, ?_, Inserted.refused { o with phase := d.phase } e ?_ rfl ?_⟩
    · simp only [Bool.false_eq_true, if_false, ok_bind,
        ejectDiskette_failed host.toEjectHost (d := { o with phase := d.phase }) (Or.inr hnone)]
      rfl
    · intro hopens
      rw [InsertHost.Opens, hopen'] at hopens
      cases hopens
    · rw [hframe]
      rfl
  | true =>
    obtain ⟨p, b, w, hattach, hhead⟩ := attachNibbles_ok conformant (hopened rfl)
    have hattach' : attachNibbles conformant { o with phase := d.phase } =
        .ok { o with nibImageData := p, nibBuffer := b, trackWidth := w, phase := d.phase } := by
      rw [attachNibbles_phase, hattach]
      rfl
    simp only [if_true, hattach', ok_bind]
    cases err with
    | some e =>
      have heject := ejectDiskette_failed host.toEjectHost
        (d := { o with nibImageData := p, nibBuffer := b, trackWidth := w, phase := d.phase })
        (Or.inl (hprot rfl nofun))
      refine ⟨_, some e, ?_, Inserted.refused
        { o with nibImageData := p, nibBuffer := b, trackWidth := w, phase := d.phase } e ?_ rfl ?_⟩
      · simp only [heject, ok_bind]
        rfl
      · intro hopens
        rw [InsertHost.Opens, hopen'] at hopens
        cases hopens
      · rw [hframe]
        rfl
    | none =>
      have hraw := (hopened rfl).raw
      have hfd := (hopened rfl).fd_nonneg
      rw [hframe] at hraw hfd
      simp only at hraw hfd
      have hptr : ptr = if readonly then .rawBuffer else .mapping := hraw
      subst hptr
      refine ⟨_, none, rfl, ?_⟩
      rw [hframe] at hhead ⊢
      refine Inserted.opened fd rb b f p w ?_ ?_ hfd fun phase hphase => hhead.moved phase hphase
      · rw [InsertHost.Opens, hopen']
      · rw [hopen', hframe]
        rfl

/-- `disk6_insert` of an empty drive. -/
theorem insertDiskette_inserted :
    ∃ r err, insertDiskette conformant host d.empty name readonly = .ok (r, err) ∧
      Inserted conformant host d name readonly r err := by
  have heject : ejectDiskette host.toEjectHost d.empty = .ok (d.empty, none) :=
    ejectDiskette_skip _ fun hc => absurd hc.1 (by decide : ¬ (0 : ℤ) < -1)
  rw [insertDiskette, heject, ok_bind]
  exact insertImage_inserted conformant host d name readonly

/-- The first `disk6_insert`. -/
theorem insert_inserted : ∃ d err,
    step conformant initDisk6 (.insert 0 name readonly host) = .ok (initDisk6.setDisk 0 d) ∧
      Inserted conformant host (initDisk6.disk 0) name readonly d err := by
  obtain ⟨d, err, hinsert, hinserted⟩ :=
    insertDiskette_inserted conformant host (initDisk6.disk 0) name readonly
  have hempty : (initDisk6.disk 0).empty = initDisk6.disk 0 := rfl
  rw [hempty] at hinsert
  refine ⟨d, err, ?_, hinserted⟩
  show (insertDiskette conformant host (initDisk6.disk 0) name readonly >>= _) = _
  rw [hinsert]
  rfl

end Inserts

end Apple2ix.Disk
