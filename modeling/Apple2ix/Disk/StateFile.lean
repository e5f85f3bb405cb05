import Mathlib.Data.Fin.VecNotation
import Apple2ix.Disk.InsertedImages
import Apple2ix.Disk.SaveState

/-! The file of a controller state: four bytes, and a record of variable length for each drive.
What is saved is such a file, `disk6_loadState` accepts nothing else, and what it makes of one is
`Loaded`. -/
namespace Apple2ix.Disk
open Loader
set_option autoImplicit false

/-! ## Numbers -/

theorem byte_of_word (n k : ℕ) : (n &&& 0xFF <<< k) >>> k = n / 2 ^ k % 256 := by
  rw [Nat.shiftRight_and_distrib, Nat.shiftLeft_shiftRight, Nat.shiftRight_eq_div_pow]
  exact Nat.and_two_pow_sub_one_eq_mod _ 8

theorem ofNat_byte_of_word (n k : ℕ) :
    UInt8.ofNat ((n &&& 0xFF <<< k) >>> k) = UInt8.ofNat (n / 2 ^ k) := by
  apply UInt8.toNat_inj.mp
  rw [byte_of_word, UInt8.toNat_ofNat', UInt8.toNat_ofNat']
  omega

theorem serialize32_eq (n : ℕ) :
    serialize32 n = [UInt8.ofNat (n / 2 ^ 24), UInt8.ofNat (n / 2 ^ 16), UInt8.ofNat (n / 2 ^ 8),
      UInt8.ofNat n] := by
  have h0 := ofNat_byte_of_word n 0
  rw [Nat.pow_zero, Nat.div_one] at h0
  rw [← ofNat_byte_of_word n 24, ← ofNat_byte_of_word n 16, ← ofNat_byte_of_word n 8, ← h0]
  rfl

theorem deserialize32_eq (a b c d : UInt8) :
    deserialize32 [a, b, c, d] =
      a.toNat * 2 ^ 24 + b.toNat * 2 ^ 16 + c.toNat * 2 ^ 8 + d.toNat := by
  have hb := b.toNat_lt
  have hc := c.toNat_lt
  have hd := d.toNat_lt
  have h : deserialize32 [a, b, c, d] =
      (((a.toNat <<< 24) ||| (b.toNat <<< 16)) ||| (c.toNat <<< 8)) ||| d.toNat := rfl
  have h1 : (a.toNat <<< 24) ||| (b.toNat <<< 16) = (a.toNat * 2 ^ 8 + b.toNat) <<< 16 := by
    rw [← Nat.shiftLeft_add_eq_or_of_lt (by rw [Nat.shiftLeft_eq]; omega)]
    simp only [Nat.shiftLeft_eq]
    omega
  have h2 : (a.toNat * 2 ^ 8 + b.toNat) <<< 16 ||| (c.toNat <<< 8) =
      ((a.toNat * 2 ^ 8 + b.toNat) * 2 ^ 8 + c.toNat) <<< 8 := by
    rw [← Nat.shiftLeft_add_eq_or_of_lt (by rw [Nat.shiftLeft_eq]; omega)]
    simp only [Nat.shiftLeft_eq]
    omega
  rw [h, h1, h2, ← Nat.shiftLeft_add_eq_or_of_lt (by omega)]
  simp only [Nat.shiftLeft_eq]
  omega

theorem deserialize32_serialize32 (n : ℕ) (h : n < 2 ^ 32) : deserialize32 (serialize32 n) = n := by
  rw [serialize32_eq, deserialize32_eq]
  simp only [UInt8.toNat_ofNat']
  omega

theorem serialize32_deserialize32_bytes (a b c d : UInt8) :
    serialize32 (deserialize32 [a, b, c, d]) = [a, b, c, d] ∧
      deserialize32 [a, b, c, d] < 2 ^ 32 := by
  have ha := a.toNat_lt
  have hb := b.toNat_lt
  have hc := c.toNat_lt
  have hd := d.toNat_lt
  rw [deserialize32_eq, serialize32_eq]
  simp only [List.cons.injEq, and_true, ← UInt8.toNat_inj, UInt8.toNat_ofNat']
  omega

theorem serialize32_deserialize32 {serialized : List UInt8} (h : serialized.length = 4) :
    serialize32 (deserialize32 serialized) = serialized ∧ deserialize32 serialized < 2 ^ 32 := by
  match serialized, h with
  | [a, b, c, d], _ => exact serialize32_deserialize32_bytes a b c d

/-! ## Records -/

/-- What the file says about a drive. The length of the name takes four bytes. -/
structure DriveRecord where
  isProtected : UInt8
  name : List UInt8
  stepperPhases : UInt8
  placeholder : UInt8
  phase : UInt8
  runByteHigh : UInt8
  runByteLow : UInt8
  name_lt : name.length < 2 ^ 32

namespace DriveRecord

def bytes (r : DriveRecord) : List UInt8 :=
  [r.isProtected] ++ (serialize32 r.name.length ++ (r.name ++
    ([r.stepperPhases] ++ ([r.placeholder] ++ ([r.phase] ++ [r.runByteHigh, r.runByteLow])))))

/-- The stepper magnets a load takes from the record. -/
def steppers (r : DriveRecord) : BitVec 32 := BitVec.ofNat 32 (r.stepperPhases.toNat &&& 0x3)

def runByte (r : DriveRecord) : ℕ := (r.runByteHigh.toNat <<< 8) ||| r.runByteLow.toNat

/-- The diskette `f` with the head and the rotation of the record. -/
def restored (r : DriveRecord) (f : Diskette) : Diskette :=
  { f with phase := r.phase.toNat, runByte := r.runByte }

/-- The drive `d`, which was emptied, with the image that the record names, if any. -/
inductive Image (conformant : Bool) (host : InsertHost) (d : Diskette) (r : DriveRecord) :
    Diskette → Prop
  | none (hname : r.name = []) : Image conformant host d r d.empty
  | inserted (hname : r.name ≠ []) (f : Diskette) (err : Option String)
      (hi : Inserted conformant host d (cString r.name) (r.isProtected != 0) f err) :
      Image conformant host d r f

end DriveRecord

/-- The file of a controller state. -/
structure StateFile where
  motorOff : UInt8
  drive : UInt8
  ddrw : UInt8
  diskByte : UInt8
  drives : Fin 2 → DriveRecord

def StateFile.bytes (file : StateFile) : List UInt8 :=
  [file.motorOff] ++ ([file.drive] ++ ([file.ddrw] ++ [file.diskByte])) ++
    ((file.drives 0).bytes ++ (file.drives 1).bytes)

/-! ## Loading a record -/

section LoadDrive
variable (conformant : Bool) (host : LoadHost) (i : ℕ) {s : Disk6} (r : DriveRecord)

theorem reads_loadImage {e : Diskette} (he : s.disk i = e.empty) :
    ∃ f, r.Image conformant host.insert e f ∧
      Reads (loadImage conformant host i (r.isProtected != 0) r.name.length) s r.name
        (s.setDisk i f) := by
  unfold loadImage
  by_cases hname : r.name = []
  · refine ⟨e.empty, .none hname, ?_⟩
    rw [if_neg (by rw [hname]; decide), hname, ← he, Disk6.setDisk_same]
    exact reads_step id
  · obtain ⟨f, err, hok, hi⟩ := insertDiskette_inserted conformant host.insert e (cString r.name)
      (r.isProtected != 0)
    refine ⟨f, .inserted hname f err hi, ?_⟩
    have hlen : r.name.length ≠ 0 := fun h => hname (List.eq_nil_of_length_eq_zero h)
    rw [if_pos hlen]
    refine reads_field rfl ?_
    rw [he, hok]
    rfl

/-- The state after the record `r` of drive `i` was loaded. -/
def recordLoaded (s : Disk6) (i : ℕ) (r : DriveRecord) (f : Diskette) : Disk6 :=
  { s.setDisk i (r.restored f) with stepperPhases := r.steppers }

/-- **A record is read back whole**, once its drive could be ejected. -/
theorem reads_loadDrive {e : Diskette} {err : Option String}
    (heject : ejectDiskette host.eject (s.disk i) = .ok (e.empty, err)) :
    ∃ f, r.Image conformant host.insert e f ∧
      Reads (loadDrive conformant host i) s r.bytes (recordLoaded s i r f) := by
  have hejected : disk6Eject host.eject i s = .ok (s.setDisk i e.empty) := by
    rw [disk6Eject, heject]
    rfl
  obtain ⟨f, himage, hload⟩ := reads_loadImage conformant host i r (s := s.setDisk i e.empty)
    (Disk6.setDisk_self i _)
  rw [Disk6.setDisk_setDisk] at hload
  refine ⟨f, himage, ?_⟩
  have hf : ({ s.setDisk i f with stepperPhases := r.steppers } : Disk6).disk i = f :=
    Disk6.setDisk_self (s := s) i f
  have hlast : ({ s.setDisk i f with stepperPhases := r.steppers } : Disk6).setDisk i
      (r.restored f) = recordLoaded s i r f := by
    unfold recordLoaded Disk6.setDisk
    simp only [Function.update_idem]
  have hhead : ∀ t : Disk6, t.disk i = f →
      (t.setDisk i { t.disk i with phase := r.phase.toNat }).setDisk i
        { (t.setDisk i { t.disk i with phase := r.phase.toNat }).disk i with
          runByte := r.runByte } = t.setDisk i (r.restored f) := by
    intro t ht
    rw [Disk6.setDisk_self, Disk6.setDisk_setDisk, ht]
    rfl
  have hfields : Reads (.all [loadSteppers, loadPlaceholder, loadPhase i, loadRunByte i])
      (s.setDisk i f) ([r.stepperPhases] ++ ([r.placeholder] ++ ([r.phase] ++
        ([r.runByteHigh, r.runByteLow] ++ [])))) (recordLoaded s i r f) := by
    refine Reads.all_cons (reads_field rfl rfl) ?_
    refine Reads.all_cons (reads_field rfl rfl) ?_
    refine Reads.all_cons (reads_field rfl rfl) ?_
    refine Reads.all_cons (reads_field rfl (congrArg Except.ok ?_)) reads_all_nil
    exact (hhead _ hf).trans hlast
  have hdrive := (reads_effect hejected).all_cons (hload.all_cons hfields)
  rw [List.nil_append, List.append_nil] at hdrive
  refine reads_read rfl (reads_read ?_ ?_)
  · rw [serialize32_eq]
    rfl
  · rw [deserialize32_serialize32 _ r.name_lt]
    exact hdrive

/-- A drive whose image cannot be given up stops the program. -/
theorem stops_loadDrive {f : Fault} (heject : ejectDiskette host.eject (s.disk i) = .error f) :
    Stops (loadDrive conformant host i) s r.bytes f := by
  have hejected : disk6Eject host.eject i s = .error f := by
    rw [disk6Eject, heject]
    rfl
  refine stops_read rfl (stops_read ?_ ?_)
  · rw [serialize32_eq]
    rfl
  · exact (stops_effect hejected).andThen

end LoadDrive

/-! ## Loading a file -/

section LoadFile
variable (conformant : Bool) (hosts : Fin 2 → LoadHost) (s : Disk6) (file : StateFile)

/-- The state after the bytes before those of the drives were loaded. -/
def headerLoaded : Disk6 :=
  { s with
    motorOff := file.motorOff.toNat, drive := file.drive.toNat, ddrw := file.ddrw.toNat
    diskByte := file.diskByte }

theorem reads_loadHeader :
    Reads loadHeader s ([file.motorOff] ++ ([file.drive] ++ ([file.ddrw] ++ [file.diskByte])))
      (headerLoaded s file) :=
  fun _ => rfl

/-- **What a load makes of a file**, in the state `s`: the fields are those of the file but for the
magnets, each drive holds the image named for it if it can be inserted, and has the head that the
record says. -/
structure Loaded (t : Disk6) : Prop where
  motorOff : t.motorOff = file.motorOff.toNat
  drive : t.drive = file.drive.toNat
  ddrw : t.ddrw = file.ddrw.toNat
  diskByte : t.diskByte = file.diskByte
  steppers : t.stepperPhases = (file.drives 1).steppers
  drives : ∀ i : Fin 2, ∃ e err f, ejectDiskette (hosts i).eject (s.disk i) = .ok (e.empty, err) ∧
    (file.drives i).Image conformant (hosts i).insert e f ∧
    t.disk i = (file.drives i).restored f
  others : ∀ i, 2 ≤ i → t.disk i = s.disk i

variable {conformant hosts s} in
theorem reads_loadDrives {t : Disk6} {bytes : List UInt8}
    (h : Reads (.all [loadDrive conformant (hosts 0) 0, loadDrive conformant (hosts 1) 1]) s bytes
      t) : Reads (loadDrives conformant hosts) s bytes t := by
  intro rest
  unfold loadDrives
  rw [h rest]
  rfl

variable {conformant hosts s} in
theorem stops_loadDrives {bytes : List UInt8} {f : Fault}
    (h : Stops (.all [loadDrive conformant (hosts 0) 0, loadDrive conformant (hosts 1) 1]) s bytes
      f) : Stops (loadDrives conformant hosts) s bytes f := by
  intro rest
  unfold loadDrives
  rw [h rest]
  rfl

theorem ejected_or (i : Fin 2) :
    (∃ f, ejectDiskette (hosts i).eject (s.disk i) = .error f) ∨
      ∃ e err, ejectDiskette (hosts i).eject (s.disk i) = .ok (Diskette.empty e, err) := by
  unfold ejectDiskette
  cases closeImage (hosts i).eject (s.disk i) with
  | error f => exact .inl ⟨f, rfl⟩
  | ok closed => exact .inr ⟨closed.1, closed.2, rfl⟩

/-- **A file is read to its end**, unless an eject stops the program. -/
theorem reads_disk6LoadState :
    (∃ i f, ejectDiskette (hosts i).eject (s.disk i) = .error f ∧
        Stops (disk6LoadState conformant hosts) s file.bytes f) ∨
      ∃ t, Reads (disk6LoadState conformant hosts) s file.bytes t ∧
        Loaded conformant hosts s file t := by
  have hheader := reads_loadHeader s file
  obtain ⟨f, hstop⟩ | ⟨e, err, heject⟩ := ejected_or hosts s 0
  · have hzero : Stops (loadDrive conformant (hosts 0) 0) (headerLoaded s file)
        (file.drives 0).bytes f := stops_loadDrive conformant (hosts 0) 0 (file.drives 0) hstop
    refine .inl ⟨0, f, hstop, hheader.stops (stops_loadDrives ?_)⟩
    intro rest
    rw [List.append_assoc]
    exact hzero.andThen _
  · obtain ⟨d, himage, hzero⟩ := reads_loadDrive conformant (hosts 0) 0
      (s := headerLoaded s file) (file.drives 0) heject
    obtain ⟨f, hstop⟩ | ⟨e', err', heject'⟩ := ejected_or hosts s 1
    · have hone : Stops (loadDrive conformant (hosts 1) 1)
          (recordLoaded (headerLoaded s file) 0 (file.drives 0) d) (file.drives 1).bytes f :=
        stops_loadDrive conformant (hosts 1) 1 (file.drives 1) hstop
      exact .inl ⟨1, f, hstop, hheader.stops (stops_loadDrives (hzero.stops hone.andThen))⟩
    · obtain ⟨d', himage', hone⟩ := reads_loadDrive conformant (hosts 1) 1
        (s := recordLoaded (headerLoaded s file) 0 (file.drives 0) d) (file.drives 1) heject'
      have hdrives := hzero.all_cons (hone.all_cons reads_all_nil)
      rw [List.append_nil] at hdrives
      refine .inr ⟨_, hheader.andThen (reads_loadDrives hdrives), ?_⟩
      refine ⟨rfl, rfl, rfl, rfl, rfl, ?_, ?_⟩
      · rw [Fin.forall_fin_two]
        exact ⟨⟨e, err, d, heject, himage, rfl⟩, ⟨e', err', d', heject', himage', rfl⟩⟩
      · intro i hi
        have h1 : i ≠ 1 := by omega
        have h0 : i ≠ 0 := by omega
        show ((recordLoaded (headerLoaded s file) 0 (file.drives 0) d).setDisk 1 _).disk i = _
        rw [Disk6.setDisk_ne _ h1]
        exact Disk6.setDisk_ne (s := headerLoaded s file) _ h0

end LoadFile

/-! ## Nothing else is accepted -/

section Accepted
variable (conformant : Bool)

theorem accepts_loadImage (host : LoadHost) (i : ℕ) (isProtected : Bool) (namelen : ℕ) :
    Accepts (loadImage conformant host i isProtected namelen) (·.length = namelen) := by
  unfold loadImage
  by_cases h : namelen ≠ 0
  · rw [if_pos h]
    exact accepts_field _ _
  · rw [if_neg h]
    refine (accepts_step id).mono fun bytes hb => ?_
    rw [hb, not_not.mp h]
    rfl

theorem accepts_loadDrive (host : LoadHost) (i : ℕ) :
    Accepts (loadDrive conformant host i) fun bytes => ∃ r : DriveRecord, bytes = r.bytes := by
  have hfields := fun (isProtected : Bool) (namelen : ℕ) =>
    (accepts_effect (disk6Eject host.eject i)).andThen <|
    (accepts_loadImage conformant host i isProtected namelen).andThen <|
    (accepts_field 1 _ : Accepts loadSteppers _).andThen <|
    (accepts_field 1 _ : Accepts loadPlaceholder _).andThen <|
    (accepts_field 1 _ : Accepts (loadPhase i) _).andThen <|
    (accepts_field 2 _ : Accepts (loadRunByte i) _).andThen <|
    accepts_step (ε := Fault) (σ := Disk6) id
  refine (accepts_read fun state => accepts_read fun serialized =>
    hfields (state.getD 0 0 != 0) (deserialize32 serialized)).mono ?_
  rintro bytes ⟨state, more, hstate, ⟨serialized, fields, hserialized, hfields, rfl⟩, rfl⟩
  obtain ⟨_, _, rfl, ⟨name, _, hname, ⟨x, _, hx, ⟨y, _, hy, ⟨z, _, hz, ⟨w, _, hw, rfl, rfl⟩,
    rfl⟩, rfl⟩, rfl⟩, rfl⟩, rfl⟩ := hfields
  obtain ⟨flag, rfl⟩ := List.length_eq_one_iff.mp hstate
  obtain ⟨steppers, rfl⟩ := List.length_eq_one_iff.mp hx
  obtain ⟨placeholder, rfl⟩ := List.length_eq_one_iff.mp hy
  obtain ⟨phase, rfl⟩ := List.length_eq_one_iff.mp hz
  obtain ⟨high, low, rfl⟩ := List.length_eq_two.mp hw
  obtain ⟨hlen, hlt⟩ := serialize32_deserialize32 hserialized
  rw [← hname] at hlen hlt
  refine ⟨⟨flag, name, steppers, placeholder, phase, high, low, hlt⟩, ?_⟩
  unfold DriveRecord.bytes
  simp only [hlen, List.nil_append, List.append_nil]

theorem loadDrives_accepted {hosts : Fin 2 → LoadHost} {s t : Disk6} {input rest : List UInt8}
    (h : loadDrives conformant hosts s input = .ok (t, rest, true)) :
    Loader.all [loadDrive conformant (hosts 0) 0, loadDrive conformant (hosts 1) 1] s input =
      .ok (t, rest, true) := by
  unfold loadDrives at h
  obtain ⟨drives, hdrives, h⟩ := bind_eq_ok.mp h
  by_cases hloaded : drives.2.2 = true
  · rw [if_pos hloaded] at h
    cases h
    exact hdrives
  · rw [if_neg hloaded] at h
    obtain ⟨t, -, h⟩ := bind_eq_ok.mp h
    obtain ⟨u, -, h⟩ := bind_eq_ok.mp h
    cases h

/-- **Every accepted file has the format.** -/
theorem accepts_disk6LoadState (hosts : Fin 2 → LoadHost) :
    Accepts (disk6LoadState conformant hosts) fun bytes => ∃ file :
      StateFile, bytes = file.bytes := by
  have hheader : Accepts loadHeader _ :=
    (accepts_field 1 _).andThen <| (accepts_field 1 _).andThen <| (accepts_field 1 _).andThen <|
    (accepts_field 1 _).andThen <| accepts_step (ε := Fault) (σ := Disk6) id
  have hdrives : Accepts (loadDrives conformant hosts) _ := fun s input t rest h =>
    ((accepts_loadDrive conformant (hosts 0) 0).andThen
      ((accepts_loadDrive conformant (hosts 1) 1).andThen (accepts_step id))) s input t rest
        (loadDrives_accepted conformant h)
  refine (hheader.andThen hdrives).mono ?_
  rintro bytes ⟨header, drives, hheader, ⟨_, _, ⟨r, rfl⟩, ⟨_, _, ⟨r', rfl⟩, rfl, rfl⟩, rfl⟩, rfl⟩
  obtain ⟨x, _, hx, ⟨y, _, hy, ⟨z, _, hz, ⟨w, _, hw, rfl, rfl⟩, rfl⟩, rfl⟩, rfl⟩ := hheader
  obtain ⟨motorOff, rfl⟩ := List.length_eq_one_iff.mp hx
  obtain ⟨drive, rfl⟩ := List.length_eq_one_iff.mp hy
  obtain ⟨ddrw, rfl⟩ := List.length_eq_one_iff.mp hz
  obtain ⟨diskByte, rfl⟩ := List.length_eq_one_iff.mp hw
  refine ⟨⟨motorOff, drive, ddrw, diskByte, ![r, r']⟩, ?_⟩
  simp [StateFile.bytes]

end Accepted

/-! ## Saving a file -/

/-- A write-back changes the bytes of the image only. -/
theorem saveTrackData_frame {d e : Diskette} (h : saveTrackData d = .ok e) :
    ∃ rb f, e = { d with rawBuffer := rb, file := f, trackDirty := false } := by
  unfold saveTrackData at h
  by_cases hn : d.nibblized = true
  · rw [if_pos hn] at h
    cases h
    exact ⟨d.rawBuffer, d.file, rfl⟩
  · rw [if_neg hn] at h
    obtain ⟨raw, -, h⟩ := bind_eq_ok.mp h
    obtain ⟨nib, -, h⟩ := bind_eq_ok.mp h
    obtain ⟨skew, -, h⟩ := bind_eq_ok.mp h
    obtain ⟨decoded, -, h⟩ := bind_eq_ok.mp h
    cases h
    obtain ⟨rb, f, hset⟩ := d.setRaw_sameDrive (raw.splice (dskTrackSize * d.track) decoded)
    rw [hset]
    exact ⟨rb, f, rfl⟩

theorem flushDiskette_frame {d e : Diskette} (h : flushDiskette d = .ok e) :
    ∃ rb f dirty, e = { d with rawBuffer := rb, file := f, trackDirty := dirty } := by
  unfold flushDiskette at h
  split at h
  · cases h
    exact ⟨_, _, _, rfl⟩
  · split at h
    · cases h
      exact ⟨_, _, _, rfl⟩
    · split at h
      · cases h
        exact ⟨_, _, _, rfl⟩
      · split at h
        · obtain ⟨rb, f, rfl⟩ := saveTrackData_frame h
          exact ⟨rb, f, false, rfl⟩
        · cases h
          exact ⟨_, _, _, rfl⟩

/-- The record that is saved for the diskette `d`. -/
structure DriveRecord.Saves (r : DriveRecord) (stepperPhases : BitVec 32) (d : Diskette) :
    Prop where
  isProtected : r.isProtected = if d.isProtected then 1 else 0
  name : r.name = d.fileName.getD []
  stepperPhases : r.stepperPhases = UInt8.ofNat stepperPhases.toNat
  phase : r.phase = UInt8.ofNat d.phase
  runByteHigh : r.runByteHigh = UInt8.ofNat ((d.runByte &&& 0xFF00) >>> 8)
  runByteLow : r.runByteLow = UInt8.ofNat (d.runByte &&& 0xFF)

/-- The file that is saved for the state `s`. -/
structure StateFile.Saves (file : StateFile) (s : Disk6) : Prop where
  motorOff : file.motorOff = UInt8.ofNat s.motorOff
  drive : file.drive = UInt8.ofNat s.drive
  ddrw : file.ddrw = UInt8.ofNat s.ddrw
  diskByte : file.diskByte = s.diskByte
  drives : ∀ i : Fin 2, (file.drives i).Saves s.stepperPhases (s.disk i)

theorem driveChunks_flatten (s : Disk6) (d : Diskette)
    (h : (d.fileName.getD []).length < 2 ^ 32) :
    (driveChunks s d).flatten = serialize32 (d.fileName.getD []).length ++ (d.fileName.getD [] ++
      ([UInt8.ofNat s.stepperPhases.toNat] ++ ([(0 : UInt8)] ++ ([UInt8.ofNat d.phase] ++
        [UInt8.ofNat ((d.runByte &&& 0xFF00) >>> 8), UInt8.ofNat (d.runByte &&& 0xFF)])))) := by
  unfold driveChunks
  cases hname : d.fileName with
  | none => simp
  | some name =>
    rw [hname, Option.getD_some] at h
    have hlength : name.length % 4294967296 = name.length := Nat.mod_eq_of_lt h
    simp [hlength]

theorem saveDrive_record {s t : Disk6} {i : ℕ} {helper saved : StateHelper}
    (h : saveDrive s i helper = .ok (t, saved, true)) :
    ∃ r : DriveRecord, saved.file = helper.file ++ r.bytes ∧ r.Saves s.stepperPhases (s.disk i) ∧
      ∃ d, t = s.setDisk i d := by
  unfold saveDrive disk6Flush at h
  obtain ⟨u, hu, h⟩ := bind_eq_ok.mp h
  obtain ⟨e, he, hu⟩ := bind_eq_ok.mp hu
  cases hu
  simp only [Disk6.setDisk_self] at h
  by_cases hflag : (helper.save [if e.isProtected then 1 else 0]).2 = true
  · rw [if_pos hflag] at h
    obtain ⟨a, hlen, h⟩ := bind_eq_ok.mp h
    by_cases hle : (e.fileName.getD []).length ≤ 0xFFFFFFFF
    · have hlt : (e.fileName.getD []).length < 2 ^ 32 := by omega
      simp only [pure, Except.pure, Except.ok.injEq, Prod.mk.injEq] at h
      obtain ⟨rfl, hsaved⟩ := h
      have hall : (StateHelper.saveAll _ _).2 = true := congrArg Prod.snd hsaved
      have hfile := StateHelper.saveAll_ok _ _ hall
      rw [hsaved, StateHelper.save_ok _ _ hflag, List.append_assoc,
        driveChunks_flatten _ _ hlt] at hfile
      obtain ⟨rb, f, dirty, rfl⟩ := flushDiskette_frame he
      exact ⟨⟨_, _, _, _, _, _, _, hlt⟩, hfile, ⟨rfl, rfl, rfl, rfl, rfl, rfl⟩, _, rfl⟩
    · rw [decide_eq_false hle] at hlen
      cases hlen
  · rw [if_neg hflag] at h
    cases h

/-- **What is saved is a file of the state.** -/
theorem saved_file {s t : Disk6} {helper saved : StateHelper}
    (h : disk6SaveState s helper = .ok (t, saved, true)) :
    ∃ file : StateFile, saved.file = helper.file ++ file.bytes ∧ file.Saves s := by
  unfold disk6SaveState at h
  by_cases hheader : (helper.saveAll [[UInt8.ofNat s.motorOff], [UInt8.ofNat s.drive],
      [UInt8.ofNat s.ddrw], [s.diskByte]]).2 = true
  · simp only [hheader, if_true] at h
    obtain ⟨⟨u, saved', more⟩, hzero, h⟩ := bind_eq_ok.mp h
    cases more with
    | false => cases h
    | true =>
      obtain ⟨r, hr, hsaves, d, rfl⟩ := saveDrive_record hzero
      obtain ⟨r', hr', hsaves', -⟩ := saveDrive_record (s := s.setDisk 0 d) h
      rw [Disk6.setDisk_ne d (by decide : (1 : ℕ) ≠ 0)] at hsaves'
      rw [StateHelper.saveAll_ok _ _ hheader] at hr
      refine ⟨⟨UInt8.ofNat s.motorOff, UInt8.ofNat s.drive, UInt8.ofNat s.ddrw, s.diskByte,
        ![r, r']⟩, ?_, rfl, rfl, rfl, rfl, ?_⟩
      · rw [hr', hr, List.append_assoc, List.append_assoc]
        rfl
      · rw [Fin.forall_fin_two]
        exact ⟨hsaves, hsaves'⟩
  · simp only [hheader, Bool.false_eq_true, if_false] at h
    simp only [pure, Except.pure, Except.ok.injEq, Prod.mk.injEq] at h
    exact absurd (congrArg Prod.snd h.2) hheader

/-! ## A file -/

/-- The record of a drive without an image. -/
def blankRecord : DriveRecord where
  isProtected := 0
  name := []
  stepperPhases := 0
  placeholder := 0
  phase := 0
  runByteHigh := 0
  runByteLow := 0
  name_lt := by decide

/-- `a.dsk`. -/
def imageName : List UInt8 := [0x61, 0x2E, 0x64, 0x73, 0x6B]

theorem imageName_lt : imageName.length < 2 ^ 32 := by
  decide

/-- A file that names a write-protected `a.dsk` in drive 0, with the head over its third track. -/
def imageFile : StateFile where
  motorOff := 0
  drive := 0
  ddrw := 0
  diskByte := 0
  drives i :=
    if i = 0 then
      { blankRecord with
        isProtected := 1
        name := imageName
        phase := 4
        runByteLow := 3
        name_lt := imageName_lt }
    else blankRecord

end Apple2ix.Disk
