import Apple2ix.Json.MapUpdate
import Apple2ix.Disk.StateFile

/-! `emulator_stateExtractDiskPaths`: the names of the disk images of a save-state file are put into
a map, by the routine that otherwise loads the file. -/
namespace Apple2ix.Misc
open Json Loader
open Disk (StateFile DriveRecord cString deserialize32)
set_option autoImplicit false

/-! ## The routine, with a map -/

/-- A key of the map. -/
def key (text : String) : CString := .ofBuffer (text.toList.map fun c => UInt8.ofNat c.toNat)

def diskKey (drive : Fin 2) : CString := if drive = 0 then key "diskA" else key "diskB"

def readOnlyKey (drive : Fin 2) : CString := if drive = 0 then key "readOnlyA" else key "readOnlyB"

/-- `json_mapSetStringValue`, whose answer is ignored. -/
def putString (key val : CString) (json : JSON) : Except JsmnErr JSON :=
  (jsonMapSetStringValue json (some key) (some val)).map Prod.snd

def putBool (key : CString) (val : Bool) (json : JSON) : Except JsmnErr JSON :=
  (jsonMapSetBoolValue json (some key) val).map Prod.snd

/-- The values for drives without an image. The truth values are the texts `"true"`, which are no
null pointers. -/
def extractNone (json : JSON) : Except JsmnErr JSON := do
  let json ← putString (diskKey 0) (key "") json
  let json ← putString (diskKey 1) (key "") json
  let json ← putBool (readOnlyKey 0) true json
  putBool (readOnlyKey 1) true json

/-- Bytes that only matter to a load that changes the state. -/
def skip (n : ℕ) : Loader JsmnErr JSON := .field n fun _ json => .ok json

/-- The name of the image in a drive. -/
def extractImage (drive : Fin 2) (isProtected : Bool) (namelen : ℕ) : Loader JsmnErr JSON :=
  if namelen ≠ 0 then
    .field namelen fun namebuf json => do
      let json ← putString (diskKey drive) (.ofBuffer namebuf) json
      putBool (readOnlyKey drive) isProtected json
  else .step id

/-- One pass of the loop over the drives. -/
def extractDrive (drive : Fin 2) : Loader JsmnErr JSON :=
  .read 1 fun state => .read 4 fun serialized => .all
    [extractImage drive (state.getD 0 0 != 0) (deserialize32 serialized), skip 1, skip 1, skip 1,
      skip 2]

/-- The drives. That one of them could not be read is noticed by a load that changes the state. -/
def extractDrives : Loader JsmnErr JSON := fun json input => do
  let drives ← Loader.all [extractDrive 0, extractDrive 1] json input
  return (drives.1, drives.2.1, true)

/-- `disk6_stateExtractDiskPaths`. -/
def disk6StateExtractDiskPaths : Loader JsmnErr JSON :=
  (Loader.effect extractNone).andThen
    ((Loader.all [skip 1, skip 1, skip 1, skip 1]).andThen extractDrives)

/-- `emulator_stateExtractDiskPaths`: the map, and what is returned. -/
def emulatorStateExtractDiskPaths (json : JSON) (input : List UInt8) :
    Except JsmnErr (JSON × Bool) :=
  match loadMagick input with
  | none => .ok (json, false)
  | some (_, saved) =>
    (disk6StateExtractDiskPaths json saved).map fun extracted => (extracted.1, extracted.2.2)

/-! ## What it should return -/

/-- The name of an image, as a C string, has no quotes and backslashes. -/
def PlainName (r : DriveRecord) : Prop := ∀ c ∈ cString r.name, c ≠ quote ∧ c ≠ backslash

/-- The map has the image and the write protection that a drive's record names. -/
structure Shows (json : JSON) (drive : Fin 2) (r : DriveRecord) : Prop where
  disk : jsonMapCopyStringValue json (diskKey drive) = .ok (some (cString r.name))
  readOnly : jsonMapParseBoolValue json (readOnlyKey drive) =
    .ok (some (r.name = [] || r.isProtected != 0))

/-- The whole disk section is in the file. -/
def Whole (input : List UInt8) : Prop :=
  ∃ version saved, loadMagick input = some (version, saved) ∧
    ∃ (file : StateFile) (rest : List UInt8), saved = file.bytes ++ rest

/-- **Extraction agrees with loading**: it returns true when the whole disk section can be read, and
then the map names what `disk6_loadState` inserts. -/
def PathsAgree (json : JSON) (input : List UInt8) : Prop :=
  ∃ json' extracted, emulatorStateExtractDiskPaths json input = .ok (json', extracted) ∧
    (extracted = true ↔ Whole input) ∧
    ∀ version (file : StateFile) (rest : List UInt8),
      loadMagick input = some (version, file.bytes ++ rest) →
      (∀ drive, PlainName (file.drives drive)) →
      (∀ drive, Shows json' drive (file.drives drive)) ∧
      ∀ conformant hosts s t left,
        Disk.disk6LoadState conformant hosts s (file.bytes ++ rest) = .ok (t, left, true) →
        left = rest ∧ Disk.Loaded conformant hosts s file t

/-- The file ends in the records of the drives. -/
def CutOff (input : List UInt8) : Prop :=
  ∃ version saved, loadMagick input = some (version, saved) ∧ 4 ≤ saved.length ∧
    ¬ ∃ (r r' : DriveRecord) (rest : List UInt8), saved.drop 4 = r.bytes ++ (r'.bytes ++ rest)

/-! ## Keys -/

theorem plain_iff (s : CString) :
    Plain s ↔ s.bytes.all (fun c => c != quote && c != backslash) = true := by
  simp only [Plain, List.all_eq_true, Bool.and_eq_true, bne_iff_ne]

theorem diskKey_plain (drive : Fin 2) : Plain (diskKey drive) := by
  rw [plain_iff]
  revert drive
  decide

theorem readOnlyKey_plain (drive : Fin 2) : Plain (readOnlyKey drive) := by
  rw [plain_iff]
  revert drive
  decide

theorem empty_plain : Plain (key "") := by
  rw [plain_iff]
  decide

theorem diskKey_ne (i j : Fin 2) : (diskKey i).bytes ≠ (readOnlyKey j).bytes := by
  revert i j
  decide

/-! ## Steps -/

section Steps
variable {json : JSON} {values : List UInt8 → Option Value}

theorem putString_holds (h : Holds json values) {k val : CString} (hkey : Plain k)
    (hval : Plain val) : ∃ json', putString k val json = .ok json' ∧
      Holds json' (Function.update values k.bytes (some (stringValue val hval))) := by
  obtain ⟨json', hset, hholds⟩ := h.setString hkey hval
  refine ⟨json', ?_, hholds⟩
  rw [putString, hset]
  rfl

theorem putBool_holds (h : Holds json values) {k : CString} (hkey : Plain k) (b : Bool) :
    ∃ json', putBool k b json = .ok json' ∧
      Holds json' (Function.update values k.bytes (some (boolValue b))) := by
  obtain ⟨json', hset, hholds⟩ := h.setBool hkey b
  refine ⟨json', ?_, hholds⟩
  rw [putBool, hset]
  rfl

theorem putString_parsed (h : Parsed json) (k val : CString) :
    ∃ json', putString k val json = .ok json' ∧ Parsed json' := by
  obtain ⟨done, json', hset, hparsed⟩ := h.set k val .string
  refine ⟨json', ?_, hparsed⟩
  rw [putString, jsonMapSetStringValue, hset]
  rfl

theorem putBool_parsed (h : Parsed json) (k : CString) (b : Bool) :
    ∃ json', putBool k b json = .ok json' ∧ Parsed json' := by
  obtain ⟨done, json', hset, hparsed⟩ := h.set k (snprintf (if b then trueText else falseText))
    .primitive
  refine ⟨json', ?_, hparsed⟩
  rw [putBool, jsonMapSetBoolValue, hset]
  rfl

/-- What the map has for a drive without an image. -/
structure ShowsNone (values : List UInt8 → Option Value) (drive : Fin 2) : Prop where
  disk : values (diskKey drive).bytes = some (stringValue (key "") empty_plain)
  readOnly : values (readOnlyKey drive).bytes = some (boolValue true)

theorem extractNone_holds (h : Holds json values) : ∃ json' values',
    extractNone json = .ok json' ∧ Holds json' values' ∧ ∀ drive, ShowsNone values' drive := by
  obtain ⟨j1, h1, hh1⟩ := putString_holds h (diskKey_plain 0) empty_plain
  obtain ⟨j2, h2, hh2⟩ := putString_holds hh1 (diskKey_plain 1) empty_plain
  obtain ⟨j3, h3, hh3⟩ := putBool_holds hh2 (readOnlyKey_plain 0) true
  obtain ⟨j4, h4, hh4⟩ := putBool_holds hh3 (readOnlyKey_plain 1) true
  refine ⟨j4, _, ?_, hh4, ?_⟩
  · rw [extractNone, h1, ok_bind, h2, ok_bind, h3, ok_bind, h4]
  · rw [Fin.forall_fin_two]
    refine ⟨⟨?_, ?_⟩, ⟨?_, ?_⟩⟩
    · rw [Function.update_of_ne (diskKey_ne 0 1), Function.update_of_ne (diskKey_ne 0 0),
        Function.update_of_ne (by decide), Function.update_self]
    · rw [Function.update_of_ne (by decide), Function.update_self]
    · rw [Function.update_of_ne (diskKey_ne 1 1), Function.update_of_ne (diskKey_ne 1 0),
        Function.update_self]
    · rw [Function.update_self]

theorem ofBuffer_cString (namebuf : List UInt8) :
    (CString.ofBuffer namebuf).bytes = cString namebuf := by
  have hsame : (fun c : UInt8 => decide (c ≠ 0)) = fun c => c != 0 := by
    funext c
    by_cases hc : c = 0 <;> simp [hc]
  exact congrArg (fun keep => namebuf.takeWhile keep) hsame

/-- What the map has for a drive whose record was read. -/
structure ShowsRecord (values : List UInt8 → Option Value) (drive : Fin 2) (r : DriveRecord) :
    Prop where
  disk : ∃ v, values (diskKey drive).bytes = some v ∧ v.raw = cString r.name
  readOnly : values (readOnlyKey drive).bytes =
    some (boolValue (r.name = [] || r.isProtected != 0))

theorem reads_extractImage (h : Holds json values) {drive : Fin 2} {r : DriveRecord}
    (hplain : PlainName r) (hnone : ShowsNone values drive) : ∃ json' values',
      Reads (extractImage drive (r.isProtected != 0) r.name.length) json r.name json' ∧
      Holds json' values' ∧ ShowsRecord values' drive r ∧
      ∀ k, k ≠ (diskKey drive).bytes → k ≠ (readOnlyKey drive).bytes → values' k = values k := by
  unfold extractImage
  by_cases hname : r.name = []
  · refine ⟨json, values, ?_, h, ⟨⟨_, hnone.disk, ?_⟩, ?_⟩, fun _ _ _ => rfl⟩
    · rw [if_neg (by rw [hname]; decide), hname]
      exact reads_step id
    · rw [hname]
      rfl
    · rw [hnone.readOnly, hname]
      rfl
  · have hlen : r.name.length ≠ 0 := fun h => hname (List.eq_nil_of_length_eq_zero h)
    have hval : Plain (.ofBuffer r.name) := by
      unfold Plain
      rw [ofBuffer_cString]
      exact hplain
    obtain ⟨j1, h1, hh1⟩ := putString_holds h (diskKey_plain drive) hval
    obtain ⟨j2, h2, hh2⟩ := putBool_holds hh1 (readOnlyKey_plain drive) (r.isProtected != 0)
    refine ⟨j2, _, ?_, hh2, ⟨⟨stringValue (.ofBuffer r.name) hval, ?_, ?_⟩, ?_⟩, ?_⟩
    · rw [if_pos hlen]
      refine reads_field rfl ?_
      rw [h1, ok_bind, h2]
    · rw [Function.update_of_ne (diskKey_ne drive drive), Function.update_self]
    · exact ofBuffer_cString r.name
    · rw [Function.update_self, decide_eq_false hname, Bool.false_or]
    · intro k hdisk hreadOnly
      rw [Function.update_of_ne hreadOnly, Function.update_of_ne hdisk]

theorem reads_extractDrive (h : Holds json values) {drive : Fin 2} {r : DriveRecord}
    (hplain : PlainName r) (hnone : ShowsNone values drive) : ∃ json' values',
      Reads (extractDrive drive) json r.bytes json' ∧
      Holds json' values' ∧ ShowsRecord values' drive r ∧
      ∀ k, k ≠ (diskKey drive).bytes → k ≠ (readOnlyKey drive).bytes → values' k = values k := by
  obtain ⟨json', values', himage, hrest⟩ := reads_extractImage h hplain hnone
  refine ⟨json', values', ?_, hrest⟩
  have hskip : ∀ bytes : List UInt8, Reads (skip bytes.length) json' bytes json' :=
    fun bytes => reads_field rfl rfl
  have hfields := himage.all_cons ((hskip [r.stepperPhases]).all_cons
    ((hskip [r.placeholder]).all_cons ((hskip [r.phase]).all_cons
      ((hskip [r.runByteHigh, r.runByteLow]).all_cons reads_all_nil))))
  rw [List.append_nil] at hfields
  refine reads_read rfl (reads_read ?_ ?_)
  · rw [Disk.serialize32_eq]
    rfl
  · rw [Disk.deserialize32_serialize32 _ r.name_lt]
    exact hfields

end Steps

/-! ## Whole files -/

theorem Shows.of {json : JSON} {values : List UInt8 → Option Value} (h : Holds json values)
    {drive : Fin 2} {r : DriveRecord} (hr : ShowsRecord values drive r) : Shows json drive r := by
  obtain ⟨v, hv, hraw⟩ := hr.disk
  refine ⟨?_, ?_⟩
  · rw [h.copy hv, hraw]
  · rw [h.bool hr.readOnly]
    cases r.name = [] || r.isProtected != 0 <;> rfl

/-- **A whole file** is read, and the map has what it names. -/
theorem extract_whole {json : JSON} {values : List UInt8 → Option Value} (h : Holds json values)
    (file : StateFile) (hplain : ∀ drive, PlainName (file.drives drive)) : ∃ json',
      (∀ rest, disk6StateExtractDiskPaths json (file.bytes ++ rest) = .ok (json', rest, true)) ∧
      ∀ drive, Shows json' drive (file.drives drive) := by
  obtain ⟨j0, v0, hnone, hh0, hnones⟩ := extractNone_holds h
  obtain ⟨j1, v1, hdrive0, hh1, hr0, hsame0⟩ := reads_extractDrive hh0 (hplain 0) (hnones 0)
  have hnone1 : ShowsNone v1 1 := by
    refine ⟨?_, ?_⟩
    · rw [hsame0 _ (by decide) (diskKey_ne 1 0)]
      exact (hnones 1).disk
    · rw [hsame0 _ (diskKey_ne 0 1).symm (by decide)]
      exact (hnones 1).readOnly
  obtain ⟨j2, v2, hdrive1, hh2, hr1, hsame1⟩ := reads_extractDrive hh1 (hplain 1) hnone1
  have hr0' : ShowsRecord v2 0 (file.drives 0) := by
    refine ⟨?_, ?_⟩
    · rw [hsame1 _ (by decide) (diskKey_ne 0 1)]
      exact hr0.disk
    · rw [hsame1 _ (diskKey_ne 1 0).symm (by decide)]
      exact hr0.readOnly
  refine ⟨j2, ?_, ?_⟩
  · have hskip : ∀ bytes : List UInt8, Reads (skip bytes.length) j0 bytes j0 :=
      fun bytes => reads_field rfl rfl
    have hheader := (hskip [file.motorOff]).all_cons ((hskip [file.drive]).all_cons
      ((hskip [file.ddrw]).all_cons ((hskip [file.diskByte]).all_cons reads_all_nil)))
    have hdrives := hdrive0.all_cons (hdrive1.all_cons reads_all_nil)
    have hextract : Reads extractDrives j0 ((file.drives 0).bytes ++ ((file.drives 1).bytes ++ []))
        j2 := by
      intro rest
      unfold extractDrives
      rw [hdrives rest]
      rfl
    have hall := (reads_effect hnone).andThen (hheader.andThen hextract)
    intro rest
    have hbytes : file.bytes = [] ++ ([file.motorOff] ++ ([file.drive] ++ ([file.ddrw] ++
        ([file.diskByte] ++ []))) ++ ((file.drives 0).bytes ++ ((file.drives 1).bytes ++ []))) := by
      rw [StateFile.bytes, List.append_nil, List.append_nil, List.nil_append]
    rw [hbytes]
    exact hall rest
  · rw [Fin.forall_fin_two]
    exact ⟨.of hh2 hr0', .of hh2 hr1⟩

/-- What a load makes of the same file. -/
theorem load_whole (conformant : Bool) (hosts : Fin 2 → Disk.LoadHost) (s : Disk.Disk6)
    (file : StateFile) {rest left : List UInt8} {t : Disk.Disk6}
    (hload : Disk.disk6LoadState conformant hosts s (file.bytes ++ rest) = .ok (t, left, true)) :
    left = rest ∧ Disk.Loaded conformant hosts s file t := by
  obtain ⟨i, f, -, hstop⟩ | ⟨u, hread, hloaded⟩ :=
    Disk.reads_disk6LoadState conformant hosts s file
  · rw [hstop rest] at hload
    cases hload
  · rw [hread rest] at hload
    cases hload
    exact ⟨rfl, hloaded⟩

/-! ## Any file -/

theorem returns_skip (n : ℕ) : Returns Parsed (skip n) :=
  returns_field fun _ json h => ⟨json, rfl, h⟩

theorem returns_extractDrive (drive : Fin 2) : Returns Parsed (extractDrive drive) := by
  refine returns_read fun state => returns_read fun serialized => returns_all ?_
  simp only [List.forall_mem_cons]
  refine ⟨?_, returns_skip 1, returns_skip 1, returns_skip 1, returns_skip 2, nofun⟩
  unfold extractImage
  split_ifs
  · refine returns_field fun namebuf json h => ?_
    obtain ⟨j1, h1, hp1⟩ := putString_parsed h (diskKey drive) (.ofBuffer namebuf)
    obtain ⟨j2, h2, hp2⟩ := putBool_parsed hp1 (readOnlyKey drive) (state.getD 0 0 != 0)
    refine ⟨j2, ?_, hp2⟩
    rw [h1, ok_bind, h2]
  · exact returns_step fun _ h => h

/-- However much there is of the drives, the extraction goes on. -/
theorem extractDrives_true {json : JSON} (h : Parsed json) (input : List UInt8) :
    ∃ json' rest, extractDrives json input = .ok (json', rest, true) := by
  have hreturns : Returns Parsed (Loader.all [extractDrive 0, extractDrive 1]) := by
    refine returns_all ?_
    simp only [List.forall_mem_cons]
    exact ⟨returns_extractDrive 0, returns_extractDrive 1, nofun⟩
  obtain ⟨json', rest, loaded, hdrives, -⟩ := hreturns json input h
  refine ⟨json', rest, ?_⟩
  unfold extractDrives
  rw [hdrives]
  rfl

/-- **What is returned**: whether the bytes before the drives are there. -/
theorem extract_returns {json : JSON} {values : List UInt8 → Option Value} (h : Holds json values)
    (input : List UInt8) : ∃ json' rest,
      disk6StateExtractDiskPaths json input = .ok (json', rest, decide (4 ≤ input.length)) := by
  obtain ⟨j0, v0, hnone, hh0, -⟩ := extractNone_holds h
  have hstart : Loader.effect extractNone json input = .ok (j0, input, true) := by
    simp only [Loader.effect, hnone]
  by_cases hlen : 4 ≤ input.length
  · obtain ⟨a, b, c, d, rest, rfl⟩ : ∃ a b c d rest, input = a :: b :: c :: d :: rest := by
      obtain ⟨a, input, rfl⟩ := List.exists_cons_of_length_pos (by omega : 0 < input.length)
      rw [List.length_cons] at hlen
      obtain ⟨b, input, rfl⟩ := List.exists_cons_of_length_pos (by omega : 0 < input.length)
      rw [List.length_cons] at hlen
      obtain ⟨c, input, rfl⟩ := List.exists_cons_of_length_pos (by omega : 0 < input.length)
      rw [List.length_cons] at hlen
      obtain ⟨d, rest, rfl⟩ := List.exists_cons_of_length_pos (by omega : 0 < input.length)
      exact ⟨a, b, c, d, rest, rfl⟩
    have hskip : ∀ bytes : List UInt8, Reads (skip bytes.length) j0 bytes j0 :=
      fun bytes => reads_field rfl rfl
    have hheader := (hskip [a]).all_cons ((hskip [b]).all_cons ((hskip [c]).all_cons
      ((hskip [d]).all_cons reads_all_nil)))
    obtain ⟨json', left, hdrives⟩ := extractDrives_true hh0.parsed rest
    refine ⟨json', left, ?_⟩
    rw [disk6StateExtractDiskPaths, andThen_true hstart, decide_eq_true hlen, ← hdrives]
    exact andThen_true (hheader rest)
  · have hheader : Returns Parsed (Loader.all [skip 1, skip 1, skip 1, skip 1]) := by
      refine returns_all ?_
      simp only [List.forall_mem_cons]
      exact ⟨returns_skip 1, returns_skip 1, returns_skip 1, returns_skip 1,
        List.forall_mem_nil _⟩
    obtain ⟨j1, left, loaded, hread, -⟩ := hheader j0 input hh0.parsed
    have htakes : Takes (Loader.all [skip 1, skip 1, skip 1, skip 1]) fun _ => 4 :=
      (takes_field 1 _).andThen <| (takes_field 1 _).andThen <| (takes_field 1 _).andThen <|
      (takes_field 1 _).andThen <| takes_step id
    have hfalse : loaded = false := by
      obtain ⟨-, henough, -⟩ | ⟨hfalse, -⟩ := htakes j0 input j1 left loaded hread
      · exact absurd henough hlen
      · exact hfalse
    rw [hfalse] at hread
    refine ⟨j1, left, ?_⟩
    rw [disk6StateExtractDiskPaths, andThen_true hstart, decide_eq_false hlen]
    exact andThen_false hread

/-! ## Agreement -/

theorem file_bytes (file : StateFile) (rest : List UInt8) :
    file.bytes ++ rest = file.motorOff :: file.drive :: file.ddrw :: file.diskByte ::
      ((file.drives 0).bytes ++ ((file.drives 1).bytes ++ rest)) := by
  simp [StateFile.bytes]

theorem file_drop (file : StateFile) (rest : List UInt8) :
    (file.bytes ++ rest).drop 4 = (file.drives 0).bytes ++ ((file.drives 1).bytes ++ rest) := by
  rw [file_bytes]
  rfl

theorem file_length (file : StateFile) (rest : List UInt8) : 4 ≤ (file.bytes ++ rest).length := by
  rw [file_bytes]
  exact Nat.le_add_left 4 _

/-- A file with four bytes and the records of two drives is whole. -/
theorem exists_file {saved rest : List UInt8} {r r' : DriveRecord} (hlen : 4 ≤ saved.length)
    (hdrives : saved.drop 4 = r.bytes ++ (r'.bytes ++ rest)) :
    ∃ file : StateFile, saved = file.bytes ++ rest := by
  match saved, hlen with
  | a :: b :: c :: d :: drives, _ =>
    have heq : drives = r.bytes ++ (r'.bytes ++ rest) := hdrives
    refine ⟨⟨a, b, c, d, ![r, r']⟩, ?_⟩
    rw [heq, file_bytes]
    rfl

theorem whole_iff {input saved : List UInt8} {version : ℕ}
    (hmagick : loadMagick input = some (version, saved)) :
    Whole input ↔ 4 ≤ saved.length ∧ ¬ CutOff input := by
  constructor
  · rintro ⟨v, saved', hm, file, rest, rfl⟩
    rw [hmagick] at hm
    cases hm
    refine ⟨file_length file rest, ?_⟩
    rintro ⟨v', saved', hm', -, hno⟩
    rw [hmagick] at hm'
    cases hm'
    exact hno ⟨_, _, _, file_drop file rest⟩
  · rintro ⟨hlen, hcut⟩
    by_contra hno
    refine hcut ⟨version, saved, hmagick, hlen, ?_⟩
    rintro ⟨r, r', rest, hdrives⟩
    obtain ⟨file, hfile⟩ := exists_file hlen hdrives
    exact hno ⟨version, saved, hmagick, file, rest, hfile⟩

theorem pathsAgree_iff {json : JSON} {values : List UInt8 → Option Value} (h : Holds json values)
    (input : List UInt8) : PathsAgree json input ↔ ¬ CutOff input := by
  cases hmagick : loadMagick input with
  | none =>
    refine iff_of_true ⟨json, false, ?_, iff_of_false nofun ?_, ?_⟩ ?_
    · simp only [emulatorStateExtractDiskPaths, hmagick]
    · rintro ⟨version, saved, hm, -⟩
      rw [hmagick] at hm
      cases hm
    · intro version file rest hm
      rw [hmagick] at hm
      cases hm
    · rintro ⟨version, saved, hm, -⟩
      rw [hmagick] at hm
      cases hm
  | some header =>
    obtain ⟨version, saved⟩ := header
    obtain ⟨json', left, hreturns⟩ := extract_returns h saved
    have hextract : emulatorStateExtractDiskPaths json input =
        .ok (json', decide (4 ≤ saved.length)) := by
      simp only [emulatorStateExtractDiskPaths, hmagick, hreturns]
      rfl
    constructor
    · rintro ⟨json'', extracted, heq, hwhole, -⟩ hcut
      rw [hextract] at heq
      cases heq
      have hlen : 4 ≤ saved.length := by
        obtain ⟨v, saved', hm, hlen, -⟩ := hcut
        rw [hmagick] at hm
        cases hm
        exact hlen
      exact ((whole_iff hmagick).mp (hwhole.mp (decide_eq_true hlen))).2 hcut
    · intro hcut
      refine ⟨json', _, hextract, ?_, ?_⟩
      · rw [whole_iff hmagick, decide_eq_true_iff]
        exact (and_iff_left hcut).symm
      · intro v file rest hm hplain
        rw [hmagick] at hm
        cases hm
        refine ⟨?_, fun conformant hosts s t left => load_whole conformant hosts s file⟩
        obtain ⟨json'', hread, hshows⟩ := extract_whole h file hplain
        rw [hread rest] at hreturns
        cases hreturns
        exact hshows

/-- **Main.** For every map and every file, extraction agrees with loading unless the file ends in
the records of the drives. -/
theorem extract_disk_paths {js : CString} {json : JSON} (hjson : jsonCreateFromString js = .ok json)
    (hobject : jsonIsMap json = true) (input : List UInt8) :
    PathsAgree json input ↔ ¬ CutOff input := by
  obtain ⟨values, h⟩ := Parsed.holds ⟨js, hjson⟩ hobject
  exact pathsAgree_iff h input

theorem imageFile_magick : loadMagick (saveMagick2 ++ Disk.imageFile.bytes) =
    some (2, Disk.imageFile.bytes ++ []) := by
  rw [List.append_nil]
  exact loadMagick_append (Or.inr rfl) Disk.imageFile.bytes

theorem imageFile_plain (drive : Fin 2) : PlainName (Disk.imageFile.drives drive) := by
  have himage : ∀ c ∈ ([0x61, 0x2E, 0x64, 0x73, 0x6B] : List UInt8), c ≠ quote ∧ c ≠ backslash := by
    simp [quote, backslash]
  cases drive using Fin.cases with
  | zero => exact himage
  | succ drive =>
    intro c hc
    rw [Fin.eq_zero drive] at hc
    exact absurd hc (List.not_mem_nil)

/-- The path of the image in drive 0, and no image in drive 1. -/
theorem extract_disk_paths_image : ∃ json',
    emulatorStateExtractDiskPaths (oneMember.json oneMemberString)
      (saveMagick2 ++ Disk.imageFile.bytes) = .ok (json', true) ∧
    PathsAgree (oneMember.json oneMemberString) (saveMagick2 ++ Disk.imageFile.bytes) ∧
    jsonMapCopyStringValue json' (diskKey 0) = .ok (some [0x61, 0x2E, 0x64, 0x73, 0x6B]) ∧
    jsonMapParseBoolValue json' (readOnlyKey 0) = .ok (some true) ∧
    jsonMapCopyStringValue json' (diskKey 1) = .ok (some []) := by
  have hwhole : ¬ CutOff (saveMagick2 ++ Disk.imageFile.bytes) := by
    rintro ⟨version, saved, hmagick, -, hno⟩
    rw [imageFile_magick] at hmagick
    cases hmagick
    exact hno ⟨_, _, [], file_drop Disk.imageFile []⟩
  have hagree := (extract_disk_paths (@create_document oneMember.document oneMemberString rfl) rfl
    (saveMagick2 ++ Disk.imageFile.bytes)).mpr hwhole
  obtain ⟨json', extracted, hextract, hiff, hshows⟩ := id hagree
  have htrue : extracted = true := hiff.mpr ⟨2, _, imageFile_magick, Disk.imageFile, [], rfl⟩
  obtain ⟨hshows, -⟩ := hshows 2 Disk.imageFile [] imageFile_magick imageFile_plain
  rw [htrue] at hextract
  exact ⟨json', hextract, hagree, (hshows 0).disk, (hshows 0).readOnly, (hshows 1).disk⟩

/-- A header and four bytes, and nothing of the drives. -/
def headerFile : List UInt8 := saveMagick2 ++ [1, 0, 0, 0]

theorem headerFile_cutOff : CutOff headerFile := by
  refine ⟨2, [1, 0, 0, 0], rfl, le_refl 4, ?_⟩
  rintro ⟨r, r', rest, hdrives⟩
  cases hdrives

/-- The paths of a file without them are extracted. -/
theorem headerFile_extracted : ¬ ∀ (js : CString) (json : JSON),
    jsonCreateFromString js = .ok json → jsonIsMap json = true →
      ∀ input, PathsAgree json input := by
  intro hagree
  have hmap : Holds (oneMember.json oneMemberString) oneMember.find :=
    ⟨oneMember, oneMemberString, rfl, rfl, rfl⟩
  exact (pathsAgree_iff hmap headerFile).mp
    (hagree oneMemberString _ (create_document _ rfl) rfl headerFile) headerFile_cutOff

end Apple2ix.Misc
