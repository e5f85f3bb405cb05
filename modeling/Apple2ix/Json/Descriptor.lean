import Apple2ix.Json.MapParse

/-! `json_createFromFD` of json_parse.c: a file is read in chunks into a buffer that doubles, and
the buffer is parsed up to the number of bytes that were read, but copied up to its terminator,
which nobody writes. -/
namespace Apple2ix.Json
set_option autoImplicit false

/-! ## Reading -/

/-- An open file: what is still to be read, and what each call of `read` comes to, which is an error
or a number of bytes of those that there are. -/
structure Input where
  rest : List UInt8
  calls : ℕ
  outcome : ℕ → (chunk : ℕ) → Option (Fin (chunk + 1))

/-- Every `read` gives something as long as there is something. -/
def Input.Succeeds (fd : Input) : Prop :=
  ∀ call chunk, ∃ bytesRead, fd.outcome call chunk = some bytesRead ∧
    (0 < chunk → 0 < bytesRead.val)

/-- What ends the reading: the code of an error, or an access behind the end of the buffer. -/
inductive ReadErr
  | code (e : JsmnErr)
  | overrun
  deriving DecidableEq, Repr

def jsonLength : ℕ := 16

/-- Memory that nobody has written: the bytes that it happens to hold at these offsets. -/
def fresh (uninit : ℕ → UInt8) (start n : ℕ) : List UInt8 := (List.range' start n).map uninit

/-- `REALLOC`: what there is stays, behind it is fresh memory. -/
def realloc (uninit : ℕ → UInt8) (buffer : List UInt8) (size : ℕ) : List UInt8 :=
  buffer ++ fresh uninit buffer.length (size - buffer.length)

/-- Bytes that are put into a buffer. -/
def overwrite (buffer : List UInt8) (idx : ℕ) (bytes : List UInt8) : List UInt8 :=
  buffer.take idx ++ (bytes ++ buffer.drop (idx + bytes.length))

/-- `do { } while (bytesRead)`: the buffer, and how much of it was read. -/
def readLoop (uninit : ℕ → UInt8) (jsonString : List UInt8) (jsonIdx : ℕ) (fd : Input) :
    Except ReadErr (List UInt8 × ℕ) :=
  match fd.outcome fd.calls (min jsonLength fd.rest.length) with
  | none => .error (.code .nomem)
  | some bytesRead =>
    if bytesRead.val = 0 then .ok (jsonString, jsonIdx)
    else if jsonString.length < jsonIdx + bytesRead.val then .error .overrun
    else
      let jsonString' := overwrite jsonString jsonIdx (fd.rest.take bytesRead.val)
      let jsonIdx' := jsonIdx + bytesRead.val
      let jsonString'' :=
        if jsonString'.length - jsonIdx' < jsonLength then
          realloc uninit jsonString' (jsonString'.length * 2)
        else jsonString'
      readLoop uninit jsonString'' jsonIdx'
        { fd with rest := fd.rest.drop bytesRead.val, calls := fd.calls + 1 }
termination_by fd.rest.length
decreasing_by
  simp only [List.length_drop]
  omega

/-- `_json_createFromString`: the first `jsonLen` bytes are parsed, and `STRDUP` copies the string
in the buffer. -/
def createFromBuffer (buffer : List UInt8) (jsonLen : ℕ) : Except ReadErr JSON :=
  match createLoop (buffer.take jsonLen) jsonLen defaultNumtok with
  | .error e => .error (.code e)
  | .ok (errCount, tokens) =>
    if 0 ∈ buffer then
      .ok {
        jsonLen := jsonLen
        jsonString := .ofBuffer buffer
        numTokens := errCount
        jsonTokens := tokens.map PrivTok.token }
    else .error .overrun

/-- `json_createFromFD`. -/
def jsonCreateFromFD (uninit : ℕ → UInt8) (fd : Input) : Except ReadErr JSON := do
  let (jsonString, jsonIdx) ← readLoop uninit (realloc uninit [] (jsonLength * 2)) 0 fd
  createFromBuffer jsonString jsonIdx

/-! ## The buffer -/

section
variable {uninit : ℕ → UInt8} {done : List UInt8} {room : ℕ}

theorem fresh_length (uninit : ℕ → UInt8) (start n : ℕ) : (fresh uninit start n).length = n := by
  rw [fresh, List.length_map, List.length_range']

theorem fresh_add (uninit : ℕ → UInt8) (start m n : ℕ) :
    fresh uninit start (m + n) = fresh uninit start m ++ fresh uninit (start + m) n := by
  rw [fresh, fresh, fresh, ← List.map_append, List.range'_append_1]

theorem fresh_succ (uninit : ℕ → UInt8) (start n : ℕ) :
    fresh uninit start (n + 1) = uninit start :: fresh uninit (start + 1) n := rfl

/-- A chunk that fits goes behind what is there. -/
theorem overwrite_fresh {chunk : List UInt8} (h : chunk.length ≤ room) :
    overwrite (done ++ fresh uninit done.length room) done.length chunk =
      (done ++ chunk) ++ fresh uninit (done ++ chunk).length (room - chunk.length) := by
  obtain ⟨more, rfl⟩ : ∃ more, room = chunk.length + more := ⟨room - chunk.length, by omega⟩
  have hdrop : (done ++ fresh uninit done.length (chunk.length + more)).drop
      (done.length + chunk.length) = fresh uninit (done.length + chunk.length) more := by
    rw [← List.drop_drop, List.drop_left, fresh_add]
    exact List.drop_left' (fresh_length ..)
  rw [overwrite, List.take_left, hdrop, List.length_append, Nat.add_sub_cancel_left,
    List.append_assoc]

theorem realloc_fresh (size : ℕ) (h : done.length + room ≤ size) :
    realloc uninit (done ++ fresh uninit done.length room) size =
      done ++ fresh uninit done.length (size - done.length) := by
  obtain ⟨more, rfl⟩ : ∃ more, size = done.length + room + more :=
    ⟨size - (done.length + room), by omega⟩
  have hsize : done.length + room + more - done.length = room + more := by omega
  rw [realloc, List.length_append, fresh_length, Nat.add_sub_cancel_left, hsize, fresh_add,
    List.append_assoc]

/-- After the buffer has grown where it has to, there is room for a chunk. -/
theorem grow_fresh (uninit : ℕ → UInt8) (h : jsonLength ≤ done.length + room) :
    ∃ room', jsonLength ≤ room' ∧
      (if (done ++ fresh uninit done.length room).length - done.length < jsonLength then
        realloc uninit (done ++ fresh uninit done.length room)
          ((done ++ fresh uninit done.length room).length * 2)
      else done ++ fresh uninit done.length room) = done ++ fresh uninit done.length room' := by
  have hlength : (done ++ fresh uninit done.length room).length = done.length + room := by
    rw [List.length_append, fresh_length]
  rw [hlength, Nat.add_sub_cancel_left]
  split_ifs with hsmall
  · refine ⟨(done.length + room) * 2 - done.length, by omega, realloc_fresh _ (by omega)⟩
  · exact ⟨room, Nat.not_lt.mp hsmall, rfl⟩

/-- **The reading** returns, never leaves the buffer, and has what was in the file at the beginning
of a buffer with more memory behind it. -/
theorem readLoop_spec (fd : Input) (hfd : fd.Succeeds) (hroom : jsonLength ≤ room) :
    ∃ room', jsonLength ≤ room' ∧
      readLoop uninit (done ++ fresh uninit done.length room) done.length fd =
      .ok ((done ++ fd.rest) ++ fresh uninit (done ++ fd.rest).length room',
        (done ++ fd.rest).length) := by
  generalize hsize : fd.rest.length = count
  induction count using Nat.strongRecOn generalizing done room fd with
  | ind count ih =>
    obtain ⟨bytesRead, hout, hpos⟩ := hfd fd.calls (min jsonLength fd.rest.length)
    have hle := bytesRead.isLt
    have hlength : (fd.rest.take bytesRead.val).length = bytesRead.val := by
      rw [List.length_take]
      omega
    rw [readLoop, hout]
    simp only
    by_cases hend : bytesRead.val = 0
    · have hrest : fd.rest = [] := by
        rw [← List.length_eq_zero_iff]
        have : jsonLength = 16 := rfl
        omega
      rw [if_pos hend, hrest, List.append_nil]
      exact ⟨room, hroom, rfl⟩
    · have hfits :
        ¬ (done ++ fresh uninit done.length room).length < done.length + bytesRead.val := by
        rw [List.length_append, fresh_length]
        omega
      have hchunk : (fd.rest.take bytesRead.val).length ≤ room := by omega
      have hnext : (done ++ fd.rest.take bytesRead.val).length = done.length + bytesRead.val := by
        rw [List.length_append, hlength]
      have htotal :
          jsonLength ≤ (done ++ fd.rest.take bytesRead.val).length + (room - bytesRead.val) := by
        omega
      obtain ⟨room', hroom', hbuffer⟩ := grow_fresh uninit htotal
      have hsplit : (done ++ fd.rest.take bytesRead.val) ++ fd.rest.drop bytesRead.val =
          done ++ fd.rest := by
        rw [List.append_assoc, List.take_append_drop]
      obtain ⟨room'', hpos', hall⟩ := @ih _ (by rw [List.length_drop]; omega)
        (done ++ fd.rest.take bytesRead.val) room'
        { fd with rest := fd.rest.drop bytesRead.val, calls := fd.calls + 1 } hfd hroom' rfl
      refine ⟨room'', hpos', ?_⟩
      rw [if_neg hend, if_neg hfits, overwrite_fresh hchunk, hlength, ← hnext, hbuffer, ← hsplit]
      exact hall

end

/-! ## The result -/

/-- What `json_createFromString` returns, as a result of reading. -/
def stringResult (content : CString) : Except ReadErr JSON :=
  match jsonCreateFromString content with
  | .error e => .error (.code e)
  | .ok json => .ok json

/-- What is made of the buffer: the text is what was read and what happens to be behind it. -/
theorem createFromBuffer_eq (content : CString) (uninit : ℕ → UInt8) (room : ℕ) :
    createFromBuffer (content.bytes ++ fresh uninit content.bytes.length room)
        content.bytes.length =
      match jsonCreateFromString content with
      | .error e => .error (.code e)
      | .ok json =>
        if 0 ∈ fresh uninit content.bytes.length room then
          .ok { json with
            jsonString := .ofBuffer (content.bytes ++ fresh uninit content.bytes.length room) }
        else .error .overrun := by
  rw [createFromBuffer, List.take_left, jsonCreateFromString]
  cases createLoop content.bytes content.bytes.length defaultNumtok with
  | error e => rfl
  | ok result =>
    simp only [List.mem_append, content.terminated, false_or]
    rfl

theorem jsonCreateFromFD_eq (uninit : ℕ → UInt8) (fd : Input) (hfd : fd.Succeeds) :
    ∃ room, jsonLength ≤ room ∧ jsonCreateFromFD uninit fd =
      createFromBuffer (fd.rest ++ fresh uninit fd.rest.length room) fd.rest.length := by
  obtain ⟨room, hroom, hloop⟩ := @readLoop_spec uninit [] (jsonLength * 2) fd hfd (by decide)
  refine ⟨room, hroom, ?_⟩
  rw [jsonCreateFromFD]
  change (do
    let (jsonString, jsonIdx) ← readLoop uninit ([] ++ fresh uninit 0 (jsonLength * 2)) 0 fd
    createFromBuffer jsonString jsonIdx) = _
  rw [List.length_nil] at hloop
  rw [hloop]
  rfl

/-- **Main.** A file without terminators is read, in chunks of any size, as its content is parsed
from a string, if and only if the content is not accepted or the memory behind it happens to hold a
terminator. -/
theorem descriptor_string {content : CString} {fd : Input} (hfd : fd.Succeeds)
    (hcontent : fd.rest = content.bytes) (uninit : ℕ → UInt8) :
    jsonCreateFromFD uninit fd = stringResult content ↔
      (∀ json, jsonCreateFromString content ≠ .ok json) ∨ uninit content.bytes.length = 0 := by
  obtain ⟨room, hroom, hread⟩ := jsonCreateFromFD_eq uninit fd hfd
  rw [hread, hcontent, createFromBuffer_eq, stringResult]
  cases hcreate : jsonCreateFromString content with
  | error e => exact iff_of_true rfl (Or.inl nofun)
  | ok json =>
    obtain ⟨d, -, rfl⟩ := create_ok hcreate
    obtain ⟨more, rfl⟩ : ∃ more, room = more + 1 := ⟨room - 1, by rw [jsonLength] at hroom; omega⟩
    rw [fresh_succ]
    have hnever : ¬ ∀ json, Except.ok (d.json content) ≠ (.ok json : Except JsmnErr JSON) :=
      fun h =>
      h _ rfl
    rw [or_iff_right hnever]
    constructor
    · intro h
      by_contra hbyte
      simp only at h
      split_ifs at h
      have hstring := congrArg (fun json => json.jsonString.bytes.length) (Except.ok.inj h)
      have hplain : ∀ c ∈ content.bytes, decide (c ≠ 0) = true := by
        intro c hc
        rw [decide_eq_true_eq]
        rintro rfl
        exact content.terminated hc
      change ((content.bytes ++ uninit content.bytes.length :: _).takeWhile (· ≠ 0)).length =
        content.bytes.length at hstring
      rw [List.takeWhile_append_of_pos hplain, List.takeWhile_cons_of_pos (by simpa using hbyte),
        List.length_append, List.length_cons] at hstring
      omega
    · intro hbyte
      rw [hbyte]
      have hsame :
          CString.ofBuffer (content.bytes ++ 0 :: fresh uninit (content.bytes.length + 1) more) =
          content := CString.ext (CString.ofBuffer_terminated content.terminated _)
      simp only [List.mem_cons_self, if_true, hsame]
      rfl

/-- `{}`, given in one piece. -/
def emptyMapInput : Input where
  rest := [Kind.object.opener, Kind.object.closer]
  calls := 0
  outcome _ chunk := some ⟨chunk, Nat.lt_succ_self _⟩

theorem emptyMapInput_succeeds : emptyMapInput.Succeeds := fun _ chunk =>
  ⟨⟨chunk, Nat.lt_succ_self _⟩, rfl, fun h => h⟩

def emptyMapString : CString := ⟨[Kind.object.opener, Kind.object.closer], by decide⟩

/-- Memory that holds one `x` behind the two bytes. -/
def staleMemory (offset : ℕ) : UInt8 := if offset = 2 then 0x78 else 0

/-- The copy of the text goes on behind what was read. -/
theorem descriptor_stale :
    ∃ json, jsonCreateFromFD staleMemory emptyMapInput = .ok json ∧ json.jsonLen = 2 ∧
      json.jsonString.bytes = [Kind.object.opener, Kind.object.closer, 0x78] := by
  obtain ⟨room, hroom, hread⟩ :=
    jsonCreateFromFD_eq staleMemory emptyMapInput emptyMapInput_succeeds
  obtain ⟨more, rfl⟩ : ∃ more, room = more + 1 + 1 := ⟨room - 2, by rw [jsonLength] at hroom; omega⟩
  let d : Document := .value .none (.container .object .none .nil) .none
  have hcreate : jsonCreateFromString emptyMapString = .ok (d.json emptyMapString) :=
    create_document d rfl
  have hbuffer := createFromBuffer_eq emptyMapString staleMemory (more + 1 + 1)
  rw [fresh_succ, fresh_succ, hcreate] at hbuffer
  have hbyte : staleMemory (emptyMapString.bytes.length + 1) = 0 := rfl
  rw [hbyte] at hbuffer
  simp only [List.mem_cons_self, List.mem_cons_of_mem, if_true] at hbuffer
  refine ⟨_, hread.trans hbuffer, rfl, ?_⟩
  exact @CString.ofBuffer_terminated [Kind.object.opener, Kind.object.closer, 0x78] (by decide) _

/-- `{"k":"0123456789"}`, which is longer than the buffer at first. -/
def numbersString : CString :=
  ⟨[Kind.object.opener, quote, 0x6B, quote, colon, quote, 0x30, 0x31, 0x32, 0x33, 0x34, 0x35, 0x36,
    0x37, 0x38, 0x39, quote, Kind.object.closer], by decide⟩

/-- The same, given byte by byte. -/
def numbersInput : Input where
  rest := numbersString.bytes
  calls := 0
  outcome _ chunk := some ⟨min 1 chunk, by omega⟩

theorem numbersInput_succeeds : numbersInput.Succeeds := fun _ chunk =>
  ⟨⟨min 1 chunk, by omega⟩, rfl, fun h => Nat.lt_min.mpr ⟨Nat.one_pos, h⟩⟩

/-- Memory that happens to hold a terminator behind the text, and nowhere else. -/
def terminatedMemory (offset : ℕ) : UInt8 := if offset = 18 then 0 else 0x78

theorem descriptor_string_numbers :
    jsonCreateFromFD terminatedMemory numbersInput = stringResult numbersString :=
  (descriptor_string numbersInput_succeeds rfl terminatedMemory).mpr (Or.inr rfl)

end Apple2ix.Json
