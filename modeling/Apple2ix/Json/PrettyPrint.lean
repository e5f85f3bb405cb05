import Apple2ix.Json.Map

/-! The printer of json_parse.c: writing to a file in chunks of any size, and the recursive walk
over the tokens. Behind every key, string and primitive it puts a terminator into the text for the
time that the token is written. A failed `assert` is an error. -/
namespace Apple2ix.Json
set_option autoImplicit false

/-! ## Files -/

/-- An open file: what has been written, and what each call of `write` comes to, which is an error
or a number of bytes that it took. -/
structure Fd where
  written : List UInt8
  calls : ℕ
  outcome : ℕ → (chunk : ℕ) → Option (Fin (chunk + 1))

/-- Every `write` takes something of what there is. -/
def Fd.Succeeds (fd : Fd) : Prop :=
  ∀ call chunk, 0 < chunk → ∃ outlen, fd.outcome call chunk = some outlen ∧ 0 < outlen.val

/-- `_json_write`: whether all was written. -/
def jsonWrite (text : List UInt8) (fd : Fd) : Bool × Fd :=
  match fd.outcome fd.calls text.length with
  | none => (text.isEmpty, { fd with calls := fd.calls + 1 })
  | some outlen =>
    if outlen.val = 0 then (text.isEmpty, { fd with calls := fd.calls + 1 })
    else
      let fd' : Fd :=
        { fd with written := fd.written ++ text.take outlen.val, calls := fd.calls + 1 }
      if outlen.val < text.length then jsonWrite (text.drop outlen.val) fd' else (true, fd')
termination_by text.length
decreasing_by
  rw [List.length_drop]
  omega

/-! ## Memory -/

/-- `JSON_s` in memory, where any byte of the string can be overwritten. The string is followed by
its terminator. -/
structure StoredJSON where
  jsonLen : ℕ
  jsonString : List UInt8
  numTokens : ℕ
  jsonTokens : List Token

def JSON.stored (json : JSON) : StoredJSON where
  jsonLen := json.jsonLen
  jsonString := json.jsonString.bytes ++ [0]
  numTokens := json.numTokens
  jsonTokens := json.jsonTokens

def StoredJSON.token (json : StoredJSON) (idx : ℕ) : Token := tokenAt json.jsonTokens idx

/-- A part of the printing: whether it succeeded, and what it leaves in memory and in the file. -/
abbrev Print := StoredJSON × Fd → Except JsmnErr (Bool × StoredJSON × Fd)

namespace Print

def done : Print := fun s => .ok (true, s)

/-- `break`. -/
def fail : Print := fun s => .ok (false, s)

/-- `assert(false)`. -/
def assertion : Print := fun _ => .error .assertion

def write (text : List UInt8) : Print := fun s =>
  let (success, fd) := jsonWrite text s.2
  .ok (success, s.1, fd)

/-- `_json_write(&parsedData->jsonString[tok.start], tok.end-tok.start, fd)`. -/
def writeText (tok : Token) : Print := fun s => write (tok.text s.1.jsonString) s

/-- One part, and another one if it succeeded. -/
def andThen (first second : Print) : Print := fun s => do
  let (success, s) ← first s
  if success then second s else .ok (false, s)

/-- A part between putting a terminator at an index and putting back what was there, which is not
done when the part fails. -/
def terminated (stop : ℕ) (p : Print) : Print := fun s => do
  let lastChar := s.1.jsonString.getD stop 0
  let (success, s) ← p ({ s.1 with jsonString := s.1.jsonString.set stop 0 }, s.2)
  if success then .ok (true, { s.1 with jsonString := s.1.jsonString.set stop lastChar }, s.2)
  else .ok (false, s)

end Print

/-! ## The printer -/

def maxIndent : ℕ := 16

def tab : UInt8 := 0x09
def newline : UInt8 := 0x0A
def space : UInt8 := 0x20

/-- `indentBuf`, as far as it is written. -/
def indentBuf (indent : ℕ) : List UInt8 := List.replicate indent tab

/-- The type of the parent of the first token, if there is such a token and it has a parent. -/
def StoredJSON.parentType (parsedData : StoredJSON) (start stop : ℕ) : Option JsmnType :=
  if start < stop then
    (parsedData.token start).parent.map fun parent => (parsedData.token parent).type
  else none

/-- What is printed before a token. -/
def separator (parent : Option JsmnType) (isFirst isKey : Bool) (indent : ℕ) : Print :=
  match parent with
  | some .object =>
    if isKey then
      Print.andThen (if isFirst then .done else .write [comma, newline])
        (.write (indentBuf indent))
    else .write [space, colon, space]
  | some .array => if isFirst then .done else .write [comma, space]
  | _ => .done

mutual

/-- `_json_prettyPrint`, with a bound on the depth of its calls and loops. -/
def jsonPrettyPrint : ℕ → ℕ → ℕ → ℕ → Print
  | 0, _, _, _ => .fail
  | fuel + 1, start, stop, indent => fun s =>
    if maxIndent < indent then Print.fail s
    else
      let parent := s.1.parentType start stop
      ((prettyLoop fuel parent start stop indent start true).andThen
        (if parent ≠ some .array then .write [newline] else .done)) s

/-- `while (idx < end)`. -/
def prettyLoop : ℕ → Option JsmnType → ℕ → ℕ → ℕ → ℕ → Bool → Print
  | 0, _, _, _, _, _, _ => .fail
  | fuel + 1, parent, start, stop, indent, idx, isKey => fun s =>
    if idx < stop then
      let tok := s.1.token idx
      ((separator parent (idx = start) isKey indent).andThen
        (match tok.type with
        | .primitive =>
          (Print.terminated tok.stop (.writeText tok)).andThen
            (prettyLoop fuel parent start stop indent (idx + 1) (!isKey))
        | .string =>
          (Print.terminated tok.stop ((Print.write [quote]).andThen
            ((Print.writeText tok).andThen (.write [quote])))).andThen
            (prettyLoop fuel parent start stop indent (idx + 1) (!isKey))
        | .object =>
          (Print.write [Kind.object.opener, newline]).andThen
            ((jsonPrettyPrint fuel (idx + 1) (idx + tok.skip) (indent + 1)).andThen
              ((Print.write (indentBuf indent)).andThen
                ((Print.write [Kind.object.closer]).andThen
                  (prettyLoop fuel parent start stop indent (idx + tok.skip) (!isKey)))))
        | .array =>
          (Print.write [Kind.array.opener, space]).andThen
            ((jsonPrettyPrint fuel (idx + 1) (idx + tok.skip) (indent + 1)).andThen
              ((Print.write [space, Kind.array.closer]).andThen
                (prettyLoop fuel parent start stop indent (idx + tok.skip) (!isKey))))
        | .undefined => .assertion)) s
    else if idx ≠ stop then Print.fail s
    else Print.done s

end

/-- `json_serialize`: its result, and what it leaves in memory and in the file. -/
def serialize (parsedData : StoredJSON) (pretty : Bool) (fd : Fd) :
    Except JsmnErr (Bool × StoredJSON × Fd) :=
  if pretty then
    jsonPrettyPrint (2 * parsedData.numTokens + 2) 0 parsedData.numTokens 0 (parsedData, fd)
  else Print.write (parsedData.jsonString.takeWhile (· ≠ 0)) (parsedData, fd)

/-- `json_serialize`, as far as the file goes. -/
def jsonSerialize (jsonRef : JSON) (pretty : Bool) (fd : Fd) : Except JsmnErr (Bool × Fd) := do
  let (success, _, fd) ← serialize jsonRef.stored pretty fd
  .ok (success, fd)

/-! ## Writing -/

/-- **Chunks** of any size add up to the text. -/
theorem jsonWrite_all (text : List UInt8) (fd : Fd) (h : fd.Succeeds) :
    ∃ fd', jsonWrite text fd = (true, fd') ∧ fd'.written = fd.written ++ text ∧ fd'.Succeeds := by
  fun_induction jsonWrite text fd with
  | case1 text fd hnone =>
    cases text with
    | nil => exact ⟨_, rfl, by simp, h⟩
    | cons c text =>
      obtain ⟨outlen, hout, -⟩ := h fd.calls (c :: text).length (Nat.succ_pos _)
      rw [hout] at hnone
      cases hnone
  | case2 text fd outlen hsome hzero =>
    cases text with
    | nil => exact ⟨_, rfl, by simp, h⟩
    | cons c text =>
      obtain ⟨outlen', hout, hpos⟩ := h fd.calls (c :: text).length (Nat.succ_pos _)
      rw [hout] at hsome
      cases hsome
      omega
  | case3 text fd outlen hsome hpos fd₁ hlt ih =>
    obtain ⟨fd', hwrite, hwritten, hsucceeds⟩ := ih h
    refine ⟨fd', hwrite, ?_, hsucceeds⟩
    rw [hwritten, List.append_assoc, List.take_append_drop]
  | case4 text fd outlen hsome hpos fd₁ hge =>
    refine ⟨fd₁, rfl, ?_, h⟩
    change fd.written ++ text.take outlen.val = _
    rw [List.take_of_length_le (Nat.not_lt.mp hge)]

end Apple2ix.Json
