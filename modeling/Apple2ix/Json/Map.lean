import Apple2ix.Json.Create

/-! The maps of json_parse.c: lookup by a linear walk over the tokens, and setting a value by
splicing the text and parsing it anew. A failed `assert` is an error. -/
namespace Apple2ix.Json
set_option autoImplicit false

/-! ## Lookup -/

/-- `jsonTokens[idx]`; behind the tokens of the text the array is zeroed. -/
def tokenAt (jsonTokens : List Token) (idx : ℕ) : Token :=
  jsonTokens.getD idx
    { type := .undefined, start := 0, stop := 0, size := 0, skip := 0, parent := some 0 }

def JSON.token (map : JSON) (idx : ℕ) : Token := tokenAt map.jsonTokens idx

/-- `strncmp(key, &map->jsonString[start], size) == 0`, for the size of the key. -/
def keyMatches (map : JSON) (key : CString) (keyTok : Token) : Bool :=
  keyTok.stop - keyTok.start = key.bytes.length &&
    (map.jsonString.bytes.drop keyTok.start).take key.bytes.length = key.bytes

/-- The search for a key in `_json_mapGetStringValue`, from a token on, with a bound on its
steps. -/
def findKey (map : JSON) (key : CString) : ℕ → ℕ → Except JsmnErr (Option ℕ)
  | 0, _ => .ok none
  | fuel + 1, idx =>
    if map.numTokens ≤ idx then .ok none
    else
      let keyTok := map.token idx
      if keyTok.parent ≠ some 0 then .error .assertion
      else if keyTok.type ≠ .string then .ok none
      else if keyTok.stop < keyTok.start then .error .assertion
      else if keyMatches map key keyTok then .ok (some (idx + 1))
      else findKey map key fuel (idx + 1 + (map.token (idx + 1)).skip)

/-- `_json_mapGetStringValue`: the index of the value, when there is a match. -/
def jsonMapGetStringValue (map : JSON) (key : CString) : Except JsmnErr (Option ℕ) :=
  if map.numTokens = 0 then .ok none
  -- should begin as map ...
  else if (map.token 0).type ≠ .object then .ok none
  else findKey map key map.numTokens 1

/-- `json_isMap`. -/
def jsonIsMap (map : JSON) : Bool := map.numTokens ≠ 0 && (map.token 0).type = .object

/-- The text of a token, where `ASSERT_TOKEN_VALID` holds of it. -/
def validText (map : JSON) (tok : Token) : Except JsmnErr (List UInt8) :=
  if tok.stop < tok.start then .error .assertion
  else .ok (tok.text map.jsonString.bytes)

/-- `json_mapCopyStringValue`. -/
def jsonMapCopyStringValue (map : JSON) (key : CString) : Except JsmnErr (Option (List UInt8)) := do
  match ← jsonMapGetStringValue map key with
  | none => .ok none
  | some idx =>
    let text ← validText map (map.token idx)
    .ok (some text)

/-! ## Setting a value -/

/-- `assert`. -/
def require (condition : Bool) : Except JsmnErr Unit :=
  if condition then .ok () else .error .assertion

/-- `_json_copyAndQuote`. -/
def jsonCopyAndQuote (str : List UInt8) : List UInt8 := quote :: (str ++ [quote])

/-- What is taken out of the text, and what is put in its place. -/
structure Splice where
  spliceBegin : ℕ
  spliceEnd : ℕ
  val : List UInt8

/-- `map->jsonString[idx] == '"'`. -/
def quoteAt (map : JSON) (idx : ℕ) : Bool := map.jsonString.bytes.getD idx 0 = quote

/-- The splice for a key that the map has. -/
def replaceSplice (map : JSON) (tok : Token) (val : List UInt8) (valType : JsmnType) :
    Except JsmnErr Splice := do
  require (tok.start ≤ tok.stop)
  if tok.type = .string then
    if valType = .string then do
      -- string -> string
      require (quoteAt map (tok.start - 1))
      require (quoteAt map tok.stop)
      .ok { spliceBegin := tok.start, spliceEnd := tok.stop, val := val }
    else do
      -- string -> non-string (strip previous quotes)
      require (quoteAt map (tok.start - 1))
      require (quoteAt map (tok.stop + 1 - 1))
      .ok { spliceBegin := tok.start - 1, spliceEnd := tok.stop + 1, val := val }
  else if valType = .string then
    -- non-string -> string
    .ok { spliceBegin := tok.start, spliceEnd := tok.stop, val := jsonCopyAndQuote val }
  else .ok { spliceBegin := tok.start, spliceEnd := tok.stop, val := val }

/-- The splice for a new key: at the beginning of the object. -/
def insertSplice (map : JSON) (key val : List UInt8) (valType : JsmnType) : Splice where
  spliceBegin := (map.token 0).start + 1
  spliceEnd := (map.token 0).start + 1
  val := jsonCopyAndQuote key ++ (colon ::
    ((if valType = .string then jsonCopyAndQuote val else val) ++
      if (map.token 0).size ≠ 0 then [comma] else []))

/-- The new text. -/
def Splice.apply (s : Splice) (map : JSON) : List UInt8 :=
  map.jsonString.bytes.take s.spliceBegin ++
    (s.val ++ (map.jsonString.bytes.drop s.spliceEnd).take (map.jsonLen - s.spliceEnd))

/-- The splice that sets a value. -/
def spliceFor (map : JSON) (key val : CString) (valType : JsmnType) : Except JsmnErr Splice := do
  match ← jsonMapGetStringValue map key with
  | some idx => replaceSplice map (map.token idx) val.bytes valType
  | none => .ok (insertSplice map key.bytes val.bytes valType)

/-- `_json_mapSetValue` behind its checks for null: whether the value was set, and the map. -/
def setValue (map : JSON) (key val : CString) (valType : JsmnType) : Except JsmnErr (Bool × JSON) :=
  if (map.token 0).type ≠ .object then .ok (false, map)
  else do
    let splice ← spliceFor map key val valType
    require (splice.spliceBegin ≤ splice.spliceEnd)
    require (0 < splice.spliceBegin)
    require (splice.spliceEnd < map.jsonLen)
    match jsonCreateFromString (.ofBuffer (splice.apply map)) with
    | .ok newMap => .ok (true, newMap)
    | .error .assertion => .error .assertion
    | .error _ => .ok (false, map)

/-- `_json_mapSetValue`; a null pointer is `none`. -/
def jsonMapSetValue (map : JSON) (key val : Option CString) (valType : JsmnType) :
    Except JsmnErr (Bool × JSON) :=
  match key, val with
  | some key, some val => setValue map key val valType
  | _, _ => .ok (false, map)

/-- `_JSMN_NONSTRING`. -/
def jsmnNonstring : JsmnType := .object

/-- `json_mapSetStringValue`. -/
def jsonMapSetStringValue (map : JSON) (key val : Option CString) : Except JsmnErr (Bool × JSON) :=
  jsonMapSetValue map key val .string

/-- `json_mapSetRawStringValue`. -/
def jsonMapSetRawStringValue (map : JSON) (key val : Option CString) :
    Except JsmnErr (Bool × JSON) :=
  jsonMapSetValue map key val jsmnNonstring

/-- `json_mapSetJSONValue`. -/
def jsonMapSetJSONValue (map : JSON) (key : Option CString) (jsonSubRef : Option JSON) :
    Except JsmnErr (Bool × JSON) :=
  match jsonSubRef with
  | none => .ok (false, map)
  | some sub => jsonMapSetValue map key (some sub.jsonString) jsmnNonstring

def stackBufsiz : ℕ := 256

/-- `snprintf(buf, STACK_BUFSIZ, ..)`. -/
def snprintf (text : List UInt8) : CString := .ofBuffer (text.take (stackBufsiz - 1))

/-- The decimal digits of a number. -/
def decimal (n : ℕ) : List UInt8 :=
  if n < 10 then [UInt8.ofNat (0x30 + n)] else decimal (n / 10) ++ [UInt8.ofNat (0x30 + n % 10)]

/-- `"%ld"`. -/
def longText (val : Int64) : List UInt8 :=
  if val.toInt < 0 then 0x2D :: decimal val.toInt.natAbs else decimal val.toInt.natAbs

/-- `json_mapSetLongValue`. -/
def jsonMapSetLongValue (map : JSON) (key : Option CString) (val : Int64) :
    Except JsmnErr (Bool × JSON) :=
  jsonMapSetValue map key (some (snprintf (longText val))) .primitive

/-- `json_mapSetBoolValue`. -/
def jsonMapSetBoolValue (map : JSON) (key : Option CString) (val : Bool) :
    Except JsmnErr (Bool × JSON) :=
  jsonMapSetValue map key (some (snprintf (if val then trueText else falseText))) .primitive

end Apple2ix.Json
