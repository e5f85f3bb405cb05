import Mathlib.Data.Int.Notation
import Mathlib.Data.List.Basic
import Apple2ix.Foundations.Results

/-! The JSON tokenizer jsmn.c, in its strict mode with parent links. A text is the list of its
bytes; where the code reads on at `js + parser->pos`, the functions here take the rest of the text
from there. -/
namespace Apple2ix.Json
set_option autoImplicit false

inductive JsmnType
  | undefined
  | object
  | array
  | string
  | primitive
  deriving DecidableEq, Repr

/-- `_lasttype`: a type of token, or a private one. -/
inductive LastType
  | undefined
  | object
  | array
  | string
  | primitive
  | separatorColon
  | separatorComma
  | objectEnd
  | arrayEnd
  | stringKey
  deriving DecidableEq, Repr

/-- The error codes, and a failed `assert`. -/
inductive JsmnErr
  | nomem
  | inval
  | part
  | primitiveInval
  | assertion
  deriving DecidableEq, Repr

/-- `jsmntok_priv_t`; -1 is `none` for an offset or the index of a token. -/
structure PrivTok where
  type : JsmnType
  start : Option ℕ
  stop : Option ℕ
  size : ℕ
  skip : ℕ
  parent : Option ℕ
  lasttype : LastType
  depth : ℤ
  deriving DecidableEq, Repr

/-- A fresh token, as `jsmn_alloc_token` leaves it in zeroed memory. -/
def PrivTok.fresh : PrivTok where
  type := .undefined
  start := none
  stop := none
  size := 0
  skip := 1
  parent := none
  lasttype := .undefined
  depth := -1

instance : Inhabited PrivTok := ⟨.fresh⟩

/-- `jsmn_parser`, with the tokens that are in use and the locals of `jsmn_parse`. -/
structure Parser where
  pos : ℕ
  toksuper : Option ℕ
  tokens : List PrivTok
  depth : ℤ
  count : ℕ

/-- `jsmn_init`. -/
def jsmnInit : Parser where
  pos := 0
  toksuper := none
  tokens := []
  depth := 0
  count := 0

/-! ## Characters -/

def quote : UInt8 := 0x22
def backslash : UInt8 := 0x5C
def comma : UInt8 := 0x2C
def colon : UInt8 := 0x3A

def isSpace (c : UInt8) : Bool := c == 0x09 || c == 0x0D || c == 0x0A || c == 0x20

def isDigit (c : UInt8) : Bool := 0x30 ≤ c && c ≤ 0x39

def isHex (c : UInt8) : Bool :=
  (0x30 ≤ c && c ≤ 0x39) || (0x41 ≤ c && c ≤ 0x46) || (0x61 ≤ c && c ≤ 0x66)

/-- The characters that end a primitive. -/
def endsPrimitive (c : UInt8) : Bool := isSpace c || c == comma || c == 0x5D || c == 0x7D

/-- The characters that begin a primitive. -/
def beginsPrimitive (c : UInt8) : Bool :=
  c == 0x2D || isDigit c || c == 0x74 || c == 0x66 || c == 0x6E

/-- The allowed escaped symbols, other than `\uXXXX`. -/
def isEscape (c : UInt8) : Bool :=
  c == quote || c == 0x2F || c == backslash || c == 0x62 || c == 0x66 || c == 0x72 || c == 0x6E ||
    c == 0x74

/-! ## Primitives

The text from the cursor `i` up to `token->end`. -/

/-- `jsmn_parse_primitive_digits`. -/
def jsmnParsePrimitiveDigits : List UInt8 → Except JsmnErr (List UInt8)
  | [] => .error .primitiveInval
  | c :: text => if isDigit c then .ok (text.dropWhile isDigit) else .error .primitiveInval

/-- The exponent behind its `e`. -/
def exponentSign : List UInt8 → List UInt8
  | [] => []
  | c :: text => if c == 0x2D || c == 0x2B then text else c :: text

/-- `jsmn_parse_primitive_exp`. -/
def jsmnParsePrimitiveExp : List UInt8 → Except JsmnErr Unit
  | [] => .error .assertion
  | c :: text =>
    if c != 0x65 && c != 0x45 then .error .primitiveInval
    else if text = [] then .error .part
    else if exponentSign text = [] then .error .part
    else do
      let rest ← jsmnParsePrimitiveDigits (exponentSign text)
      -- should be exactly at the end
      if rest ≠ [] then .error .primitiveInval else .ok ()

/-- `jsmn_parse_primitive_frac_or_exp`; what it accepts goes up to the end. -/
def jsmnParsePrimitiveFracOrExp : List UInt8 → Except JsmnErr Unit
  | [] => .error .assertion
  | c :: text =>
    if c == 0x2E then
      if text = [] then .error .part
      else do
        let rest ← jsmnParsePrimitiveDigits text
        if rest ≠ [] then jsmnParsePrimitiveExp rest else .ok ()
    else jsmnParsePrimitiveExp (c :: text)

/-- The digits of a number behind its sign, with what follows them. -/
def jsmnParsePrimitiveUnsigned : List UInt8 → Except JsmnErr Unit
  | [] => .error .part
  | c :: text =>
    if c == 0x30 then
      if text = [] then .ok () else jsmnParsePrimitiveFracOrExp text
    else do
      let rest ← jsmnParsePrimitiveDigits (c :: text)
      if rest = [] then .ok () else jsmnParsePrimitiveFracOrExp rest

/-- `jsmn_parse_primitive_number`. -/
def jsmnParsePrimitiveNumber : List UInt8 → Except JsmnErr Unit
  | [] => .error .primitiveInval
  | c :: text =>
    if c == 0x2D then jsmnParsePrimitiveUnsigned text else jsmnParsePrimitiveUnsigned (c :: text)

def trueText : List UInt8 := [0x74, 0x72, 0x75, 0x65]
def falseText : List UInt8 := [0x66, 0x61, 0x6C, 0x73, 0x65]
def nullText : List UInt8 := [0x6E, 0x75, 0x6C, 0x6C]

/-- The validation of a primitive in `jsmn_parse_primitive`. A failed `assert` stays one. -/
def validatePrimitive (text : List UInt8) : Except JsmnErr Unit :=
  if text.head? = some 0x74 then
    if text = trueText then .ok () else .error .primitiveInval
  else if text.head? = some 0x66 then
    if text = falseText then .ok () else .error .primitiveInval
  else if text.head? = some 0x6E then
    if text = nullText then .ok () else .error .primitiveInval
  else
    match jsmnParsePrimitiveNumber text with
    | .ok () => .ok ()
    | .error .assertion => .error .assertion
    | .error _ => .error .primitiveInval

/-- The loop of `jsmn_parse_primitive`: the characters up to the end of the primitive. -/
def primitiveLoop : List UInt8 → Except JsmnErr (List UInt8)
  | [] => .ok []
  | c :: rest =>
    if c = 0 then .ok []
    else if endsPrimitive c then .ok []
    else if c < 32 || 127 ≤ c then .error .inval
    else do
      let text ← primitiveLoop rest
      .ok (c :: text)

/-! ## Strings -/

/-- The loop over the digits of `\uXXXX`: how many of `n` it takes. -/
def hexLoop : ℕ → List UInt8 → Except JsmnErr ℕ
  | 0, _ => .ok 0
  | _ + 1, [] => .ok 0
  | n + 1, c :: rest =>
    if c = 0 then .ok 0
    else if isHex c then do
      let taken ← hexLoop n rest
      .ok (taken + 1)
    else .error .inval

/-- The loop of `jsmn_parse_string` behind the starting quote: the length of the string. -/
def stringLoop : List UInt8 → Except JsmnErr ℕ
  | [] => .error .part
  | c :: rest =>
    if c = 0 then .error .part
    -- Quote: end of string
    else if c = quote then .ok 0
    -- Backslash: Quoted symbol expected
    else if c = backslash then
      match rest with
      | [] => .error .part
      | e :: rest' =>
        if isEscape e then do
          let length ← stringLoop rest'
          .ok (length + 2)
        else if e = 0x75 then do
          let taken ← hexLoop 4 rest'
          let length ← stringLoop (rest'.drop taken)
          .ok (length + taken + 2)
        else .error .inval
    else do
      let length ← stringLoop rest
      .ok (length + 1)
termination_by text => text.length
decreasing_by
  all_goals simp only [List.length_cons, List.length_drop]
  all_goals omega

/-! ## Tokens -/

/-- `jsmn_alloc_token`, and the fields that its caller fills in. -/
def jsmnAllocToken (numTokens : ℕ) (tokens : List PrivTok) (token : PrivTok) :
    Except JsmnErr (List PrivTok) :=
  if numTokens ≤ tokens.length then .error .nomem else .ok (tokens ++ [token])

/-- `jsmn_percolate_skip_counts`, with a bound on the number of its passes. -/
def jsmnPercolateSkipCounts : ℕ → List PrivTok → ℕ → List PrivTok
  | 0, tokens, _ => tokens
  | fuel + 1, tokens, parent =>
    let more := tokens.modify parent fun token => { token with skip := token.skip + 1 }
    match (tokens.getD parent .fresh).parent with
    | none => more
    | some parent => jsmnPercolateSkipCounts fuel more parent

/-- The superior token gets one more child. -/
def countChild (toksuper : Option ℕ) (tokens : List PrivTok) : List PrivTok :=
  match toksuper with
  | none => tokens
  | some super =>
    let tokens := tokens.modify super fun token => { token with size := token.size + 1 }
    jsmnPercolateSkipCounts tokens.length tokens super

/-- The token in use that was allocated last; `check` tells whether it may come before the current
one. -/
def previous (tokens : List PrivTok) (check : LastType → Bool) : Except JsmnErr (Option PrivTok) :=
  match tokens.getLast? with
  | none => .ok none
  | some token => if check token.lasttype then .ok (some token) else .error .inval

/-- A token before a container. -/
def beforeContainer : LastType → Bool
  | .separatorComma => true
  | .separatorColon => true
  | .array => true
  | _ => false

/-- A token before the end of a container. -/
def beforeEnd : LastType → Bool
  | .primitive => true
  | .string => true
  | .object => true
  | .array => true
  | .objectEnd => true
  | .arrayEnd => true
  | _ => false

/-- A token before a string. -/
def beforeString : LastType → Bool
  | .object => true
  | .array => true
  | .separatorColon => true
  | .separatorComma => true
  | _ => false

/-- A token before a colon. -/
def beforeColon : LastType → Bool
  | .stringKey => true
  | _ => false

/-- A token before a comma. -/
def beforeComma : LastType → Bool
  | .primitive => true
  | .string => true
  | .objectEnd => true
  | .arrayEnd => true
  | _ => false

/-- A token before a primitive. -/
def beforePrimitive : LastType → Bool
  | .array => true
  | .separatorColon => true
  | .separatorComma => true
  | _ => false

/-! ## The cases of `jsmn_parse` -/

/-- An array or an object. -/
inductive Kind
  | array
  | object
  deriving DecidableEq, Repr

def Kind.type : Kind → JsmnType
  | .array => .array
  | .object => .object

def Kind.lasttype : Kind → LastType
  | .array => .array
  | .object => .object

def Kind.opener : Kind → UInt8
  | .array => 0x5B
  | .object => 0x7B

def Kind.closer : Kind → UInt8
  | .array => 0x5D
  | .object => 0x7D

/-- A token's `_depth`, or the local `depth` when there is no token. -/
def depthOf (depth : ℤ) : Option PrivTok → ℤ
  | none => depth
  | some token => token.depth

/-- Whether the parent of a new container is valid: it is no object. -/
def underObject (p : Parser) : Bool :=
  match p.toksuper with
  | none => false
  | some super => (p.tokens.getD super .fresh).type = .object

/-- `case '{': case '['`. -/
def beginContainer (numTokens : ℕ) (kind : Kind) (p : Parser) : Except JsmnErr Parser := do
  let token ← previous p.tokens beforeContainer
  let depth := depthOf p.depth token
  if underObject p then .error .inval
  else do
    let tokens ← jsmnAllocToken numTokens p.tokens
      { PrivTok.fresh with
        type := kind.type
        start := some p.pos
        parent := p.toksuper
        lasttype := kind.lasttype
        depth := depth + 1 }
    .ok { p with
      toksuper := some p.tokens.length
      tokens := countChild p.toksuper tokens
      depth := depth
      count := p.count + 1 }

/-- The walk from a token to the next one that is open, or the last. -/
def findOpen : ℕ → List PrivTok → ℕ → ℕ
  | 0, _, i => i
  | fuel + 1, tokens, i =>
    let token := tokens.getD i .fresh
    if token.start ≠ none ∧ token.stop = none then i
    else
      match token.parent with
      | none => i
      | some parent => findOpen fuel tokens parent

def endType (type : JsmnType) : LastType := if type = .object then .objectEnd else .arrayEnd

/-- `case '}': case ']'`. -/
def endContainer (kind : Kind) (p : Parser) : Except JsmnErr Parser :=
  if p.toksuper = none then .error .inval
  else if p.tokens = [] then .error .inval
  else do
    let _ ← previous p.tokens beforeEnd
    let i := findOpen p.tokens.length p.tokens (p.tokens.length - 1)
    let token := p.tokens.getD i .fresh
    if token.start ≠ none ∧ token.stop = none then
      if token.type ≠ kind.type then .error .inval
      else
        .ok { p with
          toksuper := token.parent
          tokens := p.tokens.modify i fun token => { token with
            stop := some (p.pos + 1)
            depth := token.depth - 1
            lasttype := endType token.type } }
    else
      .ok { p with
        tokens := p.tokens.modify i fun token => { token with lasttype := endType token.type } }

/-- What a string is to the token that it stands under. -/
def stringType (p : Parser) : LastType :=
  match p.toksuper with
  | none => .string
  | some super =>
    if (p.tokens.getD super .fresh).lasttype = .object then .stringKey else .string

/-- `case '\"'`, with `jsmn_parse_string`. -/
def aString (numTokens : ℕ) (rest : List UInt8) (p : Parser) : Except JsmnErr Parser := do
  let token ← previous p.tokens beforeString
  let depth := depthOf p.depth token
  let length ← stringLoop rest
  let tokens ← jsmnAllocToken numTokens p.tokens
    { PrivTok.fresh with
      type := .string
      start := some (p.pos + 1)
      stop := some (p.pos + 1 + length)
      parent := p.toksuper
      lasttype := stringType p
      depth := depth }
  .ok { p with
    pos := p.pos + 1 + length
    tokens := countChild p.toksuper tokens
    depth := depth
    count := p.count + 1 }

/-- `case ':'`. -/
def aColon (p : Parser) : Except JsmnErr Parser :=
  if p.toksuper = none then .error .inval
  else if p.tokens = [] then .error .assertion
  else do
    let _ ← previous p.tokens beforeColon
    .ok { p with
      toksuper := some (p.tokens.length - 1)
      tokens := p.tokens.modify (p.tokens.length - 1) fun token =>
        { token with lasttype := .separatorColon } }

/-- The superior token behind a comma: a key is left for its object. -/
def superOfComma (p : Parser) (super : ℕ) : Option ℕ :=
  let token := p.tokens.getD super .fresh
  if token.type ≠ .array ∧ token.type ≠ .object then token.parent else some super

/-- `case ','`. -/
def aComma (p : Parser) : Except JsmnErr Parser :=
  match p.toksuper with
  | none => .error .inval
  | some super =>
    if p.tokens = [] then .error .assertion
    else do
      let _ ← previous p.tokens beforeComma
      .ok { p with
        toksuper := superOfComma p super
        tokens := p.tokens.modify (p.tokens.length - 1) fun token =>
          { token with lasttype := .separatorComma } }

/-- A primitive must not be a key of an object, nor a second value of a key. -/
def keyPlace (p : Parser) : Bool :=
  match p.toksuper with
  | none => false
  | some super =>
    let token := p.tokens.getD super .fresh
    token.type = .object || (token.type = .string && token.size ≠ 0)

def superDepth (p : Parser) : ℤ :=
  match p.toksuper with
  | none => p.depth
  | some super => (p.tokens.getD super .fresh).depth

/-- `case '-'` and the other primitives, with `jsmn_parse_primitive`. -/
def aPrimitive (numTokens : ℕ) (text : List UInt8) (p : Parser) : Except JsmnErr Parser :=
  if keyPlace p then .error .inval
  else do
    let _ ← previous p.tokens beforePrimitive
    let text ← primitiveLoop text
    let tokens ← jsmnAllocToken numTokens p.tokens
      { PrivTok.fresh with
        type := .primitive
        start := some p.pos
        stop := some (p.pos + text.length)
        parent := p.toksuper
        lasttype := .primitive
        depth := superDepth p }
    validatePrimitive text
    .ok { p with
      pos := p.pos + text.length - 1
      tokens := countChild p.toksuper tokens
      depth := superDepth p
      count := p.count + 1 }

/-- The body of the loop of `jsmn_parse`, at a character and the rest of the text behind it. -/
def jsmnStep (numTokens : ℕ) (c : UInt8) (rest : List UInt8) (p : Parser) :
    Except JsmnErr Parser :=
  if c = Kind.object.opener then beginContainer numTokens .object p
  else if c = Kind.array.opener then beginContainer numTokens .array p
  else if c = Kind.object.closer then endContainer .object p
  else if c = Kind.array.closer then endContainer .array p
  else if c = quote then aString numTokens rest p
  else if isSpace c then .ok p
  else if c = colon then aColon p
  else if c = comma then aComma p
  else if beginsPrimitive c then aPrimitive numTokens (c :: rest) p
  -- Unexpected char in strict mode
  else .error .inval

/-- The loop of `jsmn_parse`. -/
def jsmnLoop (numTokens : ℕ) (p : Parser) : List UInt8 → Except JsmnErr Parser
  | [] => .ok p
  | c :: rest =>
    if c = 0 then .ok p
    else
      match jsmnStep numTokens c rest p with
      | .error e => .error e
      | .ok q => jsmnLoop numTokens { q with pos := q.pos + 1 } (rest.drop (q.pos - p.pos))
termination_by text => text.length
decreasing_by
  simp only [List.length_cons, List.length_drop]
  omega

/-- The first token is a container that is still open. -/
def unmatched : List PrivTok → Bool
  | [] => false
  | token :: _ => (token.type = .object || token.type = .array) && token.depth ≠ 0

/-- The sanity checks of a token at the end of `jsmn_parse`. -/
def PrivTok.sane (token : PrivTok) : Bool :=
  token.start.isSome && token.stop.isSome && token.depth ≠ -1 && token.lasttype ≠ .undefined

/-- `jsmn_parse`: the tokens and their count. -/
def jsmnParse (js : List UInt8) (numTokens : ℕ) : Except JsmnErr (ℕ × List PrivTok) := do
  let p ← jsmnLoop numTokens jsmnInit js
  if unmatched p.tokens then .error .inval
  else if p.tokens.all PrivTok.sane then .ok (p.count, p.tokens)
  else .error .assertion

end Apple2ix.Json
