import Apple2ix.Json.Jsmn

/-! JSON texts: the grammar, as trees that keep the white space of the text, and the tokens that
describe such a text. -/
namespace Apple2ix.Json
set_option autoImplicit false

/-! ## Lexemes -/

/-- The characters of a string: any but a quote, and escapes. -/
inductive IsChars : List UInt8 → Prop
  | nil : IsChars []
  | plain {c : UInt8} {rest : List UInt8} : c ≠ 0 → c ≠ quote → c ≠ backslash → IsChars rest →
      IsChars (c :: rest)
  | escape {e : UInt8} {rest : List UInt8} : isEscape e = true → IsChars rest →
      IsChars (backslash :: e :: rest)
  | unicode {digits rest : List UInt8} : digits.length = 4 → (∀ d ∈ digits, isHex d = true) →
      IsChars rest → IsChars (backslash :: 0x75 :: (digits ++ rest))

theorem isChars_k : IsChars [0x6B] := .plain (by decide) (by decide) (by decide) .nil

theorem isChars_x : IsChars [0x78] := .plain (by decide) (by decide) (by decide) .nil

def IsDigits (text : List UInt8) : Prop := text ≠ [] ∧ ∀ c ∈ text, isDigit c = true

def IsInt (text : List UInt8) : Prop :=
  text = [0x30] ∨ IsDigits text ∧ text.head? ≠ some 0x30

def IsFrac (text : List UInt8) : Prop := text = [] ∨ ∃ ds, IsDigits ds ∧ text = 0x2E :: ds

def IsSign (text : List UInt8) : Prop := text = [] ∨ text = [0x2D] ∨ text = [0x2B]

def IsExp (text : List UInt8) : Prop :=
  text = [] ∨ ∃ e sign ds, (e = 0x65 ∨ e = 0x45) ∧ IsSign sign ∧ IsDigits ds ∧
    text = e :: (sign ++ ds)

/-- A number without its sign. -/
def IsUnsigned (text : List UInt8) : Prop :=
  ∃ int frac exp, IsInt int ∧ IsFrac frac ∧ IsExp exp ∧ text = int ++ (frac ++ exp)

def IsNumber (text : List UInt8) : Prop :=
  IsUnsigned text ∨ ∃ rest, IsUnsigned rest ∧ text = 0x2D :: rest

def IsPrimitive (text : List UInt8) : Prop :=
  text = trueText ∨ text = falseText ∨ text = nullText ∨ IsNumber text

/-- White space. -/
structure Blank where
  bytes : List UInt8
  space : ∀ c ∈ bytes, isSpace c = true

/-- The text of a string, between its quotes. -/
structure Chars where
  bytes : List UInt8
  chars : IsChars bytes

structure Primitive where
  bytes : List UInt8
  primitive : IsPrimitive bytes

def Blank.none : Blank := ⟨[], by simp⟩

/-! ## Trees -/

/-- What stands before the value of a member of an object: its key. -/
structure Key where
  before : Blank
  chars : Chars
  after : Blank
  beforeValue : Blank

/-- What stands before a value in a container. -/
def Lead : Kind → Type
  | .array => Blank
  | .object => Key

mutual

/-- A value. Behind the opening character of a container there may be white space. -/
inductive Value : Type
  | primitive (p : Primitive)
  | string (s : Chars)
  | container (kind : Kind) (blank : Blank) (items : Items kind)

/-- The values in a container, each with what stands before it and the white space behind it. -/
inductive Items : Kind → Type
  | nil {kind : Kind} : Items kind
  | cons {kind : Kind} (lead : Lead kind) (value : Value) (after : Blank) (rest : Items kind) :
      Items kind

end

/-- A text: white space, or a value between white space. -/
inductive Document
  | blank (b : Blank)
  | value (before : Blank) (v : Value) (after : Blank)

/-! ## The text of a tree -/

def Key.text (k : Key) : List UInt8 :=
  k.before.bytes ++ quote :: (k.chars.bytes ++ quote :: (k.after.bytes ++ colon ::
    k.beforeValue.bytes))

def Lead.text : {kind : Kind} → Lead kind → List UInt8
  | .array, (b : Blank) => b.bytes
  | .object, (k : Key) => k.text

mutual

def Value.text : Value → List UInt8
  | .primitive p => p.bytes
  | .string s => quote :: (s.bytes ++ [quote])
  | .container kind blank items =>
    kind.opener :: (blank.bytes ++ (Items.text [] items ++ [kind.closer]))

/-- The items with a separator before the first of them; the others follow a comma. -/
def Items.text (separator : List UInt8) : {kind : Kind} → Items kind → List UInt8
  | _, .nil => []
  | _, .cons lead value after rest =>
    separator ++ (lead.text ++ (value.text ++ (after.bytes ++ Items.text [comma] rest)))

end

def Document.text : Document → List UInt8
  | .blank b => b.bytes
  | .value before v after => before.bytes ++ (v.text ++ after.bytes)

/-! ## The tokens of a tree -/

/-- `jsmntok_t` of a complete text. -/
structure Token where
  type : JsmnType
  start : ℕ
  stop : ℕ
  size : ℕ
  skip : ℕ
  parent : Option ℕ
  deriving DecidableEq, Repr

/-- The public part of a token. -/
def PrivTok.token (t : PrivTok) : Token where
  type := t.type
  start := t.start.getD 0
  stop := t.stop.getD 0
  size := t.size
  skip := t.skip
  parent := t.parent

/-- The tokens before a value in a container: its key. -/
def Lead.size : {kind : Kind} → Lead kind → ℕ
  | .array, _ => 0
  | .object, _ => 1

mutual

/-- How many tokens describe a value. -/
def Value.size : Value → ℕ
  | .primitive _ => 1
  | .string _ => 1
  | .container _ _ items => 1 + items.size

def Items.size : {kind : Kind} → Items kind → ℕ
  | _, .nil => 0
  | _, .cons lead value _ rest => lead.size + value.size + rest.size

end

/-- How many values there are. -/
def Items.count : {kind : Kind} → Items kind → ℕ
  | _, .nil => 0
  | _, .cons _ _ _ rest => rest.count + 1

/-- The token of a key, whose one child is its value. -/
def Key.token (k : Key) (parent pos : ℕ) (valueSize : ℕ) : Token where
  type := .string
  start := pos + k.before.bytes.length + 1
  stop := pos + k.before.bytes.length + 1 + k.chars.bytes.length
  size := 1
  skip := 1 + valueSize
  parent := some parent

def Lead.tokens (parent pos valueSize : ℕ) : {kind : Kind} → Lead kind → List Token
  | .array, _ => []
  | .object, (k : Key) => [k.token parent pos valueSize]

/-- The token that a value in a container stands under, which is the key that has the index `idx`,
if there is one. -/
def Lead.super (parent idx : ℕ) : {kind : Kind} → Lead kind → ℕ
  | .array, _ => parent
  | .object, _ => idx

mutual

/-- The tokens of a value in preorder: `idx` is the index of the first of them, `pos` where the
value begins. -/
def Value.tokens (parent : Option ℕ) (idx pos : ℕ) : Value → List Token
  | .primitive p => [⟨.primitive, pos, pos + p.bytes.length, 0, 1, parent⟩]
  | .string s => [⟨.string, pos + 1, pos + 1 + s.bytes.length, 0, 1, parent⟩]
  | .container kind blank items =>
    ⟨kind.type, pos, pos + (Value.container kind blank items).text.length, items.count,
        1 + items.size, parent⟩ ::
      items.tokens idx (idx + 1) (pos + 1 + blank.bytes.length)

def Items.tokens (parent idx pos : ℕ) : {kind : Kind} → Items kind → List Token
  | _, .nil => []
  | _, .cons lead value after rest =>
    lead.tokens parent pos value.size ++
      (value.tokens (some (lead.super parent idx)) (idx + lead.size) (pos + lead.text.length) ++
        rest.tokens parent (idx + lead.size + value.size)
          (pos + lead.text.length + value.text.length + after.bytes.length + 1))

end

def Document.tokens : Document → List Token
  | .blank _ => []
  | .value before v _ => v.tokens none 0 before.bytes.length

/-- Induction over values and items at once. -/
theorem tree_induction {P : Value → Prop} {Q : ∀ {kind : Kind}, Items kind → Prop}
    (hprimitive : ∀ p, P (.primitive p)) (hstring : ∀ s, P (.string s))
    (hcontainer : ∀ kind blank (items : Items kind), Q items → P (.container kind blank items))
    (hnil : ∀ kind, Q (.nil : Items kind))
    (hcons : ∀ {kind : Kind} (lead : Lead kind) value after (rest : Items kind), P value → Q rest →
      Q (.cons lead value after rest)) :
    (∀ v, P v) ∧ ∀ {kind : Kind} (items : Items kind), Q items := by
  refine ⟨fun v => ?_, fun items => ?_⟩
  · exact @Value.rec P (fun _ items => Q items) hprimitive hstring hcontainer (hnil _)
      (fun lead value after rest => hcons lead value after rest) v
  · exact @Items.rec P (fun _ items => Q items) hprimitive hstring hcontainer (hnil _)
      (fun lead value after rest => hcons lead value after rest) _ items

theorem Lead.tokens_length {kind : Kind} (lead : Lead kind) (parent pos valueSize : ℕ) :
    (lead.tokens parent pos valueSize).length = lead.size := by
  cases kind <;> rfl

theorem tokens_length :
    (∀ (v : Value) (parent : Option ℕ) (idx pos : ℕ), (v.tokens parent idx pos).length = v.size) ∧
      ∀ {kind : Kind} (items : Items kind) (parent idx pos : ℕ),
        (items.tokens parent idx pos).length = items.size := by
  apply tree_induction
  · exact fun _ _ _ _ => rfl
  · exact fun _ _ _ _ => rfl
  · intro kind blank items ih parent idx pos
    rw [Value.tokens, List.length_cons, ih, Value.size, Nat.add_comm]
  · exact fun _ _ _ _ => rfl
  · intro kind lead value after rest hvalue hrest parent idx pos
    rw [Items.tokens, List.length_append, List.length_append, Lead.tokens_length, hvalue, hrest,
      Items.size, Nat.add_assoc]

end Apple2ix.Json
