import Apple2ix.Json.PrettyPrint
import Apple2ix.Json.SubValues

/-! What the printer writes for a tree, piece by piece, and what it leaves in memory: when a piece
of a token is not written, the terminator behind the token stays. -/
namespace Apple2ix.Json
set_option autoImplicit false

/-! ## The writes of a tree -/

def tabs (indent : ℕ) : Blank where
  bytes := indentBuf indent
  space c hc := by
    rw [List.eq_of_mem_replicate hc]
    rfl

def newlineBlank : Blank := ⟨[newline], List.all_eq_true.mp rfl⟩

def spaceBlank : Blank := ⟨[space], List.all_eq_true.mp rfl⟩

/-- What is printed behind the opening character of a container. -/
def gap : Kind → Blank
  | .array => spaceBlank
  | .object => newlineBlank

def Items.isNil : {kind : Kind} → Items kind → Bool
  | _, .nil => true
  | _, .cons .. => false

/-- What the printer does next: it writes a text, or a text with a terminator at an index of the
string, or it finds that it is too deep in the tree. -/
inductive Piece
  | plain (text : List UInt8)
  | token (stop : ℕ) (text : List UInt8)
  | tooDeep

/-- A string or a key that ends at an index. -/
def stringPieces (chars : List UInt8) (stop : ℕ) : List Piece :=
  [.token stop [quote], .token stop chars, .token stop [quote]]

/-- What is written before an item, with its key. -/
def Lead.pieces (indent pos : ℕ) (isFirst : Bool) : {kind : Kind} → Lead kind → List Piece
  | .array, _ => if isFirst then [] else [.plain [comma, space]]
  | .object, (k : Key) => (if isFirst then [] else [.plain [comma, newline]]) ++
      .plain (indentBuf indent) :: (stringPieces k.chars.bytes
        (pos + k.before.bytes.length + 1 + k.chars.bytes.length) ++ [.plain [space, colon, space]])

/-- What is written behind the items of a container. -/
def closingPieces (indent : ℕ) : Kind → List Piece
  | .array => [.plain [space, Kind.array.closer]]
  | .object => [.plain (indentBuf indent), .plain [Kind.object.closer]]

mutual

/-- The pieces of a value that begins at `pos`, at this indent. -/
def Value.pieces (indent pos : ℕ) : Value → List Piece
  | .primitive p => [.token (pos + p.bytes.length) p.bytes]
  | .string s => stringPieces s.bytes (pos + 1 + s.bytes.length)
  | .container kind blank items =>
    .plain (kind.opener :: (gap kind).bytes) ::
      ((if maxIndent < indent + 1 then [.tooDeep]
        else items.pieces (indent + 1) (pos + 1 + blank.bytes.length) true ++
          if items.isNil || kind = .object then [.plain [newline]] else []) ++
        closingPieces indent kind)

def Items.pieces (indent pos : ℕ) (isFirst : Bool) : {kind : Kind} → Items kind → List Piece
  | _, .nil => []
  | _, .cons lead value after rest =>
    lead.pieces indent pos isFirst ++
      (value.pieces indent (pos + lead.text.length) ++
        rest.pieces indent
          (pos + lead.text.length + value.text.length + after.bytes.length + 1) false)

end

def Document.pieces : Document → List Piece
  | .blank _ => [.plain [newline]]
  | .value before v _ => v.pieces 0 before.bytes.length ++ [.plain [newline]]

def Piece.run : Piece → Print
  | .plain text => .write text
  | .token stop text => .terminated stop (.write text)
  | .tooDeep => .fail

def runPieces : List Piece → Print
  | [] => .done
  | p :: ps => p.run.andThen (runPieces ps)

/-- The first piece that is not written, if there is one, is a part of a token. -/
def failsInToken : List Piece → Fd → Bool
  | [], _ => false
  | .tooDeep :: _, _ => false
  | .plain text :: ps, fd => (jsonWrite text fd).1 && failsInToken ps (jsonWrite text fd).2
  | .token _ text :: ps, fd => !(jsonWrite text fd).1 || failsInToken ps (jsonWrite text fd).2

/-! ## The printer writes the pieces -/

theorem Print.andThen_done (p : Print) : p.andThen .done = p := by
  funext s
  rw [andThen]
  cases p s with
  | error e => rfl
  | ok result =>
    obtain ⟨success, s⟩ := result
    cases success <;> rfl

theorem Print.andThen_assoc (p q r : Print) :
    (p.andThen q).andThen r = p.andThen (q.andThen r) := by
  funext s
  rw [andThen, andThen, andThen]
  cases p s with
  | error e => rfl
  | ok result =>
    obtain ⟨success, s⟩ := result
    cases success <;> rfl

theorem runPieces_append (ps qs : List Piece) :
    runPieces (ps ++ qs) = (runPieces ps).andThen (runPieces qs) := by
  induction ps with
  | nil => rfl
  | cons p ps ih => rw [List.cons_append, runPieces, runPieces, ih, Print.andThen_assoc]

theorem set_restored (text : List UInt8) (stop : ℕ) :
    (text.set stop 0).set stop (text.getD stop 0) = text := by
  rw [List.set_set]
  rcases Nat.lt_or_ge stop text.length with hlt | hge
  · rw [List.getD_eq_getElem?_getD, List.getElem?_eq_getElem hlt, Option.getD_some,
      List.set_getElem_self]
  · rw [List.set_eq_of_length_le hge]

theorem Print.write_eq (text : List UInt8) (json : StoredJSON) (fd : Fd) :
    Print.write text (json, fd) = .ok ((jsonWrite text fd).1, json, (jsonWrite text fd).2) := rfl

/-- The terminator stays in memory exactly when the write fails. -/
theorem Print.terminated_eq (stop : ℕ) (text : List UInt8) (json : StoredJSON) (fd : Fd) :
    Print.terminated stop (.write text) (json, fd) =
      if (jsonWrite text fd).1 then .ok (true, json, (jsonWrite text fd).2)
      else .ok (false, { json with jsonString := json.jsonString.set stop 0 },
        (jsonWrite text fd).2) := by
  rw [terminated, write_eq, ok_bind]
  simp only [set_restored]

theorem Print.terminated_andThen (stop : ℕ) (text : List UInt8) (q : Print) (json : StoredJSON)
    (fd : Fd) :
    (Print.terminated stop (.write text)).andThen q (json, fd) =
      if (jsonWrite text fd).1 then q (json, (jsonWrite text fd).2)
      else .ok (false, { json with jsonString := json.jsonString.set stop 0 },
        (jsonWrite text fd).2) := by
  rw [andThen, terminated_eq]
  cases (jsonWrite text fd).1 <;> rfl

/-- **A part of the printing** that does what these pieces do. -/
def Prints (json : StoredJSON) (p : Print) (ps : List Piece) : Prop :=
  ∀ fd, p (json, fd) = runPieces ps (json, fd)

/-- What succeeds leaves memory as it was. -/
theorem runPieces_cases (ps : List Piece) (json : StoredJSON) (fd : Fd) :
    (∃ fd', runPieces ps (json, fd) = .ok (true, json, fd')) ∨
      ∃ json' fd', runPieces ps (json, fd) = .ok (false, json', fd') := by
  induction ps generalizing fd with
  | nil => exact Or.inl ⟨fd, rfl⟩
  | cons p ps ih =>
    rw [runPieces, Print.andThen]
    cases p with
    | plain text =>
      rw [Piece.run, Print.write_eq, ok_bind]
      cases (jsonWrite text fd).1 with
      | true => exact ih (jsonWrite text fd).2
      | false => exact Or.inr ⟨_, _, rfl⟩
    | token stop text =>
      rw [Piece.run, Print.terminated_eq]
      cases (jsonWrite text fd).1 with
      | true => exact ih (jsonWrite text fd).2
      | false => exact Or.inr ⟨_, _, rfl⟩
    | tooDeep => exact Or.inr ⟨_, _, rfl⟩

section
variable {json : StoredJSON} {p q : Print} {ps qs : List Piece}

theorem Prints.andThen (hp : Prints json p ps) (hq : Prints json q qs) :
    Prints json (p.andThen q) (ps ++ qs) := by
  intro fd
  rw [runPieces_append, Print.andThen, Print.andThen, hp fd]
  rcases runPieces_cases ps json fd with ⟨fd', hok⟩ | ⟨json', fd', hfail⟩
  · rw [hok]
    exact hq fd'
  · rw [hfail]
    rfl

theorem Prints.piece (piece : Piece) : Prints json piece.run [piece] := by
  intro fd
  rw [runPieces, runPieces, Print.andThen_done]

theorem Prints.done : Prints json .done [] := fun _ => rfl

theorem Prints.write (text : List UInt8) : Prints json (.write text) [.plain text] :=
  .piece (.plain text)

/-- The terminator stands behind what a token delimits. -/
theorem slice_set (js : List UInt8) (start stop : ℕ) (c : UInt8) :
    slice (js.set stop c) start stop = slice js start stop := by
  refine List.ext_getElem? fun i => ?_
  rw [slice, slice, List.getElem?_take, List.getElem?_take]
  split_ifs with hi
  · rw [List.getElem?_drop, List.getElem?_drop, List.getElem?_set_ne]
    omega
  · rfl

/-- The text of a token, with a terminator behind it. -/
theorem Prints.token (tok : Token) : Prints json (.terminated tok.stop (.writeText tok))
    [.token tok.stop (tok.text json.jsonString)] := by
  intro fd
  have htext : tok.text (json.jsonString.set tok.stop 0) = tok.text json.jsonString := slice_set ..
  have hsame : Print.terminated tok.stop (.writeText tok) (json, fd) =
      Print.terminated tok.stop (.write (tok.text json.jsonString)) (json, fd) := by
    rw [Print.terminated, Print.writeText, Print.terminated, htext]
  rw [hsame, runPieces, runPieces, Print.andThen_done]
  rfl

/-- A string, with its quotes. -/
theorem Prints.string (tok : Token) :
    Prints json (.terminated tok.stop ((Print.write [quote]).andThen
        ((Print.writeText tok).andThen (.write [quote]))))
      (stringPieces (tok.text json.jsonString) tok.stop) := by
  intro fd
  have htext : tok.text (json.jsonString.set tok.stop 0) = tok.text json.jsonString := slice_set ..
  rw [stringPieces, runPieces, runPieces, runPieces, runPieces, Print.andThen_done]
  simp only [Piece.run, Print.terminated_andThen, Print.terminated_eq]
  rw [Print.terminated]
  simp only [Print.writeText, Print.andThen, Print.write_eq, htext, ok_bind]
  cases (jsonWrite [quote] fd).1 with
  | false => rfl
  | true =>
    simp only [if_true]
    cases (jsonWrite (tok.text json.jsonString) (jsonWrite [quote] fd).2).1 with
    | false => rfl
    | true =>
      simp only [if_true, ok_bind, set_restored]

end

/-! ## The tokens of a tree -/

/-- These tokens are in the map, from an index on. -/
def TokensAt (map : JSON) (idx : ℕ) (ts : List Token) : Prop :=
  ∃ rest, map.jsonTokens.drop idx = ts ++ rest

section
variable {map : JSON} {idx : ℕ}

theorem TokensAt.head {t : Token} {ts : List Token} (h : TokensAt map idx (t :: ts)) :
    map.token idx = t := by
  obtain ⟨rest, hrest⟩ := h
  have hget : map.jsonTokens[idx]? = some t := by
    rw [← Nat.add_zero idx, ← List.getElem?_drop, hrest]
    rfl
  rw [JSON.token, tokenAt, List.getD_eq_getElem?_getD, hget]
  rfl

theorem TokensAt.left {ts us : List Token} (h : TokensAt map idx (ts ++ us)) :
    TokensAt map idx ts := by
  obtain ⟨rest, hrest⟩ := h
  exact ⟨us ++ rest, by rw [hrest, List.append_assoc]⟩

theorem TokensAt.right {ts us : List Token} (h : TokensAt map idx (ts ++ us)) :
    TokensAt map (idx + ts.length) us := by
  obtain ⟨rest, hrest⟩ := h
  exact ⟨rest, by rw [← List.drop_drop, hrest, List.append_assoc, List.drop_left]⟩

theorem TokensAt.tail {t : Token} {ts : List Token} (h : TokensAt map idx (t :: ts)) :
    TokensAt map (idx + 1) ts := @TokensAt.right map idx [t] ts h

end

theorem Items.tokens_parent {kind : Kind} (items : Items kind) (parent idx pos : ℕ)
    (h : items.isNil = false) :
    ∃ t ts, items.tokens parent idx pos = t :: ts ∧ t.parent = some parent := by
  cases items with
  | nil => cases h
  | cons lead value after rest =>
    cases kind with
    | array =>
      obtain ⟨more, hmore⟩ := value.tokens_head (some parent) idx (pos + lead.text.length)
      rw [Items.tokens]
      change ∃ t ts, value.tokens (some parent) idx (pos + lead.text.length) ++ _ = t :: ts ∧ _
      rw [hmore]
      exact ⟨_, _, rfl, rfl⟩
    | object => exact ⟨_, _, rfl, rfl⟩

theorem Value.size_pos (v : Value) : 0 < v.size := by
  cases v <;> simp only [Value.size] <;> omega

theorem Items.size_pos {kind : Kind} (items : Items kind) (h : items.isNil = false) :
    0 < items.size := by
  cases items with
  | nil => cases h
  | cons lead value after rest =>
    have hpos := value.size_pos
    rw [Items.size]
    omega

theorem Items.size_nil {kind : Kind} (items : Items kind) (h : items.isNil = true) :
    items.size = 0 := by
  cases items with
  | nil => rfl
  | cons lead value after rest => cases h

/-! ## The walk over the tokens of a tree -/

section

variable {json : JSON} {fuel idx start stop indent : ℕ} {parent : Option JsmnType} {isKey : Bool}
  {sep more : List Piece}

theorem prettyLoop_end (json : StoredJSON) (fuel start stop indent : ℕ) (parent : Option JsmnType)
    (isKey : Bool) :
    Prints json (prettyLoop (fuel + 1) parent start stop indent stop isKey) [] := by
  intro fd
  rw [prettyLoop]
  simp only [Nat.lt_irrefl, if_false, ne_eq, not_true_eq_false]
  rfl

/-- What is written of a token that has no other tokens in it. -/
def leafPieces (type : JsmnType) (text : List UInt8) (stop : ℕ) : List Piece :=
  if type = .string then stringPieces text stop else [.token stop text]

theorem prettyLoop_leaf {t : Token} (htoken : json.token idx = t)
    (htype : t.type = .string ∨ t.type = .primitive) (hlt : idx < stop)
    (hsep : Prints json.stored (separator parent (idx = start) isKey indent) sep)
    (hmore : Prints json.stored
      (prettyLoop fuel parent start stop indent (idx + 1) (!isKey)) more) :
    Prints json.stored (prettyLoop (fuel + 1) parent start stop indent idx isKey)
      (sep ++ (leafPieces t.type (t.text json.stored.jsonString) t.stop ++ more)) := by
  intro fd
  have htok : json.stored.token idx = t := htoken
  rw [prettyLoop]
  rcases htype with hstring | hprimitive
  · simp only [hlt, if_true, htok, hstring]
    exact hsep.andThen ((Prints.string t).andThen hmore) fd
  · simp only [hlt, if_true, htok, hprimitive]
    exact hsep.andThen ((Prints.token t).andThen hmore) fd

theorem prettyLoop_container {t : Token} {kind : Kind} {inner : List Piece}
    (htoken : json.token idx = t) (htype : t.type = kind.type) (hlt : idx < stop)
    (hsep : Prints json.stored (separator parent (idx = start) isKey indent) sep)
    (hinner : Prints json.stored (jsonPrettyPrint fuel (idx + 1) (idx + t.skip) (indent + 1)) inner)
    (hmore : Prints json.stored
      (prettyLoop fuel parent start stop indent (idx + t.skip) (!isKey)) more) :
    Prints json.stored (prettyLoop (fuel + 1) parent start stop indent idx isKey)
      (sep ++ (.plain (kind.opener :: (gap kind).bytes) :: (inner ++ closingPieces indent kind) ++
        more)) := by
  intro fd
  have htok : json.stored.token idx = t := htoken
  rw [prettyLoop]
  cases kind with
  | array =>
    simp only [hlt, if_true, htok, htype, Kind.type]
    have hall := hsep.andThen ((Prints.write [Kind.array.opener, space]).andThen (hinner.andThen
      ((Prints.write [space, Kind.array.closer]).andThen hmore))) fd
    simpa [closingPieces, gap, spaceBlank] using hall
  | object =>
    simp only [hlt, if_true, htok, htype, Kind.type]
    have hall := hsep.andThen ((Prints.write [Kind.object.opener, newline]).andThen (hinner.andThen
      ((Prints.write (indentBuf indent)).andThen
        ((Prints.write [Kind.object.closer]).andThen hmore)))) fd
    simpa [closingPieces, gap, newlineBlank] using hall

/-- The separators of an array and of an object. -/
theorem separator_pieces_array (isFirst isKey : Bool) (indent : ℕ) :
    Prints json.stored (separator (some .array) isFirst isKey indent)
      (if isFirst then [] else [.plain [comma, space]]) := by
  cases isFirst
  · exact .write _
  · exact .done

theorem separator_pieces_key (isFirst : Bool) (indent : ℕ) :
    Prints json.stored (separator (some .object) isFirst true indent)
      ((if isFirst then [] else [.plain [comma, newline]]) ++ [.plain (indentBuf indent)]) := by
  refine Prints.andThen ?_ (.write _)
  cases isFirst
  · exact .write _
  · exact .done

theorem separator_pieces_colon (isFirst : Bool) (indent : ℕ) :
    Prints json.stored (separator (some .object) isFirst false indent)
      [.plain [space, colon, space]] := .write _

end

/-- The call for what is in a container. -/
theorem jsonPrettyPrint_items {json : JSON} {kind : Kind} {items : Items kind}
    {idx fuel indent pos : ℕ}
    (htype : (json.token idx).type = kind.type)
    (htokens : TokensAt json (idx + 1) (items.tokens idx (idx + 1) pos)) (hfuel : 0 < fuel)
    (hitems : Prints json.stored (prettyLoop fuel (some kind.type) (idx + 1) (idx + 1 + items.size)
      (indent + 1) (idx + 1) true) (items.pieces (indent + 1) pos true)) :
    Prints json.stored (jsonPrettyPrint (fuel + 1) (idx + 1) (idx + (1 + items.size)) (indent + 1))
      (if maxIndent < indent + 1 then [.tooDeep]
        else items.pieces (indent + 1) pos true ++
          if items.isNil || kind = .object then [.plain [newline]] else []) := by
  intro fd
  rw [jsonPrettyPrint]
  by_cases hdeep : maxIndent < indent + 1
  · simp only [hdeep, if_true]
    rfl
  simp only [hdeep, if_false]
  rw [← Nat.add_assoc]
  cases hnil : items.isNil with
  | true =>
    obtain ⟨fuel, rfl⟩ : ∃ n, fuel = n + 1 := ⟨fuel - 1, by omega⟩
    have hparent : json.stored.parentType (idx + 1) (idx + 1) = none := if_neg (Nat.lt_irrefl _)
    have hempty : items.pieces (indent + 1) pos true = [] := by
      cases items with
      | nil => rfl
      | cons lead value after rest => cases hnil
    rw [items.size_nil hnil, Nat.add_zero, hparent, hempty]
    exact (prettyLoop_end json.stored fuel _ _ _ none true).andThen (.write [newline]) fd
  | false =>
    obtain ⟨t, ts, hts, hp⟩ := items.tokens_parent idx (idx + 1) pos hnil
    rw [hts] at htokens
    have hlt := items.size_pos hnil
    have hparent : json.stored.parentType (idx + 1) (idx + 1 + items.size) = some kind.type := by
      change (if _ then (json.token (idx + 1)).parent.map fun parent => (json.token parent).type
        else none) = _
      rw [if_pos (by omega), htokens.head, hp, Option.map_some, htype]
    rw [hparent]
    refine hitems.andThen ?_ fd
    cases kind with
    | array => exact .done
    | object => exact .write [newline]

/-- What a token of a value delimits in memory. -/
theorem stored_text {json : JSON} (v : Value) {before after : List UInt8} (above : Option ℕ)
    (hjs : json.jsonString.bytes = before ++ (v.text ++ after)) :
    (v.token above before.length).text json.stored.jsonString = v.raw := by
  refine @Value.token_text v _ before (after ++ [0]) above ?_
  rw [JSON.stored, hjs]
  simp only [List.append_assoc]

/-! ## The walk over a tree -/

section
variable (json : JSON)

/-- Wherever the value stands, the walk over its tokens writes its pieces and goes on behind it. -/
def Value.Walks (v : Value) : Prop :=
  ∀ (before after : List UInt8) (above : Option ℕ) (fuel idx start stop indent : ℕ)
      (parent : Option JsmnType) (isKey : Bool) (sep more : List Piece),
    json.jsonString.bytes = before ++ (v.text ++ after) →
    TokensAt json idx (v.tokens above idx before.length) → 2 * v.size ≤ fuel → idx < stop →
    Prints json.stored (separator parent (idx = start) isKey indent) sep →
    Prints json.stored (prettyLoop fuel parent start stop indent (idx + v.size) (!isKey)) more →
    Prints json.stored (prettyLoop (fuel + 1) parent start stop indent idx isKey)
      (sep ++ (v.pieces indent before.length ++ more))

/-- Wherever the items stand in their container, the walk over the rest of it writes their
pieces. -/
def Items.Walks {kind : Kind} (items : Items kind) : Prop :=
  ∀ (before after between : List UInt8) (above fuel idx start indent : ℕ) (isKey : Bool),
    json.jsonString.bytes = before ++ (items.text between ++ after) →
    TokensAt json idx (items.tokens above idx (before.length + between.length)) →
    2 * items.size + 1 ≤ fuel → (kind = .object → isKey = true) → start ≤ idx →
    Prints json.stored (prettyLoop fuel (some kind.type) start (idx + items.size) indent idx isKey)
      (items.pieces indent (before.length + between.length) (idx = start))

theorem walks_primitive (p : Primitive) : (Value.primitive p).Walks json := by
  intro before after above fuel idx start stop indent parent isKey sep more hjs htokens _ hlt hsep
    hmore
  have hprinted := prettyLoop_leaf htokens.head (.inr rfl) hlt hsep hmore
  have htext := stored_text (.primitive p) above hjs
  simp only [Value.token, Value.raw, Value.type, Value.inset, Value.size, Nat.add_zero] at htext
  rw [htext] at hprinted
  exact hprinted

theorem walks_string (s : Chars) : (Value.string s).Walks json := by
  intro before after above fuel idx start stop indent parent isKey sep more hjs htokens _ hlt hsep
    hmore
  have hprinted := prettyLoop_leaf htokens.head (.inl rfl) hlt hsep hmore
  have htext := stored_text (.string s) above hjs
  simp only [Value.token, Value.raw, Value.type, Value.inset, Value.size] at htext
  rw [htext] at hprinted
  exact hprinted

theorem walks_nil (kind : Kind) : (Items.nil : Items kind).Walks json := by
  intro before after between above fuel idx start indent isKey _ _ hfuel _ _
  obtain ⟨fuel, rfl⟩ : ∃ n, fuel = n + 1 := ⟨fuel - 1, by omega⟩
  exact prettyLoop_end json.stored fuel start idx indent _ isKey

variable {json}

theorem walks_container {kind : Kind} {items : Items kind} (blank : Blank)
    (hitems : items.Walks json) : (Value.container kind blank items).Walks json := by
  intro before after above fuel idx start stop indent parent isKey sep more hjs htokens hfuel hlt
    hsep hmore
  rw [Value.size] at hfuel hmore
  obtain ⟨fuel, rfl⟩ : ∃ n, fuel = n + 1 := ⟨fuel - 1, by omega⟩
  have htoken := htokens.head
  have hinside : TokensAt json (idx + 1)
      (items.tokens idx (idx + 1) (before.length + 1 + blank.bytes.length)) := htokens.tail
  have hjs' : json.jsonString.bytes = (before ++ kind.opener :: blank.bytes) ++
      (items.text [] ++ kind.closer :: after) := by
    rw [hjs]
    simp [Value.text]
  have hlength : (before ++ kind.opener :: blank.bytes).length + ([] : List UInt8).length =
      before.length + 1 + blank.bytes.length := by
    simp only [List.length_append, List.length_cons, List.length_nil]
    omega
  have hinner := hitems _ _ [] idx fuel (idx + 1) (idx + 1) (indent + 1) true hjs'
    (by rw [hlength]; exact hinside) (by omega) (fun _ => rfl) (le_refl _)
  rw [hlength, decide_eq_true rfl] at hinner
  exact prettyLoop_container htoken rfl hlt hsep
    (jsonPrettyPrint_items (by rw [htoken]) hinside (by omega) hinner) hmore

section
variable {kind : Kind} (lead : Lead kind) (value : Value) (after : Blank) (rest : Items kind)
  {before between : List UInt8}

/-- What stands before the first value, and before the second item. -/
def Items.upToValue (before between : List UInt8) : List UInt8 := before ++ (between ++ lead.text)

def Items.upToRest (before between : List UInt8) : List UInt8 :=
  before ++ (between ++ (lead.text ++ (value.text ++ after.bytes)))

theorem length_upToValue : (Items.upToValue lead before between).length =
    before.length + between.length + lead.text.length := by
  simp only [Items.upToValue, List.length_append]
  omega

theorem length_upToRest : (Items.upToRest lead value after before between).length + [comma].length =
    before.length + between.length + lead.text.length + value.text.length + after.bytes.length +
      1 := by
  simp only [Items.upToRest, List.length_append, List.length_singleton]
  omega

theorem cons_text {bytes behind : List UInt8}
    (h : bytes = before ++ ((Items.cons lead value after rest).text between ++ behind)) :
    bytes = Items.upToValue lead before between ++
        (value.text ++ (after.bytes ++ (rest.text [comma] ++ behind))) ∧
      bytes = Items.upToRest lead value after before between ++ (rest.text [comma] ++ behind) := by
  rw [Items.text] at h
  rw [h]
  constructor <;> simp [Items.upToValue, Items.upToRest]

theorem cons_tokens {above idx : ℕ}
    (h : TokensAt json idx
      ((Items.cons lead value after rest).tokens above idx (before.length + between.length))) :
    TokensAt json idx (lead.tokens above (before.length + between.length) value.size) ∧
      TokensAt json (idx + lead.size)
        (value.tokens (some (lead.super above idx)) (idx + lead.size)
          (Items.upToValue lead before between).length) ∧
      TokensAt json (idx + lead.size + value.size)
        (rest.tokens above (idx + lead.size + value.size)
          ((Items.upToRest lead value after before between).length + [comma].length)) := by
  rw [length_upToValue, length_upToRest]
  rw [Items.tokens] at h
  have hvalue := h.right.left
  have hrest := h.right.right
  rw [Lead.tokens_length] at hvalue hrest
  rw [tokens_length.1] at hrest
  exact ⟨h.left, hvalue, hrest⟩

theorem cons_pieces (indent : ℕ) (isFirst : Bool) :
    (Items.cons lead value after rest).pieces indent (before.length + between.length) isFirst =
      lead.pieces indent (before.length + between.length) isFirst ++
        (value.pieces indent (Items.upToValue lead before between).length ++
          rest.pieces indent
            ((Items.upToRest lead value after before between).length + [comma].length) false) := by
  rw [length_upToValue, length_upToRest, Items.pieces]

end

theorem walks_element (lead : Lead .array) {value : Value} (after : Blank) {rest : Items .array}
    (hvalue : value.Walks json) (hrest : rest.Walks json) :
    (Items.cons lead value after rest).Walks json := by
  intro before behind between above fuel idx start indent isKey hjs htokens hfuel _ hstart
  have hlead : lead.size = 0 := rfl
  obtain ⟨hvalueJs, hrestJs⟩ := cons_text lead value after rest hjs
  obtain ⟨-, hvalueTokens, hrestTokens⟩ := cons_tokens lead value after rest htokens
  rw [hlead] at hvalueTokens hrestTokens
  rw [Items.size, hlead] at hfuel
  have hpos := value.size_pos
  obtain ⟨fuel, rfl⟩ : ∃ n, fuel = n + 1 := ⟨fuel - 1, by omega⟩
  have hmore := hrest _ behind [comma] above fuel (idx + 0 + value.size) start indent (!isKey)
    hrestJs hrestTokens (by omega) (fun h => by cases h) (by omega)
  have hstop : idx + (Items.cons lead value after rest).size =
      idx + 0 + value.size + rest.size := by
    rw [Items.size, hlead]
    omega
  have hnotFirst : ¬ idx + 0 + value.size = start := by omega
  rw [decide_eq_false hnotFirst] at hmore
  have hitem := hvalue _ _ (some above) fuel idx start (idx + 0 + value.size + rest.size) indent _
    isKey _ _ hvalueJs hvalueTokens (by omega) (by omega) (separator_pieces_array _ isKey _) hmore
  rw [cons_pieces, hstop]
  exact hitem

/-- A member takes two turns of the loop: one writes its key, one its value. -/
theorem walks_member (lead : Lead .object) {value : Value} (after : Blank) {rest : Items .object}
    (hvalue : value.Walks json) (hrest : rest.Walks json) :
    (Items.cons lead value after rest).Walks json := by
  intro before behind between above fuel idx start indent isKey hjs htokens hfuel hkey hstart
  have hlead : lead.size = 1 := rfl
  obtain ⟨hvalueJs, hrestJs⟩ := cons_text lead value after rest hjs
  obtain ⟨hkeyTokens, hvalueTokens, hrestTokens⟩ := cons_tokens lead value after rest htokens
  rw [hlead] at hvalueTokens hrestTokens
  rw [Items.size, hlead] at hfuel
  have hpos := value.size_pos
  obtain ⟨fuel, rfl⟩ : ∃ n, fuel = n + 2 := ⟨fuel - 2, by omega⟩
  have hmore := hrest _ behind [comma] above fuel (idx + 1 + value.size) start indent isKey hrestJs
    hrestTokens (by omega) hkey (by omega)
  have hstop : idx + (Items.cons lead value after rest).size =
      idx + 1 + value.size + rest.size := by
    rw [Items.size, hlead]
    omega
  have hnotFirst : ¬ idx + 1 + value.size = start := by omega
  rw [decide_eq_false hnotFirst, hkey rfl] at hmore
  rw [hkey rfl]
  have hitem := hvalue _ _ (some idx) fuel (idx + 1) start (idx + 1 + value.size + rest.size) indent
    _ false _ _ hvalueJs hvalueTokens (by omega) (by omega) (separator_pieces_colon _ _) hmore
  have hchars : (Key.token lead above (before.length + between.length) value.size).text
      json.stored.jsonString = (Key.chars lead).bytes := by
    have hraws := lead.tokens_text json.stored.jsonString (before ++ between)
      (value.text ++ (after.bytes ++ (rest.text [comma] ++ behind)) ++ [0]) above value.size
      (by rw [JSON.stored, hvalueJs, Items.upToValue]; simp only [List.append_assoc])
    rw [List.length_append] at hraws
    exact (List.cons.inj hraws).1
  have hprinted := prettyLoop_leaf hkeyTokens.head (.inl rfl)
    (by omega : idx < idx + 1 + value.size + rest.size) (separator_pieces_key _ _) hitem
  have hpieces :
      Lead.pieces indent (before.length + between.length) (decide (idx = start)) lead =
      (if decide (idx = start) then [] else [.plain [comma, newline]]) ++
        .plain (indentBuf indent) :: (leafPieces .string (Key.chars lead).bytes
          (Key.token lead above (before.length + between.length) value.size).stop ++
            [.plain [space, colon, space]]) := rfl
  have htype : (Key.token lead above (before.length + between.length) value.size).type =
      .string := rfl
  rw [hchars, htype] at hprinted
  rw [hstop, cons_pieces, hpieces]
  simpa [Kind.type] using hprinted

end

/-- **The walk** over the tokens of a tree does what the pieces of the tree say. -/
theorem prettyLoop_tree (json : JSON) :
    (∀ v : Value, v.Walks json) ∧ ∀ {kind : Kind} (items : Items kind), items.Walks json := by
  apply tree_induction
  · exact walks_primitive json
  · exact walks_string json
  · exact fun kind blank items ih => walks_container blank ih
  · exact walks_nil json
  · intro kind lead value after rest hvalue hrest
    cases kind with
    | array => exact walks_element lead after hvalue hrest
    | object => exact walks_member lead after hvalue hrest

/-- **The printer** does what the pieces of the text say. -/
theorem serialize_pieces (d : Document) {js : CString} (hjs : js.bytes = d.text) (fd : Fd) :
    serialize (d.json js).stored true fd = runPieces d.pieces ((d.json js).stored, fd) := by
  rw [serialize, if_pos rfl, jsonPrettyPrint]
  change ((prettyLoop _ _ 0 _ 0 0 true).andThen _) _ = _
  cases d with
  | blank b =>
    exact (prettyLoop_end _ 0 0 0 0 none true).andThen (.write [newline]) fd
  | value before v after =>
    obtain ⟨more, hmore⟩ := v.tokens_head none 0 before.bytes.length
    have hnum : ((Document.value before v after).json js).stored.numTokens = v.size :=
      tokens_length.1 v none 0 _
    have htokens : TokensAt ((Document.value before v after).json js) 0
        (v.tokens none 0 before.bytes.length) := ⟨[], by simp [Document.json, Document.tokens]⟩
    have hparent : ((Document.value before v after).json js).stored.parentType 0 v.size = none := by
      have htoken := htokens
      rw [hmore] at htoken
      change
        (if _ then (((Document.value before v after).json js).token 0).parent.map _ else none) = _
      rw [htoken.head]
      split_ifs <;> rfl
    have hpos := v.size_pos
    have hend : Prints ((Document.value before v after).json js).stored
        (prettyLoop (2 * v.size) none 0 v.size 0 (0 + v.size) false) [] := by
      obtain ⟨fuel, hfuel⟩ : ∃ n, 2 * v.size = n + 1 := ⟨2 * v.size - 1, by omega⟩
      rw [Nat.zero_add, hfuel]
      exact prettyLoop_end _ fuel 0 v.size 0 none false
    have hprinted := (prettyLoop_tree ((Document.value before v after).json js)).1 v before.bytes
      after.bytes none (2 * v.size) 0 0 v.size 0 none true [] [] hjs htokens
        (le_refl _) hpos .done hend
    rw [hnum, hparent]
    have hall := hprinted.andThen (.write [newline]) fd
    simpa [Document.pieces] using hall

/-! ## What is left in memory -/

def Piece.stop : Piece → Option ℕ
  | .token stop _ => some stop
  | _ => none

/-- Memory is as it was unless a part of a token is not written. -/
theorem runPieces_memory {ps : List Piece} {json : StoredJSON}
    (hstops : ∀ p ∈ ps, ∀ stop ∈ p.stop, json.jsonString.getD stop 0 ≠ 0) (fd : Fd) :
    ∃ success json' fd', runPieces ps (json, fd) = .ok (success, json', fd') ∧
      (json' = json ↔ failsInToken ps fd = false) := by
  induction ps generalizing fd with
  | nil => exact ⟨true, json, fd, rfl, by simp [failsInToken]⟩
  | cons p ps ih =>
    rw [List.forall_mem_cons] at hstops
    rw [runPieces, Print.andThen]
    cases p with
    | plain text =>
      rw [Piece.run, Print.write_eq, ok_bind, failsInToken]
      cases (jsonWrite text fd).1 with
      | true => exact ih hstops.2 (jsonWrite text fd).2
      | false => exact ⟨_, _, _, rfl, by simp⟩
    | token stop text =>
      rw [Piece.run, Print.terminated_eq, failsInToken]
      cases (jsonWrite text fd).1 with
      | true => exact ih hstops.2 (jsonWrite text fd).2
      | false =>
        refine ⟨_, _, _, rfl, iff_of_false (fun hsame => ?_) (by simp)⟩
        have hbyte := hstops.1 stop rfl
        have hlt : stop < json.jsonString.length := by
          by_contra hge
          rw [List.getD_eq_getElem?_getD, List.getElem?_eq_none (Nat.not_lt.mp hge)] at hbyte
          exact hbyte rfl
        have hset : (json.jsonString.set stop 0).getD stop 0 = json.jsonString.getD stop 0 := by
          have hstring : json.jsonString.set stop 0 = json.jsonString :=
            congrArg StoredJSON.jsonString hsame
          rw [hstring]
        rw [List.getD_eq_getElem?_getD, List.getElem?_set_self hlt, Option.getD_some] at hset
        exact hbyte hset.symm
    | tooDeep => exact ⟨_, _, _, rfl, by simp [failsInToken]⟩

theorem stringPieces_stop {chars : List UInt8} {stop : ℕ} {p : Piece}
    (h : p ∈ stringPieces chars stop) :
    p.stop = some stop := by
  simp only [stringPieces, List.mem_cons, List.not_mem_nil, or_false] at h
  rcases h with rfl | rfl | rfl <;> rfl

theorem Lead.pieces_stop {kind : Kind} (lead : Lead kind) (indent pos : ℕ) (isFirst : Bool)
    {p : Piece}
    (h : p ∈ lead.pieces indent pos isFirst) : ∀ stop ∈ p.stop, stop ≤ pos + lead.text.length := by
  intro stop hstop
  cases kind with
  | array =>
    rw [Lead.pieces] at h
    split_ifs at h
    · cases h
    · rw [List.mem_singleton.mp h] at hstop
      cases hstop
  | object =>
    change p ∈ (if isFirst then [] else [Piece.plain [comma, newline]]) ++ Piece.plain _ ::
      (stringPieces (Key.chars lead).bytes _ ++ [Piece.plain _]) at h
    have hplain : ∀ text, p ≠ .plain text := by
      rintro text rfl
      cases hstop
    have hstring : p ∈ stringPieces (Key.chars lead).bytes
        (pos + (Key.before lead).bytes.length + 1 + (Key.chars lead).bytes.length) := by
      cases isFirst <;> simpa [hplain] using h
    rw [stringPieces_stop hstring] at hstop
    cases hstop
    obtain ⟨before, chars, after, beforeValue⟩ : Key := lead
    simp only [Lead.text, Key.text, List.length_append, List.length_cons]
    omega

/-- The tokens of a tree end within its text, and before its end unless it is a primitive. -/
theorem pieces_stop :
    (∀ (v : Value) (indent pos : ℕ), ∀ p ∈ v.pieces indent pos, ∀ stop ∈ p.stop,
      stop ≤ pos + v.text.length ∧ (v.type ≠ .primitive → stop < pos + v.text.length)) ∧
    ∀ {kind : Kind} (items : Items kind) (indent pos : ℕ) (isFirst : Bool) (separator : List UInt8),
      ∀ p ∈ items.pieces indent pos isFirst, ∀ stop ∈ p.stop,
        stop + separator.length ≤ pos + (items.text separator).length := by
  apply tree_induction
  · intro p indent pos piece hpiece stop hstop
    rw [Value.pieces, List.mem_singleton] at hpiece
    subst hpiece
    cases hstop
    exact ⟨le_refl _, fun h => absurd rfl h⟩
  · intro s indent pos piece hpiece stop hstop
    rw [Value.pieces] at hpiece
    rw [stringPieces_stop hpiece] at hstop
    cases hstop
    rw [Value.text, List.length_cons, List.length_append, List.length_singleton]
    omega
  · intro kind blank items ih indent pos piece hpiece stop hstop
    have hplain : ∀ text, piece ≠ .plain text := by
      rintro text rfl
      cases hstop
    have hdeep : piece ≠ .tooDeep := by
      rintro rfl
      cases hstop
    have hitem : piece ∈ items.pieces (indent + 1) (pos + 1 + blank.bytes.length) true := by
      rw [Value.pieces, List.mem_cons, List.mem_append] at hpiece
      rcases hpiece with hopen | hinner | hclose
      · exact absurd hopen (hplain _)
      · split_ifs at hinner
        · exact absurd (List.mem_singleton.mp hinner) hdeep
        · exact (List.mem_append.mp hinner).resolve_right fun h =>
            hplain _ (List.mem_singleton.mp h)
        · simpa using hinner
      · cases kind <;> simp [closingPieces, hplain] at hclose
    have hbound := ih _ _ true [] piece hitem stop hstop
    rw [Value.text]
    simp only [List.length_append, List.length_cons, List.length_nil] at hbound ⊢
    omega
  · intro kind indent pos isFirst separator piece hpiece
    rw [Items.pieces] at hpiece
    cases hpiece
  · intro kind lead value after rest hvalue hrest indent pos isFirst separator piece hpiece stop
      hstop
    rw [Items.pieces, List.mem_append, List.mem_append] at hpiece
    rw [Items.text]
    simp only [List.length_append]
    rcases hpiece with hlead | hpiece | hpiece
    · have hbound := lead.pieces_stop indent pos isFirst hlead stop hstop
      omega
    · have hbound := (hvalue _ _ piece hpiece stop hstop).1
      omega
    · have hbound := hrest _ _ _ [comma] piece hpiece stop hstop
      rw [List.length_singleton] at hbound
      omega

/-- Behind every token of a map there is a character. -/
theorem MapText.piece_byte (o : MapText) {js : CString} (hjs : js.bytes = o.text) :
    ∀ p ∈ o.document.pieces, ∀ stop ∈ p.stop, (o.json js).stored.jsonString.getD stop 0 ≠ 0 := by
  intro p hp stop hstop
  rw [MapText.document, Document.pieces, List.mem_append] at hp
  have hlt : stop < js.bytes.length := by
    rcases hp with hp | hp
    · have hbound := (pieces_stop.1 _ _ _ p hp stop hstop).2 (fun h => by cases h)
      rw [hjs, MapText.text, MapText.document, Document.text]
      simp only [List.length_append]
      omega
    · rw [List.mem_singleton.mp hp] at hstop
      cases hstop
  change (js.bytes ++ [0]).getD stop 0 ≠ 0
  rw [List.getD_eq_getElem?_getD, List.getElem?_append_left hlt, List.getElem?_eq_getElem hlt,
    Option.getD_some]
  exact fun h => js.terminated (h ▸ List.getElem_mem hlt)

/-- What is left in memory when a map is serialized. -/
theorem MapText.serialize_memory (o : MapText) {js : CString} (hjs : js.bytes = o.text)
    (pretty : Bool)
    (fd : Fd) :
    ∃ success map' fd', serialize (o.json js).stored pretty fd = .ok (success, map', fd') ∧
      (map' = (o.json js).stored ↔
        ¬ (pretty = true ∧ failsInToken o.document.pieces fd = true)) := by
  cases pretty with
  | false => exact ⟨_, _, _, rfl, by simp⟩
  | true =>
    obtain ⟨success, map', fd', hrun, hsame⟩ := runPieces_memory (o.piece_byte hjs) fd
    refine ⟨success, map', fd', (serialize_pieces o.document hjs fd).trans hrun, hsame.trans ?_⟩
    simp

/-- **Main.** Whatever the writes come to, the text, the length and the tokens of a map are as they
were before it was serialized, if and only if, where it is printed with indents, the first write
that fails is not one of a key, a string or a primitive. -/
theorem serialize_readOnly {js : CString} {map : JSON} (h : jsonCreateFromString js = .ok map)
    (hmap : jsonIsMap map = true) :
    ∃ o : MapText, o.text = js.bytes ∧ ∀ (pretty : Bool) (fd : Fd),
      ∃ success map' fd', serialize map.stored pretty fd = .ok (success, map', fd') ∧
        (map' = map.stored ↔ ¬ (pretty = true ∧ failsInToken o.document.pieces fd = true)) := by
  obtain ⟨o, hjs, rfl⟩ := parsed_map h hmap
  exact ⟨o, hjs.symm, fun pretty fd => o.serialize_memory hjs pretty fd⟩

/-- A disk with room for two writes. -/
def fullFile (written : List UInt8) (calls : ℕ) : Fd where
  written := written
  calls := calls
  outcome call chunk := if call < 2 then some ⟨chunk, Nat.lt_succ_self _⟩ else none

/-- The first quote of the key in `{"k":"x"}` does not fit, and the terminator behind the key
stays. -/
theorem serialize_fullFile :
    jsonCreateFromString oneMemberString = .ok (oneMember.json oneMemberString) ∧
      ∃ map' fd', serialize (oneMember.json oneMemberString).stored true (fullFile [] 0) =
          .ok (false, map', fd') ∧
        map'.jsonString ≠ (oneMember.json oneMemberString).stored.jsonString := by
  have hopen : jsonWrite [Kind.object.opener, newline] (fullFile [] 0) =
      (true, fullFile [Kind.object.opener, newline] 1) := by
    rw [jsonWrite]
    rfl
  have hindent : jsonWrite [tab] (fullFile [Kind.object.opener, newline] 1) =
      (true, fullFile [Kind.object.opener, newline, tab] 2) := by
    rw [jsonWrite]
    rfl
  have hquote : jsonWrite [quote] (fullFile [Kind.object.opener, newline, tab] 2) =
      (false, fullFile [Kind.object.opener, newline, tab] 3) := by
    rw [jsonWrite]
    rfl
  obtain ⟨ps, hps⟩ : ∃ ps, oneMember.document.pieces = .plain [Kind.object.opener, newline] ::
      .plain [tab] :: .token 3 [quote] :: ps := ⟨_, rfl⟩
  let stored := (oneMember.json oneMemberString).stored
  have hrun : runPieces oneMember.document.pieces (stored, fullFile [] 0) =
      .ok (false, { stored with jsonString := stored.jsonString.set 3 0 },
        fullFile [Kind.object.opener, newline, tab] 3) := by
    rw [hps, runPieces, runPieces, runPieces, Piece.run, Piece.run, Piece.run, Print.andThen,
      Print.write_eq, hopen, ok_bind]
    simp only [if_true]
    rw [Print.andThen, Print.write_eq, hindent, ok_bind]
    simp only [if_true]
    rw [Print.terminated_andThen, hquote]
    rfl
  exact ⟨create_document _ rfl, _, _, (serialize_pieces oneMember.document rfl _).trans hrun,
    by decide⟩

theorem serialize_readOnly_oneMember :
    ∃ o : MapText, o.text = oneMemberString.bytes ∧ ∀ (pretty : Bool) (fd : Fd),
      ∃ success map' fd',
        serialize (oneMember.json oneMemberString).stored pretty fd = .ok (success, map', fd') ∧
        (map' = (oneMember.json oneMemberString).stored ↔
          ¬ (pretty = true ∧ failsInToken o.document.pieces fd = true)) :=
  serialize_readOnly (create_document oneMember.document rfl) rfl

end Apple2ix.Json
