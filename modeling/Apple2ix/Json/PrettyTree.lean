import Apple2ix.Json.Serialize

/-! What the printer writes: the text of the same tree with other white space. -/
namespace Apple2ix.Json
set_option autoImplicit false

/-! ## The printed tree -/

/-- What is printed before the closing character of a container that has items. -/
def closing (indent : ℕ) : Kind → Blank
  | .array => spaceBlank
  | .object => newlineBlank.append (tabs indent)

/-- What is printed in a container that has none. -/
def emptyBlank (indent : ℕ) : Kind → Blank
  | .array => spaceBlank.append (newlineBlank.append spaceBlank)
  | .object => newlineBlank.append (newlineBlank.append (tabs indent))

def Lead.pretty (indent : ℕ) : {kind : Kind} → Lead kind → Lead kind
  | .array, _ => spaceBlank
  | .object, (k : Key) =>
    { before := newlineBlank.append (tabs indent)
      chars := k.chars
      after := spaceBlank
      beforeValue := spaceBlank : Key }

mutual

/-- A value at this indent. -/
def Value.pretty (indent : ℕ) : Value → Value
  | .primitive p => .primitive p
  | .string s => .string s
  | .container kind _ items =>
    .container kind (if items.isNil then emptyBlank indent kind else .none) (items.pretty indent)

/-- The items of a container at this indent. -/
def Items.pretty (indent : ℕ) : {kind : Kind} → Items kind → Items kind
  | _, .nil => .nil
  | kind, .cons lead value _ rest =>
    .cons (lead.pretty (indent + 1)) (value.pretty (indent + 1))
      (if rest.isNil then closing indent kind else .none) (rest.pretty indent)

end

def Document.pretty : Document → Document
  | .blank _ => .blank newlineBlank
  | .value _ v _ => .value .none (v.pretty 0) newlineBlank

mutual

/-- How deep containers are nested. -/
def Value.nesting : Value → ℕ
  | .primitive _ => 0
  | .string _ => 0
  | .container _ _ items => items.nesting + 1

def Items.nesting : {kind : Kind} → Items kind → ℕ
  | _, .nil => 0
  | _, .cons _ value _ rest => max value.nesting rest.nesting

end

def Document.nesting : Document → ℕ
  | .blank _ => 0
  | .value _ v _ => v.nesting

/-! ## The tokens of the printed tree -/

/-- A token of a text, without its offsets; the raw text is that of keys, strings and primitives. -/
structure TokenView where
  type : JsmnType
  size : ℕ
  skip : ℕ
  parent : Option ℕ
  raw : Option (List UInt8)
  deriving DecidableEq

def TokenView.of (t : Token) (text : List UInt8) : TokenView where
  type := t.type
  size := t.size
  skip := t.skip
  parent := t.parent
  raw := if t.type = .object ∨ t.type = .array then none else some text

def Token.view (js : List UInt8) (t : Token) : TokenView := .of t (t.text js)

def JSON.views (json : JSON) : List TokenView :=
  json.jsonTokens.map (Token.view json.jsonString.bytes)

theorem pretty_size :
    (∀ (v : Value) (indent : ℕ), (v.pretty indent).size = v.size) ∧
      ∀ {kind : Kind} (items : Items kind) (indent : ℕ), (items.pretty indent).size = items.size ∧
        (items.pretty indent).count = items.count := by
  apply tree_induction
  · exact fun _ _ => rfl
  · exact fun _ _ => rfl
  · intro kind blank items ih indent
    rw [Value.pretty, Value.size, Value.size, (ih indent).1]
  · exact fun _ _ => ⟨rfl, rfl⟩
  · intro kind lead value after rest hvalue hrest indent
    have hlead : (lead.pretty (indent + 1)).size = lead.size := by cases kind <;> rfl
    rw [Items.pretty, Items.size, Items.size, Items.count, Items.count, hvalue, (hrest indent).1,
      (hrest indent).2, hlead]
    exact ⟨rfl, rfl⟩

theorem Lead.raws_length {kind : Kind} (lead : Lead kind) : lead.raws.length = lead.size := by
  cases kind <;> rfl

theorem raws_length :
    (∀ v : Value, v.raws.length = v.size) ∧
      ∀ {kind : Kind} (items : Items kind), items.raws.length = items.size := by
  apply tree_induction
  · exact fun _ => rfl
  · exact fun _ => rfl
  · intro kind blank items ih
    rw [Value.raws, List.length_cons, ih, Value.size, Nat.add_comm]
  · exact fun _ => rfl
  · intro kind lead value after rest hvalue hrest
    rw [Items.raws, List.length_append, List.length_append, lead.raws_length, hvalue, hrest,
      Items.size, Nat.add_assoc]

/-- **The printed tree** has the tokens of the tree, but for their offsets. -/
theorem pretty_views :
    (∀ (v : Value) (indent : ℕ) (parent : Option ℕ) (idx pos pos' : ℕ),
      List.zipWith TokenView.of ((v.pretty indent).tokens parent idx pos') (v.pretty indent).raws =
        List.zipWith TokenView.of (v.tokens parent idx pos) v.raws) ∧
    ∀ {kind : Kind} (items : Items kind) (indent parent idx pos pos' : ℕ),
      List.zipWith TokenView.of ((items.pretty indent).tokens parent idx pos')
          (items.pretty indent).raws =
        List.zipWith TokenView.of (items.tokens parent idx pos) items.raws := by
  apply tree_induction
  · exact fun _ _ _ _ _ _ => rfl
  · exact fun _ _ _ _ _ _ => rfl
  · intro kind blank items ih indent parent idx pos pos'
    simp only [Value.pretty, Value.tokens, Value.raws, List.zipWith_cons_cons]
    rw [ih indent idx (idx + 1) (pos + 1 + blank.bytes.length), (pretty_size.2 items indent).1,
      (pretty_size.2 items indent).2]
    refine congrArg (· :: _) ?_
    cases kind <;> rfl
  · exact fun _ _ _ _ _ _ => rfl
  · intro kind lead value after rest hvalue hrest indent parent idx pos pos'
    have hleadSize : (lead.pretty (indent + 1)).size = lead.size := by cases kind <;> rfl
    simp only [Items.pretty, Items.tokens, Items.raws]
    rw [List.zipWith_append (by rw [Lead.tokens_length, Lead.raws_length]),
      List.zipWith_append (by rw [tokens_length.1, raws_length.1]),
      List.zipWith_append (by rw [Lead.tokens_length, Lead.raws_length]),
      List.zipWith_append (by rw [tokens_length.1, raws_length.1]), hleadSize,
      pretty_size.1 value]
    refine congrArg₂ _ ?_ (congrArg₂ _ ?_ (hrest _ _ _ _ _))
    · cases kind <;> rfl
    · have hsuper : (lead.pretty (indent + 1)).super parent idx = lead.super parent idx := by
        cases kind <;> rfl
      rw [hsuper]
      exact hvalue _ _ _ _ _

theorem Document.views_eq (d : Document) (js : CString) (hjs : js.bytes = d.text) :
    (d.json js).views = List.zipWith TokenView.of d.tokens d.raws := by
  have hzip : ∀ ts : List Token, ts.map (Token.view d.text) =
      List.zipWith TokenView.of ts (ts.map (Token.text d.text)) := by
    intro ts
    induction ts with
    | nil => rfl
    | cons t ts ih => simp [ih, Token.view]
  rw [← d.tokens_text, ← hzip, ← hjs]
  rfl

theorem Document.pretty_views (d : Document) (js js' : CString) (hjs : js.bytes = d.text)
    (hjs' : js'.bytes = d.pretty.text) : (d.pretty.json js').views = (d.json js).views := by
  rw [d.pretty.views_eq js' hjs', d.views_eq js hjs]
  cases d with
  | blank b => rfl
  | value before v after => exact Json.pretty_views.1 v 0 none 0 _ _

/-! ## The text of the pieces -/

def Piece.text : Piece → List UInt8
  | .plain text => text
  | .token _ text => text
  | .tooDeep => []

/-- All that these pieces write. -/
def textOf (ps : List Piece) : List UInt8 := ps.flatMap Piece.text

@[simp] theorem textOf_nil : textOf [] = [] := rfl

@[simp] theorem textOf_cons (p : Piece) (ps : List Piece) :
    textOf (p :: ps) = p.text ++ textOf ps :=
  List.flatMap_cons ..

@[simp] theorem textOf_append (ps qs : List Piece) : textOf (ps ++ qs) = textOf ps ++ textOf qs :=
  List.flatMap_append ..

/-- The printer does not get too deep in the tree. -/
def Shallow (ps : List Piece) : Prop := .tooDeep ∉ ps

/-- Pieces that are written one after the other on a file whose writes succeed. -/
theorem runPieces_written {ps : List Piece} (hshallow : Shallow ps) (json : StoredJSON) (fd : Fd)
    (hfd : fd.Succeeds) :
    ∃ fd', runPieces ps (json, fd) = .ok (true, json, fd') ∧
      fd'.written = fd.written ++ textOf ps ∧ fd'.Succeeds := by
  induction ps generalizing fd with
  | nil => exact ⟨fd, rfl, (List.append_nil _).symm, hfd⟩
  | cons p ps ih =>
    have hrest : Shallow ps := fun h => hshallow (List.mem_cons_of_mem _ h)
    obtain ⟨one, hwrite, hwritten, hone⟩ := jsonWrite_all p.text fd hfd
    obtain ⟨fd', hrun, hall, hsucceeds⟩ := ih hrest one hone
    refine ⟨fd', ?_, ?_, hsucceeds⟩
    · rw [runPieces, Print.andThen]
      cases p with
      | plain text =>
        change jsonWrite text fd = _ at hwrite
        rw [Piece.run, Print.write_eq, hwrite]
        exact hrun
      | token stop text =>
        change jsonWrite text fd = _ at hwrite
        rw [Piece.run, Print.terminated_eq, hwrite]
        exact hrun
      | tooDeep => exact absurd (List.mem_cons_self ..) hshallow
    · rw [hall, hwritten, textOf_cons, List.append_assoc]

/-- What is printed behind the tokens of a container. -/
def beforeCloser (indent : ℕ) : Kind → List UInt8
  | .array => [space]
  | .object => indentBuf indent

theorem emptyBlank_bytes (indent : ℕ) (kind : Kind) : (emptyBlank indent kind).bytes =
    (gap kind).bytes ++ (newline :: beforeCloser indent kind) := by
  cases kind <;> rfl

theorem closing_bytes (indent : ℕ) (kind : Kind) : (closing indent kind).bytes =
    (if kind = .array then [] else [newline]) ++ beforeCloser indent kind := by
  cases kind <;> rfl

theorem closingPieces_text (indent : ℕ) (kind : Kind) :
    textOf (closingPieces indent kind) = beforeCloser indent kind ++ [kind.closer] := by
  cases kind <;> simp [closingPieces, Piece.text, beforeCloser]

theorem stringPieces_text (chars : List UInt8) (stop : ℕ) :
    textOf (stringPieces chars stop) = quote :: (chars ++ [quote]) := by
  simp [stringPieces, Piece.text]

theorem shallow_append {ps qs : List Piece} (hp : Shallow ps) (hq : Shallow qs) :
    Shallow (ps ++ qs) := by
  intro h
  rcases List.mem_append.mp h with h | h
  · exact hp h
  · exact hq h

theorem Lead.pieces_shallow {kind : Kind} (lead : Lead kind) (indent pos : ℕ) (isFirst : Bool) :
    Shallow (lead.pieces indent pos isFirst) := by
  cases kind with
  | array => cases isFirst <;> simp [Shallow, Lead.pieces]
  | object => cases isFirst <;> simp [Shallow, Lead.pieces, stringPieces]

/-- What is printed of the first item of a container before its value, and of another item. -/
theorem Lead.pieces_text {kind : Kind} (lead : Lead kind) (indent pos : ℕ) :
    (gap kind).bytes ++ textOf (lead.pieces (indent + 1) pos true) =
        (lead.pretty (indent + 1)).text ∧
      textOf (lead.pieces (indent + 1) pos false) = comma :: (lead.pretty (indent + 1)).text := by
  cases kind with
  | array => exact ⟨rfl, rfl⟩
  | object =>
    constructor
    · simp [Lead.pieces, gap, Lead.text, Lead.pretty, Key.text, Piece.text, stringPieces_text,
        Blank.append, newlineBlank, tabs, spaceBlank]
    · simp [Lead.pieces, Lead.text, Lead.pretty, Key.text, Piece.text, stringPieces_text,
        Blank.append, newlineBlank, tabs, spaceBlank]

/-- What is printed of the items of a container, before the last of the white space. -/
structure ItemsText {kind : Kind} (items : Items kind) (indent pos : ℕ) : Prop where
  shallow : ∀ isFirst, Shallow (items.pieces (indent + 1) pos isFirst)
  first : items.isNil = false →
    (gap kind).bytes ++
        (textOf (items.pieces (indent + 1) pos true) ++ (closing indent kind).bytes) =
      (items.pretty indent).text []
  next : textOf (items.pieces (indent + 1) pos false) ++ (closing indent kind).bytes =
    (if items.isNil then closing indent kind else .none).bytes ++ (items.pretty indent).text [comma]

/-- **What the printer writes** for a tree that is not too deep is the printed tree. -/
theorem pieces_pretty :
    (∀ (v : Value) (indent pos : ℕ), indent + v.nesting ≤ maxIndent →
      Shallow (v.pieces indent pos) ∧ textOf (v.pieces indent pos) = (v.pretty indent).text) ∧
    ∀ {kind : Kind} (items : Items kind) (indent pos : ℕ), indent + 1 + items.nesting ≤ maxIndent →
      ItemsText items indent pos := by
  apply tree_induction
  · intro p indent pos _
    refine ⟨?_, ?_⟩
    · simp [Shallow, Value.pieces]
    · simp [Value.pieces, Piece.text, Value.pretty, Value.text]
  · intro s indent pos _
    refine ⟨?_, ?_⟩
    · simp [Shallow, Value.pieces, stringPieces]
    · rw [Value.pieces, stringPieces_text]
      rfl
  · intro kind blank items ih indent pos hnesting
    rw [Value.nesting] at hnesting
    have hdeep : ¬ maxIndent < indent + 1 := by omega
    have hitems := ih indent (pos + 1 + blank.bytes.length) (by omega)
    have hclosing : Shallow (closingPieces indent kind) := by
      cases kind <;> simp [Shallow, closingPieces]
    rw [Value.pieces, if_neg hdeep]
    refine ⟨?_, ?_⟩
    · have hnewline :
        Shallow (if items.isNil || kind = .object then [.plain [newline]] else []) := by
        split_ifs
        · simp [Shallow]
        · simp [Shallow]
      intro h
      refine shallow_append (shallow_append (hitems.shallow true) hnewline) hclosing ?_
      exact (List.mem_cons.mp h).resolve_left (by simp)
    · cases hnil : items.isNil with
      | true =>
        cases items with
        | nil =>
          simp [Items.pieces, Piece.text, closingPieces_text, Value.pretty, Value.text,
            Items.pretty,
            Items.text, Items.isNil, emptyBlank_bytes]
        | cons lead value after rest => cases hnil
      | false =>
        have hfirst := hitems.first hnil
        rw [closing_bytes] at hfirst
        rw [Value.pretty, hnil, Value.text, ← hfirst]
        cases kind with
        | array => simp [Piece.text, closingPieces_text, Blank.none]
        | object => simp [Piece.text, closingPieces_text, Blank.none]
  · intro kind indent pos _
    refine ⟨fun _ => ?_, fun h => (by cases h), ?_⟩
    · simp [Shallow, Items.pieces]
    · simp [Items.pieces, Items.isNil, Items.pretty, Items.text]
  · intro kind lead value after rest hvalue hrest indent pos hnesting
    rw [Items.nesting] at hnesting
    have hvalueNesting : indent + 1 + value.nesting ≤ maxIndent :=
      le_trans (Nat.add_le_add_left (le_max_left ..) _) hnesting
    have hrestNesting : indent + 1 + rest.nesting ≤ maxIndent :=
      le_trans (Nat.add_le_add_left (le_max_right ..) _) hnesting
    obtain ⟨hvalueShallow, hvalueText⟩ := hvalue (indent + 1) (pos + lead.text.length) hvalueNesting
    have hitems := hrest indent
      (pos + lead.text.length + value.text.length + after.bytes.length + 1) hrestNesting
    obtain ⟨hleadFirst, hleadNext⟩ := lead.pieces_text indent pos
    refine ⟨fun isFirst => ?_, fun _ => ?_, ?_⟩
    · rw [Items.pieces]
      exact shallow_append (lead.pieces_shallow (indent + 1) pos isFirst)
        (shallow_append hvalueShallow (hitems.shallow false))
    · rw [Items.pieces, textOf_append, textOf_append, Items.pretty, Items.text, ← hitems.next,
        ← hleadFirst, hvalueText]
      simp only [List.append_assoc, List.nil_append]
    · rw [Items.pieces, textOf_append, textOf_append, Items.pretty, Items.text, List.append_assoc,
        List.append_assoc, hitems.next, hleadNext, hvalueText]
      simp [Items.isNil, Blank.none]

/-! ## Saving a text -/

/-- The printer writes the printed tree. -/
theorem jsonSerialize_pretty (d : Document) {js : CString} (hjs : js.bytes = d.text)
    (hnesting : d.nesting ≤ maxIndent) {fd : Fd} (hfd : fd.Succeeds) :
    ∃ fd', jsonSerialize (d.json js) true fd = .ok (true, fd') ∧
      fd'.written = fd.written ++ d.pretty.text := by
  have hpieces : Shallow d.pieces ∧ textOf d.pieces = d.pretty.text := by
    cases d with
    | blank b => exact ⟨by simp [Shallow, Document.pieces], rfl⟩
    | value before v after =>
      obtain ⟨hshallow, htext⟩ := pieces_pretty.1 v 0 before.bytes.length
        ((Nat.zero_add _).trans_le hnesting)
      refine ⟨shallow_append hshallow (by simp [Shallow]), ?_⟩
      rw [Document.pieces, textOf_append, htext]
      rfl
  obtain ⟨fd', hrun, hwritten, -⟩ := runPieces_written hpieces.1 (d.json js).stored fd hfd
  refine ⟨fd', ?_, ?_⟩
  · rw [jsonSerialize, serialize_pieces d hjs fd, hrun]
    rfl
  · rw [hwritten, hpieces.2]

/-- **Main.** A text that is nested no deeper than the indent goes is saved, in chunks of any size,
as a text that is accepted and has the same tokens: types, sizes, nesting, and the raw text of every
key, string and primitive. -/
theorem pretty_survives {js : CString} {json : JSON} (hjson : jsonCreateFromString js = .ok json)
    {d : Document} (hd : d.text = js.bytes) (hnesting : d.nesting ≤ maxIndent) (fd : Fd)
    (hfd : fd.Succeeds) :
    ∃ (fd' : Fd) (saved : CString) (json' : JSON), jsonSerialize json true fd = .ok (true, fd') ∧
      fd'.written = fd.written ++ saved.bytes ∧ jsonCreateFromString saved = .ok json' ∧
      json'.views = json.views := by
  rw [create_document d hd.symm] at hjson
  cases hjson
  obtain ⟨fd', hserialize, hwritten⟩ := jsonSerialize_pretty d hd.symm hnesting hfd
  let saved : CString := ⟨d.pretty.text, d.pretty.noNul⟩
  exact ⟨fd', saved, d.pretty.json saved, hserialize, hwritten, create_document _ rfl,
    d.pretty_views js saved hd.symm rfl⟩

/-- A file that takes one byte at a time. -/
def byteFile : Fd where
  written := []
  calls := 0
  outcome _ chunk := some ⟨min 1 chunk, Nat.lt_succ_of_le (Nat.min_le_right 1 chunk)⟩

/-- `{"k":["x",true]}`. -/
def nestedDocument : Document :=
  let items : Items .array := .cons Blank.none (.string ⟨[0x78], isChars_x⟩) .none
    (.cons Blank.none (.primitive ⟨trueText, .inl rfl⟩) .none .nil)
  let key : Key := ⟨.none, ⟨[0x6B], isChars_k⟩, .none, .none⟩
  .value .none
    (.container .object .none (.cons key (.container .array .none items) .none .nil)) .none

/-- An array in an object, saved byte by byte. -/
theorem pretty_survives_nested :
    let js : CString := ⟨nestedDocument.text, nestedDocument.noNul⟩
    ∃ (fd' : Fd) (saved : CString) (json' : JSON),
      jsonSerialize (nestedDocument.json js) true byteFile = .ok (true, fd') ∧
      fd'.written = byteFile.written ++ saved.bytes ∧ jsonCreateFromString saved = .ok json' ∧
      json'.views = (nestedDocument.json js).views :=
  have hnesting : nestedDocument.nesting ≤ maxIndent := by decide
  have hfile : byteFile.Succeeds := fun _ chunk hchunk =>
    ⟨⟨min 1 chunk, by omega⟩, rfl, Nat.lt_min.mpr ⟨Nat.one_pos, hchunk⟩⟩
  pretty_survives (create_document nestedDocument rfl)
    (d := nestedDocument) rfl hnesting byteFile hfile

end Apple2ix.Json
