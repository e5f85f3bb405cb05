import Apple2ix.Json.ParserSteps

/-! Reading a text that the grammar derives: `jsmn_parse` goes through it without an error of its
own, and leaves the tokens that the grammar gives to the text. -/
namespace Apple2ix.Json
set_option autoImplicit false

/-! ## Dispatch -/

theorem jsmnStep_opener (n : ℕ) (kind : Kind) (rest : List UInt8) (p : Parser) :
    jsmnStep n kind.opener rest p = beginContainer n kind p := by
  cases kind <;> rfl

theorem jsmnStep_closer (n : ℕ) (kind : Kind) (rest : List UInt8) (p : Parser) :
    jsmnStep n kind.closer rest p = endContainer kind p := by
  cases kind <;> rfl

theorem jsmnStep_quote (n : ℕ) (rest : List UInt8) (p : Parser) :
    jsmnStep n quote rest p = aString n rest p := rfl

theorem jsmnStep_colon (n : ℕ) (rest : List UInt8) (p : Parser) :
    jsmnStep n colon rest p = aColon p := rfl

theorem jsmnStep_comma (n : ℕ) (rest : List UInt8) (p : Parser) :
    jsmnStep n comma rest p = aComma p := rfl

theorem jsmnStep_space (n : ℕ) {c : UInt8} (h : isSpace c = true) (rest : List UInt8) (p : Parser) :
    jsmnStep n c rest p = .ok p := by
  rw [isSpace] at h
  simp only [Bool.or_eq_true, beq_iff_eq] at h
  rcases h with ((rfl | rfl) | rfl) | rfl
  · rfl
  · rfl
  · rfl
  · rfl

/-- The characters of the switch before the primitives. -/
def isMark (c : UInt8) : Bool :=
  c == Kind.object.opener || c == Kind.array.opener || c == Kind.object.closer ||
    c == Kind.array.closer || c == quote || isSpace c || c == colon || c == comma

theorem begins_not_mark {c : UInt8} (h : beginsPrimitive c = true) : isMark c = false := by
  have hall : ∀ c : UInt8, beginsPrimitive c = true → isMark c = false := forall_uint8 (by decide)
  exact hall c h

theorem jsmnStep_other (n : ℕ) {c : UInt8} (h : isMark c = false) (rest : List UInt8) (p : Parser) :
    jsmnStep n c rest p =
      if beginsPrimitive c then aPrimitive n (c :: rest) p else .error .inval := by
  rw [isMark] at h
  simp only [Bool.or_eq_false_iff, beq_eq_false_iff_ne, ne_eq] at h
  obtain ⟨⟨⟨⟨⟨⟨⟨h1, h2⟩, h3⟩, h4⟩, h5⟩, h6⟩, h7⟩, h8⟩ := h
  rw [jsmnStep, if_neg h1, if_neg h2, if_neg h3, if_neg h4, if_neg h5, h6,
    if_neg Bool.false_ne_true, if_neg h7, if_neg h8]

theorem jsmnLoop_step {n : ℕ} {c : UInt8} {rest : List UInt8} {p q : Parser} (hc : c ≠ 0)
    (h : jsmnStep n c rest p = .ok q) :
    jsmnLoop n p (c :: rest) =
      jsmnLoop n { q with pos := q.pos + 1 } (rest.drop (q.pos - p.pos)) := by
  rw [jsmnLoop, if_neg hc, h]

theorem jsmnLoop_error {n : ℕ} {c : UInt8} {rest : List UInt8} {p : Parser} {e : JsmnErr}
    (hc : c ≠ 0)
    (h : jsmnStep n c rest p = .error e) : jsmnLoop n p (c :: rest) = .error e := by
  rw [jsmnLoop, if_neg hc, h]

/-- A character that is read by itself. -/
theorem jsmnLoop_single {n : ℕ} {c : UInt8} {rest : List UInt8} {p q : Parser} (hc : c ≠ 0)
    (h : jsmnStep n c rest p = .ok q) (hpos : q.pos = p.pos) :
    jsmnLoop n p (c :: rest) = jsmnLoop n { q with pos := p.pos + 1 } rest := by
  rw [jsmnLoop_step hc h, hpos, Nat.sub_self, List.drop_zero]

theorem opener_ne_zero (kind : Kind) : kind.opener ≠ 0 := by
  cases kind <;> decide

theorem closer_ne_zero (kind : Kind) : kind.closer ≠ 0 := by
  cases kind <;> decide

theorem space_ne_zero {c : UInt8} (h : isSpace c = true) : c ≠ 0 := by
  rintro rfl
  exact absurd h (by decide)

theorem begins_ne_zero {c : UInt8} (h : beginsPrimitive c = true) : c ≠ 0 := by
  rintro rfl
  exact absurd h (by decide)

/-! ## Reading a part of the text -/

/-- From `p` the parser reads `text` in front of `rest`, unless it runs out of tokens. -/
def Reading (n : ℕ) (p : Parser) (text rest : List UInt8) (P : Parser → Prop) : Prop :=
  (jsmnLoop n p (text ++ rest) = .error .nomem ∧ n ≤ p.pos + (text ++ rest).length) ∨
    ∃ q, jsmnLoop n p (text ++ rest) = jsmnLoop n q rest ∧ q.pos = p.pos + text.length ∧ P q

section
variable {n : ℕ} {p : Parser} {rest : List UInt8}

theorem Reading.nil {P : Parser → Prop} (h : P p) : Reading n p [] rest P :=
  Or.inr ⟨p, rfl, rfl, h⟩

theorem Reading.imp {text : List UInt8} {P Q : Parser → Prop} (h : Reading n p text rest P)
    (himp : ∀ q, q.pos = p.pos + text.length → P q → Q q) : Reading n p text rest Q := by
  rcases h with h | ⟨q, hq, hpos, hP⟩
  · exact Or.inl h
  · exact Or.inr ⟨q, hq, hpos, himp q hpos hP⟩

theorem Reading.append {first second : List UInt8} {P Q : Parser → Prop}
    (h : Reading n p first (second ++ rest) P)
    (hnext : ∀ q, q.pos = p.pos + first.length → P q → Reading n q second rest Q) :
    Reading n p (first ++ second) rest Q := by
  rcases h with ⟨h, hn⟩ | ⟨q, hq, hpos, hP⟩
  · exact Or.inl (by rw [List.append_assoc]; exact ⟨h, hn⟩)
  · rcases hnext q hpos hP with ⟨h, hn⟩ | ⟨r, hr, hpos', hQ⟩
    · refine Or.inl ⟨by rw [List.append_assoc, hq, h], ?_⟩
      rw [hpos] at hn
      rw [List.append_assoc, List.length_append]
      omega
    · refine Or.inr ⟨r, by rw [List.append_assoc, hq, hr], ?_, hQ⟩
      rw [hpos', hpos, List.length_append, Nat.add_assoc]

theorem Reading.single {c : UInt8} {q : Parser} {P : Parser → Prop} (hc : c ≠ 0)
    (h : jsmnStep n c rest p = .ok q) (hpos : q.pos = p.pos) (hP : P { q with pos := p.pos + 1 }) :
    Reading n p [c] rest P :=
  Or.inr ⟨_, jsmnLoop_single hc h hpos, rfl, hP⟩

/-- Several characters that are read in one step. -/
theorem Reading.several {c : UInt8} {text : List UInt8} {q : Parser} {P : Parser → Prop}
    (hc : c ≠ 0)
    (h : jsmnStep n c (text ++ rest) p = .ok q) (hpos : q.pos = p.pos + text.length)
    (hP : P { q with pos := p.pos + text.length + 1 }) : Reading n p (c :: text) rest P := by
  refine Or.inr ⟨_, ?_, ?_, hP⟩
  · rw [List.cons_append, jsmnLoop_step hc h, hpos, Nat.add_sub_cancel_left, List.drop_left]
  · rw [List.length_cons, Nat.add_assoc]

variable {z : Stack} {s : Status}

/-- Running out of tokens, at the first character. -/
theorem Reading.nomem {c : UInt8} {text : List UInt8} {P : Parser → Prop} (h : Reads p z s)
    (hc : c ≠ 0) (hstep : jsmnStep n c (text ++ rest) p = .error .nomem)
    (hn : n ≤ z.tokens.length) :
    Reading n p (c :: text) rest P := by
  have := h.room
  exact Or.inl ⟨jsmnLoop_error hc hstep, by omega⟩

theorem Reads.at_pos {pos : ℕ} (h : Reads p z s) (hpos : p.pos ≤ pos) :
    Reads { p with pos := pos } z s :=
  ⟨h.tokens, h.super, h.count, h.ok, h.at_, h.depth, le_trans h.room hpos⟩

theorem reading_blank (h : Reads p z s) {bytes : List UInt8}
    (hbytes : ∀ c ∈ bytes, isSpace c = true) :
    Reading n p bytes rest fun q => Reads q z s := by
  induction bytes generalizing p with
  | nil => exact .nil h
  | cons c bytes ih =>
    have hc := hbytes c (List.mem_cons_self ..)
    have hfirst : Reading n p [c] (bytes ++ rest) fun q => Reads q z s :=
      .single (space_ne_zero hc) (jsmnStep_space n hc _ p) rfl (h.at_pos (by omega))
    exact hfirst.append fun q _ hq => ih hq fun d hd => hbytes d (List.mem_cons_of_mem _ hd)

theorem reading_open (kind : Kind) (h : Reads p z s) (hs : s.needsValue = true) :
    Reading n p [kind.opener] rest fun q => ∃ d,
      Reads q (.push (z.counted.grow 1) (.container kind) (containerToken kind p.pos z.top d) [])
        (.opened kind) := by
  by_cases hn : z.tokens.length < n
  · obtain ⟨q, d, hq, hpos, hreads⟩ := beginContainer_ok kind h hs hn
    rw [← jsmnStep_opener n kind rest] at hq
    exact .single (opener_ne_zero kind) hq hpos ⟨d, hreads⟩
  · rw [Nat.not_lt] at hn
    refine .nomem h (opener_ne_zero kind) ?_ hn
    exact (jsmnStep_opener ..).trans (beginContainer_nomem kind h hs hn)

theorem reading_close {kind : Kind} {y : Stack} {t : PrivTok} {below : List PrivTok}
    (h : Reads p z s) (hs : s.mayEnd = true) (hz : z.settle = .push y (.container kind) t below) :
    Reading n p [kind.closer] rest fun q =>
      Reads q (y.add (t.closed (p.pos + 1) :: below)) .value := by
  have htop : z.top ≠ none := by
    intro hnone
    cases z with
    | bottom us => cases hz
    | push => cases hnone
  obtain ⟨y', kind', t', below', hz', hbelow⟩ := h.settle_end hs htop
  rw [hz] at hz'
  obtain ⟨rfl, hkind, rfl, rfl⟩ := Stack.push.inj hz'
  obtain ⟨q, hq, hpos, hreads⟩ := endContainer_ok h hs hz hbelow
  rw [← jsmnStep_closer n kind rest] at hq
  exact .single (closer_ne_zero kind) hq hpos hreads

theorem aString_nomem {length : ℕ} (h : Reads p z s) (hs : s.needsValue = true ∨ s.needsKey = true)
    (hloop : stringLoop rest = .ok length) (hn : n ≤ z.tokens.length) :
    aString n rest p = .error .nomem := by
  obtain ⟨d, -, -, heq⟩ := aString_eq (n := n) h hs hloop
  rw [heq, alloc_nomem _ (by rwa [h.tokens])]
  rfl

/-- A string, as it is read where one may stand: `last` and `after` are what it counts as there. -/
theorem reading_quoted {last : LastType} {after : Status} (h : Reads p z s)
    (hs : s.needsValue = true ∨ s.needsKey = true) {bytes : List UInt8} (hbytes : IsChars bytes)
    (hstring : ∀ {length : ℕ} {chars : List UInt8}, z.tokens.length < n →
      stringLoop chars = .ok length →
      ∃ q d, aString n chars p = .ok q ∧ q.pos = p.pos + 1 + length ∧
        Reads { q with pos := p.pos + 1 + length + 1 }
          ((z.counted.grow 1).add
            [leafToken .string (p.pos + 1) (p.pos + 1 + length) z.top last d]) after) :
    Reading n p (quote :: (bytes ++ [quote])) rest fun q => ∃ d, Reads q
      ((z.counted.grow 1).add
        [leafToken .string (p.pos + 1) (p.pos + 1 + bytes.length) z.top last d]) after := by
  have hloop : stringLoop ((bytes ++ [quote]) ++ rest) = .ok bytes.length := by
    rw [List.append_assoc]
    exact stringLoop_chars rest hbytes
  by_cases hn : z.tokens.length < n
  · obtain ⟨q, d, hq, hpos, hreads⟩ := hstring hn hloop
    rw [← jsmnStep_quote] at hq
    refine .several quote_ne_zero hq ?_ ⟨d, ?_⟩
    · rw [hpos, List.length_append, List.length_singleton]
      omega
    · rw [List.length_append, List.length_singleton]
      have : p.pos + (bytes.length + 1) + 1 = p.pos + 1 + bytes.length + 1 := by omega
      rwa [this]
  · rw [Nat.not_lt] at hn
    exact .nomem h quote_ne_zero (aString_nomem h hs hloop hn) hn

theorem reading_string (h : Reads p z s) (hs : s.needsValue = true) {bytes : List UInt8}
    (hbytes : IsChars bytes) :
    Reading n p (quote :: (bytes ++ [quote])) rest fun q => ∃ d, Reads q
      ((z.counted.grow 1).add
        [leafToken .string (p.pos + 1) (p.pos + 1 + bytes.length) z.top .string d]) .value :=
  reading_quoted h (Or.inl hs) hbytes fun hn hloop => aString_value h hs hn hloop

theorem reading_keyString (h : Reads p z s) (hs : s.needsKey = true) {bytes : List UInt8}
    (hbytes : IsChars bytes) :
    Reading n p (quote :: (bytes ++ [quote])) rest fun q => ∃ d, Reads q
      ((z.counted.grow 1).add
        [leafToken .string (p.pos + 1) (p.pos + 1 + bytes.length) z.top .stringKey d]) .key :=
  reading_quoted h (Or.inr hs) hbytes fun hn hloop => aString_key h hs hn hloop

theorem reading_colon {t k : PrivTok} {below : List PrivTok}
    (h : Reads p (.push z (.container .object) t (below ++ [k])) .key) :
    Reading n p [colon] rest fun q => Reads q
      (.push (.push z (.container .object) t below) .key { k with lasttype := .separatorColon } [])
      .colon := by
  obtain ⟨q, hq, hpos, hreads⟩ := aColon_ok h
  rw [← jsmnStep_colon n rest] at hq
  exact .single (by decide) hq hpos hreads

theorem reading_comma {kind : Kind} {y : Stack} {t : PrivTok} {below : List PrivTok}
    (h : Reads p z .value) (hz : z.settle = .push y (.container kind) t below) :
    Reading n p [comma] rest fun q => ∃ below', below'.map PrivTok.token = below.map PrivTok.token ∧
      Reads q (.push y (.container kind) t below') (.comma kind) := by
  have htop : z.top ≠ none := by
    intro hnone
    cases z with
    | bottom us => cases hz
    | push => cases hnone
  obtain ⟨y', kind', t', bs, u, i, hz', -, -⟩ := h.settle_value htop
  rw [hz] at hz'
  obtain ⟨rfl, hkind, rfl, rfl⟩ := Stack.push.inj hz'
  obtain ⟨q, hq, hpos, hreads⟩ := aComma_ok h hz
  rw [← jsmnStep_comma n rest] at hq
  refine .single (by decide) hq hpos ⟨_, ?_, hreads⟩
  rw [List.map_append, List.map_append]
  rfl

theorem reading_primitive (h : Reads p z s) (hs : s.needsValue = true) {bytes : List UInt8}
    (hbytes : IsPrimitive bytes) (hrest : Delimited rest) :
    Reading n p bytes rest fun q => ∃ d, Reads q
      ((z.counted.grow 1).add
        [leafToken .primitive p.pos (p.pos + bytes.length) z.top .primitive d]) .value := by
  have hloop := primitiveLoop_primitive (primitive_inPrimitive hbytes) hrest
  obtain ⟨c, text, rfl, hc⟩ := primitive_head hbytes
  have hstep : jsmnStep n c (text ++ rest) p = aPrimitive n (c :: text ++ rest) p := by
    rw [jsmnStep_other n (begins_not_mark hc), if_pos hc, List.cons_append]
  by_cases hn : z.tokens.length < n
  · obtain ⟨q, d, hq, hpos, hreads⟩ := aPrimitive_ok h hs hn hloop hbytes
    rw [List.length_cons] at hpos hreads
    refine .several (begins_ne_zero hc) (hstep.trans hq) (by omega) ⟨d, ?_⟩
    rwa [Nat.add_assoc]
  · rw [Nat.not_lt] at hn
    refine .nomem h (begins_ne_zero hc) (hstep.trans ?_) hn
    rw [aPrimitive_eq h hs, hloop, ok_bind, alloc_nomem _ (by rwa [h.tokens])]
    rfl

/-! ## Reading values -/

/-- A state in which the tokens of a value have been added. -/
def ReadsValue (z : Stack) (v : Value) (pos : ℕ) (q : Parser) : Prop :=
  ∃ ts, Reads q ((z.counted.grow v.size).add ts) .value ∧
    ts.map PrivTok.token = v.tokens z.top z.tokens.length pos

/-- What stands before a value is read, and the value will be counted where it belongs. -/
theorem reading_lead {kind : Kind} (lead : Lead kind) {y : Stack} {t : PrivTok}
    {below : List PrivTok}
    (h : Reads p (.push y (.container kind) t below) s) (hs : s = .opened kind ∨ s = .comma kind) :
    Reading n p lead.text rest fun q => ∃ z₁ s₁, Reads q z₁ s₁ ∧ s₁.needsValue = true ∧
      z₁.top = some (lead.super y.tokens.length (y.tokens.length + 1 + below.length)) ∧
      z₁.tokens.length = y.tokens.length + 1 + below.length + lead.size ∧
      ∀ m ts, ∃ more, ((z₁.counted.grow m).add ts).settle =
          .push (y.grow (lead.size + m)) (.container kind)
            { t with size := t.size + 1, skip := t.skip + (lead.size + m) } (below ++ more) ∧
        more.map PrivTok.token =
          lead.tokens y.tokens.length p.pos m ++ ts.map PrivTok.token := by
  cases kind with
  | array =>
    obtain ⟨bytes, hbytes⟩ : Blank := lead
    refine (reading_blank h hbytes).imp fun q _ hq => ⟨_, s, hq, ?_, rfl, ?_, fun m ts => ?_⟩
    · rcases hs with rfl | rfl <;> rfl
    · simp only [Stack.tokens, List.length_append, List.length_cons, Lead.size]
      omega
    · refine ⟨ts, ?_, rfl⟩
      simp only [Stack.counted, Stack.grow, Stack.add, Stack.settle_container, Lead.size,
        Nat.zero_add]
  | object =>
    obtain ⟨before, chars, after, beforeValue⟩ : Key := lead
    have hkey : s.needsKey = true := by
      rcases hs with rfl | rfl <;> rfl
    have htext : @Lead.text .object (⟨before, chars, after, beforeValue⟩ : Key) =
        before.bytes ++ ((quote :: (chars.bytes ++ [quote])) ++ (after.bytes ++ ([colon] ++
          beforeValue.bytes))) := by
      simp [Lead.text, Key.text]
    rw [htext]
    refine (reading_blank h before.space).append fun q₁ hpos₁ h₁ => ?_
    refine (reading_keyString h₁ hkey chars.chars).append fun q₂ hpos₂ hread => ?_
    obtain ⟨d, h₂⟩ := hread
    refine (reading_blank h₂ after.space).append fun q₃ hpos₃ h₃ => ?_
    refine (reading_colon h₃).append fun q₄ hpos₄ h₄ => ?_
    refine (reading_blank h₄ beforeValue.space).imp fun q₅ hpos₅ h₅ => ?_
    refine ⟨_, _, h₅, rfl, ?_, ?_, fun m ts => ?_⟩
    · simp only [Stack.top, Stack.tokens, List.length_append, List.length_cons, Stack.length_grow,
        Lead.super, Nat.add_assoc, Nat.add_comm 1]
    · simp only [Stack.tokens, List.length_append, List.length_cons, List.length_nil,
        Stack.length_grow, Lead.size]
      omega
    · refine ⟨{ leafToken .string (q₁.pos + 1) (q₁.pos + 1 + chars.bytes.length)
          (some y.tokens.length) .separatorColon d with size := 1, skip := 1 + m } :: ts, ?_, ?_⟩
      · simp only [Stack.counted, Stack.grow, Stack.add, Stack.settle, Stack.grow_grow, Lead.size,
          List.nil_append, Nat.add_assoc]
        rfl
      · simp only [List.map_cons, Lead.tokens, Key.token, PrivTok.token, leafToken, hpos₁,
          List.cons_append, List.nil_append, Option.getD_some]

/-- A state in which the tokens of items have been added to their container. -/
def ReadsItems {kind : Kind} (items : Items kind) (y : Stack) (t : PrivTok) (below : List PrivTok)
    (pos : ℕ) (q : Parser) : Prop :=
  ∃ z s below', Reads q z s ∧ s.mayEnd = true ∧
    z.settle = .push (y.grow items.size) (.container kind)
      { t with size := t.size + items.count, skip := t.skip + items.size } below' ∧
    below'.map PrivTok.token = below.map PrivTok.token ++
      items.tokens y.tokens.length (y.tokens.length + 1 + below.length) pos

/-- The state and the separator in front of items. -/
def BeforeItems (kind : Kind) (s : Status) (separator : List UInt8) : Prop :=
  s = .opened kind ∧ separator = [] ∨ s = .value ∧ separator = [comma]

theorem delimited_items {kind : Kind} (items : Items kind) (rest : List UInt8) :
    Delimited (Items.text [comma] items ++ kind.closer :: rest) := by
  cases items with
  | nil => exact delimited_cons (by cases kind <;> rfl)
  | cons lead value after more => exact delimited_cons rfl

/-- The separator is read, which leaves the container open for its next item. -/
theorem reading_separator {kind : Kind} {y : Stack} {t : PrivTok} {below : List PrivTok}
    {separator : List UInt8} (h : Reads p z s) (hs : BeforeItems kind s separator)
    (hz : z.settle = .push y (.container kind) t below) :
    Reading n p separator rest fun q => ∃ s' below',
      below'.map PrivTok.token = below.map PrivTok.token ∧
        Reads q (.push y (.container kind) t below') s' ∧
          (s' = .opened kind ∨ s' = .comma kind) := by
  rcases hs with ⟨rfl, rfl⟩ | ⟨rfl, rfl⟩
  · refine .nil ⟨.opened kind, below, rfl, ?_, Or.inl rfl⟩
    have hat := h.at_
    cases hat with
    | opened z kind t' =>
      rw [Stack.settle_container] at hz
      rwa [← hz]
  · refine (reading_comma h hz).imp fun q _ ⟨below', hbelow, hq⟩ => ?_
    exact ⟨.comma kind, below', hbelow, hq, Or.inr rfl⟩

/-- **Reading a tree**: its values and its items, from any state that they fit. -/
theorem reading_tree :
    (∀ (v : Value) (rest : List UInt8) {n : ℕ} {p : Parser} {z : Stack} {s : Status}, Reads p z s →
      s.needsValue = true → Delimited rest → Reading n p v.text rest (ReadsValue z v p.pos)) ∧
    ∀ {kind : Kind} (items : Items kind) (rest : List UInt8) {n : ℕ} {p : Parser} {z : Stack}
      {s : Status} {separator : List UInt8} {y : Stack} {t : PrivTok} {below : List PrivTok},
      Reads p z s → BeforeItems kind s separator → z.settle = .push y (.container kind) t below →
      Reading n p (items.text separator) (kind.closer :: rest)
        (ReadsItems items y t below (p.pos + separator.length)) := by
  apply tree_induction
  · intro v rest n p z s h hs hrest
    refine (reading_primitive h hs v.primitive hrest).imp fun q _ hread => ?_
    obtain ⟨d, hq⟩ := hread
    exact ⟨_, hq, rfl⟩
  · intro v rest n p z s h hs hrest
    refine (reading_string h hs v.chars).imp fun q _ hread => ?_
    obtain ⟨d, hq⟩ := hread
    exact ⟨_, hq, rfl⟩
  · intro kind blank items ih rest n p z s h hs hrest
    have htext : (Value.container kind blank items).text =
        [kind.opener] ++ (blank.bytes ++ (items.text [] ++ [kind.closer])) := rfl
    rw [htext]
    refine (reading_open kind h hs).append fun q₁ hpos₁ hread => ?_
    obtain ⟨d, h₁⟩ := hread
    refine (reading_blank h₁ blank.space).append fun q₂ hpos₂ h₂ => ?_
    refine (ih rest h₂ (Or.inl ⟨rfl, rfl⟩) (Stack.settle_container ..)).append
      fun q₃ hpos₃ hread => ?_
    obtain ⟨z₃, s₃, below, h₃, hend, hz₃, hbelow⟩ := hread
    refine (reading_close h₃ hend hz₃).imp fun q₄ hpos₄ h₄ => ?_
    rw [Stack.grow_grow] at h₄
    refine ⟨_, h₄, ?_⟩
    rw [List.map_cons, hbelow, Value.tokens]
    simp only [Stack.length_grow, Stack.length_counted, List.map_nil, List.nil_append,
      List.length_nil, Nat.add_zero, hpos₂, hpos₁, hpos₃, List.length_singleton, htext,
      List.length_append]
    refine congrArg (· :: _) ?_
    simp only [PrivTok.token, PrivTok.closed, containerToken, PrivTok.fresh, Option.getD_some,
      Nat.zero_add, Token.mk.injEq, true_and, and_true]
    omega
  · intro kind rest n p z s separator y t below h hs hz
    refine .nil ⟨z, s, below, h, ?_, ?_, by simp [Items.tokens]⟩
    · rcases hs with ⟨rfl, -⟩ | ⟨rfl, -⟩ <;> rfl
    · rw [Items.size, Stack.grow_zero, hz]
      rfl
  · intro kind lead value after more ihvalue ihmore rest n p z s separator y t below h hs hz
    rw [Items.text]
    refine (reading_separator h hs hz).append fun q₁ hpos₁ hread => ?_
    obtain ⟨s₁, below₁, hbelow₁, h₁, hs₁⟩ := hread
    refine (reading_lead lead h₁ hs₁).append fun q₂ hpos₂ hread => ?_
    obtain ⟨z₂, s₂, h₂, hs₂, htop, hlength, hsettle⟩ := hread
    refine (ihvalue _ h₂ hs₂ ?_).append fun q₃ hpos₃ hread => ?_
    · rw [List.append_assoc]
      exact delimited_append after.space (delimited_items more rest)
    obtain ⟨ts, h₃, hts⟩ := hread
    refine (reading_blank h₃ after.space).append fun q₄ hpos₄ h₄ => ?_
    obtain ⟨added, hz₄, hadded⟩ := hsettle value.size ts
    refine (ihmore rest h₄ (Or.inr ⟨rfl, rfl⟩) hz₄).imp
      fun q₅ hpos₅ hread => ?_
    obtain ⟨z₅, s₅, below₅, h₅, hend, hz₅, hbelow₅⟩ := hread
    refine ⟨z₅, s₅, below₅, h₅, hend, ?_, ?_⟩
    · rw [hz₅, Stack.grow_grow, Items.size, Items.count]
      simp only [Nat.add_assoc, Nat.add_comm 1]
    · have hlen₁ : below₁.length = below.length := by
        rw [← List.length_map PrivTok.token, hbelow₁, List.length_map]
      have hlen : added.length = lead.size + value.size := by
        rw [← List.length_map PrivTok.token, hadded, List.length_append, hts, tokens_length.1,
          Lead.tokens_length]
      rw [hbelow₅, List.map_append, hadded, hts, hbelow₁, Items.tokens, htop, hlength]
      simp only [List.append_assoc, List.length_append, hlen, hlen₁, Stack.length_grow, hpos₁,
        hpos₂, hpos₃, hpos₄, Nat.add_assoc, List.length_singleton]

end

end Apple2ix.Json
