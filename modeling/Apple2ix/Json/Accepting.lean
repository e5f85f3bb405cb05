import Apple2ix.Json.Reading

/-! What `jsmn_parse` accepts: from any state, the rest of a text that it goes through to a matched
end is what the grammar asks for behind the part that has been read. -/
namespace Apple2ix.Json
set_option autoImplicit false

/-! ## What is still to come -/

/-- Behind a value, under these entries. -/
def After : List Entry → List UInt8 → Prop
  | [], rest => ∀ c ∈ rest, isSpace c = true
  | .container kind :: entries, rest =>
    ∃ (blank : Blank) (items : Items kind) (rest' : List UInt8),
      rest = blank.bytes ++ (items.text [comma] ++ kind.closer :: rest') ∧ After entries rest'
  | .key :: entries, rest => After entries rest

def ValueThen (entries : List Entry) (rest : List UInt8) : Prop :=
  ∃ (blank : Blank) (v : Value) (rest' : List UInt8),
    rest = blank.bytes ++ (v.text ++ rest') ∧ After entries rest'

def ColonThen (entries : List Entry) (rest : List UInt8) : Prop :=
  ∃ (blank : Blank) (rest' : List UInt8),
    rest = blank.bytes ++ colon :: rest' ∧ ValueThen (.key :: entries) rest'

def KeyThen (entries : List Entry) (rest : List UInt8) : Prop :=
  ∃ (blank : Blank) (chars : Chars) (rest' : List UInt8),
    rest = blank.bytes ++ (quote :: (chars.bytes ++ [quote]) ++ rest') ∧ ColonThen entries rest'

/-- The rest of a text, behind what the status says. -/
def Completes (entries : List Entry) : Status → List UInt8 → Prop
  | .begin, rest => (∀ c ∈ rest, isSpace c = true) ∨ ValueThen entries rest
  | .opened kind, rest =>
    ∃ (blank : Blank) (items : Items kind) (rest' : List UInt8),
      rest = blank.bytes ++ (items.text [] ++ kind.closer :: rest') ∧ After entries.tail rest'
  | .key, rest => ColonThen entries rest
  | .colon, rest => ValueThen entries rest
  | .value, rest => After entries rest
  | .comma .array, rest => ValueThen entries rest
  | .comma .object, rest => KeyThen entries rest

/-! ## White space -/

def Blank.cons (c : UInt8) (h : isSpace c = true) (b : Blank) : Blank where
  bytes := c :: b.bytes
  space d hd := by
    rcases List.mem_cons.mp hd with rfl | hd
    · exact h
    · exact b.space d hd

section
variable {entries : List Entry} {c : UInt8} {rest : List UInt8}

theorem after_space (hc : isSpace c = true) (h : After entries rest) :
    After entries (c :: rest) := by
  induction entries with
  | nil =>
    intro d hd
    rcases List.mem_cons.mp hd with rfl | hd
    · exact hc
    · exact h d hd
  | cons entry entries ih =>
    cases entry with
    | container kind =>
      obtain ⟨blank, items, rest', rfl, hrest⟩ := h
      exact ⟨blank.cons c hc, items, rest', rfl, hrest⟩
    | key => exact ih h

theorem valueThen_space (hc : isSpace c = true) (h : ValueThen entries rest) :
    ValueThen entries (c :: rest) := by
  obtain ⟨blank, v, rest', rfl, hrest⟩ := h
  exact ⟨blank.cons c hc, v, rest', rfl, hrest⟩

theorem completes_space {s : Status} (hc : isSpace c = true) (h : Completes entries s rest) :
    Completes entries s (c :: rest) := by
  cases s with
  | begin =>
    refine h.imp (fun hrest d hd => ?_) (valueThen_space hc)
    rcases List.mem_cons.mp hd with rfl | hd
    · exact hc
    · exact hrest d hd
  | opened kind =>
    obtain ⟨blank, items, rest', rfl, hrest⟩ := h
    exact ⟨blank.cons c hc, items, rest', rfl, hrest⟩
  | key =>
    obtain ⟨blank, rest', rfl, hrest⟩ := h
    exact ⟨blank.cons c hc, rest', rfl, hrest⟩
  | colon => exact valueThen_space hc h
  | value => exact after_space hc h
  | comma kind =>
    cases kind with
    | array => exact valueThen_space hc h
    | object =>
      obtain ⟨blank, chars, rest', rfl, hrest⟩ := h
      exact ⟨blank.cons c hc, chars, rest', rfl, hrest⟩

/-! ## Values -/

theorem valueThen_text (v : Value) (h : After entries rest) : ValueThen entries (v.text ++ rest) :=
  ⟨.none, v, rest, rfl, h⟩

theorem valueThen_container {kind : Kind}
    (h : Completes (.container kind :: entries) (.opened kind) rest) :
    ValueThen entries (kind.opener :: rest) := by
  obtain ⟨blank, items, rest', rfl, hrest⟩ := h
  refine ⟨.none, .container kind blank items, rest', ?_, hrest⟩
  simp [Blank.none, Value.text]

/-- A value is a first item, or one more. -/
theorem items_value (separator : List UInt8) (h : ValueThen (.container .array :: entries) rest) :
    ∃ (items : Items .array) (rest' : List UInt8),
      separator ++ rest = items.text separator ++ Kind.array.closer :: rest' ∧
        After entries rest' := by
  obtain ⟨blank, v, rest₁, rfl, after, items, rest₂, rfl, hrest⟩ := h
  refine ⟨.cons blank v after items, rest₂, ?_, hrest⟩
  simp [Items.text, Lead.text]

theorem items_key (separator : List UInt8) (h : KeyThen (.container .object :: entries) rest) :
    ∃ (items : Items .object) (rest' : List UInt8),
      separator ++ rest = items.text separator ++ Kind.object.closer :: rest' ∧
        After entries rest' := by
  obtain ⟨before, chars, rest₁, rfl, colon, rest₂, rfl, blank, v, rest₃, rfl, after, items, rest₄,
    rfl, hrest⟩ := h
  refine ⟨.cons (⟨before, chars, colon, blank⟩ : Key) v after items, rest₄, ?_, hrest⟩
  simp [Items.text, Lead.text, Key.text]

theorem after_comma {kind : Kind} (h : Completes (.container kind :: entries) (.comma kind) rest) :
    After (.container kind :: entries) (comma :: rest) := by
  cases kind with
  | array =>
    obtain ⟨items, rest', heq, hrest⟩ := items_value [comma] h
    exact ⟨.none, items, rest', heq, hrest⟩
  | object =>
    obtain ⟨items, rest', heq, hrest⟩ := items_key [comma] h
    exact ⟨.none, items, rest', heq, hrest⟩

theorem after_closer (kind : Kind) (h : After entries rest) :
    After (.container kind :: entries) (kind.closer :: rest) :=
  ⟨.none, .nil, rest, rfl, h⟩

end

section
variable {z : Stack} {s : Status} {rest : List UInt8}

theorem completes_value (hat : z.At s) (hs : s.needsValue = true) (h : ValueThen z.entries rest) :
    Completes z.entries s rest := by
  cases hat with
  | begin => exact Or.inr h
  | opened z kind t =>
    cases kind with
    | array =>
      obtain ⟨items, rest', heq, hrest⟩ := items_value [] h
      exact ⟨.none, items, rest', heq, hrest⟩
    | object => cases hs
  | key => cases hs
  | colon => exact h
  | value => cases hs
  | comma z kind u last check under =>
    cases kind with
    | array => exact h
    | object => cases hs

theorem completes_key (hat : z.At s) (hs : s.needsKey = true) (h : KeyThen z.entries rest) :
    Completes z.entries s rest := by
  cases hat with
  | opened z kind t =>
    cases kind with
    | array => cases hs
    | object =>
      obtain ⟨items, rest', heq, hrest⟩ := items_key [] h
      exact ⟨.none, items, rest', heq, hrest⟩
  | comma z kind u last check under =>
    cases kind with
    | array => cases hs
    | object => exact h
  | _ => cases hs

theorem after_settle (z : Stack) (rest : List UInt8) (h : After z.settle.entries rest) :
    After z.entries rest := by
  fun_cases Stack.settle z with
  | case1 z entry t below k more => exact h
  | case2 z _ => simpa [Stack.settle] using h

end

/-! ## The rest of a run -/

/-- What the loop of `jsmn_parse` may come to on the rest of a text. -/
def Decides (n : ℕ) (z : Stack) (s : Status) (pos : ℕ) (rest : List UInt8)
    (result : Except JsmnErr Parser) : Prop :=
  (∀ e, result = .error e → e ≠ .assertion ∧ (e = .nomem → n ≤ pos + rest.length)) ∧
    ∀ q, result = .ok q →
      ∃ z' s', Reads q z' s' ∧ (z'.top = none → Completes z.entries s rest)

section
variable {n : ℕ} {p : Parser} {z : Stack} {s : Status} {rest : List UInt8}

theorem decides_error {c : UInt8} {e : JsmnErr} (h : Reads p z s) (hc : c ≠ 0)
    (hstep : jsmnStep n c rest p = .error e)
    (he : e ≠ .assertion ∧ (e = .nomem → n ≤ z.tokens.length)) :
    Decides n z s p.pos (c :: rest) (jsmnLoop n p (c :: rest)) := by
  rw [jsmnLoop_error hc hstep]
  have := h.room
  refine ⟨fun e' he' => ?_, nofun⟩
  cases he'
  exact ⟨he.1, fun hnomem => by have := he.2 hnomem; omega⟩

theorem decides_inval {c : UInt8} (h : Reads p z s) (hc : c ≠ 0)
    (hstep : jsmnStep n c rest p = .error .inval) :
    Decides n z s p.pos (c :: rest) (jsmnLoop n p (c :: rest)) :=
  decides_error h hc hstep (by simp)

/-- One step, and what is left after it. -/
theorem decides_reading {text : List UInt8} {P : Parser → Prop} (hread : Reading n p text rest P)
    (hnext : ∀ q, q.pos = p.pos + text.length → P q → ∃ z' s',
      Decides n z' s' q.pos rest (jsmnLoop n q rest) ∧
        (Completes z'.entries s' rest → Completes z.entries s (text ++ rest))) :
    Decides n z s p.pos (text ++ rest) (jsmnLoop n p (text ++ rest)) := by
  rcases hread with ⟨hloop, hn⟩ | ⟨q, hloop, hpos, hP⟩
  · rw [hloop]
    refine ⟨fun e he => ?_, nofun⟩
    cases he
    exact ⟨by simp, fun _ => hn⟩
  · obtain ⟨z', s', ⟨herror, hok⟩, hcompletes⟩ := hnext q hpos hP
    rw [hloop]
    refine ⟨fun e he => ⟨(herror e he).1, fun hnomem => ?_⟩, fun r hr => ?_⟩
    · have := (herror e he).2 hnomem
      rw [hpos] at this
      rw [List.length_append]
      omega
    · obtain ⟨z'', s'', hreads, hmatched⟩ := hok r hr
      exact ⟨z'', s'', hreads, fun htop => hcompletes (hmatched htop)⟩

theorem decides_nil (h : Reads p z s) : Decides n z s p.pos [] (jsmnLoop n p []) := by
  rw [jsmnLoop]
  refine ⟨fun _ he => (by cases he), fun q hq => ?_⟩
  cases hq
  refine ⟨z, s, h, fun htop => ?_⟩
  have hspace : ∀ c ∈ ([] : List UInt8), isSpace c = true := by simp
  have hat := h.at_
  cases hat with
  | begin => exact Or.inl hspace
  | value z u last check under =>
    cases z with
    | bottom us => exact hspace
    | push => cases htop
  | comma z kind u last check under =>
    rw [Stack.under_none.mpr htop] at under
    cases under
  | _ => cases htop

end

/-- The induction hypothesis: what is shorter is decided. -/
def DecidesBelow (n m : ℕ) : Prop :=
  ∀ (rest : List UInt8) {p : Parser} {z : Stack} {s : Status}, rest.length < m →
    (0 : UInt8) ∉ rest → Reads p z s → Decides n z s p.pos rest (jsmnLoop n p rest)

section
variable {n : ℕ} {p : Parser} {z : Stack} {s : Status} {rest : List UInt8}

theorem decides_opener (kind : Kind) (h : Reads p z s) (hzero : (0 : UInt8) ∉ rest)
    (ih : DecidesBelow n (rest.length + 1)) :
    Decides n z s p.pos (kind.opener :: rest) (jsmnLoop n p (kind.opener :: rest)) := by
  cases hs : s.needsValue with
  | false =>
    refine decides_inval h (opener_ne_zero kind) ?_
    exact (jsmnStep_opener ..).trans (beginContainer_refused n kind h hs)
  | true =>
    refine decides_reading (reading_open kind h hs) fun q _ ⟨d, hq⟩ => ?_
    refine ⟨_, _, ih rest (Nat.lt_succ_self _) hzero hq, fun hrest => ?_⟩
    simp only [Stack.entries, Stack.entries_grow, Stack.entries_counted] at hrest
    exact completes_value h.at_ hs (valueThen_container hrest)

theorem decides_closer (kind : Kind) (h : Reads p z s) (hzero : (0 : UInt8) ∉ rest)
    (ih : DecidesBelow n (rest.length + 1)) :
    Decides n z s p.pos (kind.closer :: rest) (jsmnLoop n p (kind.closer :: rest)) := by
  by_cases hs : s.mayEnd = true ∧ z.top ≠ none
  · obtain ⟨y, kind', t, below, hz, -⟩ := h.settle_end hs.1 hs.2
    by_cases hkind : kind' = kind
    · subst hkind
      refine decides_reading (reading_close h hs.1 hz) fun q _ hq => ?_
      refine ⟨_, _, ih rest (Nat.lt_succ_self _) hzero hq, fun hrest => ?_⟩
      rw [Stack.entries_add] at hrest
      have hat := h.at_
      cases hat with
      | opened z kind t =>
        rw [Stack.settle_container] at hz
        cases hz
        exact ⟨.none, .nil, rest, rfl, hrest⟩
      | value z u last check under =>
        refine after_settle z _ ?_
        rw [hz]
        exact after_closer _ hrest
      | _ => cases hs.1
    · refine decides_inval h (closer_ne_zero kind) ?_
      exact (jsmnStep_closer ..).trans (endContainer_refused h hs.1 hz hkind)
  · refine decides_inval h (closer_ne_zero kind) ?_
    refine (jsmnStep_closer ..).trans (endContainer_early kind h ?_)
    rw [not_and_or, Bool.not_eq_true, not_not] at hs
    exact hs

theorem decides_quote (h : Reads p z s) (hzero : (0 : UInt8) ∉ rest)
    (ih : DecidesBelow n (rest.length + 1)) :
    Decides n z s p.pos (quote :: rest) (jsmnLoop n p (quote :: rest)) := by
  cases hstep : aString n rest p with
  | error e => exact decides_error h quote_ne_zero hstep (aString_error h hstep)
  | ok q =>
    have hloop : ∃ length, stringLoop rest = .ok length := by
      rw [aString] at hstep
      obtain ⟨_, -, hstep⟩ := bind_eq_ok.mp hstep
      obtain ⟨length, hlength, -⟩ := bind_eq_ok.mp hstep
      exact ⟨length, hlength⟩
    obtain ⟨length, hlength⟩ := hloop
    obtain ⟨bytes, rest', rfl, hbytes, -⟩ := stringLoop_ok hlength
    have htext : quote :: (bytes ++ quote :: rest') = (quote :: (bytes ++ [quote])) ++ rest' := by
      simp
    have hzero' : (0 : UInt8) ∉ rest' := fun hmem => hzero (by simp [hmem])
    have hlt : rest'.length < (bytes ++ quote :: rest').length + 1 := by
      rw [List.length_append, List.length_cons]
      omega
    rw [htext]
    cases hvalue : s.needsValue with
    | true =>
      refine decides_reading (reading_string h hvalue hbytes) fun q _ hread => ?_
      obtain ⟨d, hq⟩ := hread
      refine ⟨_, _, ih rest' hlt hzero' hq, fun hrest => ?_⟩
      rw [Stack.entries_add, Stack.entries_grow, Stack.entries_counted] at hrest
      exact completes_value h.at_ hvalue (valueThen_text (.string ⟨bytes, hbytes⟩) hrest)
    | false =>
      cases hkey : s.needsKey with
      | true =>
        refine decides_reading (reading_keyString h hkey hbytes) fun q _ hread => ?_
        obtain ⟨d, hq⟩ := hread
        refine ⟨_, _, ih rest' hlt hzero' hq, fun hrest => ?_⟩
        rw [Stack.entries_add, Stack.entries_grow, Stack.entries_counted] at hrest
        exact completes_key h.at_ hkey ⟨.none, ⟨bytes, hbytes⟩, rest', rfl, hrest⟩
      | false =>
        rw [aString_refused n _ h hvalue hkey] at hstep
        cases hstep

theorem decides_space {c : UInt8} (hc : isSpace c = true) (h : Reads p z s)
    (hzero : (0 : UInt8) ∉ rest) (ih : DecidesBelow n (rest.length + 1)) :
    Decides n z s p.pos (c :: rest) (jsmnLoop n p (c :: rest)) := by
  have hread : Reading n p [c] rest fun q => Reads q z s :=
    reading_blank h (by simpa using hc)
  refine decides_reading hread fun q _ hq => ?_
  exact ⟨z, s, ih rest (Nat.lt_succ_self _) hzero hq, completes_space hc⟩

theorem decides_colon (h : Reads p z s) (hzero : (0 : UInt8) ∉ rest)
    (ih : DecidesBelow n (rest.length + 1)) :
    Decides n z s p.pos (colon :: rest) (jsmnLoop n p (colon :: rest)) := by
  by_cases hs : s = .key
  · subst hs
    have hat := h.at_
    cases hat with
    | key z t below k type last size parent =>
      refine decides_reading (reading_colon h) fun q _ hq => ?_
      refine ⟨_, _, ih rest (Nat.lt_succ_self _) hzero hq, fun hrest => ?_⟩
      exact ⟨.none, rest, rfl, hrest⟩
  · exact decides_inval h (by decide) (aColon_refused h hs)

theorem decides_comma (h : Reads p z s) (hzero : (0 : UInt8) ∉ rest)
    (ih : DecidesBelow n (rest.length + 1)) :
    Decides n z s p.pos (comma :: rest) (jsmnLoop n p (comma :: rest)) := by
  by_cases hs : s = .value ∧ z.top ≠ none
  · obtain ⟨rfl, htop⟩ := hs
    obtain ⟨y, kind, t, below, u, i, hz, -, -⟩ := h.settle_value htop
    refine decides_reading (reading_comma h hz) fun q _ ⟨below', _, hq⟩ => ?_
    refine ⟨_, _, ih rest (Nat.lt_succ_self _) hzero hq, fun hrest => ?_⟩
    refine after_settle z _ ?_
    rw [hz]
    exact after_comma hrest
  · refine decides_inval h (by decide) (aComma_refused h ?_)
    rw [not_and_or, not_not] at hs
    exact hs

theorem decides_primitive {c : UInt8} (hc : beginsPrimitive c = true) (h : Reads p z s)
    (hzero : (0 : UInt8) ∉ rest) (ih : DecidesBelow n (rest.length + 1)) :
    Decides n z s p.pos (c :: rest) (jsmnLoop n p (c :: rest)) := by
  have hc0 := begins_ne_zero hc
  have hdispatch : jsmnStep n c rest p = aPrimitive n (c :: rest) p := by
    rw [jsmnStep_other n (begins_not_mark hc), if_pos hc]
  cases hstep : aPrimitive n (c :: rest) p with
  | error e => exact decides_error h hc0 (hdispatch.trans hstep) (aPrimitive_error h hstep)
  | ok q =>
    cases hs : s.needsValue with
    | false =>
      rw [aPrimitive_refused n _ h hs] at hstep
      cases hstep
    | true =>
      rw [aPrimitive_eq h hs] at hstep
      obtain ⟨first, hfirst, hstep⟩ := bind_eq_ok.mp hstep
      obtain ⟨_, -, hstep⟩ := bind_eq_ok.mp hstep
      obtain ⟨⟨⟩, hvalid, -⟩ := bind_eq_ok.mp hstep
      rw [validatePrimitive_iff] at hvalid
      have hzero' : (0 : UInt8) ∉ c :: rest := by
        rw [List.mem_cons, not_or]
        exact ⟨Ne.symm hc0, hzero⟩
      obtain ⟨rest', heq, hrest'⟩ := primitiveLoop_ok hzero' hfirst
      obtain ⟨d, ds, rfl, -⟩ := primitive_head hvalid
      rw [List.cons_append] at heq
      obtain ⟨rfl, rfl⟩ := List.cons.inj heq
      have hlt : rest'.length < (ds ++ rest').length + 1 := by
        rw [List.length_append]
        omega
      rw [← List.cons_append]
      refine decides_reading (reading_primitive h hs hvalid hrest') fun q _ ⟨d, hq⟩ => ?_
      have hzero'' : (0 : UInt8) ∉ rest' := fun hmem => hzero (List.mem_append_right _ hmem)
      refine ⟨_, _, ih rest' hlt hzero'' hq, fun hrest => ?_⟩
      rw [Stack.entries_add, Stack.entries_grow, Stack.entries_counted] at hrest
      exact completes_value h.at_ hs (valueThen_text (.primitive ⟨_, hvalid⟩) hrest)

/-- **The rest of a run**: no assertion fails, and what is accepted is what the grammar asks for. -/
theorem jsmnLoop_decides (n : ℕ) (rest : List UInt8) {p : Parser} {z : Stack} {s : Status}
    (hzero : (0 : UInt8) ∉ rest) (h : Reads p z s) :
      Decides n z s p.pos rest (jsmnLoop n p rest) := by
  induction hm : rest.length using Nat.strong_induction_on generalizing rest p z s with
  | _ m ih =>
    have hbelow : DecidesBelow n m :=
      fun rest' p' z' s' hlt hzero' h' => ih _ hlt rest' hzero' h' rfl
    cases rest with
    | nil => exact decides_nil h
    | cons c rest =>
      subst hm
      rw [List.mem_cons, not_or] at hzero
      obtain ⟨hc, hzero⟩ := hzero
      by_cases hopener : ∃ kind : Kind, c = kind.opener
      · obtain ⟨kind, rfl⟩ := hopener
        exact decides_opener kind h hzero hbelow
      by_cases hcloser : ∃ kind : Kind, c = kind.closer
      · obtain ⟨kind, rfl⟩ := hcloser
        exact decides_closer kind h hzero hbelow
      by_cases hquote : c = quote
      · subst hquote
        exact decides_quote h hzero hbelow
      by_cases hspace : isSpace c = true
      · exact decides_space hspace h hzero hbelow
      by_cases hcolon : c = colon
      · subst hcolon
        exact decides_colon h hzero hbelow
      by_cases hcomma : c = comma
      · subst hcomma
        exact decides_comma h hzero hbelow
      by_cases hbegins : beginsPrimitive c = true
      · exact decides_primitive hbegins h hzero hbelow
      · refine decides_inval h (Ne.symm hc) ?_
        rw [jsmnStep_other n ?_, if_neg hbegins]
        have hkinds : ∀ kind : Kind, c ≠ kind.opener ∧ c ≠ kind.closer := fun kind =>
          ⟨fun heq => hopener ⟨kind, heq⟩, fun heq => hcloser ⟨kind, heq⟩⟩
        simp [isMark, hkinds, hquote, hspace, hcolon, hcomma]

end

end Apple2ix.Json
