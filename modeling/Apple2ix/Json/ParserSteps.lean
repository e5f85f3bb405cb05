import Apple2ix.Json.ParserState

/-! The cases of the switch in `jsmn_parse`, from any state: what each of them makes of the stack
where it fits, and that it refuses the text where it does not. -/
namespace Apple2ix.Json
set_option autoImplicit false

/-! ## New tokens -/

def containerToken (kind : Kind) (start : ℕ) (parent : Option ℕ) (depth : ℤ) : PrivTok :=
  { PrivTok.fresh with
    type := kind.type
    start := some start
    parent := parent
    lasttype := kind.lasttype
    depth := depth }

/-- A string or a primitive. -/
def leafToken (type : JsmnType) (start stop : ℕ) (parent : Option ℕ) (lasttype : LastType)
    (depth : ℤ) : PrivTok :=
  { PrivTok.fresh with
    type := type
    start := some start
    stop := some stop
    parent := parent
    lasttype := lasttype
    depth := depth }

/-- A container at its closing character. -/
def PrivTok.closed (t : PrivTok) (stop : ℕ) : PrivTok :=
  { t with
    stop := some stop
    depth := t.depth - 1
    lasttype := endType t.type }

theorem alloc_ok {n : ℕ} {ts : List PrivTok} (t : PrivTok) (h : ts.length < n) :
    jsmnAllocToken n ts t = .ok (ts ++ [t]) := by
  rw [jsmnAllocToken, if_neg (Nat.not_le.mpr h)]

theorem alloc_nomem {n : ℕ} {ts : List PrivTok} (t : PrivTok) (h : n ≤ ts.length) :
    jsmnAllocToken n ts t = .error .nomem := by
  rw [jsmnAllocToken, if_pos h]

section
variable {p : Parser} {z : Stack} {s : Status}

theorem Reads.countChild (h : Reads p z s) (more : List PrivTok) :
    countChild z.top (p.tokens ++ more) = (z.counted.grow 1).tokens ++ more := by
  rw [h.tokens, Stack.countChild_tokens z h.ok.linked]

/-- The superior token. -/
theorem Reads.superior {entry : Entry} {t : PrivTok} {below : List PrivTok}
    (h : Reads p (.push z entry t below) s) : p.tokens.getD z.tokens.length .fresh = t := by
  rw [h.tokens, Stack.tokens, getD_at]

theorem Reads.opened {entry : Entry} {t : PrivTok} {below : List PrivTok}
    (h : Reads p (.push z entry t below) s) : Opened z entry t := by
  obtain _ | ⟨-, -, -, opened, -, -⟩ := h.ok
  exact opened

theorem Reads.underObject (h : Reads p z s) :
    underObject p = decide (z.under = some (.container .object)) := by
  rw [Json.underObject, h.super]
  cases z with
  | bottom us => rfl
  | push z entry t below =>
    simp only [Stack.top, h.superior, h.opened.type, Stack.under]
    cases entry with
    | container kind => cases kind <;> rfl
    | key => rfl

/-- Behind a value stand commas and the ends of containers only. -/
theorem behind_value {l : LastType} (h : Status.value.last l) :
    beforeContainer l = false ∧ beforePrimitive l = false ∧ beforeString l = false ∧
      beforeColon l = false ∧ beforeEnd l = true := by
  rw [Status.last] at h
  cases l with
  | primitive | string | objectEnd | arrayEnd => exact ⟨rfl, rfl, rfl, rfl, rfl⟩
  | _ => cases h

theorem type_injective {kind kind' : Kind} (h : kind.type = kind'.type) : kind = kind' := by
  cases kind with
  | array =>
    cases kind' with
    | array => rfl
    | object => cases h
  | object =>
    cases kind' with
    | array => cases h
    | object => rfl

/-! ## Opening a container -/

theorem Stack.Ok.open {kind : Kind} (hok : z.Ok) (hempty : z.top = none → z.tokens = [])
    (hunder : z.under ≠ some (.container .object)) (start : ℕ) {d : ℤ}
    (houter : z.top = none → d = 1)
    (hinner : z.top ≠ none → 2 ≤ d) :
    (Stack.push z (.container kind) (containerToken kind start z.top d) []).Ok := by
  have hd : 1 ≤ d := by
    by_cases htop : z.top = none
    · exact le_of_eq (houter htop).symm
    · exact le_trans (by decide) (hinner htop)
  exact .push hok hempty hunder
    ⟨rfl, rfl, rfl, by simp [containerToken], iff_of_true rfl (by simp), hd, houter,
      fun htop _ => hinner htop⟩
    (by simp) (Stack.nested_nil _)

theorem Stack.At.empty (h : z.At s) (hs : s.needsValue = true) (htop : z.top = none) :
    z.tokens = [] := by
  have hbegin := (h.begin_iff hs).mpr htop
  subst hbegin
  cases h
  rfl

theorem beginContainer_last {l : LastType} (hs : s.needsValue = true) (h : s.last l) :
    beforeContainer l = true := by
  obtain rfl | rfl | rfl | rfl := Status.needsValue_cases hs
  · cases h
  all_goals
    cases h
    rfl

/-- **A container opens** where a value is needed. -/
theorem beginContainer_ok {n : ℕ} (kind : Kind) (h : Reads p z s) (hs : s.needsValue = true)
    (hn : z.tokens.length < n) :
    ∃ q d, beginContainer n kind p = .ok q ∧ q.pos = p.pos ∧
      Reads { q with pos := p.pos + 1 }
        (.push (z.counted.grow 1) (.container kind) (containerToken kind p.pos z.top d) [])
        (.opened kind) := by
  have hunder := h.at_.needsValue_under h.ok hs
  obtain ⟨token, hprevious, houter, hinner⟩ :=
    previous_ok h (fun l hl => beginContainer_last hs hl) (Or.inl hs)
  have htop : (z.counted.grow 1).top = z.top := by simp
  have hok : (Stack.push (z.counted.grow 1) (.container kind)
      (containerToken kind p.pos z.top (depthOf p.depth token + 1)) []).Ok := by
    rw [← htop]
    refine Stack.Ok.open (h.ok.counted.grow 1) (fun hnone => ?_) (by simpa using hunder) _ ?_ ?_
    · rw [htop] at hnone
      rw [← List.length_eq_zero_iff]
      simp [h.at_.empty hs hnone]
    · intro hnone
      rw [htop] at hnone
      rw [houter hnone]
      rfl
    · intro hsome
      rw [htop] at hsome
      have := hinner hsome
      omega
  refine ⟨{ p with
      toksuper := some p.tokens.length
      tokens := Json.countChild p.toksuper (p.tokens ++
        [containerToken kind p.pos p.toksuper (depthOf p.depth token + 1)])
      depth := depthOf p.depth token
      count := p.count + 1 }, depthOf p.depth token + 1, ?_, rfl, ?_⟩
  · rw [beginContainer, hprevious, ok_bind, h.underObject, decide_eq_false hunder,
      if_neg Bool.false_ne_true, alloc_ok _ (by rwa [h.tokens])]
    rfl
  · refine ⟨?_, by simp [Stack.top, h.tokens], by simp [Stack.tokens, h.count], hok,
      .opened _ _ _, by simp, ?_⟩
    · simp only [h.super, h.countChild, Stack.tokens]
    · have := h.room
      simp only [Stack.tokens, List.length_append, Stack.length_grow, Stack.length_counted,
        List.length_cons, List.length_nil]
      omega

theorem beginContainer_nomem {n : ℕ} (kind : Kind) (h : Reads p z s) (hs : s.needsValue = true)
    (hn : n ≤ z.tokens.length) : beginContainer n kind p = .error .nomem := by
  have hunder := h.at_.needsValue_under h.ok hs
  obtain ⟨token, hprevious, -, -⟩ :=
    previous_ok h (fun l hl => beginContainer_last hs hl) (Or.inl hs)
  rw [beginContainer, hprevious, ok_bind, h.underObject, decide_eq_false hunder,
    if_neg Bool.false_ne_true, alloc_nomem _ (by rwa [h.tokens])]
  rfl

theorem beginContainer_refused (n : ℕ) (kind : Kind) (h : Reads p z s) (hs : s.needsValue = false) :
    beginContainer n kind p = .error .inval := by
  have hbegin : s ≠ .begin := by
    rintro rfl
    cases hs
  by_cases hunder : z.under = some (.container .object)
  · obtain ⟨u, -, -, hprevious⟩ := previous_eq h hbegin beforeContainer
    by_cases hcheck : beforeContainer u.lasttype = true
    · rw [if_pos hcheck] at hprevious
      rw [beginContainer, hprevious, h.underObject, decide_eq_true hunder]
      rfl
    · rw [if_neg hcheck] at hprevious
      rw [beginContainer, hprevious]
      rfl
  · have hrefused : previous p.tokens beforeContainer = .error .inval := by
      refine previous_refused h hbegin fun l hl => ?_
      rw [h.at_.value_of_refused hs hunder] at hl
      obtain ⟨hcontainer, -, -, -, -⟩ := behind_value hl
      exact hcontainer
    rw [beginContainer, hrefused]
    rfl

/-! ## Values of one token -/

theorem Stack.At.add {u : PrivTok} (hunder : z.under ≠ some (.container .object))
    (hu : beforeComma u.lasttype = true) : (z.add [u]).At .value := by
  refine .value _ u ?_ hu (by simpa using hunder)
  rw [tokens_add, getLast?_at]

/-- A new string or primitive. -/
theorem Reads.leaf (h : Reads p z s) (hempty : z.top = none → z.tokens = []) {s' : Status}
    {type : JsmnType} {start stop pos : ℕ} {lasttype : LastType} {depth : ℤ} (hpos : p.pos < pos)
    (htype : type ≠ .object ∧ type ≠ .array) (hlast : lasttype ≠ .undefined) (hdepth : 0 ≤ depth)
    (hinner : z.top ≠ none → 1 ≤ depth) (hs' : s' ≠ .begin)
    (hat : ((z.counted.grow 1).add [leafToken type start stop z.top lasttype depth]).At s') :
    Reads
      { pos := pos
        toksuper := p.toksuper
        tokens := Json.countChild p.toksuper (p.tokens ++
          [leafToken type start stop p.toksuper lasttype depth])
        depth := depth
        count := p.count + 1 }
      ((z.counted.grow 1).add [leafToken type start stop z.top lasttype depth]) s' := by
  have hclosed : (leafToken type start stop z.top lasttype depth).Closed 0 :=
    ⟨by simp [leafToken], by simp [leafToken], hdepth, hlast⟩
  refine ⟨?_, by simp [h.super], ?_, ?_, hat, fun hbegin => absurd hbegin hs', ?_⟩
  · simp only [h.super, h.countChild, Stack.tokens_add]
  · simp [h.count]
  · refine (h.ok.counted.grow 1).add_token hclosed (fun htop => hinner (by simpa using htop))
      (by simp [leafToken]) fun hnone => ?_
    rw [Stack.top_grow, Stack.top_counted] at hnone
    refine ⟨?_, ?_⟩
    · rw [← List.length_eq_zero_iff]
      simp [hempty hnone]
    · simp [unmatched, leafToken, htype.1, htype.2]
  · have := h.room
    simp only [Stack.tokens_add, List.length_append, Stack.length_grow, Stack.length_counted,
      List.length_cons, List.length_nil]
    omega

/-! ## Primitives -/

theorem keyPlace_value (h : Reads p z s) (hs : s.needsValue = true) : keyPlace p = false := by
  rw [keyPlace, h.super]
  cases z with
  | bottom us => rfl
  | push z entry t below =>
    simp only [Stack.top, h.superior, h.opened.type]
    have hat := h.at_
    cases hat with
    | opened z kind t =>
      cases kind with
      | array => rfl
      | object => cases hs
    | key => cases hs
    | colon z k size => simp [size, Entry.type]
    | value => cases hs
    | comma z kind u last check under =>
      cases under
      cases kind with
      | array => rfl
      | object => cases hs

theorem keyPlace_object (h : Reads p z s) (hunder : z.under = some (.container .object)) :
    keyPlace p = true := by
  rw [keyPlace, h.super]
  cases z with
  | bottom us => cases hunder
  | push z entry t below =>
    cases hunder
    simp only [Stack.top, h.superior, h.opened.type]
    rfl

theorem superDepth_eq (h : Reads p z s) (hs : s.needsValue = true) :
    0 ≤ superDepth p ∧ (z.top ≠ none → 1 ≤ superDepth p) := by
  rw [superDepth, h.super]
  cases z with
  | bottom us =>
    have hbegin := (h.at_.begin_iff hs).mpr rfl
    exact ⟨le_of_eq (h.depth hbegin).symm, fun htop => absurd rfl htop⟩
  | push z entry t below =>
    simp only [Stack.top, h.superior]
    have := h.opened.depth
    exact ⟨by omega, fun _ => this⟩

theorem aPrimitive_last {l : LastType} (hs : s.needsValue = true) (h : s.last l) :
    beforePrimitive l = true := by
  obtain rfl | rfl | rfl | rfl := Status.needsValue_cases hs
  · cases h
  all_goals
    cases h
    rfl

/-- **A primitive** where a value is needed. -/
theorem aPrimitive_eq {n : ℕ} {text : List UInt8} (h : Reads p z s) (hs : s.needsValue = true) :
    aPrimitive n text p = (do
      let first ← primitiveLoop text
      let tokens ← jsmnAllocToken n p.tokens
        (leafToken .primitive p.pos (p.pos + first.length) p.toksuper .primitive (superDepth p))
      validatePrimitive first
      .ok { p with
        pos := p.pos + first.length - 1
        tokens := Json.countChild p.toksuper tokens
        depth := superDepth p
        count := p.count + 1 }) := by
  obtain ⟨token, hprevious, -, -⟩ :=
    previous_ok h (fun l hl => aPrimitive_last hs hl) (Or.inl hs)
  rw [aPrimitive, keyPlace_value h hs, if_neg Bool.false_ne_true, hprevious]
  rfl

theorem aPrimitive_ok {n : ℕ} {text first : List UInt8} (h : Reads p z s) (hs : s.needsValue = true)
    (hn : z.tokens.length < n) (hloop : primitiveLoop text = .ok first)
    (hfirst : IsPrimitive first) :
    ∃ q d, aPrimitive n text p = .ok q ∧ q.pos = p.pos + first.length - 1 ∧
      Reads { q with pos := p.pos + first.length }
        ((z.counted.grow 1).add
          [leafToken .primitive p.pos (p.pos + first.length) z.top .primitive d]) .value := by
  obtain ⟨c, rest, hhead, -⟩ := primitive_head hfirst
  have hpos : p.pos < p.pos + first.length := by
    rw [hhead, List.length_cons]
    omega
  obtain ⟨hdepth, hinner⟩ := superDepth_eq h hs
  refine ⟨{ p with
      pos := p.pos + first.length - 1
      tokens := Json.countChild p.toksuper (p.tokens ++
        [leafToken .primitive p.pos (p.pos + first.length) p.toksuper .primitive (superDepth p)])
      depth := superDepth p
      count := p.count + 1 }, superDepth p, ?_, rfl, ?_⟩
  · rw [aPrimitive_eq h hs, hloop, ok_bind, alloc_ok _ (by rwa [h.tokens]), ok_bind,
      (validatePrimitive_iff first).mpr hfirst, ok_bind]
  · exact h.leaf (h.at_.empty hs) hpos (by simp) (by simp) hdepth hinner (by simp)
      (.add (by simpa using h.at_.needsValue_under h.ok hs) rfl)

theorem aPrimitive_error {n : ℕ} {text : List UInt8} {e : JsmnErr} (h : Reads p z s)
    (he : aPrimitive n text p = .error e) :
    e ≠ .assertion ∧ (e = .nomem → n ≤ z.tokens.length) := by
  rw [aPrimitive] at he
  split_ifs at he
  · cases he
    simp
  · rcases bind_eq_error.mp he with he | ⟨token, -, he⟩
    · rw [previous] at he
      split at he
      · cases he
      · split_ifs at he
        cases he
        simp
    · rcases bind_eq_error.mp he with he | ⟨first, -, he⟩
      · rw [primitiveLoop_error he]
        simp
      · rcases bind_eq_error.mp he with he | ⟨tokens, -, he⟩
        · rw [jsmnAllocToken] at he
          split_ifs at he with hn
          cases he
          rw [h.tokens] at hn
          exact ⟨by simp, fun _ => hn⟩
        · rcases bind_eq_error.mp he with he | ⟨_, -, he⟩
          · rw [validatePrimitive_error he]
            simp
          · cases he

theorem aPrimitive_refused (n : ℕ) (text : List UInt8) (h : Reads p z s)
    (hs : s.needsValue = false) : aPrimitive n text p = .error .inval := by
  have hbegin : s ≠ .begin := by
    rintro rfl
    cases hs
  rw [aPrimitive]
  by_cases hunder : z.under = some (.container .object)
  · rw [keyPlace_object h hunder, if_pos rfl]
  · split_ifs
    · rfl
    · have hrefused : previous p.tokens beforePrimitive = .error .inval := by
        refine previous_refused h hbegin fun l hl => ?_
        rw [h.at_.value_of_refused hs hunder] at hl
        obtain ⟨-, hprimitive, -, -, -⟩ := behind_value hl
        exact hprimitive
      rw [hrefused]
      rfl

/-! ## Strings -/

theorem stringType_eq (h : Reads p z s) :
    stringType p = if z.under = some (.container .object) then .stringKey else .string := by
  rw [stringType, h.super]
  cases z with
  | bottom us => rfl
  | push z entry t below =>
    simp only [Stack.top, h.superior, h.opened.lasttype, Stack.under]
    cases entry with
    | container kind => cases kind <;> rfl
    | key => rfl

theorem aString_last {l : LastType} (hs : s.needsValue = true ∨ s.needsKey = true) (h : s.last l) :
    beforeString l = true := by
  cases s with
  | opened kind =>
    rw [Status.last] at h
    rw [h]
    cases kind with
    | array => rfl
    | object => rfl
  | colon | comma kind =>
    cases h
    rfl
  | begin => cases h
  | key | value => exact absurd hs (by simp [Status.needsValue, Status.needsKey])

theorem Stack.At.needsKey_top (h : z.At s) (hs : s.needsKey = true) : z.top ≠ none := by
  intro hnone
  have hunder := h.needsKey_under hs
  rw [Stack.under_none.mpr hnone] at hunder
  cases hunder

theorem aString_eq {n length : ℕ} {rest : List UInt8} (h : Reads p z s)
    (hs : s.needsValue = true ∨ s.needsKey = true) (hloop : stringLoop rest = .ok length) :
    ∃ d, 0 ≤ d ∧ (z.top ≠ none → 1 ≤ d) ∧ aString n rest p = (do
      let tokens ← jsmnAllocToken n p.tokens
        (leafToken .string (p.pos + 1) (p.pos + 1 + length) p.toksuper (stringType p) d)
      .ok { p with
        pos := p.pos + 1 + length
        tokens := Json.countChild p.toksuper tokens
        depth := d
        count := p.count + 1 }) := by
  obtain ⟨token, hprevious, houter, hinner⟩ :=
    previous_ok h (fun l hl => aString_last hs hl) (hs.imp id h.at_.needsKey_top)
  refine ⟨depthOf p.depth token, ?_, hinner, ?_⟩
  · by_cases htop : z.top = none
    · exact le_of_eq (houter htop).symm
    · exact le_trans (by decide) (hinner htop)
  · rw [aString, hprevious, ok_bind, hloop]
    rfl

/-- **A string** where a value is needed. -/
theorem aString_value {n length : ℕ} {rest : List UInt8} (h : Reads p z s)
    (hs : s.needsValue = true)
    (hn : z.tokens.length < n) (hloop : stringLoop rest = .ok length) :
    ∃ q d, aString n rest p = .ok q ∧ q.pos = p.pos + 1 + length ∧
      Reads { q with pos := p.pos + 1 + length + 1 }
        ((z.counted.grow 1).add
          [leafToken .string (p.pos + 1) (p.pos + 1 + length) z.top .string d]) .value := by
  obtain ⟨d, hdepth, hinner, heq⟩ := aString_eq (n := n) h (Or.inl hs) hloop
  have hunder := h.at_.needsValue_under h.ok hs
  rw [stringType_eq h, if_neg hunder] at heq
  refine ⟨{ p with
      pos := p.pos + 1 + length
      tokens := Json.countChild p.toksuper (p.tokens ++
        [leafToken .string (p.pos + 1) (p.pos + 1 + length) p.toksuper .string d])
      depth := d
      count := p.count + 1 }, d, ?_, rfl, ?_⟩
  · rw [heq, alloc_ok _ (by rwa [h.tokens]), ok_bind]
  · exact h.leaf (h.at_.empty hs) (by omega) (by simp) (by simp) hdepth hinner (by simp)
      (.add (by simpa using hunder) rfl)

/-- **A key** where one is needed. -/
theorem aString_key {n length : ℕ} {rest : List UInt8} (h : Reads p z s) (hs : s.needsKey = true)
    (hn : z.tokens.length < n) (hloop : stringLoop rest = .ok length) :
    ∃ q d, aString n rest p = .ok q ∧ q.pos = p.pos + 1 + length ∧
      Reads { q with pos := p.pos + 1 + length + 1 }
        ((z.counted.grow 1).add
          [leafToken .string (p.pos + 1) (p.pos + 1 + length) z.top .stringKey d]) .key := by
  obtain ⟨d, hdepth, hinner, heq⟩ := aString_eq (n := n) h (Or.inr hs) hloop
  have hunder := h.at_.needsKey_under hs
  rw [stringType_eq h, if_pos hunder] at heq
  refine ⟨{ p with
      pos := p.pos + 1 + length
      tokens := Json.countChild p.toksuper (p.tokens ++
        [leafToken .string (p.pos + 1) (p.pos + 1 + length) p.toksuper .stringKey d])
      depth := d
      count := p.count + 1 }, d, ?_, rfl, ?_⟩
  · rw [heq, alloc_ok _ (by rwa [h.tokens]), ok_bind]
  · refine h.leaf (fun hnone => absurd hnone (h.at_.needsKey_top hs)) (by omega) (by simp) (by simp)
      hdepth hinner (by simp) ?_
    cases z with
    | bottom us => cases hunder
    | push z entry t below =>
      cases hunder
      exact .key _ _ _ _ rfl rfl rfl (by simp [leafToken, Stack.top])

theorem aString_error {n : ℕ} {rest : List UInt8} {e : JsmnErr} (h : Reads p z s)
    (he : aString n rest p = .error e) :
    e ≠ .assertion ∧ (e = .nomem → n ≤ z.tokens.length) := by
  rw [aString] at he
  rcases bind_eq_error.mp he with he | ⟨token, -, he⟩
  · rw [previous] at he
    split at he
    · cases he
    · split_ifs at he
      cases he
      simp
  · rcases bind_eq_error.mp he with he | ⟨length, -, he⟩
    · rcases stringLoop_error he with rfl | rfl
      · simp
      · simp
    · rcases bind_eq_error.mp he with he | ⟨tokens, -, he⟩
      · rw [jsmnAllocToken] at he
        split_ifs at he with hn
        cases he
        rw [h.tokens] at hn
        exact ⟨by simp, fun _ => hn⟩
      · cases he

theorem aString_refused (n : ℕ) (rest : List UInt8) (h : Reads p z s)
    (hvalue : s.needsValue = false)
    (hkey : s.needsKey = false) : aString n rest p = .error .inval := by
  have hbegin : s ≠ .begin := by
    rintro rfl
    cases hvalue
  have hrefused : previous p.tokens beforeString = .error .inval := by
    refine previous_refused h hbegin fun l hl => ?_
    cases s with
    | begin | colon => cases hvalue
    | opened kind | comma kind =>
      cases kind with
      | array => cases hvalue
      | object => cases hkey
    | key =>
      cases hl
      rfl
    | value =>
      obtain ⟨-, -, hstring, -, -⟩ := behind_value hl
      exact hstring
  rw [aString, hrefused]
  rfl

/-! ## Colons -/

theorem modify_last {α : Type} (l : List α) (a : α) (f : α → α) :
    (l ++ [a]).modify ((l ++ [a]).length - 1) f = l ++ [f a] := by
  rw [List.length_append, List.length_singleton, Nat.add_sub_cancel, modify_at]

/-- **A colon** behind a key. -/
theorem aColon_ok {t k : PrivTok} {below : List PrivTok}
    (h : Reads p (.push z (.container .object) t (below ++ [k])) .key) :
    ∃ q, aColon p = .ok q ∧ q.pos = p.pos ∧
      Reads { q with pos := p.pos + 1 }
        (.push (.push z (.container .object) t below) .key
          { k with lasttype := .separatorColon } [])
        .colon := by
  have htokens : p.tokens = (z.tokens ++ t :: below) ++ [k] := by
    rw [h.tokens, Stack.tokens, List.append_assoc, List.cons_append]
  obtain ⟨u, -, hlast, hprevious⟩ := previous_eq h (by simp) beforeColon
  rw [hlast, if_pos (by rfl)] at hprevious
  refine ⟨{ p with
      toksuper := some (p.tokens.length - 1)
      tokens := p.tokens.modify (p.tokens.length - 1) fun token =>
        { token with lasttype := .separatorColon } }, ?_, rfl, ?_⟩
  · rw [aColon, h.super, if_neg (by simp [Stack.top]), if_neg (by simp [htokens]), hprevious]
    rfl
  · have hroom := h.room
    have hat := h.at_
    obtain _ | ⟨ok, empty, fits, opened, closed, nested⟩ := h.ok
    have hk := closed k (List.mem_append_right _ (List.mem_singleton_self k))
    generalize hts : below ++ [k] = ts at hat
    cases hat with
    | key _ _ below' k' type last size parent =>
      obtain ⟨rfl, hk'⟩ := List.append_inj' hts rfl
      obtain rfl := List.singleton_inj.mp hk'
      refine ⟨?_, ?_, ?_, ?_, .colon _ _ size, by simp, ?_⟩
      · simp only [htokens, modify_last, Stack.tokens]
      · simp [htokens, Stack.top, Stack.tokens]
      · simp [h.count, Stack.tokens]
      · refine .push
          (.push ok empty fits opened (fun u hu => closed u (List.mem_append_left _ hu)) ?_)
          (by simp [Stack.top]) rfl ⟨type, rfl, parent, hk.start, ?_, hk.depth, by simp [Stack.top],
            by simp⟩ (by simp) (Stack.nested_nil _)
        · intro j u hu
          refine nested j u ?_
          rw [List.getElem?_append_left]
          · exact hu
          · exact (List.getElem?_eq_some_iff.mp hu).1
        · exact iff_of_false hk.stop (by simp)
      · simp only [Stack.tokens, List.length_append, List.length_cons, List.length_nil] at hroom ⊢
        omega

theorem Reads.tokens_ne_nil (h : Reads p z s) (htop : z.top ≠ none) : p.tokens ≠ [] := by
  rw [h.tokens]
  cases z with
  | bottom us => exact absurd rfl htop
  | push z entry t below => simp [Stack.tokens]

theorem aColon_refused (h : Reads p z s) (hs : s ≠ .key) : aColon p = .error .inval := by
  rw [aColon, h.super]
  by_cases htop : z.top = none
  · rw [if_pos htop]
  · have hbegin : s ≠ .begin := by
      rintro rfl
      exact htop ((h.at_.begin_iff rfl).mp rfl)
    have hrefused : previous p.tokens beforeColon = .error .inval := by
      refine previous_refused h hbegin fun l hl => ?_
      cases s with
      | begin => exact absurd rfl hbegin
      | opened kind =>
        cases hl
        cases kind with
        | array => rfl
        | object => rfl
      | key => exact absurd rfl hs
      | colon | comma kind =>
        cases hl
        rfl
      | value =>
        obtain ⟨-, -, -, hcolon, -⟩ := behind_value hl
        exact hcolon
    rw [if_neg htop, if_neg (h.tokens_ne_nil htop), hrefused]
    rfl

/-! ## Commas -/

theorem Stack.settle_container (z : Stack) (kind : Kind) (t : PrivTok) (below : List PrivTok) :
    (Stack.push z (.container kind) t below).settle = .push z (.container kind) t below := by
  cases z <;> rfl

/-- Behind a value in a container, the container holds the last token. -/
theorem Reads.settle_value (h : Reads p z .value) (htop : z.top ≠ none) :
    ∃ y kind t below u i, z.settle = .push y (.container kind) t (below ++ [u]) ∧
      z.top = some i ∧ superOfComma p i = some y.tokens.length := by
  have hat := h.at_
  cases hat with
  | value z u last check under =>
    have hok := h.ok
    cases z with
    | bottom us => exact absurd rfl htop
    | push y entry t below =>
      have hlast : below ≠ [] := by
        rintro rfl
        rw [Stack.tokens, getLast?_at] at last
        cases last
        rw [h.opened.lasttype] at check
        cases entry with
        | container kind =>
          cases kind with
          | array => cases check
          | object => cases check
        | key => cases check
      obtain ⟨bs, v, rfl⟩ := (List.eq_nil_or_concat' below).resolve_left hlast
      cases entry with
      | container kind =>
        cases kind with
        | object => exact absurd rfl under
        | array =>
          refine ⟨y, .array, t, bs, v, _, Stack.settle_container .., rfl, ?_⟩
          simp only [superOfComma, h.superior, h.opened.type, Entry.type, Kind.type]
          simp
      | key =>
        obtain _ | ⟨-, -, fits, opened, -, -⟩ := hok
        cases y with
        | bottom us => cases fits
        | push y entry t' below' =>
          cases fits
          refine ⟨y, .object, t', below' ++ t :: bs, v, _, ?_, rfl, ?_⟩
          · rw [Stack.settle, List.append_assoc, List.cons_append]
          · simp only [superOfComma, h.superior, opened.type, opened.parent, Entry.type, Stack.top]
            simp

theorem Stack.Ok.mark {entry : Entry} {t u : PrivTok} {below : List PrivTok} {l : LastType}
    (h : (Stack.push z entry t (below ++ [u])).Ok) (hl : l ≠ .undefined) :
    (Stack.push z entry t (below ++ [{ u with lasttype := l }])).Ok := by
  obtain _ | ⟨ok, empty, fits, opened, closed, nested⟩ := h
  refine .push ok empty fits opened (fun v hv => ?_) ?_
  · rcases List.mem_append.mp hv with hv | hv
    · exact closed v (List.mem_append_left _ hv)
    · rw [List.mem_singleton.mp hv]
      have hu := closed u (List.mem_append_right _ (List.mem_singleton_self u))
      exact ⟨hu.start, hu.stop, hu.depth, hl⟩
  · intro j v hv
    by_cases hj : j < below.length
    · refine nested j v ?_
      rw [List.getElem?_append_left hj] at hv ⊢
      exact hv
    · rw [List.getElem?_append_right (by omega)] at hv
      have hzero : j - below.length = 0 := by
        have := (List.getElem?_eq_some_iff.mp hv).1
        rw [List.length_singleton] at this
        omega
      rw [hzero] at hv
      cases hv
      refine nested j u ?_
      rw [List.getElem?_append_right (by omega), hzero]
      rfl

/-- **A comma** behind a value in a container. -/
theorem aComma_ok {y : Stack} {kind : Kind} {t u : PrivTok} {below : List PrivTok}
    (h : Reads p z .value) (hz : z.settle = .push y (.container kind) t (below ++ [u])) :
    ∃ q, aComma p = .ok q ∧ q.pos = p.pos ∧
      Reads { q with pos := p.pos + 1 }
        (.push y (.container kind) t (below ++ [{ u with lasttype := .separatorComma }]))
        (.comma kind) := by
  have htop : z.top ≠ none := by
    intro hnone
    cases z with
    | bottom us => cases hz
    | push => cases hnone
  obtain ⟨y', kind', t', below', u', i, hz', hi, hsuper⟩ := h.settle_value htop
  rw [hz] at hz'
  obtain ⟨rfl, -, -, -⟩ := Stack.push.inj hz'
  have htokens : p.tokens = (y.tokens ++ t :: below) ++ [u] := by
    rw [h.tokens, ← Stack.tokens_settle, hz, Stack.tokens, List.append_assoc, List.cons_append]
  obtain ⟨v, -, hlast, hprevious⟩ := previous_eq h (by simp) beforeComma
  rw [Status.last] at hlast
  rw [if_pos hlast] at hprevious
  refine ⟨{ p with
      toksuper := superOfComma p i
      tokens := p.tokens.modify (p.tokens.length - 1) fun token =>
        { token with lasttype := .separatorComma } }, ?_, rfl, ?_⟩
  · rw [aComma, h.super, hi]
    simp only [h.tokens_ne_nil htop, if_false, hprevious, ok_bind]
  · have hroom := h.room
    have hcount := h.count
    rw [← h.tokens, htokens] at hroom hcount
    refine ⟨?_, hsuper, ?_, ?_, .comma _ _ { u with lasttype := .separatorComma } ?_ rfl rfl,
      by simp, ?_⟩
    · simp only [htokens, modify_last]
      simp only [Stack.tokens, List.append_assoc, List.cons_append]
    · simp [hcount, Stack.tokens]
    · have hok := h.ok.settle
      rw [hz] at hok
      exact hok.mark (by simp)
    · rw [Stack.tokens, ← List.cons_append, ← List.append_assoc, getLast?_at]
    · simp only [Stack.tokens, List.length_append, List.length_cons, List.length_nil] at hroom ⊢
      omega

theorem aComma_refused (h : Reads p z s) (hs : s ≠ .value ∨ z.top = none) :
    aComma p = .error .inval := by
  rw [aComma, h.super]
  cases htop : z.top with
  | none => rfl
  | some i =>
    have hsome : z.top ≠ none := by simp [htop]
    have hbegin : s ≠ .begin := by
      rintro rfl
      exact hsome ((h.at_.begin_iff rfl).mp rfl)
    have hvalue : s ≠ .value := hs.resolve_right hsome
    have hrefused : previous p.tokens beforeComma = .error .inval := by
      refine previous_refused h hbegin fun l hl => ?_
      cases s with
      | begin => exact absurd rfl hbegin
      | opened kind =>
        cases hl
        cases kind with
        | array => rfl
        | object => rfl
      | key | colon | comma kind =>
        cases hl
        rfl
      | value => exact absurd rfl hvalue
    simp only [h.tokens_ne_nil hsome, if_false, hrefused, error_bind]

/-! ## Closing a container -/

theorem closed_zero {t : PrivTok} (h : t.Closed 1) : t.Closed 0 :=
  ⟨h.start, h.stop, le_trans (by decide) h.depth, h.lasttype⟩

theorem Stack.Ok.close {kind : Kind} {t : PrivTok} {below : List PrivTok} (stop : ℕ)
    (h : (Stack.push z (.container kind) t below).Ok) : (z.add (t.closed stop :: below)).Ok := by
  obtain _ | ⟨ok, empty, fits, opened, closed, nested⟩ := h
  have hlast : (t.closed stop).lasttype ≠ .undefined := by
    rw [PrivTok.closed, endType]
    split_ifs <;> simp
  cases ok with
  | @bottom ts =>
    have hnil : ts = [] := empty rfl
    subst hnil
    have hdepth : (t.closed stop).depth = 0 := by
      rw [PrivTok.closed, opened.outer rfl]
      rfl
    refine .bottom (fun u hu => ?_) ?_
    · rcases List.mem_cons.mp hu with rfl | hu
      · exact ⟨opened.start, by simp [PrivTok.closed], le_of_eq hdepth.symm, hlast⟩
      · exact closed_zero (closed u hu)
    · rw [List.nil_append, Json.unmatched, hdepth]
      simp
  | @push z entry t' below' ok' empty' fits' opened' closed' nested' =>
    refine .push ok' empty' fits' opened' (fun u hu => ?_) ?_
    · rcases List.mem_append.mp hu with hu | hu
      · exact closed' u hu
      · rcases List.mem_cons.mp hu with rfl | hu
        · have hinner := opened.inner (by simp [top]) (by simp)
          have hdepth : (t.closed stop).depth = t.depth - 1 := rfl
          exact ⟨opened.start, by simp [PrivTok.closed], by omega, hlast⟩
        · exact closed u hu
    · refine nested_close nested' opened.parent ?_
      rw [tokens, List.length_append, List.length_cons] at nested
      rwa [Nat.add_assoc, Nat.add_comm 1]

/-- A container may end. -/
def Status.mayEnd : Status → Bool
  | .opened _ => true
  | .value => true
  | _ => false

/-- The open container, where one may end. -/
theorem Reads.settle_end (h : Reads p z s) (hs : s.mayEnd = true) (htop : z.top ≠ none) :
    ∃ y kind t below, z.settle = .push y (.container kind) t below ∧
      (below = [] ∨ ∃ u, below.getLast? = some u ∧ beforeComma u.lasttype = true) := by
  have hat := h.at_
  cases hat with
  | opened z kind t => exact ⟨z, kind, t, [], Stack.settle_container .., Or.inl rfl⟩
  | value z u last check under =>
    obtain ⟨y, kind, t, below, v, i, hz, -, -⟩ := h.settle_value htop
    refine ⟨y, kind, t, below ++ [v], hz, Or.inr ⟨v, getLast?_at _ _, ?_⟩⟩
    rw [← Stack.tokens_settle, hz, Stack.tokens, ← List.cons_append, ← List.append_assoc,
      getLast?_at] at last
    cases last
    exact check
  | _ => cases hs

theorem endContainer_last {l : LastType} (hs : s.mayEnd = true) (h : s.last l) :
    beforeEnd l = true := by
  cases s with
  | opened kind =>
    cases h
    cases kind with
    | array => rfl
    | object => rfl
  | value =>
    obtain ⟨-, -, -, -, hend⟩ := behind_value h
    exact hend
  | _ => cases hs

/-- What the end of a container comes down to. -/
theorem endContainer_eq {y : Stack} {kind kind' : Kind} {t : PrivTok} {below : List PrivTok}
    (h : Reads p z s) (hs : s.mayEnd = true) (hz : z.settle = .push y (.container kind') t below) :
    endContainer kind p =
      if kind'.type ≠ kind.type then .error .inval
      else
        .ok { p with
          toksuper := y.top
          tokens := y.tokens ++ t.closed (p.pos + 1) :: below } := by
  have htop : z.top ≠ none := by
    intro hnone
    cases z with
    | bottom us => cases hz
    | push => cases hnone
  have hbegin : s ≠ .begin := by
    rintro rfl
    cases hs
  have htokens : p.tokens = y.tokens ++ t :: below := by
    rw [h.tokens, ← Stack.tokens_settle, hz, Stack.tokens]
  have hok := h.ok.settle
  rw [hz] at hok
  obtain _ | ⟨ok, empty, fits, opened, closed, nested⟩ := hok
  obtain ⟨u, -, hlast, hprevious⟩ := previous_eq h hbegin beforeEnd
  rw [if_pos (endContainer_last hs hlast)] at hprevious
  have hstop : t.stop = none := opened.stop.mpr (by simp)
  have hfind : findOpen p.tokens.length p.tokens (p.tokens.length - 1) = y.tokens.length := by
    have hlength : p.tokens.length = y.tokens.length + (below.length + 1) := by
      rw [htokens, List.length_append, List.length_cons]
    rw [hlength, htokens, Nat.add_sub_assoc (by omega), Nat.add_sub_cancel]
    exact Stack.findOpen_tokens _ _ t opened.start hstop (fun u hu => (closed u hu).stop) nested _ _
      (Nat.le_refl _) (by omega)
  have hget : p.tokens.getD y.tokens.length .fresh = t := by rw [htokens, getD_at]
  rw [endContainer, h.super, if_neg htop, if_neg (h.tokens_ne_nil htop), hprevious, ok_bind]
  simp only [hfind, hget, opened.start, hstop, ne_eq, not_false_eq_true, and_self, if_true,
    opened.type, opened.parent, Entry.type]
  rw [htokens, modify_at]
  simp only [PrivTok.closed, opened.parent]

/-- **A container closes** behind its opening character or behind a value. -/
theorem endContainer_ok {y : Stack} {kind : Kind} {t : PrivTok} {below : List PrivTok}
    (h : Reads p z s) (hs : s.mayEnd = true) (hz : z.settle = .push y (.container kind) t below)
    (hbelow : below = [] ∨ ∃ u, below.getLast? = some u ∧ beforeComma u.lasttype = true) :
    ∃ q, endContainer kind p = .ok q ∧ q.pos = p.pos ∧
      Reads { q with pos := p.pos + 1 } (y.add (t.closed (p.pos + 1) :: below)) .value := by
  have htokens : p.tokens = y.tokens ++ t :: below := by
    rw [h.tokens, ← Stack.tokens_settle, hz, Stack.tokens]
  have hok := h.ok.settle
  rw [hz] at hok
  have hclose := hok.close (p.pos + 1)
  obtain _ | ⟨ok, empty, fits, opened, closed, nested⟩ := hok
  refine ⟨{ p with toksuper := y.top, tokens := y.tokens ++ t.closed (p.pos + 1) :: below }, ?_,
    rfl, ?_⟩
  · rw [endContainer_eq h hs hz, if_neg (by simp)]
  have hroom := h.room
  have hcount := h.count
  rw [← h.tokens, htokens, List.length_append, List.length_cons] at hroom hcount
  refine ⟨by simp, by simp, ?_, hclose, ?_, by simp, ?_⟩
  · simp [hcount]
  · rcases hbelow with rfl | ⟨u, hu, hcheck⟩
    · refine .add fits ?_
      rw [PrivTok.closed, endType]
      split_ifs <;> rfl
    · refine .value _ u ?_ hcheck (by rwa [Stack.under_add])
      obtain ⟨bs, rfl⟩ := List.getLast?_eq_some_iff.mp hu
      rw [Stack.tokens_add, ← List.cons_append, ← List.append_assoc, getLast?_at]
  · simp only [Stack.tokens_add, List.length_append, List.length_cons]
    omega

theorem endContainer_refused {y : Stack} {kind kind' : Kind} {t : PrivTok} {below : List PrivTok}
    (h : Reads p z s) (hs : s.mayEnd = true) (hz : z.settle = .push y (.container kind') t below)
    (hkind : kind' ≠ kind) : endContainer kind p = .error .inval := by
  rw [endContainer_eq h hs hz, if_pos]
  exact fun htype => hkind (type_injective htype)

theorem endContainer_early (kind : Kind) (h : Reads p z s) (hs : s.mayEnd = false ∨ z.top = none) :
    endContainer kind p = .error .inval := by
  rw [endContainer, h.super]
  by_cases htop : z.top = none
  · rw [if_pos htop]
  · have hbegin : s ≠ .begin := by
      rintro rfl
      exact htop ((h.at_.begin_iff rfl).mp rfl)
    have hrefused : previous p.tokens beforeEnd = .error .inval := by
      refine previous_refused h hbegin fun l hl => ?_
      have hend := hs.resolve_right htop
      cases s with
      | opened kind => cases hend
      | value => cases hend
      | _ => simp_all [Status.last, beforeEnd]
    rw [if_neg htop, if_neg (h.tokens_ne_nil htop), hrefused]
    rfl

end

end Apple2ix.Json
