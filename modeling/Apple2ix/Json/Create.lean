import Mathlib.Algebra.Group.Nat.Defs
import Mathlib.Data.List.TakeWhile
import Apple2ix.Json.Accepting
import Apple2ix.Json.TokenText

/-! `json_createFromString` of json_parse.c: the text is parsed anew with twice the tokens until
they suffice. What it makes of any text is what the grammar says of it. -/
namespace Apple2ix.Json
set_option autoImplicit false

/-! ## The parsed text -/

/-- A string in memory, without its terminator. -/
structure CString where
  bytes : List UInt8
  terminated : (0 : UInt8) ∉ bytes

@[ext] theorem CString.ext {a b : CString} (h : a.bytes = b.bytes) : a = b := by
  cases a
  cases b
  cases h
  rfl

/-- The string in a buffer: up to the terminator. -/
def CString.ofBuffer (buffer : List UInt8) : CString where
  bytes := buffer.takeWhile (· ≠ 0)
  terminated h := by simpa using List.all_eq_true.mp List.all_takeWhile 0 h

theorem CString.ofBuffer_bytes {buffer : List UInt8} (h : (0 : UInt8) ∉ buffer) :
    (CString.ofBuffer buffer).bytes = buffer := by
  refine List.takeWhile_eq_self_iff.mpr fun c hc => ?_
  simp only [ne_eq, decide_eq_true_eq]
  rintro rfl
  exact h hc

/-- What stands behind the terminator does not belong to the string. -/
theorem CString.ofBuffer_terminated {bytes : List UInt8} (h : (0 : UInt8) ∉ bytes)
    (stale : List UInt8) : (CString.ofBuffer (bytes ++ 0 :: stale)).bytes = bytes := by
  have hpos : ∀ c ∈ bytes, decide (c ≠ 0) = true := by
    intro c hc
    rw [decide_eq_true_eq]
    rintro rfl
    exact h hc
  change (bytes ++ 0 :: stale).takeWhile (· ≠ 0) = bytes
  rw [List.takeWhile_append_of_pos hpos, List.takeWhile_cons_of_neg (by simp), List.append_nil]

/-- `JSON_s`. -/
structure JSON where
  jsonLen : ℕ
  jsonString : CString
  numTokens : ℕ
  jsonTokens : List Token

def defaultNumtok : ℕ := 16

/-- The loop over larger and larger token arrays, with a bound on the number of its passes. -/
def createLoop (js : List UInt8) : ℕ → ℕ → Except JsmnErr (ℕ × List PrivTok)
  | 0, numTokens => jsmnParse js numTokens
  | fuel + 1, numTokens =>
    match jsmnParse js numTokens with
    | .error .nomem => createLoop js fuel (numTokens * 2)
    | result => result

/-- `json_createFromString`. -/
def jsonCreateFromString (jsonString : CString) : Except JsmnErr JSON := do
  let (errCount, tokens) ← createLoop jsonString.bytes jsonString.bytes.length defaultNumtok
  .ok {
    jsonLen := jsonString.bytes.length
    jsonString := jsonString
    numTokens := errCount
    jsonTokens := tokens.map PrivTok.token }

/-! ## `jsmn_parse` on a whole text -/

section
variable {n : ℕ} {js : List UInt8}

theorem closed_sane {t : PrivTok} (h : t.Closed 0) : t.sane = true := by
  obtain ⟨hstart, hstop, hdepth, hlast⟩ := h
  have hne : t.depth ≠ -1 := by omega
  simp [PrivTok.sane, Option.isSome_iff_ne_none, hstart, hstop, hne, hlast]

/-- The checks behind the loop tell whether anything is open. -/
theorem jsmnParse_loop {p : Parser} {z : Stack} {s : Status}
    (hloop : jsmnLoop n jsmnInit js = .ok p)
    (h : Reads p z s) :
    jsmnParse js n =
      if z.top = none then .ok (p.tokens.length, p.tokens) else .error .inval := by
  rw [jsmnParse, hloop, ok_bind]
  have hok := h.ok
  have hcount := h.count
  rw [← h.tokens] at hcount
  by_cases htop : z.top = none
  · cases hok with
    | push => cases htop
    | bottom closed matched =>
      have htokens := h.tokens
      rw [Stack.tokens] at htokens
      have hsane : p.tokens.all PrivTok.sane = true := by
        rw [htokens]
        exact List.all_eq_true.mpr fun t ht => closed_sane (closed t ht)
      rw [if_pos htop, hsane, hcount, htokens, matched]
      rfl
  · have hopen := hok.unmatched htop
    rw [← h.tokens] at hopen
    rw [if_neg htop, hopen]
    rfl

theorem jsmnParse_error {e : JsmnErr} (hzero : (0 : UInt8) ∉ js) (h : jsmnParse js n = .error e) :
    e ≠ .assertion ∧ (e = .nomem → n ≤ js.length) := by
  obtain ⟨herror, hok⟩ := jsmnLoop_decides n js hzero reads_init
  cases hloop : jsmnLoop n jsmnInit js with
  | error e' =>
    rw [jsmnParse, hloop] at h
    cases h
    have := herror e hloop
    rwa [show jsmnInit.pos = 0 from rfl, Nat.zero_add] at this
  | ok p =>
    obtain ⟨z, s, hreads, -⟩ := hok p hloop
    rw [jsmnParse_loop hloop hreads] at h
    split_ifs at h
    cases h
    simp

/-- What is accepted is a text of the grammar. -/
theorem jsmnParse_ok {result : ℕ × List PrivTok} (hzero : (0 : UInt8) ∉ js)
    (h : jsmnParse js n = .ok result) : ∃ d : Document, d.text = js := by
  obtain ⟨herror, hok⟩ := jsmnLoop_decides n js hzero reads_init
  cases hloop : jsmnLoop n jsmnInit js with
  | error e =>
    rw [jsmnParse, hloop] at h
    cases h
  | ok p =>
    obtain ⟨z, s, hreads, hcompletes⟩ := hok p hloop
    rw [jsmnParse_loop hloop hreads] at h
    split_ifs at h with htop
    rcases hcompletes htop with hblank | ⟨before, v, after, rfl, hafter⟩
    · exact ⟨.blank ⟨js, hblank⟩, rfl⟩
    · exact ⟨.value before v ⟨after, hafter⟩, rfl⟩

theorem reading_document (d : Document) (n : ℕ) :
    Reading n jsmnInit d.text [] fun q => ∃ z s, Reads q z s ∧ z.top = none ∧
      q.tokens.map PrivTok.token = d.tokens := by
  cases d with
  | blank b =>
    refine (reading_blank reads_init b.space).imp fun q _ hq => ⟨_, _, hq, rfl, ?_⟩
    rw [hq.tokens]
    rfl
  | value before v after =>
    refine (reading_blank reads_init before.space).append fun q₁ hpos₁ h₁ => ?_
    have hrest : Delimited (after.bytes ++ []) := delimited_append after.space delimited_nil
    refine (reading_tree.1 v _ h₁ rfl hrest).append fun q₂ _ ⟨ts, h₂, hts⟩ => ?_
    refine (reading_blank h₂ after.space).imp fun q₃ _ h₃ => ⟨_, _, h₃, rfl, ?_⟩
    have hpos : q₁.pos = before.bytes.length := by
      rw [hpos₁]
      exact Nat.zero_add _
    rw [h₃.tokens, Document.tokens, ← hpos]
    exact hts

/-- **A text of the grammar** is accepted, and has the tokens of its tree. -/
theorem jsmnParse_document (d : Document) (n : ℕ) :
    jsmnParse d.text n = .error .nomem ∨
      ∃ ts, jsmnParse d.text n = .ok (ts.length, ts) ∧ ts.map PrivTok.token = d.tokens := by
  have hread := reading_document d n
  rw [Reading, List.append_nil] at hread
  rcases hread with ⟨hloop, -⟩ | ⟨q, hloop, -, z, s, hreads, htop, htokens⟩
  · left
    rw [jsmnParse, hloop]
    rfl
  · right
    rw [jsmnLoop] at hloop
    refine ⟨q.tokens, ?_, htokens⟩
    rw [jsmnParse_loop hloop hreads, if_pos htop]

/-! ## The growing token array -/

theorem createLoop_error {fuel : ℕ} {e : JsmnErr} (hzero : (0 : UInt8) ∉ js)
    (h : createLoop js fuel n = .error e) :
    e ≠ .assertion ∧ (e = .nomem → n * 2 ^ fuel ≤ js.length) := by
  induction fuel generalizing n with
  | zero =>
    rw [Nat.pow_zero, Nat.mul_one]
    exact jsmnParse_error hzero h
  | succ fuel ih =>
    rw [createLoop] at h
    split at h
    · obtain ⟨hassert, hnomem⟩ := ih h
      refine ⟨hassert, fun he => ?_⟩
      rw [Nat.pow_succ, Nat.mul_comm (2 ^ fuel), ← Nat.mul_assoc]
      exact hnomem he
    · rename_i hne
      refine ⟨(jsmnParse_error hzero h).1, ?_⟩
      rintro rfl
      exact absurd h hne

theorem createLoop_ok {fuel : ℕ} {result : ℕ × List PrivTok}
    (h : createLoop js fuel n = .ok result) :
    ∃ m, jsmnParse js m = .ok result := by
  induction fuel generalizing n with
  | zero => exact ⟨n, h⟩
  | succ fuel ih =>
    rw [createLoop] at h
    split at h
    · exact ih h
    · exact ⟨n, h⟩

theorem createLoop_document (d : Document) (fuel n : ℕ) :
    createLoop d.text fuel n = .error .nomem ∨
      ∃ ts, createLoop d.text fuel n = .ok (ts.length, ts) ∧ ts.map PrivTok.token = d.tokens := by
  induction fuel generalizing n with
  | zero => exact jsmnParse_document d n
  | succ fuel ih =>
    rw [createLoop]
    rcases jsmnParse_document d n with hnomem | ⟨ts, hts, htokens⟩
    · rw [hnomem]
      exact ih (n * 2)
    · rw [hts]
      exact Or.inr ⟨ts, rfl, htokens⟩

end

/-! ## `json_createFromString` -/

theorem create_error {js : CString} {e : JsmnErr} (h : jsonCreateFromString js = .error e) :
    e ≠ .assertion ∧ e ≠ .nomem := by
  rw [jsonCreateFromString] at h
  rcases bind_eq_error.mp h with h | ⟨result, -, h⟩
  · obtain ⟨hassert, hnomem⟩ := createLoop_error js.terminated h
    refine ⟨hassert, fun he => ?_⟩
    have hle := hnomem he
    have hpow : js.bytes.length < 2 ^ js.bytes.length := Nat.lt_two_pow_self
    rw [defaultNumtok] at hle
    omega
  · cases h

/-- The parsed form of a text of the grammar. -/
def Document.json (d : Document) (js : CString) : JSON where
  jsonLen := js.bytes.length
  jsonString := js
  numTokens := d.tokens.length
  jsonTokens := d.tokens

theorem create_document (d : Document) {js : CString} (hjs : js.bytes = d.text) :
    jsonCreateFromString js = .ok (d.json js) := by
  cases hcreate : jsonCreateFromString js with
  | error e =>
    obtain ⟨-, hnomem⟩ := create_error hcreate
    rw [jsonCreateFromString, hjs] at hcreate
    rcases createLoop_document d d.text.length defaultNumtok with hloop | ⟨ts, hloop, -⟩
    · rw [hloop] at hcreate
      cases hcreate
      exact absurd rfl hnomem
    · rw [hloop] at hcreate
      cases hcreate
  | ok json =>
    rw [jsonCreateFromString, hjs] at hcreate
    rcases createLoop_document d d.text.length defaultNumtok with hloop | ⟨ts, hloop, htokens⟩
    · rw [hloop] at hcreate
      cases hcreate
    · rw [hloop] at hcreate
      cases hcreate
      rw [Document.json, hjs, htokens, ← htokens, List.length_map]

theorem create_ok {js : CString} {json : JSON} (h : jsonCreateFromString js = .ok json) :
    ∃ d : Document, d.text = js.bytes ∧ json = d.json js := by
  have hok := h
  rw [jsonCreateFromString] at h
  obtain ⟨result, hresult, -⟩ := bind_eq_ok.mp h
  obtain ⟨m, hm⟩ := createLoop_ok hresult
  obtain ⟨d, hd⟩ := jsmnParse_ok js.terminated hm
  rw [create_document d hd.symm] at hok
  cases hok
  exact ⟨d, hd, rfl⟩

/-- **Main.** A text is accepted exactly when the grammar derives it, no assertion ever fails, the
token array never has to grow beyond the bound, and the tokens of an accepted text are those of its
tree in preorder, each with the text that it delimits. -/
theorem jsonCreateFromString_spec (js : CString) :
    (∀ e, jsonCreateFromString js = .error e → e ≠ .assertion ∧ e ≠ .nomem) ∧
      ((∃ json, jsonCreateFromString js = .ok json) ↔ ∃ d : Document, d.text = js.bytes) ∧
      ∀ d : Document, d.text = js.bytes →
        jsonCreateFromString js = .ok
          { jsonLen := js.bytes.length
            jsonString := js
            numTokens := d.tokens.length
            jsonTokens := d.tokens } ∧
        d.tokens.map (Token.text js.bytes) = d.raws := by
  refine ⟨fun e => create_error, ⟨?_, ?_⟩, ?_⟩
  · rintro ⟨json, h⟩
    obtain ⟨d, hd, -⟩ := create_ok h
    exact ⟨d, hd⟩
  · rintro ⟨d, hd⟩
    exact ⟨_, create_document d hd.symm⟩
  · intro d hd
    refine ⟨create_document d hd.symm, ?_⟩
    rw [← hd]
    exact d.tokens_text

end Apple2ix.Json
