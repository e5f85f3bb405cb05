import Apple2ix.Json.Arrays
import Apple2ix.Json.SetFrame

/-! Copies of a value in a map or in an array: the text of its token is parsed anew. The token of a
string goes without the quotes, so that a string is not copied as what it is. -/
namespace Apple2ix.Json
set_option autoImplicit false

/-! ## The copies -/

/-- What `json_mapCopyJSON` and `json_arrayCopyJSONAtIndex` do with the token that they find; an
error is the negative count that they return, or `assert(errCount >= 0)`. -/
def copyJSON (json : JSON) (tok : Token) : Except JsmnErr JSON := do
  let text ← validText json tok
  if tok.stop - tok.start = 0 then .error .nomem
  else
    match jsonCreateFromString (.ofBuffer text) with
    | .ok val => .ok val
    | .error _ => .error .assertion

/-- `json_mapCopyJSON`. -/
def jsonMapCopyJSON (map : JSON) (key : CString) : Except JsmnErr JSON := do
  match ← jsonMapGetStringValue map key with
  | none => .error .nomem
  | some idx => copyJSON map (map.token idx)

/-- `json_arrayCopyJSONAtIndex`. -/
def jsonArrayCopyJSONAtIndex (array : JSON) (index : ℕ) : Except JsmnErr JSON :=
  match jsonArrayCalcIndex array index with
  | none => .error .nomem
  | some idx => copyJSON array (array.token idx)

/-! ## What is copied -/

/-- A parsed text that is this value, with white space around it at most. -/
def JSON.IsValue (json : JSON) (v : Value) : Prop :=
  ∃ (before after : Blank) (js : CString), js.bytes = (Document.value before v after).text ∧
    json = (Document.value before v after).json js

/-- The copy of the text of a token. -/
def copyText (raw : List UInt8) : Except JsmnErr JSON :=
  if raw.length = 0 then .error .nomem
  else
    match jsonCreateFromString (.ofBuffer raw) with
    | .ok val => .ok val
    | .error _ => .error .assertion

theorem copyJSON_eq {json : JSON} {tok : Token} {raw : List UInt8}
    (htext : validText json tok = .ok raw) (hlength : tok.stop - tok.start = raw.length) :
    copyJSON json tok = copyText raw := by
  rw [copyJSON, htext, hlength]
  rfl

/-- The characters of a string hold no quote that is not escaped. -/
theorem chars_no_quote (b : List UInt8) (hb : ∀ c ∈ b, c ≠ backslash) {rest : List UInt8}
    (h : IsChars (b ++ quote :: rest)) : False := by
  induction b with
  | nil =>
    cases h with
    | plain _ hquote _ _ => exact hquote rfl
  | cons c b ih =>
    rw [List.forall_mem_cons] at hb
    rw [List.cons_append] at h
    generalize htail : b ++ quote :: rest = tail at h
    cases h with
    | plain _ _ _ hrest =>
      subst htail
      exact ih hb.2 hrest
    | escape _ _ => exact hb.1 rfl
    | unicode _ _ _ => exact hb.1 rfl

theorem space_ne_backslash {c : UInt8} (h : isSpace c = true) : c ≠ backslash := by
  rintro rfl
  exact absurd h (by decide)

theorem Value.raw_text {v : Value} (h : v.type ≠ .string) : v.raw = v.text := by
  cases v with
  | primitive p => rfl
  | string s => exact absurd rfl h
  | container kind blank items => rfl

/-- What is parsed from the text of a value is that value. -/
theorem copyText_text {v : Value} (h : v.type ≠ .string) :
    ∃ js : CString, js.bytes = v.text ∧
      copyText v.raw = .ok ((Document.value .none v .none).json js) := by
  have hraw := v.raw_text h
  have hbytes := CString.ofBuffer_bytes (tree_noNul.1 v)
  have hlength : ¬ v.text.length = 0 := by
    rw [List.length_eq_zero_iff, ← hraw, v.raw_eq_nil]
    rintro ⟨s, -, rfl⟩
    exact h rfl
  have hdocument : (Document.value .none v .none).text = v.text := by
    simp [Document.text, Blank.none]
  refine ⟨_, hbytes, ?_⟩
  rw [hraw, copyText, if_neg hlength, create_document _ (hbytes.trans hdocument.symm)]

/-- A text that is not accepted fails the assertion. -/
theorem copyText_refused {raw : List UInt8} (hlength : raw.length ≠ 0)
    (h : (jsonCreateFromString (.ofBuffer raw)).isOk = false) :
      copyText raw = .error .assertion := by
  rw [copyText, if_neg hlength]
  cases hcreate : jsonCreateFromString (.ofBuffer raw) with
  | error e => rfl
  | ok val =>
    rw [hcreate] at h
    cases h

/-- **The copy** of a value is that value, if and only if it is not a string. -/
theorem copyText_value (v : Value) :
    (∃ val, copyText v.raw = .ok val ∧ val.IsValue v) ↔ v.type ≠ .string := by
  constructor
  · rintro ⟨val, hcopy, before, after, js, hjs, rfl⟩ hv
    cases v with
    | primitive p => cases hv
    | container kind blank items => cases kind <;> cases hv
    | string s =>
      have hsame : js = .ofBuffer s.bytes := by
        rw [Value.raw, copyText] at hcopy
        split_ifs at hcopy
        cases hcreate : jsonCreateFromString (.ofBuffer s.bytes) with
        | error e =>
          rw [hcreate] at hcopy
          cases hcopy
        | ok val =>
          rw [hcreate] at hcopy
          obtain ⟨d, -, rfl⟩ := create_ok hcreate
          exact (congrArg JSON.jsonString (Except.ok.inj hcopy)).symm
      rw [hsame, CString.ofBuffer_bytes (chars_noNul s.chars)] at hjs
      have hchars := s.chars
      rw [hjs] at hchars
      exact chars_no_quote before.bytes (fun c hc => space_ne_backslash (before.space c hc)) hchars
  · intro hv
    obtain ⟨js, hjs, hcopy⟩ := copyText_text hv
    refine ⟨_, hcopy, .none, .none, js, ?_, rfl⟩
    simp [hjs, Document.text, Blank.none]

/-- The copy of the value that a map has under a key. -/
theorem MapText.copy_eq (o : MapText) {js : CString} (hjs : js.bytes = o.text) (key : CString) :
    jsonMapCopyJSON (o.json js) key =
      match o.find key.bytes with
      | none => .error .nomem
      | some v => copyText v.raw := by
  rw [o.find_eq]
  rcases first_match key.bytes o.members with hkeys | ⟨as, m, bs, hmembers, has, hm⟩
  · have hnone : found key.bytes o.members = none := by
      rw [found, List.find?_eq_none.mpr (by simpa using hkeys), Option.map_none]
    rw [jsonMapCopyJSON, o.get_none hjs hkeys, hnone]
    rfl
  · obtain ⟨before, after, htext, hlength⟩ := o.value_split hmembers
    obtain ⟨-, hvalue⟩ := o.member_tokens js hmembers
    rw [← hlength] at hvalue
    have htoken := m.value.token_text (some (1 + sizes as)) htext
    rw [← hjs] at htoken
    rw [jsonMapCopyJSON, o.get_some hjs hmembers has hm, hmembers, found_here has hm, ok_bind]
    simp only [hvalue]
    refine copyJSON_eq ?_ (Nat.add_sub_cancel_left ..)
    rw [validText, if_neg (m.value.token_valid _ _)]
    exact congrArg Except.ok htoken

theorem ArrayText.copy_eq (a : ArrayText) {js : CString} (hjs : js.bytes = a.text) (index : ℕ) :
    jsonArrayCopyJSONAtIndex (a.json js) index =
      match a.get index with
      | none => .error .nomem
      | some v => copyText v.raw := by
  rcases a.get_cases index with ⟨hindex, hnone⟩ | ⟨as, m, bs, helements, rfl, hsome⟩
  · rw [jsonArrayCopyJSONAtIndex, a.calcIndex_none js hindex, hnone]
  · obtain ⟨htext, hlength⟩ := a.element_text hjs helements
    rw [jsonArrayCopyJSONAtIndex, a.calcIndex_some js helements, hsome]
    exact copyJSON_eq htext hlength

theorem parsed_map {js : CString} {map : JSON} (h : jsonCreateFromString js = .ok map)
    (hobject : jsonIsMap map = true) : ∃ o : MapText, js.bytes = o.text ∧ map = o.json js := by
  rcases parsed_cases h with ho | hno
  · exact ho
  · simp [jsonIsMap, hno] at hobject

/-- **Main.** The value under a key of a map, and an element of an array, are copied as they are,
without a failed assertion, if and only if they are not strings. -/
theorem sub_values {js : CString} {json : JSON} (h : jsonCreateFromString js = .ok json) :
    (jsonIsMap json = true → ∃ o : MapText, o.text = js.bytes ∧
      ∀ (key : CString) (v : Value), o.find key.bytes = some v →
        ((∃ val, jsonMapCopyJSON json key = .ok val ∧ val.IsValue v) ↔ v.type ≠ .string)) ∧
      (jsonIsArray json = true → ∃ a : ArrayText, a.text = js.bytes ∧
        jsonArrayCount json = some a.elements.length ∧
        ∀ (index : ℕ) (v : Value), a.get index = some v →
          ((∃ val, jsonArrayCopyJSONAtIndex json index = .ok val ∧ val.IsValue v) ↔
            v.type ≠ .string)) := by
  refine ⟨fun hmap => ?_, fun harray => ?_⟩
  · obtain ⟨o, hjs, rfl⟩ := parsed_map h hmap
    refine ⟨o, hjs.symm, fun key v hv => ?_⟩
    rw [o.copy_eq hjs, hv]
    exact copyText_value v
  · obtain ⟨a, hjs, rfl⟩ := parsed_array h harray
    refine ⟨a, hjs.symm, ?_, fun index v hv => ?_⟩
    · rw [jsonArrayCount, if_neg (a.numTokens_ne js), a.size_zero]
      rfl
    · rw [a.copy_eq hjs, hv]
      exact copyText_value v

/-- The string in `{"k":"x"}` is parsed without its quotes, which fails the assertion. -/
theorem copy_oneMember :
    jsonCreateFromString oneMemberString = .ok (oneMember.json oneMemberString) ∧
      (oneMember.find [0x6B]).map Value.type = some .string ∧
      jsonMapCopyJSON (oneMember.json oneMemberString) ⟨[0x6B], by decide⟩ = .error .assertion := by
  refine ⟨create_document _ rfl, rfl, ?_⟩
  rw [oneMember.copy_eq rfl]
  exact copyText_refused (by decide) (by decide +kernel)

theorem sub_values_oneMember :
    ∃ o : MapText, o.text = oneMemberString.bytes ∧
      ∀ (key : CString) (v : Value), o.find key.bytes = some v →
        ((∃ val, jsonMapCopyJSON (oneMember.json oneMemberString) key = .ok val ∧ val.IsValue v) ↔
          v.type ≠ .string) :=
  (sub_values (create_document oneMember.document rfl)).1 rfl

end Apple2ix.Json
