import Apple2ix.Prefs.Values

/-! `prefs_copyJSONValue` of prefs.c: two lookups, one in the copy that the other makes. The count
that the second of them returns goes into a `bool`. -/
namespace Apple2ix.Prefs
open Json
set_option autoImplicit false

/-- `JSMN_ERROR_NOMEM` and so on. -/
def errCount : JsmnErr → ℤ
  | .nomem => -1
  | .inval => -2
  | .part => -3
  | .primitiveInval => -202
  | .assertion => 0

/-- What `json_mapCopyJSON` returns, and what it leaves in `*val`. -/
structure Copied where
  errCount : ℤ
  val : Option JSON

/-- `json_mapCopyJSON` of a map that may be null. -/
def mapCopyJSON (map : Option JSON) (key : CString) : Except JsmnErr Copied :=
  match map with
  | none => .ok ⟨errCount .nomem, none⟩
  | some map =>
    match jsonMapCopyJSON map key with
    | .ok val => .ok ⟨val.numTokens, some val⟩
    | .error .assertion => .error .assertion
    | .error e => .ok ⟨errCount e, none⟩

/-- `prefs_copyJSONValue`: what it returns, and what it leaves in `*jsonVal`. -/
def prefsCopyJSONValue (jsonPrefs : Option JSON) (domain key : CString) :
    Except JsmnErr (Bool × Option JSON) := do
  let jsonRef ← mapCopyJSON jsonPrefs domain
  if jsonRef.errCount < 0 then .ok (false, none)
  else
    let jsonVal ← mapCopyJSON jsonRef.val key
    .ok (jsonVal.errCount ≠ 0, jsonVal.val)

/-! ## Trees of preferences -/

/-- The preferences, if there are any, were parsed, and these are the domains of their map. -/
def Reads (jsonPrefs : Option JSON) (values : List UInt8 → Option Value) : Prop :=
  (∃ prefs, jsonPrefs = some prefs ∧ Holds prefs values) ∨
    (∀ prefs, jsonPrefs = some prefs → Parsed prefs ∧ jsonIsMap prefs = false) ∧
      values = fun _ => none

theorem exists_reads {jsonPrefs : Option JSON}
    (h : ∀ prefs, jsonPrefs = some prefs → Parsed prefs) :
    ∃ values, Reads jsonPrefs values := by
  cases jsonPrefs with
  | none => exact ⟨fun _ => none, .inr ⟨nofun, rfl⟩⟩
  | some prefs =>
    obtain ⟨js, hjs⟩ := h prefs rfl
    by_cases hmap : jsonIsMap prefs = true
    · obtain ⟨o, hbytes, rfl⟩ := parsed_map hjs hmap
      exact ⟨o.find, .inl ⟨_, rfl, o, js, hbytes, rfl, rfl⟩⟩
    · refine ⟨fun _ => none, .inr ⟨?_, rfl⟩⟩
      intro prefs' hprefs
      cases hprefs
      exact ⟨⟨js, hjs⟩, Bool.eq_false_iff.mpr hmap⟩

/-- The domain is an object that holds the key. -/
def HoldsKey (values : List UInt8 → Option Value) (domain key : CString) : Prop :=
  ∃ v w, values domain.bytes = some v ∧ v.type = .object ∧ members v key.bytes = some w

/-- The call returns, and returns true exactly when the domain is an object that holds the key and a
value was stored. -/
def Reported (jsonPrefs : Option JSON) (values : List UInt8 → Option Value) (domain key : CString) :
    Prop :=
  ∃ ret jsonVal, prefsCopyJSONValue jsonPrefs domain key = .ok (ret, jsonVal) ∧
    (ret = true ↔ HoldsKey values domain key ∧ jsonVal.isSome = true)

/-- The text of a value, with white space around it at most. -/
def IsValueText (text : List UInt8) : Prop :=
  ∃ (before : Blank) (v : Value) (after : Blank), (Document.value before v after).text = text

/-- There is no such domain, or it is the empty string; or it is an object that holds the key, with
a value that is no string, or one whose characters are the text of a value themselves. -/
def Copies (values : List UInt8 → Option Value) (domain key : CString) : Prop :=
  (∀ v, values domain.bytes = some v → v.raw = []) ∨
    ∃ v w, values domain.bytes = some v ∧ v.type = .object ∧ members v key.bytes = some w ∧
      (w.type ≠ .string ∨ IsValueText w.raw)

/-! ## Copies of strings -/

/-- A map in a string has no members. -/
theorem chars_no_members {o : MapText} (h : IsChars o.text) : o.members = [] := by
  cases hmembers : o.members with
  | nil => rfl
  | cons m ms =>
    have hfirst : o.members = [] ++ m :: ms := hmembers
    have hsplit := o.text_split hfirst
    have hitem : m.text = m.head.text ++ (m.value.text ++ m.after.bytes) := rfl
    rw [hitem, MapText.head_text] at hsplit
    simp only [separated, List.flatMap_nil, List.append_assoc, List.cons_append, List.append_nil]
      at hsplit
    have hplain : ∀ c ∈ o.before.bytes ++ (Kind.object.opener ::
        (o.blank.bytes ++ m.head.before.bytes)), c ≠ backslash := by
      intro c hc
      simp only [List.mem_append, List.mem_cons] at hc
      obtain hc | rfl | hc | hc := hc
      · exact space_ne_backslash (o.before.space c hc)
      · decide
      · exact space_ne_backslash (o.blank.space c hc)
      · exact space_ne_backslash (m.head.before.space c hc)
    exfalso
    rw [hsplit] at h
    apply chars_no_quote _ hplain
    rw [List.append_assoc, List.cons_append, List.append_assoc]
    exact h

theorem copyText_cases (raw : List UInt8) (hraw : raw ≠ []) :
    copyText raw = .error .assertion ∨ ∃ d : Document, d.text = (CString.ofBuffer raw).bytes ∧
      copyText raw = .ok (d.json (.ofBuffer raw)) := by
  have hlength : ¬ raw.length = 0 := by simpa using hraw
  rw [copyText, if_neg hlength]
  cases hcreate : jsonCreateFromString (.ofBuffer raw) with
  | error e => exact .inl rfl
  | ok val =>
    obtain ⟨d, hd, rfl⟩ := create_ok hcreate
    exact .inr ⟨d, hd, rfl⟩

/-- The copy of a string holds no key. -/
theorem string_no_key {d : Document} {js : CString} (hjs : js.bytes = d.text)
    (hs : IsChars js.bytes) (key : CString) : jsonMapGetStringValue (d.json js) key = .ok none := by
  obtain ⟨o, hbytes, hjson⟩ | hother := parsed_cases (create_document d hjs)
  · have hmembers : o.members = [] := chars_no_members (hbytes ▸ hs)
    rw [hjson]
    refine o.get_none hbytes ?_
    rw [hmembers]
    exact fun _ hm => absurd hm List.not_mem_nil
  · rw [jsonMapGetStringValue]
    split_ifs
    · rfl
    · rfl

/-! ## One lookup -/

/-- What is copied from the text of a value. -/
def copied (raw : List UInt8) : Except JsmnErr Copied :=
  match copyText raw with
  | .ok val => .ok ⟨val.numTokens, some val⟩
  | .error .assertion => .error .assertion
  | .error e => .ok ⟨errCount e, none⟩

theorem mapCopyJSON_holds {map : JSON} {values : List UInt8 → Option Value} (h : Holds map values)
    (key : CString) :
    (values key.bytes = none → mapCopyJSON (some map) key = .ok ⟨-1, none⟩) ∧
      ∀ v, values key.bytes = some v → mapCopyJSON (some map) key = copied v.raw := by
  obtain ⟨o, js, hjs, rfl, rfl⟩ := h
  rw [mapCopyJSON, o.copy_eq hjs]
  constructor
  · intro hnone
    rw [hnone]
    rfl
  · intro v hv
    rw [hv]
    rfl

theorem mapCopyJSON_none {map : JSON} {key : CString}
    (h : jsonMapGetStringValue map key = .ok none) :
      mapCopyJSON (some map) key = .ok ⟨-1, none⟩ := by
  rw [mapCopyJSON, jsonMapCopyJSON, h]
  rfl

theorem get_not_map {map : JSON} (h : jsonIsMap map = false) (key : CString) :
    jsonMapGetStringValue map key = .ok none := by
  rw [jsonMapGetStringValue]
  by_cases hcount : map.numTokens = 0
  · rw [if_pos hcount]
  · by_cases hobject : (map.token 0).type = .object
    · simp [jsonIsMap, hcount, hobject] at h
    · rw [if_neg hcount, if_pos hobject]

theorem copied_nil : copied [] = .ok ⟨-1, none⟩ := rfl

theorem value_tokens (before : Blank) (v : Value) (after : Blank) (js : CString) :
    ((Document.value before v after).json js).numTokens ≠ 0 := by
  obtain ⟨more, hmore⟩ := v.tokens_head none 0 before.bytes.length
  have htokens : (Document.value before v after).tokens = _ := hmore
  change (Document.value before v after).tokens.length ≠ 0
  rw [htokens, List.length_cons]
  omega

/-- A text has tokens if it is one of a value. -/
theorem numTokens_iff {d : Document} {js : CString} (hjs : js.bytes = d.text) :
    (d.json js).numTokens ≠ 0 ↔ IsValueText d.text := by
  constructor
  · intro hcount
    cases d with
    | blank b => exact absurd rfl hcount
    | value before v after => exact ⟨before, v, after, rfl⟩
  · rintro ⟨before, v, after, htext⟩
    have hsame := (create_document d hjs).symm.trans (create_document _ (hjs.trans htext.symm))
    rw [Except.ok.inj hsame]
    exact value_tokens before v after js

theorem text_ne_nil (v : Value) : v.text ≠ [] := by
  obtain ⟨c, rest, hv, -⟩ := value_head v
  rw [hv]
  exact List.cons_ne_nil c rest

theorem isValueText_ne_nil {text : List UInt8} (h : IsValueText text) : text ≠ [] := by
  obtain ⟨before, v, after, rfl⟩ := h
  simp [Document.text, text_ne_nil]

/-- The text of a value that is no string. -/
theorem isValueText_raw {v : Value} (hv : v.type ≠ .string) : IsValueText v.raw := by
  refine ⟨.none, v, .none, ?_⟩
  simp [v.raw_text hv, Document.text, Blank.none]

theorem raw_noNul (v : Value) : (0 : UInt8) ∉ v.raw := by
  cases v with
  | primitive p => exact tree_noNul.1 (.primitive p)
  | string s => exact chars_noNul s.chars
  | container kind blank items => exact tree_noNul.1 (.container kind blank items)

/-- What is copied from a value: a string may be no text at all, which fails an assertion. -/
theorem copied_value (v : Value) (hraw : v.raw ≠ []) :
    copied v.raw = .error .assertion ∧ ¬ IsValueText v.raw ∨
      ∃ (d : Document) (js : CString), js.bytes = d.text ∧ d.text = v.raw ∧
        copied v.raw = .ok ⟨(d.json js).numTokens, some (d.json js)⟩ := by
  have hbytes := CString.ofBuffer_bytes (raw_noNul v)
  obtain herror | ⟨d, hd, hok⟩ := copyText_cases v.raw hraw
  · refine .inl ⟨by rw [copied, herror], ?_⟩
    rintro ⟨before, u, after, htext⟩
    have hlength : ¬ v.raw.length = 0 := by simpa using hraw
    rw [copyText, if_neg hlength, create_document _ (hbytes.trans htext.symm)] at herror
    cases herror
  · refine .inr ⟨d, _, hd.symm, hd.trans hbytes, ?_⟩
    rw [copied, hok]

/-- A value that is no string is copied. -/
theorem copied_other {v : Value} (hv : v.type ≠ .string) : ∃ js : CString, js.bytes = v.text ∧
    copied v.raw = .ok ⟨((Document.value .none v .none).json js).numTokens,
      some ((Document.value .none v .none).json js)⟩ := by
  obtain ⟨js, hjs, hcopy⟩ := copyText_text hv
  exact ⟨js, hjs, by rw [copied, hcopy]⟩

/-! ## Both lookups -/

section
variable {values : List UInt8 → Option Value} {domain key : CString}

/-- A map without the key returns -1, which is true. -/
theorem copy_missing {jsonPrefs : Option JSON} {map : JSON} {n : ℕ}
    (hdomain : mapCopyJSON jsonPrefs domain = .ok ⟨n, some map⟩)
    (hkey : mapCopyJSON (some map) key = .ok ⟨-1, none⟩) :
    prefsCopyJSONValue jsonPrefs domain key = .ok (true, none) := by
  rw [prefsCopyJSONValue, hdomain, ok_bind, if_neg (by simp), hkey]
  rfl

theorem copy_no_domain {jsonPrefs : Option JSON}
    (hdomain : mapCopyJSON jsonPrefs domain = .ok ⟨-1, none⟩) :
    prefsCopyJSONValue jsonPrefs domain key = .ok (false, none) := by
  rw [prefsCopyJSONValue, hdomain, ok_bind, if_pos (by simp)]

theorem copy_found {jsonPrefs : Option JSON} {map val : JSON} {n : ℕ}
    (hdomain : mapCopyJSON jsonPrefs domain = .ok ⟨n, some map⟩)
    (hkey : mapCopyJSON (some map) key = .ok ⟨val.numTokens, some val⟩) :
    prefsCopyJSONValue jsonPrefs domain key = .ok (decide (val.numTokens ≠ 0), some val) := by
  rw [prefsCopyJSONValue, hdomain, ok_bind, if_neg (by simp), hkey, ok_bind]
  simp

/-- Nothing is stored, so that the call is right if it returns false. -/
theorem reported_none {jsonPrefs : Option JSON} {ret : Bool}
    (h : prefsCopyJSONValue jsonPrefs domain key = .ok (ret, none)) :
    Reported jsonPrefs values domain key ↔ ret = false := by
  constructor
  · rintro ⟨ret', jsonVal, hcall, hiff⟩
    obtain ⟨rfl, rfl⟩ := Prod.mk.inj (Except.ok.inj (h.symm.trans hcall))
    rw [← Bool.not_eq_true, hiff]
    exact fun hstored => Bool.noConfusion hstored.2
  · rintro rfl
    exact ⟨false, none, h, iff_of_false Bool.false_ne_true fun hstored =>
      Bool.noConfusion hstored.2⟩

/-- What is copied from a value that is no object holds no key. -/
theorem copied_no_key {v : Value} (hraw : v.raw ≠ []) (hobject : v.type ≠ .object) (key : CString) :
    copied v.raw = .error .assertion ∨ ∃ (n : ℕ) (map : JSON), copied v.raw = .ok ⟨n, some map⟩ ∧
      jsonMapGetStringValue map key = .ok none := by
  cases v with
  | string s =>
    refine (copied_value (.string s) hraw).imp And.left ?_
    rintro ⟨d, js, hjs, htext, hcopied⟩
    refine ⟨_, _, hcopied, string_no_key hjs ?_ key⟩
    rw [hjs, htext]
    exact s.chars
  | primitive p =>
    obtain ⟨js, -, hcopied⟩ := copied_other (v := .primitive p) nofun
    exact .inr ⟨_, _, hcopied, get_not_map rfl key⟩
  | container kind blank items =>
    cases kind with
    | object => exact absurd rfl hobject
    | array =>
      obtain ⟨js, -, hcopied⟩ := copied_other (v := .container .array blank items) nofun
      exact .inr ⟨_, _, hcopied, get_not_map rfl key⟩

/-- A domain that is not a map is not told from a map that holds the key. -/
theorem reported_not_map {prefs : JSON} (h : Holds prefs values) {v : Value}
    (hv : values domain.bytes = some v) (hraw : v.raw ≠ []) (hobject : v.type ≠ .object) :
    ¬ Reported (some prefs) values domain key := by
  have hdomain := (mapCopyJSON_holds h domain).2 v hv
  obtain herror | ⟨n, map, hcopied, hget⟩ := copied_no_key hraw hobject key
  · rintro ⟨ret, jsonVal, hcall, -⟩
    rw [prefsCopyJSONValue, hdomain, herror] at hcall
    cases hcall
  · rw [reported_none (copy_missing (hdomain.trans hcopied) (mapCopyJSON_none hget))]
    exact Bool.noConfusion

/-- The map of a domain that is an object. -/
theorem copied_object {v : Value} (hobject : v.type = .object) : ∃ (n : ℕ) (map : JSON),
    copied v.raw = .ok ⟨n, some map⟩ ∧ Holds map (members v) := by
  have hother : v.type ≠ .string := by
    rw [hobject]
    nofun
  obtain ⟨js, hjs, hcopied⟩ := copied_other hother
  exact ⟨_, _, hcopied, (object_holds hobject hjs).1⟩

/-- In a domain that is an object. -/
theorem reported_object {prefs : JSON} (h : Holds prefs values) {v : Value}
    (hv : values domain.bytes = some v) (hobject : v.type = .object) :
    Reported (some prefs) values domain key ↔
      ∃ w, members v key.bytes = some w ∧ IsValueText w.raw := by
  obtain ⟨n, map, hcopied, hmap⟩ := copied_object hobject
  have hdomain := ((mapCopyJSON_holds h domain).2 v hv).trans hcopied
  cases hw : members v key.bytes with
  | none =>
    rw [reported_none (copy_missing hdomain ((mapCopyJSON_holds hmap key).1 hw))]
    exact iff_of_false Bool.noConfusion (by simp)
  | some w =>
    have hlookup := (mapCopyJSON_holds hmap key).2 w hw
    have hholds : HoldsKey values domain key := ⟨v, w, hv, hobject, hw⟩
    have hiff : (∃ w', some w = some w' ∧ IsValueText w'.raw) ↔ IsValueText w.raw := by simp
    rw [hiff]
    by_cases hraw : w.raw = []
    · rw [hraw] at hlookup
      rw [reported_none (copy_missing hdomain (hlookup.trans copied_nil))]
      exact iff_of_false Bool.noConfusion fun htext => isValueText_ne_nil htext hraw
    obtain ⟨herror, hno⟩ | ⟨d, js, hjs, htext, hcopy⟩ := copied_value w hraw
    · refine iff_of_false ?_ hno
      rintro ⟨ret, jsonVal, hcall, -⟩
      rw [prefsCopyJSONValue, hdomain, ok_bind, if_neg (by simp), hlookup, herror] at hcall
      cases hcall
    · have hcall := copy_found hdomain (hlookup.trans hcopy)
      rw [← htext, ← numTokens_iff hjs]
      constructor
      · rintro ⟨ret, jsonVal, hcall', hret⟩
        obtain ⟨rfl, rfl⟩ := Prod.mk.inj (Except.ok.inj (hcall.symm.trans hcall'))
        exact of_decide_eq_true (hret.mpr ⟨hholds, rfl⟩)
      · intro hne
        exact ⟨_, _, hcall, iff_of_true (decide_eq_true hne) ⟨hholds, rfl⟩⟩

/-- The call reports what it did exactly where the domain is missing (or an empty string), or holds
the key with a value that can be copied. -/
theorem reported_iff {jsonPrefs : Option JSON} (h : Reads jsonPrefs values) :
    Reported jsonPrefs values domain key ↔ Copies values domain key := by
  obtain ⟨prefs, rfl, hholds⟩ | ⟨hother, rfl⟩ := h
  · cases hv : values domain.bytes with
    | none =>
      rw [reported_none (copy_no_domain ((mapCopyJSON_holds hholds domain).1 hv))]
      exact iff_of_true rfl (.inl fun v hsome => by rw [hv] at hsome; cases hsome)
    | some v =>
      have hdomain := (mapCopyJSON_holds hholds domain).2 v hv
      by_cases hraw : v.raw = []
      · rw [hraw] at hdomain
        rw [reported_none (copy_no_domain (hdomain.trans copied_nil))]
        refine iff_of_true rfl (.inl fun u hu => ?_)
        rw [hv] at hu
        cases hu
        exact hraw
      · have hleft : ¬ ∀ u, values domain.bytes = some u → u.raw = [] :=
          fun hall => hraw (hall v hv)
        by_cases hobject : v.type = .object
        · rw [reported_object hholds hv hobject, Copies, or_iff_right hleft]
          constructor
          · rintro ⟨w, hw, htext⟩
            exact ⟨v, w, hv, hobject, hw, .inr htext⟩
          · rintro ⟨u, w, hu, -, hw, htext⟩
            obtain rfl : v = u := Option.some.inj (hv.symm.trans hu)
            exact ⟨w, hw, htext.elim isValueText_raw id⟩
        · refine iff_of_false (reported_not_map hholds hv hraw hobject) ?_
          rintro (hall | ⟨u, w, hu, htype, -⟩)
          · exact hleft hall
          · obtain rfl : v = u := Option.some.inj (hv.symm.trans hu)
            exact hobject htype
  · have hnone : mapCopyJSON jsonPrefs domain = .ok ⟨-1, none⟩ := by
      cases jsonPrefs with
      | none => rfl
      | some prefs => exact mapCopyJSON_none (get_not_map (hother prefs rfl).2 domain)
    rw [reported_none (copy_no_domain hnone)]
    exact iff_of_true rfl (.inl nofun)

end

/-- **Main.** For preferences that were parsed, or none. -/
theorem copy_reported {jsonPrefs : Option JSON}
    (h : ∀ prefs, jsonPrefs = some prefs → Parsed prefs) :
    ∃ values, Reads jsonPrefs values ∧
      ∀ domain key, Reported jsonPrefs values domain key ↔ Copies values domain key := by
  obtain ⟨values, hreads⟩ := exists_reads h
  exact ⟨values, hreads, fun _ _ => reported_iff hreads⟩

theorem copy_reported_oneDomain : ∃ values, Reads (some (oneDomain.json oneDomainString)) values ∧
    ∀ domain key, Reported (some (oneDomain.json oneDomainString)) values domain key ↔
      Copies values domain key := by
  refine copy_reported ?_
  rintro prefs ⟨⟩
  exact ⟨oneDomainString, create_document oneDomain.document rfl⟩

/-- In `{"a":{"k":1}}` there is no `l` under `a`, but the call returns true and stores nothing. -/
theorem copy_missing_key : let domain : CString := ⟨[0x61], by decide⟩
    let key : CString := ⟨[0x6C], by decide⟩
    prefsCopyJSONValue (some (oneDomain.json oneDomainString)) domain key = .ok (true, none) ∧
      ¬ HoldsKey oneDomain.find domain key := by
  intro domain key
  have hholds : Holds (oneDomain.json oneDomainString) oneDomain.find :=
    ⟨oneDomain, oneDomainString, rfl, rfl, rfl⟩
  obtain ⟨v, hv, hobject, hkey⟩ : ∃ v, oneDomain.find domain.bytes = some v ∧ v.type = .object ∧
      members v key.bytes = none := ⟨_, rfl, rfl, rfl⟩
  obtain ⟨n, map, hcopied, hmap⟩ := copied_object hobject
  have hdomain := ((mapCopyJSON_holds hholds domain).2 v hv).trans hcopied
  refine ⟨copy_missing hdomain ((mapCopyJSON_holds hmap key).1 hkey), ?_⟩
  rintro ⟨u, w, hu, -, hw⟩
  obtain rfl : v = u := Option.some.inj (hv.symm.trans hu)
  rw [hkey] at hw
  cases hw

end Apple2ix.Prefs
