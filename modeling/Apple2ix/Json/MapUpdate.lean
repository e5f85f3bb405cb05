import Mathlib.Logic.Function.Basic
import Apple2ix.Json.SetFrame

/-! Maps as functions: what a map holds under its keys, and how sets update it. -/
namespace Apple2ix.Json
set_option autoImplicit false

/-! ## Reading a truth value -/

/-- `tolower`. -/
def toLower (c : UInt8) : UInt8 := if 0x41 ≤ c ∧ c ≤ 0x5A then c + 0x20 else c

/-- `json_mapParseBoolValue`: anything but `false` is true. -/
def jsonMapParseBoolValue (map : JSON) (key : CString) : Except JsmnErr (Option Bool) := do
  match ← jsonMapGetStringValue map key with
  | none => .ok none
  | some idx =>
    let text ← validText map (map.token idx)
    .ok (some (text.map toLower != falseText))

theorem parseBool_eq_lookup (map : JSON) (key : CString) :
    jsonMapParseBoolValue map key =
      (lookup map key).map (Option.map fun v => v.2.map toLower != falseText) := by
  rw [jsonMapParseBoolValue, lookup]
  cases jsonMapGetStringValue map key with
  | error e => rfl
  | ok found =>
    cases found with
    | none => rfl
    | some idx =>
      rw [ok_bind, ok_bind]
      cases htext : validText map (map.token idx) with
      | error e => simp only [htext]; rfl
      | ok text => simp only [htext]; rfl

/-! ## What a map holds -/

/-- The map is one that was parsed, and these are the values it has. -/
def Holds (map : JSON) (values : List UInt8 → Option Value) : Prop :=
  ∃ (o : MapText) (js : CString), js.bytes = o.text ∧ map = o.json js ∧ o.find = values

/-- A map that was parsed. -/
def Parsed (map : JSON) : Prop := ∃ js, jsonCreateFromString js = .ok map

section
variable {map map' : JSON} {values : List UInt8 → Option Value} {key val : CString}

theorem Parsed.holds (h : Parsed map) (hobject : jsonIsMap map = true) :
    ∃ values, Holds map values := by
  obtain ⟨js, hjs⟩ := h
  rcases parsed_cases hjs with ⟨o, hbytes, rfl⟩ | hno
  · exact ⟨o.find, o, js, hbytes, rfl, rfl⟩
  · simp [jsonIsMap, hno] at hobject

theorem Holds.parsed (h : Holds map values) : Parsed map := by
  obtain ⟨o, js, hjs, rfl, -⟩ := h
  exact ⟨js, create_document o.document hjs⟩

theorem Holds.copy (h : Holds map values) {v : Value} (hv : values key.bytes = some v) :
    jsonMapCopyStringValue map key = .ok (some v.raw) := by
  obtain ⟨o, js, hjs, rfl, rfl⟩ := h
  rw [copy_eq_lookup, o.lookup_eq hjs, hv]
  rfl

theorem Holds.bool (h : Holds map values) {v : Value} (hv : values key.bytes = some v) :
    jsonMapParseBoolValue map key = .ok (some (v.raw.map toLower != falseText)) := by
  obtain ⟨o, js, hjs, rfl, rfl⟩ := h
  rw [parseBool_eq_lookup, o.lookup_eq hjs, hv]
  rfl

/-- **A value of the grammar** is set, with the white space around it, and nothing else changes. -/
theorem Holds.setDocument (h : Holds map values) (hkey : Plain key) (before : Blank) (v : Value)
    (after : Blank) {valType : JsmnType}
    (hval : putText val.bytes valType = before.bytes ++ (v.text ++ after.bytes)) : ∃ map',
      setValue map key val valType = .ok (true, map') ∧
      Holds map' (Function.update values key.bytes (some v)) := by
  obtain ⟨o, js, hjs, rfl, rfl⟩ := h
  obtain ⟨slot, hslot⟩ := exists_slot o key hkey.chars
  have htext := slot.text_fill before v after
  have hnoNul :
      (0 : UInt8) ∉ slot.ahead ++ ((before.bytes ++ (v.text ++ after.bytes)) ++ slot.behind) := by
    rw [← htext]
    exact (slot.fill before v after).document.noNul
  have hbytes := (CString.ofBuffer_bytes hnoNul).trans htext.symm
  refine ⟨(slot.fill before v after).json _, ?_, slot.fill before v after, _, hbytes, rfl, ?_⟩
  · rw [hslot.set js hjs, hval, setResult,
      create_document (slot.fill before v after).document hbytes]
    rfl
  · funext other
    by_cases hother : other = key.bytes
    · rw [hother, find_fill hslot, Function.update_self]
    · rw [find_fill_other hslot _ _ _ hother, Function.update_of_ne hother]

theorem Holds.set (h : Holds map values) (hkey : Plain key) (v : Value) {valType : JsmnType}
    (hval : putText val.bytes valType = v.text) : ∃ map',
      setValue map key val valType = .ok (true, map') ∧
      Holds map' (Function.update values key.bytes (some v)) :=
  h.setDocument hkey .none v .none (by rw [hval, Blank.none, List.nil_append, List.append_nil])

/-- A plain string. -/
def stringValue (val : CString) (hval : Plain val) : Value := .string ⟨val.bytes, hval.chars⟩

/-- `true` or `false`. -/
def boolValue (val : Bool) : Value :=
  .primitive ⟨if val then trueText else falseText, by cases val; exacts [.inr (.inl rfl), .inl rfl]⟩

theorem Holds.setString (h : Holds map values) (hkey : Plain key) (hval : Plain val) : ∃ map',
    jsonMapSetStringValue map (some key) (some val) = .ok (true, map') ∧
      Holds map' (Function.update values key.bytes (some (stringValue val hval))) :=
  h.set hkey (stringValue val hval) (putText_string val.bytes)

theorem Holds.setBool (h : Holds map values) (hkey : Plain key) (b : Bool) : ∃ map',
    jsonMapSetBoolValue map (some key) b = .ok (true, map') ∧
      Holds map' (Function.update values key.bytes (some (boolValue b))) := by
  refine h.set hkey (boolValue b) ?_
  rw [putText_other _ (by decide)]
  cases b with
  | true => exact snprintf_bytes (by decide) (.inl rfl)
  | false => exact snprintf_bytes (by decide) (.inr (.inl rfl))

/-! ## Sets of any values -/

theorem setValue_true {valType : JsmnType}
    (h : setValue map key val valType = .ok (true, map')) : Parsed map' := by
  rw [setValue] at h
  split_ifs at h
  · cases h
  · obtain ⟨splice, -, h⟩ := bind_eq_ok.mp h
    obtain ⟨-, -, h⟩ := bind_eq_ok.mp h
    obtain ⟨-, -, h⟩ := bind_eq_ok.mp h
    obtain ⟨-, -, h⟩ := bind_eq_ok.mp h
    split at h
    · next hcreate =>
      cases h
      exact ⟨_, hcreate⟩
    · cases h
    · cases h

/-- **No set fails an assertion**, and the map stays one that was parsed. -/
theorem Parsed.set (h : Parsed map) (key val : CString) (valType : JsmnType) : ∃ done map',
    jsonMapSetValue map (some key) (some val) valType = .ok (done, map') ∧ Parsed map' := by
  obtain ⟨js, hjs⟩ := h
  rcases setValue_returns hjs key val valType with ⟨newMap, hset⟩ | hset
  · exact ⟨true, newMap, hset, setValue_true hset⟩
  · exact ⟨false, map, hset, js, hjs⟩

end

end Apple2ix.Json
