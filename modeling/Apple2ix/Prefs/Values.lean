import Apple2ix.Json.Numbers
import Apple2ix.Json.SubValues

/-! The preferences of prefs.c: a map of domains, each of them a map of keys. Every access copies
the map of a domain, and every set puts the copy back into the text of the preferences. -/
namespace Apple2ix.Prefs
open Json
set_option autoImplicit false

/-! ## Access -/

/-- `json_mapCopyJSON(jsonPrefs, domain, &jsonRef)`; a negative count is `none`. -/
def copyDomain (jsonPrefs : JSON) (domain : CString) : Except JsmnErr (Option JSON) :=
  match jsonMapCopyJSON jsonPrefs domain with
  | .ok json => .ok (some json)
  | .error .assertion => .error .assertion
  | .error _ => .ok none

/-- `prefs_parse..Value`, with the parser of the value. -/
def prefsParseValue {α : Type} (parse : JSON → CString → Except JsmnErr (Option α))
    (jsonPrefs : JSON)
    (domain key : CString) : Except JsmnErr (Option α) := do
  match ← copyDomain jsonPrefs domain with
  | none => .ok none
  | some jsonRef => parse jsonRef key

/-- `prefs_parseLongValue`. -/
def prefsParseLongValue (jsonPrefs : JSON) (domain key : CString) (base : Int64) :
    Except JsmnErr (Option Int64) :=
  prefsParseValue (fun jsonRef key => jsonMapParseLongValue jsonRef key base) jsonPrefs domain key

/-- `prefs_parseBoolValue`. -/
def prefsParseBoolValue (jsonPrefs : JSON) (domain key : CString) : Except JsmnErr (Option Bool) :=
  prefsParseValue jsonMapParseBoolValue jsonPrefs domain key

theorem noMembers_noNul : (0 : UInt8) ∉ [Kind.object.opener, Kind.object.closer] := by decide

/-- `"{}"`. -/
def noMembers : CString := ⟨[Kind.object.opener, Kind.object.closer], noMembers_noNul⟩

/-- `json_createFromString("{}", &jsonRef)`, with the assertion that it gives a token. -/
def createMap : Except JsmnErr JSON :=
  match jsonCreateFromString noMembers with
  | .ok jsonRef => if 0 < jsonRef.numTokens then .ok jsonRef else .error .assertion
  | .error _ => .error .assertion

/-- The map of a domain, or an empty one. -/
def domainMap (jsonPrefs : JSON) (domain : CString) : Except JsmnErr JSON := do
  match ← copyDomain jsonPrefs domain with
  | some jsonRef => if jsonRef.numTokens = 0 then createMap else .ok jsonRef
  | none => createMap

/-- `prefs_set..Value`, with the setter of the value: whether it was set, and the preferences. -/
def prefsSetValue (set : JSON → Option CString → Except JsmnErr (Bool × JSON)) (jsonPrefs : JSON)
    (domain key : CString) : Except JsmnErr (Bool × JSON) := do
  let jsonRef ← domainMap jsonPrefs domain
  let (ret, jsonRef) ← set jsonRef (some key)
  if ret then jsonMapSetJSONValue jsonPrefs (some domain) (some jsonRef) else .ok (false, jsonPrefs)

/-- `prefs_setLongValue`. -/
def prefsSetLongValue (jsonPrefs : JSON) (domain key : CString) (val : Int64) :
    Except JsmnErr (Bool × JSON) :=
  prefsSetValue (fun jsonRef key => jsonMapSetLongValue jsonRef key val) jsonPrefs domain key

/-- `prefs_setBoolValue`. -/
def prefsSetBoolValue (jsonPrefs : JSON) (domain key : CString) (val : Bool) :
    Except JsmnErr (Bool × JSON) :=
  prefsSetValue (fun jsonRef key => jsonMapSetBoolValue jsonRef key val) jsonPrefs domain key

/-! ## What the preferences hold -/

/-- The values of a map that is a value itself. -/
def members : Value → List UInt8 → Option Value
  | .container .object _ items => fun key => found key items.toList
  | _ => fun _ => none

/-- The values of a domain. -/
def domainValues (values : List UInt8 → Option Value) (domain : CString) :
    List UInt8 → Option Value :=
  ((values domain.bytes).map members).getD fun _ => none

section
variable {prefs prefs' : JSON} {values values' : List UInt8 → Option Value} {domain key : CString}

theorem lookup_holds (h : Holds prefs values) (key : CString) :
    lookup prefs key = .ok ((values key.bytes).map fun v => (v.type, v.raw)) := by
  obtain ⟨o, js, hjs, rfl, rfl⟩ := h
  exact o.lookup_eq hjs key

theorem copyDomain_eq (h : Holds prefs values) (domain : CString) :
    copyDomain prefs domain =
      match values domain.bytes with
      | none => .ok none
      | some v =>
        match copyText v.raw with
        | .ok json => .ok (some json)
        | .error .assertion => .error .assertion
        | .error _ => .ok none := by
  obtain ⟨o, js, hjs, rfl, rfl⟩ := h
  rw [copyDomain, o.copy_eq hjs]
  cases o.find domain.bytes <;> rfl

/-- What is parsed from the text of an object is a map that holds its members. -/
theorem object_holds {v : Value} (hobject : v.type = .object) {js : CString}
    (hjs : js.bytes = v.text) :
    Holds ((Document.value .none v .none).json js) (members v) ∧
      ((Document.value .none v .none).json js).numTokens ≠ 0 := by
  cases v with
  | primitive p => cases hobject
  | string s => cases hobject
  | container kind blank items =>
    cases kind with
    | array => cases hobject
    | object =>
      let o : MapText := ⟨.none, blank, items.toList, .none⟩
      have hdocument : o.document = .value .none (.container .object blank items) .none := by
        rw [MapText.document, Items.ofList_toList]
      have htext : js.bytes = o.text := by
        rw [hjs, MapText.text, hdocument, Document.text, Blank.none, List.nil_append,
          List.append_nil]
      rw [← hdocument]
      refine ⟨⟨o, js, htext, rfl, rfl⟩, ?_⟩
      change (o.json js).numTokens ≠ 0
      rw [o.numTokens_eq]
      omega

/-- What an object is copied to. -/
theorem copyDomain_object (h : Holds prefs values) {v : Value} (hv : values domain.bytes = some v)
    (hobject : v.type = .object) : ∃ jsonRef, copyDomain prefs domain = .ok (some jsonRef) ∧
      jsonRef.numTokens ≠ 0 ∧ Holds jsonRef (domainValues values domain) := by
  have hother : v.type ≠ .string := by
    rw [hobject]
    nofun
  obtain ⟨js, hjs, hcopy⟩ := copyText_text hother
  obtain ⟨hholds, hnonempty⟩ := object_holds hobject hjs
  refine ⟨_, ?_, hnonempty, ?_⟩
  · rw [copyDomain_eq h, hv]
    simp only [hcopy]
  · rw [domainValues, hv]
    exact hholds

theorem createMap_holds : ∃ jsonRef, createMap = .ok jsonRef ∧ Holds jsonRef fun _ => none := by
  let o : MapText := ⟨.none, .none, [], .none⟩
  have hcreate : jsonCreateFromString noMembers = .ok (o.json noMembers) :=
    create_document o.document rfl
  refine ⟨o.json noMembers, ?_, o, noMembers, rfl, rfl, rfl⟩
  rw [createMap, hcreate]
  rfl

/-- The map that a value is set in holds the values of the domain. -/
theorem domainMap_holds (h : Holds prefs values)
    (hobject : ∀ v, values domain.bytes = some v → v.type = .object) :
    ∃ jsonRef, domainMap prefs domain = .ok jsonRef ∧
      Holds jsonRef (domainValues values domain) := by
  rw [domainMap]
  cases hv : values domain.bytes with
  | none =>
    obtain ⟨jsonRef, hcreate, hholds⟩ := createMap_holds
    have hvalues : domainValues values domain = fun _ => none := by
      rw [domainValues, hv]
      rfl
    rw [copyDomain_eq h, hv, hvalues]
    exact ⟨jsonRef, hcreate, hholds⟩
  | some v =>
    obtain ⟨jsonRef, hcopy, hcount, hholds⟩ := copyDomain_object h hv (hobject v hv)
    refine ⟨jsonRef, ?_, hholds⟩
    rw [hcopy, ok_bind]
    exact if_neg hcount

/-- What is parsed under a key of a domain. -/
theorem parseValue_holds {α : Type} {parse : JSON → CString → Except JsmnErr (Option α)}
    {read : JsmnType × List UInt8 → α}
    (hparse : ∀ map key, parse map key = (lookup map key).map (Option.map read))
    (h : Holds prefs values) (hobject : ∀ v, values domain.bytes = some v → v.type = .object) :
    prefsParseValue parse prefs domain key =
      .ok ((domainValues values domain key.bytes).map fun v => read (v.type, v.raw)) := by
  rw [prefsParseValue]
  cases hv : values domain.bytes with
  | none =>
    rw [copyDomain_eq h, hv, domainValues, hv]
    rfl
  | some v =>
    obtain ⟨jsonRef, hcopy, -, hholds⟩ := copyDomain_object h hv (hobject v hv)
    rw [hcopy, ok_bind]
    simp only
    rw [hparse, lookup_holds hholds]
    cases domainValues values domain key.bytes <;> rfl

/-- **A set** changes the one value of the one domain. -/
theorem setValue_holds {set : JSON → Option CString → Except JsmnErr (Bool × JSON)} {v : Value}
    (hset : ∀ {map values}, Holds map values → ∃ map', set map (some key) = .ok (true, map') ∧
      Holds map' (Function.update values key.bytes (some v)))
    (h : Holds prefs values) (hdomain : Plain domain)
    (hobject : ∀ w, values domain.bytes = some w → w.type = .object) :
    ∃ prefs' w, prefsSetValue set prefs domain key = .ok (true, prefs') ∧
      Holds prefs' (Function.update values domain.bytes (some w)) ∧ w.type = .object ∧
      members w = Function.update (domainValues values domain) key.bytes (some v) := by
  obtain ⟨jsonRef, hmap, hholds⟩ := domainMap_holds h hobject
  obtain ⟨_, hdone, o, js, hjs, rfl, hfind⟩ := hset hholds
  have htext : putText js.bytes jsmnNonstring = o.before.bytes ++
      ((Value.container .object o.blank (.ofList o.members)).text ++ o.after.bytes) := by
    rw [putText_other _ (by decide), hjs]
    rfl
  obtain ⟨prefs', hput, hprefs⟩ := h.setDocument hdomain o.before _ o.after htext
  refine ⟨prefs', _, ?_, hprefs, rfl, ?_⟩
  · rw [prefsSetValue, hmap, ok_bind, hdone, ok_bind]
    exact hput
  · rw [← hfind, members, Items.toList_ofList]
    rfl

/-! ## Set and parse -/

/-- All that the parsers of values yield for other pairs of a domain and a key. -/
def SameOthers (prefs prefs' : JSON) (domain key : CString) : Prop :=
  ∀ domain' key' : CString, ¬ (domain'.bytes = domain.bytes ∧ key'.bytes = key.bytes) →
    (∀ base, prefsParseLongValue prefs' domain' key' base =
      prefsParseLongValue prefs domain' key' base) ∧
    prefsParseBoolValue prefs' domain' key' = prefsParseBoolValue prefs domain' key'

section
variable {v w : Value} (h : Holds prefs values)
  (hobject : ∀ w, values domain.bytes = some w → w.type = .object)
  (h' : Holds prefs' (Function.update values domain.bytes (some w))) (hw : w.type = .object)
  (hmembers : members w = Function.update (domainValues values domain) key.bytes (some v))
include h hobject h' hw hmembers

/-- What a parser of values yields after a set. -/
theorem parse_after_set {α : Type} {parse : JSON → CString → Except JsmnErr (Option α)}
    {read : JsmnType × List UInt8 → α}
    (hparse : ∀ map key, parse map key = (lookup map key).map (Option.map read)) :
    prefsParseValue parse prefs' domain key = .ok (some (read (v.type, v.raw))) ∧
      ∀ domain' key' : CString, ¬ (domain'.bytes = domain.bytes ∧ key'.bytes = key.bytes) →
        prefsParseValue parse prefs' domain' key' = prefsParseValue parse prefs domain' key' := by
  have hupdate : Function.update values domain.bytes (some w) domain.bytes = some w :=
    Function.update_self ..
  have hobject' : ∀ u, Function.update values domain.bytes (some w) domain.bytes = some u →
      u.type = .object := by
    intro u hu
    rw [hupdate] at hu
    cases hu
    exact hw
  have hvalues : domainValues (Function.update values domain.bytes (some w)) domain =
      Function.update (domainValues values domain) key.bytes (some v) := by
    rw [domainValues, hupdate, ← hmembers]
    rfl
  refine ⟨?_, fun domain' key' hother => ?_⟩
  · rw [parseValue_holds hparse h' hobject', hvalues, Function.update_self]
    rfl
  · by_cases hdomain : domain'.bytes = domain.bytes
    · obtain rfl : domain' = domain := CString.ext hdomain
      have hkey : key'.bytes ≠ key.bytes := fun hkey => hother ⟨rfl, hkey⟩
      rw [parseValue_holds hparse h' hobject', parseValue_holds hparse h hobject, hvalues,
        Function.update_of_ne hkey]
    · have hcopy : copyDomain prefs' domain' = copyDomain prefs domain' := by
        rw [copyDomain_eq h', copyDomain_eq h, Function.update_of_ne hdomain]
      rw [prefsParseValue, prefsParseValue, hcopy]

theorem sameOthers_of_set : SameOthers prefs prefs' domain key := by
  intro domain' key' hother
  refine ⟨fun base => ?_, ?_⟩
  · exact (parse_after_set h hobject h' hw hmembers
      fun map key => parseLong_eq_lookup map key base).2 domain' key' hother
  · exact (parse_after_set h hobject h' hw hmembers parseBool_eq_lookup).2 domain' key' hother

end

end

/-- **Main.** A number or a truth value that was set under a plain domain and a plain key is parsed
as it was set, and every other pair of a domain and a key yields what it did, if the domain is an
object or not there. -/
theorem prefs_set_then_parse {js : CString} {prefs : JSON}
    (hprefs : jsonCreateFromString js = .ok prefs)
    (hmap : jsonIsMap prefs = true) {domain key : CString} (hdomain : Plain domain)
    (hkey : Plain key)
    (hobject : ∀ type text, lookup prefs domain = .ok (some (type, text)) → type = .object) :
    (∀ val : Int64, ∃ prefs', prefsSetLongValue prefs domain key val = .ok (true, prefs') ∧
      prefsParseLongValue prefs' domain key 10 = .ok (some val) ∧
      SameOthers prefs prefs' domain key) ∧
    ∀ val : Bool, ∃ prefs', prefsSetBoolValue prefs domain key val = .ok (true, prefs') ∧
      prefsParseBoolValue prefs' domain key = .ok (some val) ∧
      SameOthers prefs prefs' domain key := by
  obtain ⟨o, hjs, rfl⟩ := parsed_map hprefs hmap
  have h : Holds (o.json js) o.find := ⟨o, js, hjs, rfl, rfl⟩
  have hvalue : ∀ v, o.find domain.bytes = some v → v.type = .object := by
    intro v hv
    refine hobject v.type v.raw ?_
    rw [lookup_holds h, hv]
    rfl
  refine ⟨fun val => ?_, fun val => ?_⟩
  · obtain ⟨prefs', w, hset, h', hw, hmembers⟩ :=
      @setValue_holds _ _ domain key (fun jsonRef key => jsonMapSetLongValue jsonRef key val)
        (longValue val) (fun hholds => hholds.setLong hkey val) h hdomain hvalue
    refine ⟨prefs', hset, ?_, sameOthers_of_set h hvalue h' hw hmembers⟩
    have hparse := (parse_after_set h hvalue h' hw hmembers
      fun map key => parseLong_eq_lookup map key 10).1
    refine hparse.trans (congrArg (fun n => Except.ok (some n)) ?_)
    exact strtol_longText val
  · obtain ⟨prefs', w, hset, h', hw, hmembers⟩ :=
      @setValue_holds _ _ domain key (fun jsonRef key => jsonMapSetBoolValue jsonRef key val)
        (boolValue val) (fun hholds => hholds.setBool hkey val) h hdomain hvalue
    refine ⟨prefs', hset, ?_, sameOthers_of_set h hvalue h' hw hmembers⟩
    have hparse := (parse_after_set h hvalue h' hw hmembers parseBool_eq_lookup).1
    refine hparse.trans ?_
    cases val <;> rfl

/-- `{"a":{"k":1}}`. -/
def oneDomain : MapText where
  before := .none
  blank := .none
  members :=
    [member ⟨.none, ⟨[0x61], .plain (by decide) (by decide) (by decide) .nil⟩, .none, .none⟩
    (.container .object .none (.ofList [member
      ⟨.none, ⟨[0x6B], isChars_k⟩, .none, .none⟩ (longValue 1) .none])) .none]
  after := .none

def oneDomainString : CString := ⟨oneDomain.text, oneDomain.document.noNul⟩

/-- Another key is set in the one domain. -/
theorem prefs_set_then_parse_oneDomain :
    let prefs := oneDomain.json oneDomainString
    let domain : CString := ⟨[0x61], by decide⟩
    let key : CString := ⟨[0x6C], by decide⟩
    ∃ prefs', prefsSetLongValue prefs domain key 7 = .ok (true, prefs') ∧
      prefsParseLongValue prefs' domain key 10 = .ok (some 7) ∧
      SameOthers prefs prefs' domain key := by
  intro prefs domain key
  have hplain : ∀ c : UInt8, c = 0x61 ∨ c = 0x6C → c ≠ quote ∧ c ≠ backslash := by
    rintro c (rfl | rfl) <;> decide
  refine (prefs_set_then_parse (create_document oneDomain.document rfl) rfl ?_ ?_ ?_).1 7
  · exact fun c hc => hplain c (Or.inl (List.mem_singleton.mp hc))
  · exact fun c hc => hplain c (Or.inr (List.mem_singleton.mp hc))
  · intro type text hlookup
    have hjs : oneDomainString.bytes = oneDomain.text := rfl
    have hfound := (oneDomain.lookup_eq hjs domain).symm.trans hlookup
    cases hfound
    rfl

end Apple2ix.Prefs
