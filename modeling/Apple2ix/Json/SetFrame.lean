import Mathlib.Algebra.Group.Nat.Defs
import Apple2ix.Json.MapParse

/-! Setting a value leaves the rest of a map alone. -/
namespace Apple2ix.Json
set_option autoImplicit false

/-! ## The outcome of a set -/

theorem setResult_eq (map : JSON) (text : List UInt8) :
    (∃ newMap, jsonCreateFromString (.ofBuffer text) = .ok newMap ∧
      setResult map text = .ok (true, newMap)) ∨ setResult map text = .ok (false, map) := by
  rw [setResult]
  cases hcreate : jsonCreateFromString (.ofBuffer text) with
  | ok newMap => exact Or.inl ⟨newMap, rfl, rfl⟩
  | error e =>
    right
    cases e with
    | assertion => exact absurd rfl (create_error hcreate).1
    | _ => rfl

/-- A parsed text is a map, or has no object at its beginning. -/
theorem parsed_cases {js : CString} {map : JSON} (h : jsonCreateFromString js = .ok map) :
    (∃ o : MapText, js.bytes = o.text ∧ map = o.json js) ∨ (map.token 0).type ≠ .object := by
  obtain ⟨d, hd, rfl⟩ := create_ok h
  cases d with
  | blank b => exact Or.inr (by simp [JSON.token, tokenAt, Document.json, Document.tokens])
  | value before v after =>
    cases v with
    | primitive p =>
      exact Or.inr (by simp [JSON.token, tokenAt, Document.json, Document.tokens, Value.tokens])
    | string s =>
      exact Or.inr (by simp [JSON.token, tokenAt, Document.json, Document.tokens, Value.tokens])
    | container kind blank items =>
      cases kind with
      | array =>
        exact Or.inr
          (by simp [JSON.token, tokenAt, Document.json, Document.tokens, Value.tokens, Kind.type])
      | object =>
        refine Or.inl ⟨⟨before, blank, items.toList, after⟩, ?_, ?_⟩
        · rw [← hd, MapText.text, MapText.document, Items.ofList_toList]
        · rw [MapText.json, MapText.document, Items.ofList_toList]

/-- Whatever the arguments are, a set fails no assertion. -/
theorem setValue_returns {js : CString} {map : JSON} (h : jsonCreateFromString js = .ok map)
    (key val : CString) (valType : JsmnType) :
    (∃ newMap, setValue map key val valType = .ok (true, newMap)) ∨
      setValue map key val valType = .ok (false, map) := by
  rcases parsed_cases h with ⟨o, hjs, rfl⟩ | hmap
  · have hresult : ∃ text, setValue (o.json js) key val valType = setResult (o.json js) text := by
      rcases first_match key.bytes o.members with hkeys | ⟨as, m, bs, hmembers, has, hm⟩
      · exact ⟨_, setValue_insert hjs hkeys val valType⟩
      · exact ⟨_, setValue_replace hjs hmembers has hm val valType⟩
    obtain ⟨text, htext⟩ := hresult
    rw [htext]
    refine (setResult_eq _ text).imp (fun hset => ?_) id
    obtain ⟨newMap, -, hset⟩ := hset
    exact ⟨newMap, hset⟩
  · exact Or.inr (by rw [setValue, if_pos hmap])

/-- A set that returns false leaves the map as it was. -/
theorem setValue_false {map map' : JSON} {key val : CString} {valType : JsmnType}
    (h : setValue map key val valType = .ok (false, map')) : map' = map := by
  rw [setValue] at h
  split_ifs at h
  · cases h
    rfl
  · obtain ⟨splice, -, h⟩ := bind_eq_ok.mp h
    obtain ⟨-, -, h⟩ := bind_eq_ok.mp h
    obtain ⟨-, -, h⟩ := bind_eq_ok.mp h
    obtain ⟨-, -, h⟩ := bind_eq_ok.mp h
    split at h
    · cases h
    · cases h
    · cases h
      rfl

/-! ## A value that is a text of the grammar -/

theorem value_head (v : Value) :
    ∃ c rest, v.text = c :: rest ∧ isSpace c = false ∧ c ≠ comma ∧ c ≠ Kind.object.closer := by
  cases v with
  | primitive p =>
    obtain ⟨c, rest, hp, hc⟩ := primitive_head p.primitive
    have hmark := begins_not_mark hc
    simp only [isMark, Bool.or_eq_false_iff, beq_eq_false_iff_ne] at hmark
    exact ⟨c, rest, hp, hmark.1.1.2, hmark.2, hmark.1.1.1.1.1.2⟩
  | string s => exact ⟨quote, _, rfl, by decide, by decide, by decide⟩
  | container kind blank items =>
    exact ⟨kind.opener, _, rfl, by cases kind <;> decide, by cases kind <;> decide,
      by cases kind <;> decide⟩

/-- White space ends where it ends. -/
theorem blank_unique {a b rest rest' : List UInt8} {c d : UInt8} (ha : ∀ x ∈ a, isSpace x = true)
    (hb : ∀ x ∈ b, isSpace x = true) (hc : isSpace c = false) (hd : isSpace d = false)
    (h : a ++ c :: rest = b ++ d :: rest') : a = b ∧ c = d ∧ rest = rest' := by
  induction a generalizing b with
  | nil =>
    cases b with
    | nil =>
      obtain ⟨hcd, hrest⟩ := List.cons.inj h
      exact ⟨rfl, hcd, hrest⟩
    | cons x b =>
      obtain ⟨rfl, -⟩ := List.cons.inj h
      rw [hb c (List.mem_cons_self ..)] at hc
      cases hc
  | cons x a ih =>
    cases b with
    | nil =>
      obtain ⟨rfl, -⟩ := List.cons.inj h
      rw [ha x (List.mem_cons_self ..)] at hd
      cases hd
    | cons y b =>
      obtain ⟨rfl, htail⟩ := List.cons.inj h
      obtain ⟨rfl, hcd, hrest⟩ := ih (fun z hz => ha z (List.mem_cons_of_mem _ hz))
        (fun z hz => hb z (List.mem_cons_of_mem _ hz)) htail
      exact ⟨rfl, hcd, hrest⟩

/-- Behind a value comes a comma or the end of the object. -/
theorem behind_head (slot : Slot) : ∃ c rest, slot.behind = slot.after.bytes ++ c :: rest ∧
    (c = comma ∨ c = Kind.object.closer) := by
  rw [Slot.behind, behindOf]
  cases slot.back with
  | nil => exact ⟨_, _, rfl, Or.inr rfl⟩
  | cons m ms => exact ⟨_, _, rfl, Or.inl rfl⟩

/-- White space alone is no value. -/
theorem blank_refused (slot : Slot) (b : Blank) :
    ¬ ∃ d : Document, d.text = slot.ahead ++ (b.bytes ++ slot.behind) := by
  intro haccepted
  obtain ⟨blank, v, rest, htext, -⟩ := accepted_value slot haccepted
  obtain ⟨c, more, hbehind, hc⟩ := behind_head slot
  obtain ⟨d, vrest, hv, hspace, hcomma, hcloser⟩ := value_head v
  have hcspace : isSpace c = false := by
    rcases hc with rfl | rfl
    · decide
    · decide
  rw [hbehind, hv, ← List.append_assoc] at htext
  obtain ⟨-, rfl, -⟩ := blank_unique (b.append slot.after).space blank.space hcspace hspace htext
  exact hc.elim hcomma hcloser

/-- **A set that succeeds** with a text of the grammar: the value is in its slot. -/
theorem set_document {o : MapText} {js key val : CString} {slot : Slot} {valType : JsmnType}
    {map' : JSON} (hslot : slot.Of o key) (hjs : js.bytes = o.text) (d : Document)
    (hval : putText val.bytes valType = d.text)
    (hset : setValue (o.json js) key val valType = .ok (true, map')) :
    ∃ before v after, d = .value before v after ∧ ∃ js', js'.bytes =
      (slot.fill before v after).text ∧
      map' = (slot.fill before v after).json js' := by
  rw [hslot.set js hjs, hval] at hset
  rcases setResult_eq (o.json js) (slot.ahead ++ (d.text ++ slot.behind)) with
    ⟨newMap, hcreate, hresult⟩ | hresult
  · rw [hresult] at hset
    cases hset
    have hnoNul : (0 : UInt8) ∉ slot.ahead ++ (d.text ++ slot.behind) := by
      have hfill := (slot.fill .none (.string ⟨[], .nil⟩) .none).document.noNul
      have htext := slot.text_fill .none (.string ⟨[], .nil⟩) .none
      rw [MapText.text] at htext
      rw [htext] at hfill
      simp only [List.mem_append, not_or] at hfill ⊢
      exact ⟨hfill.1, d.noNul, hfill.2.2⟩
    have hbytes := CString.ofBuffer_bytes hnoNul
    cases d with
    | blank b =>
      obtain ⟨d', hd', -⟩ := create_ok hcreate
      exact absurd ⟨d', hd'.trans hbytes⟩ (blank_refused slot b)
    | value before v after =>
      have htext := hbytes.trans (slot.text_fill before v after).symm
      refine ⟨before, v, after, rfl, _, htext, ?_⟩
      have hdocument := create_document (slot.fill before v after).document htext
      rw [hdocument] at hcreate
      cases hcreate
      rfl
  · rw [hresult] at hset
    cases hset

theorem find_fill {slot : Slot} {o : MapText} {key : CString} (hslot : slot.Of o key)
    (before : Blank)
    (v : Value) (after : Blank) : (slot.fill before v after).find key.bytes = some v :=
  found_here hslot.front hslot.lead

theorem find_fill_other {slot : Slot} {o : MapText} {key : CString} (hslot : slot.Of o key)
    (before : Blank) (v : Value) (after : Blank) {other : List UInt8} (hother : other ≠ key.bytes) :
    (slot.fill before v after).find other = o.find other := by
  rw [← hslot.others other hother]
  refine found_elsewhere ?_
  intro heq
  exact hother (heq.symm.trans hslot.lead)

/-! ## The texts of the setters -/

theorem digit_ofNat {d : ℕ} (h : d < 10) : isDigit (UInt8.ofNat (0x30 + d)) = true := by
  have hall : ∀ d < 10, isDigit (UInt8.ofNat (0x30 + d)) = true := by decide
  exact hall d h

theorem digit_ofNat_ne {d : ℕ} (h : d < 10) (hpos : 0 < d) : UInt8.ofNat (0x30 + d) ≠ 0x30 := by
  have hall : ∀ d < 10, 0 < d → UInt8.ofNat (0x30 + d) ≠ 0x30 := by decide
  exact hall d h hpos

theorem decimal_digits (n : ℕ) : IsDigits (decimal n) := by
  fun_induction decimal n with
  | case1 n hn => exact ⟨by simp, by simpa using digit_ofNat hn⟩
  | case2 n hn ih =>
    refine ⟨by simp, fun c hc => ?_⟩
    rcases List.mem_append.mp hc with hc | hc
    · exact ih.2 c hc
    · rw [List.mem_singleton.mp hc]
      exact digit_ofNat (Nat.mod_lt _ (by decide))

theorem decimal_head {n : ℕ} (hpos : 0 < n) : (decimal n).head? ≠ some 0x30 := by
  fun_induction decimal n with
  | case1 n hn => simpa using digit_ofNat_ne hn hpos
  | case2 n hn ih =>
    rw [List.head?_append_of_ne_nil _ (decimal_digits (n / 10)).1]
    exact ih (by omega)

theorem decimal_int (n : ℕ) : IsInt (decimal n) := by
  rcases Nat.eq_zero_or_pos n with rfl | hpos
  · exact Or.inl (by rw [decimal]; rfl)
  · exact Or.inr ⟨decimal_digits n, decimal_head hpos⟩

theorem decimal_length {n k : ℕ} (h : n < 10 ^ (k + 1)) : (decimal n).length ≤ k + 1 := by
  fun_induction decimal n generalizing k with
  | case1 n hn =>
    rw [List.length_singleton]
    omega
  | case2 n hn ih =>
    cases k with
    | zero => omega
    | succ k =>
      have hdiv : n / 10 < 10 ^ (k + 1) := by
        rw [Nat.div_lt_iff_lt_mul (by decide), ← Nat.pow_succ]
        exact h
      have := ih hdiv
      rw [List.length_append, List.length_singleton]
      omega

/-- `"%ld"` gives a number. -/
theorem longText_primitive (val : Int64) : IsPrimitive (longText val) := by
  have hunsigned : IsUnsigned (decimal val.toInt.natAbs) :=
    ⟨decimal val.toInt.natAbs, [], [], decimal_int _, Or.inl rfl, Or.inl rfl, by simp⟩
  rw [longText]
  split_ifs
  · exact Or.inr (Or.inr (Or.inr (Or.inr ⟨_, hunsigned, rfl⟩)))
  · exact Or.inr (Or.inr (Or.inr (Or.inl hunsigned)))

theorem longText_length (val : Int64) : (longText val).length ≤ 20 := by
  have hlt := val.toInt_lt
  have hle := val.le_toInt
  have hdecimal : (decimal val.toInt.natAbs).length ≤ 18 + 1 :=
    decimal_length (Nat.lt_of_le_of_lt (m := 2 ^ 63) (by omega) (by decide))
  rw [longText]
  split_ifs
  · rw [List.length_cons]
    omega
  · omega

/-- A short text fits the buffer. -/
theorem snprintf_bytes {text : List UInt8} (hlength : text.length ≤ 20)
    (hprimitive : IsPrimitive text) :
    (snprintf text).bytes = text := by
  rw [snprintf, List.take_of_length_le (by rw [stackBufsiz]; omega)]
  exact CString.ofBuffer_bytes (Primitive.noNul ⟨text, hprimitive⟩)

/-! ## The setters -/

/-- A call of one of the setters. -/
inductive Setter
  | string (val : Option CString)
  | rawString (val : Option CString)
  | json (sub : Option JSON)
  | long (val : Int64)
  | bool (val : Bool)

def Setter.set (map : JSON) (key : Option CString) : Setter → Except JsmnErr (Bool × JSON)
  | .string val => jsonMapSetStringValue map key val
  | .rawString val => jsonMapSetRawStringValue map key val
  | .json sub => jsonMapSetJSONValue map key sub
  | .long val => jsonMapSetLongValue map key val
  | .bool val => jsonMapSetBoolValue map key val

/-- Free of quotes and backslashes. -/
def Plain (s : CString) : Prop := ∀ c ∈ s.bytes, c ≠ quote ∧ c ≠ backslash

/-- The value of a call is plain, or a JSON text. -/
def Setter.Sound : Setter → Prop
  | .string val => ∀ v, val = some v → Plain v
  | .rawString val => ∀ v, val = some v → ∃ d : Document, d.text = v.bytes
  | .json sub => ∀ json, sub = some json → ∃ js, jsonCreateFromString js = .ok json
  | .long _ => True
  | .bool _ => True

theorem plain_chars {text : List UInt8} (hzero : (0 : UInt8) ∉ text)
    (h : ∀ c ∈ text, c ≠ quote ∧ c ≠ backslash) : IsChars text := by
  induction text with
  | nil => exact .nil
  | cons c text ih =>
    rw [List.mem_cons, not_or] at hzero
    obtain ⟨hquote, hbackslash⟩ := h c (List.mem_cons_self ..)
    exact .plain (Ne.symm hzero.1) hquote hbackslash
      (ih hzero.2 fun d hd => h d (List.mem_cons_of_mem _ hd))

theorem Plain.chars {s : CString} (h : Plain s) : IsChars s.bytes := plain_chars s.terminated h

theorem primitive_document {text : List UInt8} (h : IsPrimitive text) :
    ∃ d : Document, d.text = text :=
  ⟨.value .none (.primitive ⟨text, h⟩) .none, by simp [Document.text, Value.text, Blank.none]⟩

/-- What a setter comes down to: nothing, or `_json_mapSetValue`, with a text of the grammar if the
call is sound. -/
theorem Setter.set_cases (setter : Setter) (map : JSON) (key : Option CString) :
    setter.set map key = .ok (false, map) ∨
      ∃ k val valType, key = some k ∧ setter.set map key = setValue map k val valType ∧
        (setter.Sound → ∃ d : Document, putText val.bytes valType = d.text) := by
  cases key with
  | none =>
    left
    cases setter with
    | json sub => cases sub <;> rfl
    | _ => rfl
  | some k =>
    cases setter with
    | string val =>
      cases val with
      | none => exact Or.inl rfl
      | some v =>
        refine Or.inr ⟨k, v, _, rfl, rfl, fun hsound => ?_⟩
        exact ⟨.value .none (.string ⟨v.bytes, (hsound v rfl).chars⟩) .none, by
          simp [Document.text, Value.text, Blank.none, putText_string]⟩
    | rawString val =>
      cases val with
      | none => exact Or.inl rfl
      | some v =>
        refine Or.inr ⟨k, v, _, rfl, rfl, fun hsound => ?_⟩
        obtain ⟨d, hd⟩ := hsound v rfl
        exact ⟨d, (putText_other _ (by decide)).trans hd.symm⟩
    | json sub =>
      cases sub with
      | none => exact Or.inl rfl
      | some json =>
        refine Or.inr ⟨k, json.jsonString, _, rfl, rfl, fun hsound => ?_⟩
        obtain ⟨js, hjs⟩ := hsound json rfl
        obtain ⟨d, hd, rfl⟩ := create_ok hjs
        exact ⟨d, (putText_other _ (by decide)).trans hd.symm⟩
    | long val =>
      refine Or.inr ⟨k, _, _, rfl, rfl, fun _ => ?_⟩
      obtain ⟨d, hd⟩ := primitive_document (longText_primitive val)
      refine ⟨d, (putText_other _ (by decide)).trans (Eq.trans ?_ hd.symm)⟩
      exact snprintf_bytes (longText_length val) (longText_primitive val)
    | bool val =>
      have hprimitive : IsPrimitive (if val then trueText else falseText) := by
        cases val
        · exact Or.inr (Or.inl rfl)
        · exact Or.inl rfl
      refine Or.inr ⟨k, _, _, rfl, rfl, fun _ => ?_⟩
      obtain ⟨d, hd⟩ := primitive_document hprimitive
      refine ⟨d, (putText_other _ (by decide)).trans (Eq.trans ?_ hd.symm)⟩
      exact snprintf_bytes (by cases val <;> decide) hprimitive

/-- **Main.** A setter fails no assertion; when it returns false the map is as it was, whatever the
arguments; and when a sound call succeeds, the new map is what its own text is parsed to, and every
other key is looked up as before. -/
theorem setters_frame {js : CString} {map : JSON} (hmap : jsonCreateFromString js = .ok map)
    (key : Option CString) (setter : Setter) :
    (∃ didSetValue map', setter.set map key = .ok (didSetValue, map')) ∧
      (∀ map', setter.set map key = .ok (false, map') → map' = map) ∧
      ∀ k map', key = some k → Plain k → setter.Sound → setter.set map key = .ok (true, map') →
        jsonCreateFromString map'.jsonString = .ok map' ∧
          ∀ other : CString, other.bytes ≠ k.bytes → lookup map' other = lookup map other := by
  rcases setter.set_cases map key with hset | ⟨k, val, valType, rfl, hset, hsound⟩
  · refine ⟨⟨_, _, hset⟩, fun map' h => ?_, fun k map' _ _ _ h => ?_⟩
    · rw [hset] at h
      cases h
      rfl
    · rw [hset] at h
      cases h
  · refine ⟨?_, fun map' h => ?_, fun k' map' hk hplain hs h => ?_⟩
    · rcases setValue_returns hmap k val valType with ⟨newMap, hnew⟩ | hfalse
      · exact ⟨_, _, hset.trans hnew⟩
      · exact ⟨_, _, hset.trans hfalse⟩
    · exact setValue_false (hset.symm.trans h)
    · cases hk
      have hvalue := hset.symm.trans h
      rcases parsed_cases hmap with ⟨o, hjs, rfl⟩ | hno
      · obtain ⟨slot, hslot⟩ := exists_slot o k hplain.chars
        obtain ⟨d, hd⟩ := hsound hs
        obtain ⟨before, v, after, -, js', hjs', rfl⟩ := set_document hslot hjs d hd hvalue
        refine ⟨create_document _ hjs', fun other hother => ?_⟩
        rw [MapText.lookup_eq _ hjs', MapText.lookup_eq _ hjs, find_fill_other hslot _ _ _ hother]
      · rw [setValue, if_pos hno] at hvalue
        cases hvalue

/-- `{"k":"x"}`. -/
def oneMember : MapText where
  before := .none
  blank := .none
  members :=
    [member ⟨.none, ⟨[0x6B], .plain (by decide) (by decide) (by decide) .nil⟩, .none, .none⟩
    (.string ⟨[0x78], .plain (by decide) (by decide) (by decide) .nil⟩) .none]
  after := .none

def oneMemberString : CString := ⟨oneMember.text, oneMember.document.noNul⟩

/-- A map with one key, and another key set to a number. -/
theorem setters_frame_oneMember :
    let map := oneMember.json oneMemberString
    let key : CString := ⟨[0x6C], by decide⟩
    jsonCreateFromString oneMemberString = .ok map ∧
      (∃ didSetValue map', (Setter.long 7).set map (some key) = .ok (didSetValue, map')) ∧
      (∀ map', (Setter.long 7).set map (some key) = .ok (false, map') → map' = map) ∧
      ∀ k map', some key = some k → Plain k → (Setter.long 7).Sound →
        (Setter.long 7).set map (some key) = .ok (true, map') →
        jsonCreateFromString map'.jsonString = .ok map' ∧
          ∀ other : CString, other.bytes ≠ k.bytes → lookup map' other = lookup map other :=
  ⟨create_document _ rfl, setters_frame (create_document _ rfl) _ _⟩

end Apple2ix.Json
