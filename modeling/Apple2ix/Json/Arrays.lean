import Apple2ix.Json.MapParse

/-! The arrays of json_parse.c: an element is found by the sizes of the subtrees of all the elements
before it. -/
namespace Apple2ix.Json
set_option autoImplicit false

/-! ## Access -/

/-- The loop of `_json_arrayCalcIndex` over the elements before the one that is looked for. -/
def arraySkip (array : JSON) : ℕ → ℕ → ℕ
  | 0, idx => idx
  | i + 1, idx => arraySkip array i (idx + (array.token idx).skip)

/-- `_json_arrayCalcIndex`: the index of the token. -/
def jsonArrayCalcIndex (array : JSON) (index : ℕ) : Option ℕ :=
  if array.numTokens = 0 then none
  else if (array.token 0).type ≠ .array then none
  else if (array.token 0).size ≤ index then none
  else some (arraySkip array index 1)

/-- `json_isArray`. -/
def jsonIsArray (array : JSON) : Bool := array.numTokens ≠ 0 && (array.token 0).type = .array

/-- `json_arrayCount`. -/
def jsonArrayCount (array : JSON) : Option ℕ :=
  if array.numTokens = 0 then none
  else if (array.token 0).type ≠ .array then none
  else some (array.token 0).size

/-- `json_arrayCopyStringValueAtIndex`. -/
def jsonArrayCopyStringValueAtIndex (array : JSON) (index : ℕ) :
    Except JsmnErr (Option (List UInt8)) :=
  match jsonArrayCalcIndex array index with
  | none => .ok none
  | some idx => do
    let tok := array.token idx
    let text ← validText array tok
    if tok.stop - tok.start = 0 then .ok none else .ok (some text)

/-! ## The text of an array -/

structure ArrayText where
  before : Blank
  blank : Blank
  elements : List (Item .array)
  after : Blank

namespace ArrayText

def document (a : ArrayText) : Document :=
  .value a.before (.container .array a.blank (.ofList a.elements)) a.after

def text (a : ArrayText) : List UInt8 := a.document.text

/-- The array that a text is parsed to. -/
def json (a : ArrayText) (js : CString) : JSON := a.document.json js

/-- Where the elements begin. -/
def body (a : ArrayText) : ℕ := a.before.bytes.length + 1 + a.blank.bytes.length

/-- The element at an index. -/
def get (a : ArrayText) (index : ℕ) : Option Value := a.elements[index]?.map Item.value

section
variable (a : ArrayText) (js : CString) {as bs : List (Item .array)} {m : Item .array}

theorem tokens_eq : a.document.tokens =
    (Value.container .array a.blank (.ofList a.elements)).token none a.before.bytes.length ::
      (Items.ofList a.elements).tokens 0 1 a.body := rfl

theorem numTokens_ne : (a.json js).numTokens ≠ 0 := Nat.succ_ne_zero _

theorem size_zero : ((a.json js).token 0).size = a.elements.length := Items.count_ofList a.elements

/-- The token of an element. -/
theorem element_token (helements : a.elements = as ++ m :: bs) :
    (a.json js).token (1 + sizes as) =
      m.value.token (some 0) (a.body + (separated as).length + m.lead.text.length) := by
  obtain ⟨more, hmore⟩ := m.value.tokens_head (some 0) (1 + sizes as)
    (a.body + (separated as).length + m.lead.text.length)
  have hlength : ((Items.ofList as).tokens 0 1 a.body).length = sizes as := by
    rw [tokens_length.2, Items.size_ofList]
  obtain ⟨rest, hrest⟩ : ∃ rest, (Items.ofList a.elements).tokens 0 1 a.body =
      (Items.ofList as).tokens 0 1 a.body ++
        m.value.token (some 0) (a.body + (separated as).length + m.lead.text.length) :: rest := by
    rw [helements, Items.tokens_append, Items.ofList, Items.tokens]
    change ∃ rest, _ ++ (m.value.tokens (some 0) (1 + sizes as)
      (a.body + (separated as).length + m.lead.text.length) ++ _) = _
    rw [hmore]
    exact ⟨_, rfl⟩
  change a.document.tokens.getD _ _ = _
  rw [tokens_eq, hrest, Nat.add_comm 1, List.getD_cons_succ, List.getD_eq_getElem?_getD,
    List.getElem?_append_right (le_of_eq hlength), hlength, Nat.sub_self]
  rfl

/-- The loop passes elements, however many tokens they have. -/
theorem arraySkip_elements (as ms bs : List (Item .array))
    (helements : a.elements = as ++ (ms ++ bs)) :
    arraySkip (a.json js) ms.length (1 + sizes as) = 1 + sizes (as ++ ms) := by
  induction ms generalizing as with
  | nil => rw [List.append_nil, List.length_nil, arraySkip]
  | cons m ms ih =>
    have hnext :
        1 + sizes as + ((a.json js).token (1 + sizes as)).skip = 1 + sizes (as ++ [m]) := by
      have hsize : m.size = m.value.size := Nat.zero_add _
      rw [a.element_token js helements, sizes, sizes, List.map_append, List.sum_append,
        List.map_singleton, List.sum_singleton, hsize, Nat.add_assoc]
      rfl
    have htail := ih (as ++ [m]) (by rw [helements]; simp)
    rw [List.length_cons, arraySkip, hnext, htail, List.append_assoc, List.singleton_append]

/-- **The index** of the token of an element. -/
theorem calcIndex_eq (index : ℕ) : jsonArrayCalcIndex (a.json js) index =
    if index < a.elements.length then some (1 + sizes (a.elements.take index)) else none := by
  rw [jsonArrayCalcIndex, if_neg (a.numTokens_ne js), a.size_zero]
  change (if _ ≤ _ then none else some _) = _
  by_cases hindex : index < a.elements.length
  · have hskip :=
      a.arraySkip_elements js [] (a.elements.take index) (a.elements.drop index) (by simp)
    rw [List.length_take_of_le (le_of_lt hindex), List.nil_append] at hskip
    rw [if_neg (Nat.not_le.mpr hindex), if_pos hindex, ← hskip]
    rfl
  · rw [if_pos (Nat.not_lt.mp hindex), if_neg hindex]

/-- The text around an element. -/
theorem element_split (helements : a.elements = as ++ m :: bs) :
    ∃ before after, a.text = before ++ (m.value.text ++ after) ∧
      before.length = a.body + (separated as).length + m.lead.text.length := by
  refine ⟨a.before.bytes ++ (Kind.array.opener :: (a.blank.bytes ++ separated as)) ++ m.lead.text,
    m.after.bytes ++ ((Items.ofList bs).text [comma] ++ Kind.array.closer :: a.after.bytes), ?_, ?_⟩
  · simp [text, document, Document.text, Value.text, helements, Items.text_split, Item.text]
  · simp only [List.length_append, List.length_cons, body]
    omega

variable {js}

/-- What all the accesses read of an element. -/
theorem element_text (hjs : js.bytes = a.text) (helements : a.elements = as ++ m :: bs) :
    validText (a.json js) ((a.json js).token (1 + sizes as)) = .ok m.value.raw ∧
      ((a.json js).token (1 + sizes as)).stop - ((a.json js).token (1 + sizes as)).start =
        m.value.raw.length := by
  obtain ⟨before, after, htext, hlength⟩ := a.element_split helements
  have htoken := m.value.token_text (some 0) htext
  rw [← hjs] at htoken
  rw [a.element_token js helements, ← hlength, validText, if_neg (m.value.token_valid _ _)]
  exact ⟨congrArg Except.ok htoken, Nat.add_sub_cancel_left ..⟩

end

end ArrayText

/-- A parsed text that is an array. -/
theorem parsed_array {js : CString} {array : JSON} (h : jsonCreateFromString js = .ok array)
    (harray : jsonIsArray array = true) :
    ∃ a : ArrayText, js.bytes = a.text ∧ array = a.json js := by
  obtain ⟨d, hd, rfl⟩ := create_ok h
  have htype : ((d.json js).token 0).type = .array := by
    rw [jsonIsArray, Bool.and_eq_true] at harray
    exact of_decide_eq_true harray.2
  cases d with
  | blank b => cases htype
  | value before v after =>
    cases v with
    | primitive p => cases htype
    | string s => cases htype
    | container kind blank items =>
      cases kind with
      | object => cases htype
      | array =>
        refine ⟨⟨before, blank, items.toList, after⟩, ?_, ?_⟩
        · rw [← hd, ArrayText.text, ArrayText.document, Items.ofList_toList]
        · rw [ArrayText.json, ArrayText.document, Items.ofList_toList]

/-- An element, if there is one, with the elements before it and behind it. -/
theorem ArrayText.get_cases (a : ArrayText) (index : ℕ) :
    (a.elements.length ≤ index ∧ a.get index = none) ∨
      ∃ as m bs, a.elements = as ++ m :: bs ∧ as.length = index ∧ a.get index = some m.value := by
  rcases Nat.lt_or_ge index a.elements.length with hindex | hindex
  · refine Or.inr
      ⟨a.elements.take index, a.elements[index], a.elements.drop (index + 1), ?_, ?_, ?_⟩
    · rw [List.getElem_cons_drop, List.take_append_drop]
    · exact List.length_take_of_le (le_of_lt hindex)
    · rw [get, List.getElem?_eq_getElem hindex, Option.map_some]
  · exact Or.inl ⟨hindex, by rw [get, List.getElem?_eq_none hindex, Option.map_none]⟩

theorem ArrayText.calcIndex_none (a : ArrayText) (js : CString) {index : ℕ}
    (h : a.elements.length ≤ index) : jsonArrayCalcIndex (a.json js) index = none := by
  rw [a.calcIndex_eq, if_neg (Nat.not_lt.mpr h)]

theorem ArrayText.calcIndex_some (a : ArrayText) (js : CString) {as bs : List (Item .array)}
    {m : Item .array} (helements : a.elements = as ++ m :: bs) :
    jsonArrayCalcIndex (a.json js) as.length = some (1 + sizes as) := by
  have hlength : as.length < a.elements.length := by
    rw [helements, List.length_append, List.length_cons]
    omega
  rw [a.calcIndex_eq, if_pos hlength, helements, List.take_left]

/-- Only an empty string has nothing between the ends of its token. -/
theorem Value.raw_eq_nil (v : Value) : v.raw = [] ↔ ∃ s : Chars, s.bytes = [] ∧ v = .string s := by
  cases v with
  | primitive p =>
    obtain ⟨c, rest, hp, -⟩ := primitive_head p.primitive
    simp [Value.raw, hp]
  | string s => exact ⟨fun h => ⟨s, h, rfl⟩, by rintro ⟨_, h, ⟨⟩⟩; exact h⟩
  | container kind blank items => simp [Value.raw, Value.text]

/-- **Main.** The count of an array is the number of its elements; and at every index, the text of
the element is copied when there is one, and nothing else, if and only if the element is not an
empty string. -/
theorem array_strings {js : CString} {array : JSON} (h : jsonCreateFromString js = .ok array)
    (harray : jsonIsArray array = true) :
    ∃ a : ArrayText, a.text = js.bytes ∧ jsonArrayCount array = some a.elements.length ∧
      ∀ index, jsonArrayCopyStringValueAtIndex array index = .ok ((a.get index).map Value.raw) ↔
        ¬ ∃ s : Chars, s.bytes = [] ∧ a.get index = some (.string s) := by
  obtain ⟨a, hjs, rfl⟩ := parsed_array h harray
  refine ⟨a, hjs.symm, ?_, fun index => ?_⟩
  · rw [jsonArrayCount, if_neg (a.numTokens_ne js), a.size_zero]
    rfl
  · rcases a.get_cases index with ⟨hindex, hnone⟩ | ⟨as, m, bs, helements, rfl, hsome⟩
    · rw [jsonArrayCopyStringValueAtIndex, a.calcIndex_none js hindex, hnone]
      simp
    · obtain ⟨htext, hlength⟩ := a.element_text hjs helements
      have hcopy : jsonArrayCopyStringValueAtIndex (a.json js) as.length =
          if m.value.raw.length = 0 then .ok none else .ok (some m.value.raw) := by
        rw [jsonArrayCopyStringValueAtIndex, a.calcIndex_some js helements]
        simp only [htext, hlength]
        rfl
      have hempty : (∃ s : Chars, s.bytes = [] ∧ some m.value = some (.string s)) ↔
          m.value.raw.length = 0 := by
        rw [List.length_eq_zero_iff, m.value.raw_eq_nil]
        simp
      rw [hcopy, hsome, Option.map_some, hempty]
      split_ifs with hlen
      · exact iff_of_false nofun (not_not.mpr hlen)
      · exact iff_of_true rfl hlen

/-- `["",7]`. -/
def emptyElement : ArrayText where
  before := .none
  blank := .none
  elements := [⟨Blank.none, .string ⟨[], .nil⟩, .none⟩,
    ⟨Blank.none, .primitive ⟨[0x37], .inr (.inr (.inr (.inl
      ⟨[0x37], [], [], .inr ⟨by simp [IsDigits, isDigit], by simp⟩, .inl rfl, .inl rfl, rfl⟩)))⟩,
        .none⟩]
  after := .none

def emptyElementString : CString := ⟨emptyElement.text, emptyElement.document.noNul⟩

/-- The count is two, and an empty string is at index 0, but it is not copied. -/
theorem emptyElement_refused :
    jsonCreateFromString emptyElementString = .ok (emptyElement.json emptyElementString) ∧
      jsonArrayCount (emptyElement.json emptyElementString) = some 2 ∧
      emptyElement.get 0 = some (.string ⟨[], .nil⟩) ∧
      jsonArrayCopyStringValueAtIndex (emptyElement.json emptyElementString) 0 = .ok none :=
  ⟨create_document _ rfl, rfl, rfl, rfl⟩

theorem array_strings_emptyElement :
    ∃ a : ArrayText, a.text = emptyElementString.bytes ∧
      jsonArrayCount (emptyElement.json emptyElementString) = some a.elements.length ∧
      ∀ index, jsonArrayCopyStringValueAtIndex (emptyElement.json emptyElementString) index =
          .ok ((a.get index).map Value.raw) ↔
        ¬ ∃ s : Chars, s.bytes = [] ∧ a.get index = some (.string s) :=
  array_strings (create_document _ rfl) rfl

end Apple2ix.Json
