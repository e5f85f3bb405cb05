import Apple2ix.Json.MapLookup

/-! What `_json_mapSetValue` makes of a map: the place in the text where the value goes, and the map
whose text has it there. -/
namespace Apple2ix.Json
set_option autoImplicit false

/-! ## Splices -/

/-- The end of `_json_mapSetValue`, on the new text. -/
def setResult (map : JSON) (text : List UInt8) : Except JsmnErr (Bool × JSON) :=
  match jsonCreateFromString (.ofBuffer text) with
  | .ok newMap => .ok (true, newMap)
  | .error .assertion => .error .assertion
  | .error _ => .ok (false, map)

theorem setValue_splice {map : JSON} {key val : CString} {valType : JsmnType}
    {before middle after text : List UInt8} (hmap : (map.token 0).type = .object)
    (hjson : map.jsonString.bytes = before ++ (middle ++ after))
    (hlen : map.jsonLen = map.jsonString.bytes.length) (hbefore : before ≠ []) (hafter : after ≠ [])
    (hsplice : spliceFor map key val valType =
      .ok { spliceBegin := before.length, spliceEnd := before.length + middle.length,
            val := text }) :
    setValue map key val valType = setResult map (before ++ (text ++ after)) := by
  have hlength : map.jsonLen = before.length + middle.length + after.length := by
    rw [hlen, hjson, List.length_append, List.length_append, Nat.add_assoc]
  have hb : 0 < before.length := List.length_pos_of_ne_nil hbefore
  have ha : 0 < after.length := List.length_pos_of_ne_nil hafter
  have happly : Splice.apply
        { spliceBegin := before.length, spliceEnd := before.length + middle.length, val := text }
        map =
      before ++ (text ++ after) := by
    have hdrop : (before ++ (middle ++ after)).drop (before.length + middle.length) = after := by
      rw [← List.append_assoc, ← List.length_append, List.drop_left]
    simp only [Splice.apply, hjson, List.take_left, hdrop, hlength, Nat.add_sub_cancel_left,
      List.take_length]
  rw [setValue, if_neg (by simpa using hmap), hsplice, ok_bind]
  simp only [require, happly]
  rw [decide_eq_true (Nat.le_add_right _ _), decide_eq_true hb, decide_eq_true (by omega)]
  rfl

/-- The text of a value, as it is put into the map. -/
def putText (val : List UInt8) (valType : JsmnType) : List UInt8 :=
  if valType = .string then jsonCopyAndQuote val else val

theorem getD_after (before after : List UInt8) (c : UInt8) {i : ℕ} (hi : i = before.length) :
    (before ++ c :: after).getD i 0 = c := by
  rw [hi, getD_at]

theorem require_true {b : Bool} (h : b = true) : require b = .ok () := if_pos h

theorem putText_string (val : List UInt8) : putText val .string = quote :: (val ++ [quote]) := rfl

theorem putText_other (val : List UInt8) {valType : JsmnType} (h : valType ≠ .string) :
    putText val valType = val := if_neg h

/-- The splice at a string takes its quotes away if and only if the new value is no string. -/
theorem replaceSplice_string {map : JSON} {s : Chars} {parent : Option ℕ}
    {ahead behind : List UInt8}
    (val : List UInt8) (valType : JsmnType)
    (hjson : map.jsonString.bytes = ahead ++ ((Value.string s).text ++ behind)) :
    replaceSplice map ((Value.string s).token parent ahead.length) val valType =
      .ok (if valType = .string then
          { spliceBegin := (ahead ++ [quote]).length
            spliceEnd := (ahead ++ [quote]).length + s.bytes.length
            val := val }
        else
          { spliceBegin := ahead.length
            spliceEnd := ahead.length + (Value.string s).text.length
            val := val }) := by
  have hfirst : quoteAt map ((ahead.length + 1) - 1) = true := by
    rw [quoteAt, hjson, Value.text, List.cons_append, getD_after _ _ _ (Nat.add_sub_cancel ..)]
    rfl
  have hlast : quoteAt map (ahead.length + 1 + s.bytes.length) = true := by
    have hsplit : ahead ++ ((Value.string s).text ++ behind) =
        (ahead ++ quote :: s.bytes) ++ quote :: behind := by
      simp [Value.text]
    rw [quoteAt, hjson, hsplit, getD_after]
    · rfl
    · rw [List.length_append, List.length_cons]
      omega
  generalize htok : (Value.string s).token parent ahead.length = tok
  have hstart : tok.start = ahead.length + 1 := by rw [← htok]; rfl
  have hstop : tok.stop = ahead.length + 1 + s.bytes.length := by rw [← htok]; rfl
  have htype : tok.type = .string := by rw [← htok]; rfl
  rw [← hstart] at hfirst
  rw [← hstop] at hlast
  rw [replaceSplice, require_true (decide_eq_true (by omega)), ok_bind, if_pos htype,
    require_true hfirst, ok_bind, Nat.add_sub_cancel, require_true hlast, ok_bind, ok_bind]
  split_ifs with hstring
  · rw [hstart, hstop, List.length_append, List.length_singleton]
  · have hlength : (Value.string s).text.length = s.bytes.length + 2 := by simp [Value.text]
    have hend : ahead.length + 1 + s.bytes.length + 1 = ahead.length + (s.bytes.length + 2) := by
      omega
    rw [hstart, hstop, hlength, Nat.add_sub_cancel, hend]
    rfl

/-- The splice at any other value. -/
theorem replaceSplice_other {map : JSON} {v : Value} {parent : Option ℕ} (pos : ℕ)
    (val : List UInt8) (valType : JsmnType) (hv : v.type ≠ .string) :
    replaceSplice map (v.token parent pos) val valType =
      .ok { spliceBegin := pos, spliceEnd := pos + v.text.length, val := putText val valType } := by
  have hbounds :
      (v.token parent pos).start = pos ∧ (v.token parent pos).stop = pos + v.text.length := by
    cases v with
    | primitive p => exact ⟨rfl, rfl⟩
    | string s => exact absurd rfl hv
    | container kind blank items => exact ⟨rfl, rfl⟩
  have htype : (v.token parent pos).type ≠ .string := hv
  have hvalid := Nat.not_lt.mp (v.token_valid parent pos)
  rw [replaceSplice, require_true (decide_eq_true hvalid), ok_bind, if_neg htype,
    hbounds.1, hbounds.2, putText]
  split_ifs
  · rfl
  · rfl

theorem setValue_value {map : JSON} {key val : CString} {valType : JsmnType} {v : Value}
    (parent : Option ℕ) {ahead behind : List UInt8} (hmap : (map.token 0).type = .object)
    (hjson : map.jsonString.bytes = ahead ++ (v.text ++ behind))
    (hlen : map.jsonLen = map.jsonString.bytes.length) (hahead : ahead ≠ []) (hbehind : behind ≠ [])
    (hsplice : spliceFor map key val valType =
      replaceSplice map (v.token parent ahead.length) val.bytes valType) :
    setValue map key val valType =
      setResult map (ahead ++ (putText val.bytes valType ++ behind)) := by
  by_cases hv : v.type = .string
  · cases v with
    | string s =>
      rw [replaceSplice_string _ _ hjson] at hsplice
      by_cases hstring : valType = .string
      · rw [if_pos hstring] at hsplice
        have hsplit :
            map.jsonString.bytes = (ahead ++ [quote]) ++ (s.bytes ++ quote :: behind) := by
          rw [hjson]
          simp [Value.text]
        rw [setValue_splice hmap hsplit hlen (by simp) (by simp) hsplice, hstring, putText_string]
        simp
      · rw [if_neg hstring] at hsplice
        rw [setValue_splice hmap hjson hlen hahead hbehind hsplice, putText_other _ hstring]
    | primitive p => cases hv
    | container kind blank items => cases kind <;> cases hv
  · rw [replaceSplice_other _ _ _ hv] at hsplice
    exact setValue_splice hmap hjson hlen hahead hbehind hsplice

section
variable {o : MapText} {js : CString} {as bs : List (Item .object)} {m : Item .object}

theorem MapText.json_len (o : MapText) (js : CString) :
    (o.json js).jsonLen = (o.json js).jsonString.bytes.length := rfl

theorem MapText.json_map (o : MapText) (js : CString) : ((o.json js).token 0).type = .object := rfl

/-- What stands before a value in the text of a map. -/
def aheadOf (before blank : Blank) (front : List (Item .object)) (lead : Key) : List UInt8 :=
  before.bytes ++ (Kind.object.opener :: (blank.bytes ++ (separated front ++ lead.text)))

/-- What stands behind a value. -/
def behindOf (after : Blank) (back : List (Item .object)) (last : Blank) : List UInt8 :=
  after.bytes ++ ((Items.ofList back).text [comma] ++ Kind.object.closer :: last.bytes)

theorem aheadOf_ne_nil (before blank : Blank) (front : List (Item .object)) (lead : Key) :
    aheadOf before blank front lead ≠ [] := by
  simp [aheadOf]

theorem behindOf_ne_nil (after : Blank) (back : List (Item .object)) (last : Blank) :
    behindOf after back last ≠ [] := by
  simp [behindOf]

theorem MapText.text_around (hmembers : o.members = as ++ m :: bs) :
    o.text = aheadOf o.before o.blank as m.head ++
      (m.value.text ++ behindOf m.after bs o.after) := by
  rw [o.text_split hmembers, aheadOf, behindOf]
  change _ ++ (m.head.text ++ (m.value.text ++ m.after.bytes) ++ _) = _
  simp only [List.append_assoc, List.cons_append]

theorem length_aheadOf (o : MapText) (as : List (Item .object)) (lead : Key) :
    (aheadOf o.before o.blank as lead).length =
      o.body + (separated as).length + lead.text.length := by
  simp only [aheadOf, MapText.body, List.length_append, List.length_cons]
  omega

/-- **Replacing** the value of a member: the new one stands where the old one stood. -/
theorem setValue_replace (hjs : js.bytes = o.text) (hmembers : o.members = as ++ m :: bs)
    {key : CString} (hkeys : ∀ a ∈ as, a.key ≠ key.bytes) (hm : m.key = key.bytes) (val : CString)
    (valType : JsmnType) :
    setValue (o.json js) key val valType = setResult (o.json js)
      (aheadOf o.before o.blank as m.head ++
        (putText val.bytes valType ++ behindOf m.after bs o.after)) := by
  obtain ⟨-, hvalue⟩ := o.member_tokens js hmembers
  rw [← length_aheadOf] at hvalue
  have htext : (o.json js).jsonString.bytes = _ := hjs.trans (o.text_around hmembers)
  refine setValue_value (some (1 + sizes as)) (o.json_map js) htext (o.json_len js)
    (aheadOf_ne_nil _ _ _ _) (behindOf_ne_nil _ _ _) ?_
  rw [spliceFor, o.get_some hjs hmembers hkeys hm, ok_bind]
  simp only [hvalue]

/-- **A new key** goes to the beginning of the object. -/
theorem setValue_insert (hjs : js.bytes = o.text) {key : CString}
    (hkeys : ∀ m ∈ o.members, m.key ≠ key.bytes) (val : CString) (valType : JsmnType) :
    setValue (o.json js) key val valType = setResult (o.json js)
      ((o.before.bytes ++ [Kind.object.opener]) ++
        ((jsonCopyAndQuote key.bytes ++ (colon :: (putText val.bytes valType ++
            if o.members ≠ [] then [comma] else []))) ++
          (o.blank.bytes ++ ((Items.ofList o.members).text [] ++
            Kind.object.closer :: o.after.bytes)))) := by
  have htext : (o.json js).jsonString.bytes = (o.before.bytes ++ [Kind.object.opener]) ++
      ([] ++ (o.blank.bytes ++ ((Items.ofList o.members).text [] ++
        Kind.object.closer :: o.after.bytes))) := by
    refine hjs.trans (o.text_eq.trans ?_)
    simp only [List.append_assoc, List.cons_append, List.nil_append]
  have hsize : ((o.json js).token 0).size = o.members.length := Items.count_ofList o.members
  have hcomma : (if ((o.json js).token 0).size ≠ 0 then [comma] else []) =
      if o.members ≠ [] then [comma] else [] := by
    rw [hsize]
    cases o.members with
    | nil => rfl
    | cons m ms => rfl
  refine setValue_splice (o.json_map js) htext (o.json_len js) (by simp) (by simp) ?_
  rw [spliceFor, o.get_none hjs hkeys, ok_bind]
  simp only [insertSplice, hcomma, putText]
  have hstart : ((o.json js).token 0).start = o.before.bytes.length := rfl
  rw [hstart, List.length_append, List.length_singleton, List.length_nil, Nat.add_zero]

end

/-! ## The place of a value -/

def Blank.append (a b : Blank) : Blank where
  bytes := a.bytes ++ b.bytes
  space c hc := (List.mem_append.mp hc).elim (a.space c) (b.space c)

def member (k : Key) (v : Value) (after : Blank) : Item .object where
  lead := k
  value := v
  after := after

@[simp] theorem member_head (k : Key) (v : Value) (after : Blank) :
    (member k v after).head = k := rfl

@[simp] theorem member_value (k : Key) (v : Value) (after : Blank) :
    (member k v after).value = v := rfl

@[simp] theorem member_after (k : Key) (v : Value) (after : Blank) :
    (member k v after).after = after := rfl

theorem Item.text_head (m : Item .object) :
    m.text = m.head.text ++ (m.value.text ++ m.after.bytes) := rfl

/-- Where a value stands in the text of a map. -/
structure Slot where
  before : Blank
  blank : Blank
  front : List (Item .object)
  lead : Key
  after : Blank
  back : List (Item .object)
  last : Blank

namespace Slot

def ahead (slot : Slot) : List UInt8 := aheadOf slot.before slot.blank slot.front slot.lead

def behind (slot : Slot) : List UInt8 := behindOf slot.after slot.back slot.last

/-- The map that has a value at this place. -/
def fill (slot : Slot) (first : Blank) (v : Value) (second : Blank) : MapText where
  before := slot.before
  blank := slot.blank
  members := slot.front ++
    member { slot.lead with beforeValue := slot.lead.beforeValue.append first } v
      (second.append slot.after) :: slot.back
  after := slot.last

theorem text_fill (slot : Slot) (first : Blank) (v : Value) (second : Blank) :
    (slot.fill first v second).text =
      slot.ahead ++ ((first.bytes ++ (v.text ++ second.bytes)) ++ slot.behind) := by
  have hmembers : (slot.fill first v second).members = slot.front ++ _ :: slot.back := rfl
  rw [MapText.text_around hmembers]
  simp [fill, ahead, behind, aheadOf, behindOf, Key.text, Blank.append]

end Slot

/-- The value of the first of these members that has a key. -/
def found (key : List UInt8) (ms : List (Item .object)) : Option Value :=
  (ms.find? fun m => m.key = key).map Item.value

theorem MapText.find_eq (o : MapText) (key : List UInt8) : o.find key = found key o.members := rfl

theorem found_here {key : List UInt8} {as bs : List (Item .object)} {m : Item .object}
    (has : ∀ a ∈ as, a.key ≠ key) (hm : m.key = key) :
    found key (as ++ m :: bs) = some m.value := by
  have hnone : as.find? (fun m => m.key = key) = none := by
    simpa [List.find?_eq_none] using has
  rw [found, List.find?_append, hnone, List.find?_cons_of_pos (by simpa using hm)]
  rfl

theorem found_elsewhere {key : List UInt8} {as bs : List (Item .object)} {m : Item .object}
    (hm : m.key ≠ key) : found key (as ++ m :: bs) = found key (as ++ bs) := by
  rw [found, found, List.find?_append, List.find?_append,
    List.find?_cons_of_neg (by simpa using hm)]

theorem found_congr (key : List UInt8) (ms : List (Item .object)) {m m' : Item .object}
    (hkey : m'.key = m.key) (hvalue : m'.value = m.value) :
    found key (m' :: ms) = found key (m :: ms) := by
  by_cases hm : m.key = key
  · rw [found, found, List.find?_cons_of_pos (by simpa using hkey.trans hm),
      List.find?_cons_of_pos (by simpa using hm), Option.map_some, Option.map_some, hvalue]
  · have hm' : m'.key ≠ key := fun h => hm (hkey.symm.trans h)
    rw [found, found, List.find?_cons_of_neg (by simpa using hm'),
      List.find?_cons_of_neg (by simpa using hm)]

theorem first_match (key : List UInt8) (ms : List (Item .object)) :
    (∀ m ∈ ms, m.key ≠ key) ∨
      ∃ as m bs, ms = as ++ m :: bs ∧ (∀ a ∈ as, a.key ≠ key) ∧ m.key = key := by
  induction ms with
  | nil => exact Or.inl (by simp)
  | cons a ms ih =>
    by_cases ha : a.key = key
    · exact Or.inr ⟨[], a, ms, rfl, by simp, ha⟩
    · have hcons : ∀ (bs : List (Item .object)), (∀ b ∈ bs, b.key ≠ key) →
        ∀ b ∈ a :: bs, b.key ≠ key := by
        intro bs hbs b hb
        rcases List.mem_cons.mp hb with rfl | hb
        · exact ha
        · exact hbs b hb
      refine ih.imp (hcons ms) ?_
      rintro ⟨as, m, bs, rfl, has, hm⟩
      exact ⟨a :: as, m, bs, rfl, hcons as has, hm⟩

/-- The slot of a key in a map: what is put there is found under the key, and all that is found
under other keys stays. -/
structure Slot.Of (slot : Slot) (o : MapText) (key : CString) : Prop where
  lead : slot.lead.chars.bytes = key.bytes
  front : ∀ a ∈ slot.front, a.key ≠ key.bytes
  others : ∀ other, other ≠ key.bytes → found other (slot.front ++ slot.back) = o.find other
  set : ∀ js, js.bytes = o.text → ∀ val valType, setValue (o.json js) key val valType =
    setResult (o.json js) (slot.ahead ++ (putText val.bytes valType ++ slot.behind))

/-- The members behind a new one: the white space of the object goes to the first of them. -/
def behindBlank (blank : Blank) : List (Item .object) → Blank × List (Item .object)
  | [] => (blank, [])
  | m :: ms => (.none,
      member { m.head with before := blank.append m.head.before } m.value m.after :: ms)

theorem found_behindBlank (key : List UInt8) (blank : Blank) (ms : List (Item .object)) :
    found key (behindBlank blank ms).2 = found key ms := by
  cases ms with
  | nil => rfl
  | cons m ms => exact found_congr key ms rfl rfl

/-- **Every key has a slot** in every map. -/
theorem exists_slot (o : MapText) (key : CString) (hkey : IsChars key.bytes) :
    ∃ slot : Slot, slot.Of o key := by
  rcases first_match key.bytes o.members with hkeys | ⟨as, m, bs, hmembers, has, hm⟩
  · refine ⟨{
      before := o.before
      blank := .none
      front := []
      lead := ⟨.none, ⟨key.bytes, hkey⟩, .none, .none⟩
      after := (behindBlank o.blank o.members).1
      back := (behindBlank o.blank o.members).2
      last := o.after }, rfl, by simp, fun other hother => ?_, fun js hjs val valType => ?_⟩
    · rw [o.find_eq]
      exact found_behindBlank other o.blank o.members
    · rw [setValue_insert hjs hkeys]
      refine congrArg _ ?_
      cases o.members with
      | nil => simp [Slot.ahead, Slot.behind, aheadOf, behindOf, behindBlank, Key.text, Blank.none,
          separated, jsonCopyAndQuote, Items.ofList, Items.text]
      | cons m ms =>
        simp [Slot.ahead, Slot.behind, aheadOf, behindOf, behindBlank, Key.text, Blank.none,
          Blank.append, separated, jsonCopyAndQuote, Items.text_cons, Item.text_head]
  · refine ⟨{
      before := o.before
      blank := o.blank
      front := as
      lead := m.head
      after := m.after
      back := bs
      last := o.after }, hm, has, fun other hother => ?_, fun js hjs val valType => ?_⟩
    · rw [o.find_eq, hmembers, found_elsewhere]
      rw [hm]
      exact Ne.symm hother
    · exact setValue_replace hjs hmembers has hm val valType

end Apple2ix.Json
