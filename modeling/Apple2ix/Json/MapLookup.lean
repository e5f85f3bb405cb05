import Apple2ix.Json.Map
import Apple2ix.Json.Members

/-! What the lookups find in a map: the value of the first member that has the key. -/
namespace Apple2ix.Json
set_option autoImplicit false

/-- The text of a map. -/
structure MapText where
  before : Blank
  blank : Blank
  members : List (Item .object)
  after : Blank

def MapText.document (o : MapText) : Document :=
  .value o.before (.container .object o.blank (.ofList o.members)) o.after

def MapText.text (o : MapText) : List UInt8 := o.document.text

/-- The map that a text is parsed to. -/
def MapText.json (o : MapText) (js : CString) : JSON := o.document.json js

def Item.head (m : Item .object) : Key := m.lead

/-- The bytes of a member's key. -/
def Item.key (m : Item .object) : List UInt8 := m.head.chars.bytes

/-- Where the members begin. -/
def MapText.body (o : MapText) : ℕ := o.before.bytes.length + 1 + o.blank.bytes.length

theorem MapText.text_eq (o : MapText) :
    o.text = o.before.bytes ++ (Kind.object.opener :: (o.blank.bytes ++
      ((Items.ofList o.members).text [] ++ Kind.object.closer :: o.after.bytes))) := by
  simp [text, document, Document.text, Value.text]

/-- The text around a member. -/
theorem MapText.text_split (o : MapText) {as bs : List (Item .object)} {m : Item .object}
    (hmembers : o.members = as ++ m :: bs) :
    o.text = (o.before.bytes ++ (Kind.object.opener :: (o.blank.bytes ++ separated as))) ++
      (m.text ++ ((Items.ofList bs).text [comma] ++ Kind.object.closer :: o.after.bytes)) := by
  rw [text_eq, hmembers, Items.text_split]
  simp only [List.nil_append, List.append_assoc, List.cons_append]

theorem MapText.tokens_eq (o : MapText) :
    o.document.tokens = (Value.container .object o.blank (.ofList o.members)).token none
        o.before.bytes.length :: (Items.ofList o.members).tokens 0 1 o.body := rfl

section
variable (o : MapText) (js : CString) {as bs : List (Item .object)} {m : Item .object}

theorem MapText.token_zero :
    (o.json js).token 0 = (Value.container .object o.blank (.ofList o.members)).token none
      o.before.bytes.length := rfl

theorem MapText.numTokens_eq : (o.json js).numTokens = 1 + sizes o.members := by
  change o.document.tokens.length = _
  rw [tokens_eq, List.length_cons, tokens_length.2, Items.size_ofList, Nat.add_comm]

/-- The tokens of a member: its key, and its value behind it. -/
theorem MapText.member_tokens (hmembers : o.members = as ++ m :: bs) :
    (o.json js).token (1 + sizes as) =
        m.head.token 0 (o.body + (separated as).length) m.value.size ∧
      (o.json js).token (1 + sizes as + 1) = m.value.token (some (1 + sizes as))
        (o.body + (separated as).length + m.head.text.length) := by
  obtain ⟨more, hmore⟩ := m.value.tokens_head (some (1 + sizes as)) (1 + sizes as + 1)
    (o.body + (separated as).length + m.head.text.length)
  have hlength : ((Items.ofList as).tokens 0 1 o.body).length = sizes as := by
    rw [tokens_length.2, Items.size_ofList]
  have htokens : ∃ rest, o.document.tokens =
      ((Value.container .object o.blank (.ofList o.members)).token none o.before.bytes.length ::
        (Items.ofList as).tokens 0 1 o.body) ++
      (m.head.token 0 (o.body + (separated as).length) m.value.size ::
        m.value.token (some (1 + sizes as)) (o.body + (separated as).length + m.head.text.length) ::
          rest) := by
    refine ⟨more ++ (Items.ofList bs).tokens 0 (1 + sizes as + 1 + m.value.size)
      (o.body + (separated as).length + m.head.text.length + m.value.text.length +
        m.after.bytes.length + 1), ?_⟩
    rw [tokens_eq, List.cons_append]
    refine congrArg (_ :: ·) ?_
    rw [hmembers, Items.tokens_append, Items.ofList, Items.tokens]
    refine congrArg (_ ++ ·) (congrArg (_ :: ·) ?_)
    change m.value.tokens (some (1 + sizes as)) (1 + sizes as + 1)
      (o.body + (separated as).length + m.head.text.length) ++ _ = _
    rw [hmore]
    rfl
  obtain ⟨rest, hrest⟩ := htokens
  have hindex : ∀ i, (o.json js).token (1 + sizes as + i) =
      (m.head.token 0 (o.body + (separated as).length) m.value.size ::
        m.value.token (some (1 + sizes as)) (o.body + (separated as).length + m.head.text.length) ::
          rest).getD i
        { type := .undefined, start := 0, stop := 0, size := 0, skip := 0, parent := some 0 } := by
    intro i
    change o.document.tokens.getD _ _ = _
    rw [hrest, List.getD_eq_getElem?_getD, List.getElem?_append_right, List.getD_eq_getElem?_getD]
    · rw [List.length_cons, hlength]
      congr 2
      omega
    · rw [List.length_cons, hlength]
      omega
  exact ⟨hindex 0, hindex 1⟩

theorem MapText.head_text (m : Item .object) :
    m.head.text = m.head.before.bytes ++ quote :: (m.key ++ quote :: (m.head.after.bytes ++
      colon :: m.head.beforeValue.bytes)) := rfl

variable {js}

/-- The text of a key, behind all that stands before it. -/
theorem MapText.key_split (hmembers : o.members = as ++ m :: bs) :
    ∃ before after, o.text = before ++ (m.key ++ after) ∧
      before.length = o.body + (separated as).length + m.head.before.bytes.length + 1 := by
  refine ⟨o.before.bytes ++ (Kind.object.opener :: (o.blank.bytes ++ separated as)) ++
    (m.head.before.bytes ++ [quote]), quote :: (m.head.after.bytes ++ colon ::
      m.head.beforeValue.bytes) ++ (m.value.text ++ m.after.bytes) ++
        ((Items.ofList bs).text [comma] ++ Kind.object.closer :: o.after.bytes), ?_, ?_⟩
  · rw [o.text_split hmembers]
    change _ ++ (m.head.text ++ (m.value.text ++ m.after.bytes) ++ _) = _
    rw [head_text]
    simp only [List.append_assoc, List.cons_append, List.nil_append]
  · simp only [List.length_append, List.length_cons, List.length_nil, body]
    omega

theorem MapText.keyMatches_eq (hjs : js.bytes = o.text) (hmembers : o.members = as ++ m :: bs)
    (key : CString) :
    keyMatches (o.json js) key (m.head.token 0 (o.body + (separated as).length) m.value.size) =
      decide (m.key = key.bytes) := by
  obtain ⟨before, after, htext, hlength⟩ := o.key_split hmembers
  have hjson : (o.json js).jsonString.bytes = before ++ (m.key ++ after) := by
    rw [← htext, ← hjs]
    rfl
  have hdrop : (o.json js).jsonString.bytes.drop
      (m.head.token 0 (o.body + (separated as).length) m.value.size).start = m.key ++ after := by
    rw [hjson, Key.token, ← hlength, List.drop_left]
  have hsize : (m.head.token 0 (o.body + (separated as).length) m.value.size).stop -
      (m.head.token 0 (o.body + (separated as).length) m.value.size).start = m.key.length :=
    Nat.add_sub_cancel_left ..
  rw [keyMatches, hdrop, hsize]
  by_cases hlen : m.key.length = key.bytes.length
  · rw [decide_eq_true hlen, ← hlen, List.take_left, Bool.true_and]
  · have hne : m.key ≠ key.bytes := fun heq => hlen (by rw [heq])
    rw [decide_eq_false hlen, decide_eq_false hne, Bool.false_and]

/-- One step of the search, at a member. -/
theorem MapText.findKey_member (hjs : js.bytes = o.text) (hmembers : o.members = as ++ m :: bs)
    (key : CString) (fuel : ℕ) :
    findKey (o.json js) key (fuel + 1) (1 + sizes as) =
      if m.key = key.bytes then .ok (some (1 + sizes as + 1))
      else findKey (o.json js) key fuel (1 + sizes (as ++ [m])) := by
  obtain ⟨hkey, hvalue⟩ := o.member_tokens js hmembers
  have hbound : ¬ (o.json js).numTokens ≤ 1 + sizes as := by
    rw [numTokens_eq, hmembers, sizes, sizes, List.map_append, List.sum_append, List.map_cons,
      List.sum_cons]
    have : m.size = 1 + m.value.size := rfl
    omega
  have hnext : 1 + sizes as + 1 + ((o.json js).token (1 + sizes as + 1)).skip =
      1 + sizes (as ++ [m]) := by
    rw [hvalue, sizes, sizes, List.map_append, List.sum_append]
    change 1 + _ + 1 + m.value.size = 1 + (_ + (1 + m.value.size + 0))
    omega
  have hvalid : ¬ (m.head.token 0 (o.body + (separated as).length) m.value.size).stop <
      (m.head.token 0 (o.body + (separated as).length) m.value.size).start :=
    Nat.not_lt.mpr (Nat.le_add_right _ _)
  rw [findKey, if_neg hbound, hnext, hkey]
  simp only [hvalid, if_false, o.keyMatches_eq hjs hmembers, decide_eq_true_eq]
  rfl

theorem MapText.findKey_end (key : CString) (fuel : ℕ) :
    findKey (o.json js) key fuel (1 + sizes o.members) = .ok none := by
  cases fuel with
  | zero => rfl
  | succ fuel => rw [findKey, if_pos (le_of_eq (o.numTokens_eq js))]

/-- The search passes members with other keys. -/
theorem MapText.findKey_skip (hjs : js.bytes = o.text) {key : CString}
    (as ms bs : List (Item .object)) (hkeys : ∀ m ∈ ms, m.key ≠ key.bytes)
    (hmembers : o.members = as ++ (ms ++ bs)) (fuel : ℕ) :
    findKey (o.json js) key (fuel + ms.length) (1 + sizes as) =
      findKey (o.json js) key fuel (1 + sizes (as ++ ms)) := by
  induction ms generalizing as with
  | nil => rw [List.append_nil, List.length_nil, Nat.add_zero]
  | cons m ms ih =>
    have hm := hkeys m (List.mem_cons_self ..)
    rw [List.length_cons, ← Nat.add_assoc, o.findKey_member hjs hmembers, if_neg hm]
    have htail := ih (as ++ [m]) (fun m' hm' => hkeys m' (List.mem_cons_of_mem _ hm'))
      (by rw [hmembers]; simp)
    rw [htail, List.append_assoc, List.singleton_append]

theorem sizes_length (ms : List (Item .object)) : ms.length ≤ sizes ms := by
  induction ms with
  | nil => exact Nat.zero_le _
  | cons m ms ih =>
    have hm : m.size = 1 + m.value.size := rfl
    rw [sizes] at ih
    rw [sizes, List.map_cons, List.sum_cons, List.length_cons]
    omega

theorem MapText.get_eq_findKey (key : CString) :
    jsonMapGetStringValue (o.json js) key =
      findKey (o.json js) key (1 + sizes o.members) (1 + sizes ([] : List (Item .object))) := by
  have hcount := o.numTokens_eq js
  rw [jsonMapGetStringValue, if_neg (by omega), hcount, o.token_zero]
  rfl

/-- **Lookup** of a key that no member has. -/
theorem MapText.get_none (hjs : js.bytes = o.text) {key : CString}
    (hkeys : ∀ m ∈ o.members, m.key ≠ key.bytes) :
    jsonMapGetStringValue (o.json js) key = .ok none := by
  have hlength := sizes_length o.members
  obtain ⟨fuel, hfuel⟩ : ∃ fuel, 1 + sizes o.members = fuel + o.members.length :=
    ⟨1 + sizes o.members - o.members.length, by omega⟩
  have hskip := o.findKey_skip hjs [] o.members [] hkeys (by simp) fuel
  rw [o.get_eq_findKey, hfuel, hskip]
  exact o.findKey_end key fuel

/-- **Lookup** of a key finds the value of the first member that has it. -/
theorem MapText.get_some (hjs : js.bytes = o.text) {key : CString}
    (hmembers : o.members = as ++ m :: bs)
    (hkeys : ∀ a ∈ as, a.key ≠ key.bytes) (hm : m.key = key.bytes) :
    jsonMapGetStringValue (o.json js) key = .ok (some (1 + sizes as + 1)) := by
  have hlength : as.length + 1 ≤ 1 + sizes o.members := by
    have := sizes_length o.members
    rw [hmembers, List.length_append, List.length_cons] at this
    rw [hmembers]
    omega
  obtain ⟨fuel, hfuel⟩ : ∃ fuel, 1 + sizes o.members = fuel + 1 + as.length :=
    ⟨1 + sizes o.members - 1 - as.length, by omega⟩
  have hskip := o.findKey_skip hjs [] as (m :: bs) hkeys hmembers (fuel + 1)
  rw [o.get_eq_findKey, hfuel, hskip, List.nil_append, o.findKey_member hjs hmembers, if_pos hm]

/-- The text around a value. -/
theorem MapText.value_split (hmembers : o.members = as ++ m :: bs) :
    ∃ before after, o.text = before ++ (m.value.text ++ after) ∧
      before.length = o.body + (separated as).length + m.head.text.length := by
  refine ⟨o.before.bytes ++ (Kind.object.opener :: (o.blank.bytes ++ separated as)) ++ m.head.text,
    m.after.bytes ++ ((Items.ofList bs).text [comma] ++ Kind.object.closer :: o.after.bytes),
    ?_, ?_⟩
  · rw [o.text_split hmembers]
    change _ ++ (m.head.text ++ (m.value.text ++ m.after.bytes) ++ _) = _
    simp only [List.append_assoc]
  · simp only [List.length_append, List.length_cons, body]
    omega

/-- The value of the first member that has a key. -/
def MapText.find (o : MapText) (key : List UInt8) : Option Value :=
  (o.members.find? fun m => m.key = key).map Item.value

/-- What all the lookups read of a value: its type and its text. -/
def lookup (map : JSON) (key : CString) : Except JsmnErr (Option (JsmnType × List UInt8)) := do
  match ← jsonMapGetStringValue map key with
  | none => .ok none
  | some idx =>
    let text ← validText map (map.token idx)
    .ok (some ((map.token idx).type, text))

theorem MapText.lookup_eq (hjs : js.bytes = o.text) (key : CString) :
    lookup (o.json js) key = .ok ((o.find key.bytes).map fun v => (v.type, v.raw)) := by
  cases hfind : o.members.find? fun m => m.key = key.bytes with
  | none =>
    have hkeys : ∀ m ∈ o.members, m.key ≠ key.bytes := by
      simpa using List.find?_eq_none.mp hfind
    rw [lookup, o.get_none hjs hkeys, find, hfind]
    rfl
  | some m =>
    obtain ⟨hm, as, bs, hmembers, has⟩ := List.find?_eq_some_iff_append.mp hfind
    have hkeys : ∀ a ∈ as, a.key ≠ key.bytes := by simpa using has
    obtain ⟨before, after, htext, hlength⟩ := o.value_split hmembers
    obtain ⟨-, hvalue⟩ := o.member_tokens js hmembers
    rw [← hlength] at hvalue
    have htoken := m.value.token_text (some (1 + sizes as)) htext
    rw [← hjs] at htoken
    rw [lookup, o.get_some hjs hmembers hkeys (by simpa using hm), find, hfind, ok_bind]
    simp only [hvalue, validText]
    rw [if_neg (m.value.token_valid _ _), ok_bind]
    exact congrArg (fun text => Except.ok (some (m.value.type, text))) htoken

/-- `json_mapCopyStringValue` reads what the lookup finds. -/
theorem copy_eq_lookup (map : JSON) (key : CString) :
    jsonMapCopyStringValue map key = (lookup map key).map (Option.map Prod.snd) := by
  rw [jsonMapCopyStringValue, lookup]
  cases jsonMapGetStringValue map key with
  | error e => rfl
  | ok found =>
    cases found with
    | none => rfl
    | some idx =>
      rw [ok_bind, ok_bind]
      cases htext : validText map (map.token idx) with
      | error e => simp only [htext]; rfl
      | ok text => simp only [htext]; rfl

end

end Apple2ix.Json
