import Mathlib.Algebra.GroupWithZero.Nat
import Apple2ix.Json.TokenText

/-! The items of a container one after the other: where each of them stands in the text, and which
tokens are its own. -/
namespace Apple2ix.Json
set_option autoImplicit false

/-- A value in a container, with what stands around it. -/
structure Item (kind : Kind) where
  lead : Lead kind
  value : Value
  after : Blank

def Items.ofList {kind : Kind} : List (Item kind) → Items kind
  | [] => .nil
  | m :: ms => .cons m.lead m.value m.after (ofList ms)

def Items.toList : {kind : Kind} → Items kind → List (Item kind)
  | _, .nil => []
  | _, .cons lead value after rest => ⟨lead, value, after⟩ :: rest.toList

theorem Items.ofList_toList {kind : Kind} (items : Items kind) : ofList items.toList = items := by
  have h : (∀ _ : Value, True) ∧
      ∀ {kind : Kind} (items : Items kind), ofList items.toList = items := by
    apply tree_induction
    · exact fun _ => trivial
    · exact fun _ => trivial
    · exact fun _ _ _ _ => trivial
    · exact fun _ => rfl
    · intro kind lead value after rest _ ih
      rw [toList, ofList, ih]
  exact h.2 items

section
variable {kind : Kind}

def Item.text (m : Item kind) : List UInt8 := m.lead.text ++ (m.value.text ++ m.after.bytes)

def Item.size (m : Item kind) : ℕ := m.lead.size + m.value.size

/-- Items, each with its comma. -/
def separated (ms : List (Item kind)) : List UInt8 := ms.flatMap fun m => m.text ++ [comma]

def sizes (ms : List (Item kind)) : ℕ := (ms.map Item.size).sum

theorem Items.toList_ofList (ms : List (Item kind)) : (ofList ms).toList = ms := by
  induction ms with
  | nil => rfl
  | cons m ms ih => rw [ofList, toList, ih]

theorem Items.size_ofList (ms : List (Item kind)) : (ofList ms).size = sizes ms := by
  induction ms with
  | nil => rfl
  | cons m ms ih =>
    rw [ofList, Items.size, ih, sizes, sizes, List.map_cons, List.sum_cons, Item.size]

theorem Items.count_ofList (ms : List (Item kind)) : (ofList ms).count = ms.length := by
  induction ms with
  | nil => rfl
  | cons m ms ih => rw [ofList, Items.count, ih, List.length_cons]

theorem Items.text_cons (separator : List UInt8) (m : Item kind) (ms : List (Item kind)) :
    (ofList (m :: ms)).text separator = separator ++ (m.text ++ (ofList ms).text [comma]) := by
  rw [ofList, Items.text, Item.text, List.append_assoc, List.append_assoc]

/-- The text around one item. -/
theorem Items.text_split (separator : List UInt8) (as : List (Item kind)) (m : Item kind)
    (bs : List (Item kind)) :
    (ofList (as ++ m :: bs)).text separator =
      separator ++ (separated as ++ (m.text ++ (ofList bs).text [comma])) := by
  induction as generalizing separator with
  | nil => exact text_cons separator m bs
  | cons a as ih =>
    rw [List.cons_append, text_cons, ih, separated, separated, List.flatMap_cons]
    simp only [List.append_assoc]

theorem Items.tokens_append (as bs : List (Item kind)) (parent idx pos : ℕ) :
    (ofList (as ++ bs)).tokens parent idx pos = (ofList as).tokens parent idx pos ++
      (ofList bs).tokens parent (idx + sizes as) (pos + (separated as).length) := by
  induction as generalizing idx pos with
  | nil => rfl
  | cons a as ih =>
    rw [List.cons_append, ofList, ofList, Items.tokens, Items.tokens, ih]
    simp only [List.append_assoc, sizes, separated, List.map_cons, List.sum_cons, Item.size,
      List.flatMap_cons, List.length_append, Item.text, List.length_cons, List.length_nil,
      Nat.zero_add, Nat.add_assoc]

end

/-! ## Values -/

def Value.type : Value → JsmnType
  | .primitive _ => .primitive
  | .string _ => .string
  | .container kind _ _ => kind.type

/-- The text that a value's token delimits. -/
def Value.raw : Value → List UInt8
  | .primitive p => p.bytes
  | .string s => s.bytes
  | .container kind blank items => (Value.container kind blank items).text

/-- Where the text of a value's token begins, behind the value's own beginning. -/
def Value.inset : Value → ℕ
  | .string _ => 1
  | _ => 0

/-- The token of a value itself. -/
def Value.token (parent : Option ℕ) (pos : ℕ) (v : Value) : Token where
  type := v.type
  start := pos + v.inset
  stop := pos + v.inset + v.raw.length
  size := match v with
    | .container _ _ items => items.count
    | _ => 0
  skip := v.size
  parent := parent

theorem Value.token_valid (v : Value) (parent : Option ℕ) (pos : ℕ) :
    ¬ (v.token parent pos).stop < (v.token parent pos).start :=
  Nat.not_lt.mpr (Nat.le_add_right _ _)

theorem Value.tokens_head (v : Value) (parent : Option ℕ) (idx pos : ℕ) :
    ∃ more, v.tokens parent idx pos = v.token parent pos :: more := by
  cases v with
  | primitive p => exact ⟨[], rfl⟩
  | string s => exact ⟨[], rfl⟩
  | container kind blank items => exact ⟨_, rfl⟩

theorem Value.text_raw (v : Value) : ∃ before after, v.text = before ++ (v.raw ++ after) ∧
    before.length = v.inset := by
  cases v with
  | primitive p => exact ⟨[], [], by simp [Value.text, Value.raw], rfl⟩
  | string s => exact ⟨[quote], [quote], rfl, rfl⟩
  | container kind blank items => exact ⟨[], [], by simp [Value.raw], rfl⟩

/-- The token of a value delimits its raw text. -/
theorem Value.token_text (v : Value) {js before after : List UInt8} (parent : Option ℕ)
    (hjs : js = before ++ (v.text ++ after)) :
    (v.token parent before.length).text js = v.raw := by
  obtain ⟨first, last, htext, hlength⟩ := v.text_raw
  refine slice_eq (before ++ first) v.raw (last ++ after) ?_ ?_ rfl
  · rw [hjs, htext]
    simp only [List.append_assoc]
  · rw [List.length_append, hlength]
    rfl

end Apple2ix.Json
