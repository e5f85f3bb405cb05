import Apple2ix.Json.Grammar

/-! The texts of tokens: what a token's offsets cut out of the text of a tree. -/
namespace Apple2ix.Json
set_option autoImplicit false

/-- The text from `start` up to `stop`. -/
def slice (js : List UInt8) (start stop : ℕ) : List UInt8 := (js.drop start).take (stop - start)

def Token.text (js : List UInt8) (t : Token) : List UInt8 := slice js t.start t.stop

def Lead.raws : {kind : Kind} → Lead kind → List (List UInt8)
  | .array, _ => []
  | .object, (k : Key) => [k.chars.bytes]

mutual

/-- The texts of a value and of what is in it, in preorder; a string goes without its quotes. -/
def Value.raws : Value → List (List UInt8)
  | .primitive p => [p.bytes]
  | .string s => [s.bytes]
  | .container kind blank items => (Value.container kind blank items).text :: items.raws

def Items.raws : {kind : Kind} → Items kind → List (List UInt8)
  | _, .nil => []
  | _, .cons lead value _ rest => lead.raws ++ (value.raws ++ rest.raws)

end

def Document.raws : Document → List (List UInt8)
  | .blank _ => []
  | .value _ v _ => v.raws

theorem slice_append (before text after : List UInt8) :
    slice (before ++ (text ++ after)) before.length (before.length + text.length) = text := by
  rw [slice, List.drop_left, Nat.add_sub_cancel_left, List.take_left]

/-- The same, for a text that is put together in another way. -/
theorem slice_eq (before text after : List UInt8) {js : List UInt8} {start stop : ℕ}
    (hjs : js = before ++ (text ++ after)) (hstart : start = before.length)
    (hstop : stop = start + text.length) : slice js start stop = text := by
  rw [hjs, hstop, hstart, slice_append]

theorem Lead.tokens_text {kind : Kind} (lead : Lead kind) (js before after : List UInt8)
    (parent valueSize : ℕ) (hjs : js = before ++ (lead.text ++ after)) :
    (lead.tokens parent before.length valueSize).map (Token.text js) = lead.raws := by
  cases kind with
  | array => rfl
  | object =>
    obtain ⟨b, chars, colon, blank⟩ : Key := lead
    refine congrArg (· :: []) (slice_eq (before ++ b.bytes ++ [quote]) chars.bytes
      (quote :: (colon.bytes ++ Json.colon :: blank.bytes) ++ after) ?_ ?_ rfl)
    · rw [hjs]
      simp [Lead.text, Key.text]
    · simp [Key.token, Nat.add_assoc]

theorem tokens_text :
    (∀ (v : Value) (js before after : List UInt8) (parent : Option ℕ) (idx : ℕ),
      js = before ++ (v.text ++ after) →
        (v.tokens parent idx before.length).map (Token.text js) = v.raws) ∧
    ∀ {kind : Kind} (items : Items kind) (js before after separator : List UInt8) (parent idx : ℕ),
      js = before ++ (items.text separator ++ after) →
        (items.tokens parent idx (before.length + separator.length)).map (Token.text js) =
          items.raws := by
  apply tree_induction
  · intro p js before after parent idx hjs
    exact congrArg (· :: []) (slice_eq before p.bytes after hjs rfl rfl)
  · intro s js before after parent idx hjs
    refine congrArg (· :: []) (slice_eq (before ++ [quote]) s.bytes (quote :: after) ?_ ?_ rfl)
    · rw [hjs]
      simp [Value.text]
    · simp
  · intro kind blank items ih js before after parent idx hjs
    rw [Value.tokens, List.map_cons, Value.raws]
    refine congrArg₂ List.cons (slice_eq before _ after hjs rfl rfl) ?_
    have hitems :=
      ih js (before ++ kind.opener :: blank.bytes) (kind.closer :: after) [] idx (idx + 1) ?_
    · simpa [Nat.add_assoc, Nat.add_comm 1] using hitems
    · rw [hjs]
      simp [Value.text]
  · exact fun _ _ _ _ _ _ _ _ => rfl
  · intro kind lead value blank rest hvalue hrest js before after separator parent idx hjs
    rw [Items.tokens, List.map_append, List.map_append, Items.raws]
    rw [Items.text] at hjs
    have hlead := lead.tokens_text js (before ++ separator)
      (value.text ++ (blank.bytes ++ (Items.text [comma] rest ++ after))) parent value.size ?_
    · rw [List.length_append] at hlead
      rw [hlead]
      refine congrArg _ (congrArg₂ _ ?_ ?_)
      · have hv := hvalue js (before ++ separator ++ lead.text)
          (blank.bytes ++ (Items.text [comma] rest ++ after)) (some (lead.super parent idx))
          (idx + lead.size) ?_
        · simpa [Nat.add_assoc] using hv
        · rw [hjs]
          simp
      · have hr := hrest js (before ++ separator ++ lead.text ++ value.text ++ blank.bytes) after
          [comma] parent (idx + lead.size + value.size) ?_
        · simpa [Nat.add_assoc] using hr
        · rw [hjs]
          simp
    · rw [hjs]
      simp

/-- **The offsets** of the tokens delimit the texts of the tree. -/
theorem Document.tokens_text (d : Document) : d.tokens.map (Token.text d.text) = d.raws := by
  cases d with
  | blank b => rfl
  | value before v after => exact Json.tokens_text.1 v _ before.bytes after.bytes none 0 rfl

end Apple2ix.Json
