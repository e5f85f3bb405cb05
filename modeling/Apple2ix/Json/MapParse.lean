import Apple2ix.Json.MapSet

/-! Parsing a text that has something else in the place of a map's value: up to that place the
parser does what it did before, and from there on the grammar says what may come. -/
namespace Apple2ix.Json
set_option autoImplicit false

/-! ## Texts have no terminator in them -/

theorem chars_noNul {text : List UInt8} (h : IsChars text) : (0 : UInt8) ∉ text := by
  induction h with
  | nil => simp
  | plain hzero _ _ _ ih => simp [Ne.symm hzero, ih]
  | @escape e rest hescape _ ih =>
    have he : e ≠ 0 := by
      rintro rfl
      exact absurd hescape (by decide)
    simp [Ne.symm he, ih, Ne.symm backslash_ne.1]
  | @unicode digits rest _ hdigits _ ih =>
    have hd : (0 : UInt8) ∉ digits := fun hmem => hex_ne_zero (hdigits 0 hmem) rfl
    simp [hd, ih, Ne.symm backslash_ne.1]

theorem Blank.noNul (b : Blank) : (0 : UInt8) ∉ b.bytes := fun h => space_ne_zero (b.space 0 h) rfl

theorem Primitive.noNul (p : Primitive) : (0 : UInt8) ∉ p.bytes :=
  fun h => inPrimitive_ne_zero (primitive_inPrimitive p.primitive 0 h) rfl

theorem colon_ne_zero : colon ≠ 0 := by decide

theorem comma_ne_zero : comma ≠ 0 := by decide

theorem Lead.noNul {kind : Kind} (lead : Lead kind) : (0 : UInt8) ∉ lead.text := by
  cases kind with
  | array => exact Blank.noNul lead
  | object =>
    obtain ⟨before, chars, after, beforeValue⟩ : Key := lead
    simp [Lead.text, Key.text, before.noNul, chars_noNul chars.chars, after.noNul,
      beforeValue.noNul,
      Ne.symm quote_ne_zero, Ne.symm colon_ne_zero]

theorem tree_noNul :
    (∀ v : Value, (0 : UInt8) ∉ v.text) ∧
      ∀ {kind : Kind} (items : Items kind) (separator : List UInt8), (0 : UInt8) ∉ separator →
        (0 : UInt8) ∉ items.text separator := by
  apply tree_induction
  · exact fun p => p.noNul
  · intro s
    simp [Value.text, chars_noNul s.chars, Ne.symm quote_ne_zero]
  · intro kind blank items ih
    simp [Value.text, blank.noNul, ih [] (by simp), Ne.symm (opener_ne_zero kind),
      Ne.symm (closer_ne_zero kind)]
  · intro kind separator hseparator
    simp [Items.text]
  · intro kind lead value after rest hvalue hrest separator hseparator
    simp [Items.text, hseparator, lead.noNul, hvalue, after.noNul,
      hrest [comma] (by simp [Ne.symm comma_ne_zero])]

theorem Document.noNul (d : Document) : (0 : UInt8) ∉ d.text := by
  cases d with
  | blank b => exact b.noNul
  | value before v after => simp [Document.text, before.noNul, tree_noNul.1 v, after.noNul]

/-! ## Up to the place of a value -/

section
variable {n : ℕ} {p : Parser} {rest : List UInt8} {z : Stack} {s : Status}

/-- A key, with all that stands before its value. -/
theorem reading_key (k : Key) (h : Reads p z s) (hs : s.needsKey = true) :
    Reading n p k.text rest fun q => ∃ z', Reads q z' .colon ∧ z'.entries = .key :: z.entries := by
  cases z with
  | bottom us => exact absurd rfl (h.at_.needsKey_top hs)
  | push y entry t below =>
    have hunder := h.at_.needsKey_under hs
    cases hunder
    have htext : k.text = k.before.bytes ++ ((quote :: (k.chars.bytes ++ [quote])) ++
        (k.after.bytes ++ ([colon] ++ k.beforeValue.bytes))) := by
      simp [Key.text]
    rw [htext]
    refine (reading_blank h k.before.space).append fun q₁ _ h₁ => ?_
    refine (reading_keyString h₁ hs k.chars.chars).append fun q₂ _ hread => ?_
    obtain ⟨d, h₂⟩ := hread
    refine (reading_blank h₂ k.after.space).append fun q₃ _ h₃ => ?_
    refine (reading_colon h₃).append fun q₄ _ h₄ => ?_
    refine (reading_blank h₄ k.beforeValue.space).imp fun q₅ _ h₅ => ⟨_, h₅, ?_⟩
    simp only [Stack.entries, Stack.entries_grow]

theorem entries_settle {y : Stack} {kind : Kind} {t : PrivTok} {below : List PrivTok}
    (hz : z.settle = .push y (.container kind) t below) {entries : List Entry}
    (hentries : z.entries = .key :: entries) :
      (Stack.push y (.container kind) t below).entries = entries := by
  rw [← hz]
  fun_cases Stack.settle z with
  | case1 z entry t below k more =>
    cases hentries
    rfl
  | case2 z hsettle =>
    cases z with
    | bottom us => cases hentries
    | push z entry t below =>
      cases hentries
      cases z with
      | bottom us =>
        rw [Stack.settle] at hz
        cases hz
        simp
      | push z entry' t' below' => exact absurd rfl (hsettle z entry' t' below' t below)

/-- Members, each with its comma. -/
theorem reading_members (ms : List (Item .object)) (h : Reads p z s) (hs : s.needsKey = true)
    (hentries : z.entries = [.container .object]) :
    Reading n p (separated ms) rest fun q => ∃ z' s', Reads q z' s' ∧ s'.needsKey = true ∧
      z'.entries = [.container .object] := by
  induction ms generalizing p z s with
  | nil => exact .nil ⟨z, s, h, hs, hentries⟩
  | cons m ms ih =>
    have htext : separated (m :: ms) =
        m.head.text ++ (m.value.text ++ (m.after.bytes ++ ([comma] ++ separated ms))) := by
      simp [separated, Item.text_head]
    rw [htext]
    refine (reading_key m.head h hs).append fun q₁ _ hread => ?_
    obtain ⟨z₁, h₁, hz₁⟩ := hread
    have hdelimited : Delimited ((m.after.bytes ++ ([comma] ++ separated ms)) ++ rest) := by
      rw [List.append_assoc]
      exact delimited_append m.after.space (delimited_cons rfl)
    refine (reading_tree.1 m.value _ h₁ rfl hdelimited).append fun q₂ _ hread => ?_
    obtain ⟨ts, h₂, _⟩ := hread
    refine (reading_blank h₂ m.after.space).append fun q₃ _ h₃ => ?_
    have hentries₃ :
        ((z₁.counted.grow m.value.size).add ts).entries = [.key, .container .object] := by
      rw [Stack.entries_add, Stack.entries_grow, Stack.entries_counted, hz₁, hentries]
    have htop : ((z₁.counted.grow m.value.size).add ts).top ≠ none := by
      intro hnone
      generalize (z₁.counted.grow m.value.size).add ts = z₃ at hnone hentries₃
      cases z₃ with
      | bottom us => cases hentries₃
      | push => cases hnone
    obtain ⟨y, kind, t, below, u, i, hz, -, -⟩ := h₃.settle_value htop
    have hsettled := entries_settle hz hentries₃
    refine (reading_comma h₃ hz).append fun q₄ _ hread => ?_
    obtain ⟨below', _, h₄⟩ := hread
    have hentries₄ : (Stack.push y (.container kind) t below').entries = [.container .object] :=
      hsettled
    have hkind : kind = .object := by
      simp only [Stack.entries, List.cons.injEq, Entry.container.injEq] at hentries₄
      exact hentries₄.1
    subst hkind
    exact ih h₄ rfl hentries₄

/-- **All that stands before a value** in a map. -/
theorem reading_ahead (n : ℕ) (slot : Slot) (rest : List UInt8) :
    Reading n jsmnInit slot.ahead rest fun q => ∃ z, Reads q z .colon ∧
      z.entries = [.key, .container .object] := by
  have htext : slot.ahead = slot.before.bytes ++ ([Kind.object.opener] ++ (slot.blank.bytes ++
      (separated slot.front ++ slot.lead.text))) := rfl
  rw [htext]
  refine (reading_blank reads_init slot.before.space).append fun q₁ _ h₁ => ?_
  refine (reading_open .object h₁ rfl).append fun q₂ _ ⟨d, h₂⟩ => ?_
  refine (reading_blank h₂ slot.blank.space).append fun q₃ _ h₃ => ?_
  refine (reading_members slot.front h₃ rfl rfl).append fun q₄ _ ⟨z₄, s₄, h₄, hs₄, hz₄⟩ => ?_
  refine (reading_key slot.lead h₄ hs₄).imp fun q₅ _ ⟨z₅, h₅, hz₅⟩ => ⟨z₅, h₅, ?_⟩
  rw [hz₅, hz₄]

end

/-- Behind a part that has been read, an accepted text goes on as the grammar has it. -/
theorem accepted_reads {first rest : List UInt8} {P : Parser → Prop}
    (haccepted : ∃ d : Document, d.text = first ++ rest)
    (hread : ∀ n, Reading n jsmnInit first rest P) :
    ∃ n q r, P q ∧ jsmnLoop n q rest = .ok r ∧ r.toksuper = none := by
  obtain ⟨d, hd⟩ := haccepted
  have hzero : (0 : UInt8) ∉ first ++ rest := by
    rw [← hd]
    exact d.noNul
  let n := (first ++ rest).length + 1
  have hroom : ∀ {e}, jsmnParse (first ++ rest) n = .error e → e ≠ .nomem := fun h he => by
    have := (jsmnParse_error hzero h).2 he
    omega
  obtain ⟨r, hr, htop⟩ : ∃ r, jsmnLoop n jsmnInit (first ++ rest) = .ok r ∧ r.toksuper = none := by
    obtain ⟨-, hok⟩ := jsmnLoop_decides n (first ++ rest) hzero reads_init
    rcases jsmnParse_document d n with hnomem | ⟨ts, hts, -⟩
    · rw [hd] at hnomem
      exact absurd rfl (hroom hnomem)
    · rw [hd] at hts
      cases hloop : jsmnLoop n jsmnInit (first ++ rest) with
      | error e =>
        rw [jsmnParse, hloop] at hts
        cases hts
      | ok r =>
        obtain ⟨z, s, hreads, -⟩ := hok r hloop
        rw [jsmnParse_loop hloop hreads] at hts
        split_ifs at hts with htop
        exact ⟨r, rfl, hreads.super.trans htop⟩
  rcases hread n with ⟨hnomem, -⟩ | ⟨q, hq, -, hP⟩
  · rw [hnomem] at hr
    cases hr
  · exact ⟨n, q, r, hP, hq ▸ hr, htop⟩

/-- **What is put in the place of a value** begins with a value if the text is accepted. -/
theorem accepted_value (slot : Slot) {rest : List UInt8}
    (haccepted : ∃ d : Document, d.text = slot.ahead ++ rest) :
    ValueThen [.key, .container .object] rest := by
  have hzero : (0 : UInt8) ∉ rest := by
    obtain ⟨d, hd⟩ := haccepted
    intro hmem
    refine d.noNul ?_
    rw [hd]
    exact List.mem_append_right _ hmem
  obtain ⟨n, q, r, ⟨z, hz, hentries⟩, hloop, htop⟩ :=
    accepted_reads haccepted fun n => reading_ahead n slot rest
  obtain ⟨-, hok⟩ := jsmnLoop_decides n rest hzero hz
  obtain ⟨z', s', hr, hcompletes⟩ := hok r hloop
  rw [hentries] at hcompletes
  exact hcompletes (hr.super.symm.trans htop)

end Apple2ix.Json
