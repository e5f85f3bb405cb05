import Apple2ix.Json.SetFrame

/-! How deep a text is in strings and containers, and what may stand behind a quote of a text. -/
namespace Apple2ix.Json
set_option autoImplicit false

/-! ## The scan -/

/-- Behind a part of a text: whether an escape is open, whether it is in a string, and how many
containers are open. -/
structure Scan where
  escaped : Bool
  inString : Bool
  depth : ℤ

def weight (c : UInt8) : ℤ :=
  if c = Kind.array.opener ∨ c = Kind.object.opener then 1
  else if c = Kind.array.closer ∨ c = Kind.object.closer then -1
  else 0

def Scan.step (s : Scan) (c : UInt8) : Scan :=
  if s.escaped then { s with escaped := false }
  else if c = backslash then { s with escaped := true }
  else if c = quote then { s with inString := !s.inString }
  else if s.inString then s
  else { s with depth := s.depth + weight c }

def scan (s : Scan) (text : List UInt8) : Scan := text.foldl Scan.step s

def outside (depth : ℤ) : Scan := ⟨false, false, depth⟩

def inside (depth : ℤ) : Scan := ⟨false, true, depth⟩

theorem scan_append (s : Scan) (first rest : List UInt8) :
    scan s (first ++ rest) = scan (scan s first) rest := List.foldl_append

theorem scan_cons (s : Scan) (c : UInt8) (rest : List UInt8) :
    scan s (c :: rest) = scan (s.step c) rest := rfl

/-- Whether a text begins in a string or not, it does the opposite at its end. -/
theorem scan_flip (text : List UInt8) {s t : Scan} (hescaped : s.escaped = t.escaped)
    (hstring : s.inString = !t.inString) : (scan s text).inString = !(scan t text).inString := by
  induction text generalizing s t with
  | nil => exact hstring
  | cons c text ih =>
    rw [scan_cons, scan_cons]
    apply ih
    · rw [Scan.step, Scan.step, hescaped]
      split_ifs <;> simp_all
    · rw [Scan.step, Scan.step, hescaped]
      split_ifs <;> simp_all

theorem scan_chars {text : List UInt8} (h : IsChars text) (d : ℤ) :
    scan (inside d) text = inside d := by
  have hplain : ∀ c, c ≠ backslash → c ≠ quote → (inside d).step c = inside d := by
    intro c hbackslash hquote
    simp only [Scan.step, inside, hbackslash, hquote, if_false, if_true, Bool.false_eq_true]
  have hescape : ∀ e, ((inside d).step backslash).step e = inside d := fun e => rfl
  induction h with
  | nil => rfl
  | plain _ hquote hbackslash _ ih => rw [scan_cons, hplain _ hbackslash hquote, ih]
  | escape _ _ ih => rw [scan_cons, scan_cons, hescape, ih]
  | @unicode digits rest _ hdigits _ ih =>
    have hscan : ∀ ds : List UInt8, (∀ c ∈ ds, isHex c = true) → scan (inside d) ds = inside d := by
      intro ds hds
      induction ds with
      | nil => rfl
      | cons c ds ihds =>
        have hc := hds c (List.mem_cons_self ..)
        rw [scan_cons, hplain c, ihds fun e he => hds e (List.mem_cons_of_mem _ he)]
        · rintro rfl
          exact absurd hc (by decide)
        · rintro rfl
          exact absurd hc (by decide)
    rw [scan_cons, scan_cons, hescape, scan_append, hscan digits hdigits, ih]

/-! ## Texts from outside to outside -/

/-- A text that begins and ends outside of strings, so much deeper in containers. -/
def Shifts (e : ℤ) (text : List UInt8) : Prop := ∀ d, scan (outside d) text = outside (d + e)

/-- A text that begins in a string and ends outside of strings. -/
def Inside (text : List UInt8) : Prop := ∃ e, ∀ d, scan (inside d) text = outside (d + e)

theorem Shifts.nil : Shifts 0 [] := by
  intro d
  rw [Int.add_zero]
  rfl

theorem Shifts.append {a b : ℤ} {first rest : List UInt8} (hfirst : Shifts a first)
    (hrest : Shifts b rest) : Shifts (a + b) (first ++ rest) := by
  intro d
  rw [scan_append, hfirst, hrest, Int.add_assoc]

theorem Inside.append {b : ℤ} {first rest : List UInt8} (hfirst : Inside first)
    (hrest : Shifts b rest) : Inside (first ++ rest) := by
  obtain ⟨a, hfirst⟩ := hfirst
  refine ⟨a + b, fun d => ?_⟩
  rw [scan_append, hfirst, hrest, Int.add_assoc]

theorem Shifts.unique {a b : ℤ} {text : List UInt8} (ha : Shifts a text) (hb : Shifts b text) :
    a = b := by
  have heq := (ha 0).symm.trans (hb 0)
  rw [Int.zero_add, Int.zero_add] at heq
  exact congrArg Scan.depth heq

theorem Shifts.not_inside {a : ℤ} {text : List UInt8} (ha : Shifts a text) : ¬ Inside text := by
  rintro ⟨b, hb⟩
  have hflip := @scan_flip text (inside 0) (outside 0) rfl rfl
  rw [ha, hb] at hflip
  cases hflip

theorem Shifts.char {c : UInt8} (h : c ≠ backslash ∧ c ≠ quote) : Shifts (weight c) [c] := by
  intro d
  rw [scan_cons]
  simp only [Scan.step, outside, h.1, h.2, if_false, Bool.false_eq_true]
  rfl

theorem Shifts.quiet {text : List UInt8}
    (h : ∀ c ∈ text, (c ≠ backslash ∧ c ≠ quote) ∧ weight c = 0) : Shifts 0 text := by
  induction text with
  | nil => exact .nil
  | cons c text ih =>
    obtain ⟨hc, hweight⟩ := h c (List.mem_cons_self ..)
    have hchar := Shifts.char hc
    rw [hweight] at hchar
    exact hchar.append (ih fun d hd => h d (List.mem_cons_of_mem _ hd))

theorem shifts_opener (kind : Kind) : Shifts 1 [kind.opener] := by
  cases kind
  · exact Shifts.char (by decide)
  · exact Shifts.char (by decide)

theorem shifts_closer (kind : Kind) : Shifts (-1) [kind.closer] := by
  cases kind
  · exact Shifts.char (by decide)
  · exact Shifts.char (by decide)

theorem shifts_space {text : List UInt8} (h : ∀ c ∈ text, isSpace c = true) : Shifts 0 text := by
  have hall : ∀ c : UInt8, isSpace c = true → (c ≠ backslash ∧ c ≠ quote) ∧ weight c = 0 :=
    forall_uint8 (by decide)
  exact .quiet fun c hc => hall c (h c hc)

theorem shifts_primitive (p : Primitive) : Shifts 0 p.bytes := by
  have hall : ∀ c : UInt8, isWord c = true → (c ≠ backslash ∧ c ≠ quote) ∧ weight c = 0 :=
    forall_uint8 (by decide)
  exact .quiet fun c hc => hall c (primitive_word p.primitive c hc)

theorem inside_chars (s : Chars) : Inside (s.bytes ++ [quote]) := by
  refine ⟨0, fun d => ?_⟩
  rw [scan_append, scan_chars s.chars, Int.add_zero]
  rfl

theorem shifts_string (s : Chars) : Shifts 0 (quote :: (s.bytes ++ [quote])) := by
  intro d
  rw [scan_cons, Int.add_zero]
  change scan (inside d) _ = _
  rw [scan_append, scan_chars s.chars]
  rfl

theorem shifts_key (k : Key) : Shifts 0 k.text := by
  have htext : k.text = k.before.bytes ++ ((quote :: (k.chars.bytes ++ [quote])) ++
      (k.after.bytes ++ ([colon] ++ k.beforeValue.bytes))) := by
    simp [Key.text]
  rw [htext]
  exact (shifts_space k.before.space).append ((shifts_string k.chars).append
    ((shifts_space k.after.space).append ((Shifts.char (by decide)).append
      (shifts_space k.beforeValue.space))))

theorem shifts_lead {kind : Kind} (lead : Lead kind) : Shifts 0 lead.text := by
  cases kind with
  | array => exact shifts_space (Blank.space lead)
  | object => exact shifts_key lead

/-- **Trees** end as deep as they begin. -/
theorem shifts_tree :
    (∀ v : Value, Shifts 0 v.text) ∧
      ∀ {kind : Kind} (items : Items kind) (separator : List UInt8), Shifts 0 separator →
        Shifts 0 (items.text separator) := by
  apply tree_induction
  · exact shifts_primitive
  · exact shifts_string
  · intro kind blank items ih
    exact (shifts_opener kind).append ((shifts_space blank.space).append
      ((ih [] .nil).append (shifts_closer kind)))
  · exact fun _ _ _ => .nil
  · intro kind lead value after rest hvalue hrest separator hseparator
    exact hseparator.append ((shifts_lead lead).append (hvalue.append
      ((shifts_space after.space).append (hrest [comma] (.char (by decide))))))

/-! ## Behind a quote -/

theorem cut_append {a b front back : List UInt8} {c : UInt8} (h : a ++ b = front ++ c :: back) :
    (∃ back', a = front ++ c :: back' ∧ back = back' ++ b) ∨
      ∃ front', b = front' ++ c :: back ∧ front = a ++ front' := by
  rcases List.append_eq_append_iff.mp h with ⟨as, hfront, hb⟩ | ⟨cs, ha, hback⟩
  · exact Or.inr ⟨as, hb, hfront⟩
  · cases cs with
    | nil => exact Or.inr ⟨[], hback.symm, by rw [ha]; simp⟩
    | cons d cs =>
      obtain ⟨rfl, rfl⟩ := List.cons.inj hback
      exact Or.inl ⟨cs, ha, rfl⟩

theorem cut_cons {a c : UInt8} {b front back : List UInt8} (hne : a ≠ c)
    (h : a :: b = front ++ c :: back) :
    ∃ front', b = front' ++ c :: back ∧ front = a :: front' := by
  cases front with
  | nil => exact absurd (List.cons.inj h).1 hne
  | cons d front =>
    obtain ⟨rfl, hb⟩ := List.cons.inj h
    exact ⟨front, hb, rfl⟩

theorem cut_none {text front back : List UInt8} (h : ∀ c ∈ text, c ≠ quote) :
    text ≠ front ++ quote :: back := by
  rintro rfl
  exact h quote (by simp) rfl

theorem cut_blank (b : Blank) {front back : List UInt8} : b.bytes ≠ front ++ quote :: back := by
  refine cut_none fun c hc => ?_
  rintro rfl
  exact absurd (b.space _ hc) (by decide)

/-- Behind a quote in a string come characters of the string. -/
theorem chars_cut {text front back : List UInt8} (h : IsChars text)
    (hcut : text = front ++ quote :: back) : IsChars back := by
  induction h generalizing front with
  | nil => simp at hcut
  | plain _ hquote _ _ ih =>
    obtain ⟨front', hrest, -⟩ := cut_cons hquote hcut
    exact ih hrest
  | @escape e rest _ hrest ih =>
    obtain ⟨front', hrest', -⟩ := cut_cons backslash_ne.2 hcut
    cases front' with
    | nil =>
      obtain ⟨-, rfl⟩ := List.cons.inj hrest'
      exact hrest
    | cons d front' => exact ih (List.cons.inj hrest').2
  | @unicode digits rest _ hdigits _ ih =>
    obtain ⟨front', hrest', -⟩ := cut_cons backslash_ne.2 hcut
    obtain ⟨front', hrest', -⟩ := cut_cons (by decide) hrest'
    rcases cut_append hrest' with ⟨back', hback, -⟩ | ⟨front', hfront, -⟩
    · refine absurd hback (cut_none fun c hc => ?_)
      rintro rfl
      exact absurd (hdigits _ hc) (by decide)
    · exact ih hfront

theorem string_cut (s : Chars) {front back : List UInt8}
    (h : quote :: (s.bytes ++ [quote]) = front ++ quote :: back) : Inside back ∨ back = [] := by
  cases front with
  | nil =>
    obtain ⟨-, rfl⟩ := List.cons.inj h
    exact Or.inl (inside_chars s)
  | cons d front =>
    rcases cut_append (List.cons.inj h).2 with ⟨back', hback, rfl⟩ | ⟨front', hfront, -⟩
    · exact Or.inl (inside_chars ⟨back', chars_cut s.chars hback⟩)
    · cases front' with
      | nil => exact Or.inr (List.cons.inj hfront).2.symm
      | cons e front' =>
        have := congrArg List.length hfront
        simp at this

theorem key_cut (k : Key) {front back : List UInt8} (h : k.text = front ++ quote :: back) :
    Inside back ∨ back = k.after.bytes ++ colon :: k.beforeValue.bytes := by
  have htext : k.text = k.before.bytes ++ ((quote :: (k.chars.bytes ++ [quote])) ++
      (k.after.bytes ++ ([colon] ++ k.beforeValue.bytes))) := by
    simp [Key.text]
  have hbehind : Shifts 0 (k.after.bytes ++ ([colon] ++ k.beforeValue.bytes)) :=
    (shifts_space k.after.space).append ((Shifts.char (by decide)).append
      (shifts_space k.beforeValue.space))
  rw [htext] at h
  rcases cut_append h with ⟨_, hblank, -⟩ | ⟨_, h, -⟩
  · exact absurd hblank (cut_blank _)
  · rcases cut_append h with ⟨back', hstring, rfl⟩ | ⟨_, h, -⟩
    · rcases string_cut k.chars hstring with hinside | rfl
      · exact Or.inl (hinside.append hbehind)
      · exact Or.inr rfl
    · rcases cut_append h with ⟨_, hblank, -⟩ | ⟨_, h, -⟩
      · exact absurd hblank (cut_blank _)
      · obtain ⟨_, h, -⟩ := cut_cons (by decide) h
        exact absurd h (cut_blank _)

theorem lead_cut {kind : Kind} (lead : Lead kind) {front back : List UInt8}
    (h : lead.text = front ++ quote :: back) : Inside back ∨ Shifts 0 back := by
  cases kind with
  | array => exact absurd h (cut_blank _)
  | object =>
    refine (key_cut lead h).imp_right fun hback => ?_
    rw [hback]
    exact (shifts_space (Key.after lead).space).append
      ((Shifts.char (c := colon) (by decide)).append (shifts_space (Key.beforeValue lead).space))

/-- **Behind a quote in a value**: the rest of a string, or the rest of a container, or nothing,
when the value is a string. -/
theorem tree_cut :
    (∀ (v : Value) (front back : List UInt8), v.text = front ++ quote :: back →
      Inside back ∨ (∃ k : ℕ, Shifts (-(k + 1)) back) ∨ back = []) ∧
      ∀ {kind : Kind} (items : Items kind) (separator front back : List UInt8),
        (∀ c ∈ separator, c ≠ quote) → items.text separator = front ++ quote :: back →
        Inside back ∨ ∃ k : ℕ, Shifts (-k) back := by
  apply tree_induction
  · intro p front back h
    refine absurd h (cut_none fun c hc => ?_)
    rintro rfl
    exact absurd (primitive_word p.primitive _ hc) (by decide)
  · exact fun s front back h => (string_cut s h).imp_right Or.inr
  · intro kind blank items ih front back h
    have hopener : kind.opener ≠ quote := by cases kind <;> decide
    have hcloser : kind.closer ≠ quote := by cases kind <;> decide
    obtain ⟨_, h, -⟩ := cut_cons hopener h
    rcases cut_append h with ⟨_, hblank, -⟩ | ⟨_, h, -⟩
    · exact absurd hblank (cut_blank _)
    · rcases cut_append h with ⟨back', hitems, rfl⟩ | ⟨_, h, -⟩
      · rcases ih [] _ back' (by simp) hitems with hinside | ⟨k, hshifts⟩
        · exact Or.inl (hinside.append (shifts_closer kind))
        · refine Or.inr (Or.inl ⟨k, ?_⟩)
          rw [Int.neg_add]
          exact hshifts.append (shifts_closer kind)
      · exact absurd h (cut_none (by simpa using hcloser))
  · intro kind separator front back _ h
    simp [Items.text] at h
  · intro kind lead value after rest hvalue hrest separator front back hseparator h
    have hcomma : ∀ c ∈ [comma], c ≠ quote := by simp; decide
    have hrestShifts : Shifts 0 (after.bytes ++ rest.text [comma]) :=
      (shifts_space after.space).append (shifts_tree.2 rest [comma] (.char (by decide)))
    rw [Items.text] at h
    rcases cut_append h with ⟨_, h, -⟩ | ⟨_, h, -⟩
    · exact absurd h (cut_none hseparator)
    · rcases cut_append h with ⟨back', hlead, rfl⟩ | ⟨_, h, -⟩
      · have hbehind := (shifts_tree.1 value).append hrestShifts
        refine (lead_cut lead hlead).imp (fun hinside => hinside.append hbehind) fun hshifts => ?_
        exact ⟨0, hshifts.append hbehind⟩
      · rcases cut_append h with ⟨back', hcut, rfl⟩ | ⟨_, h, -⟩
        · rcases hvalue _ back' hcut with hinside | ⟨k, hshifts⟩ | rfl
          · exact Or.inl (hinside.append hrestShifts)
          · exact Or.inr ⟨k + 1, hshifts.append hrestShifts⟩
          · exact Or.inr ⟨0, hrestShifts⟩
        · rcases cut_append h with ⟨_, hblank, -⟩ | ⟨_, h, -⟩
          · exact absurd hblank (cut_blank _)
          · exact hrest [comma] _ back hcomma h

end Apple2ix.Json
