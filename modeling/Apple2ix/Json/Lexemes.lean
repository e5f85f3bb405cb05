import Apple2ix.Foundations.Bytes
import Apple2ix.Json.Grammar

/-! What the loops of jsmn.c over single characters accept: strings and primitives as the grammar
has them. -/
namespace Apple2ix.Json
set_option autoImplicit false

/-! ## Strings -/

theorem quote_ne_zero : quote ≠ 0 := by decide

theorem backslash_ne : backslash ≠ 0 ∧ backslash ≠ quote := by decide

theorem hex_ne_zero {c : UInt8} (h : isHex c = true) : c ≠ 0 := by
  rintro rfl
  exact absurd h (by decide)

theorem not_escape_unicode : isEscape 0x75 = false := by decide

theorem hexLoop_digits {n : ℕ} {digits : List UInt8} (rest : List UInt8)
    (hlength : digits.length = n)
    (h : ∀ d ∈ digits, isHex d = true) : hexLoop n (digits ++ rest) = .ok n := by
  induction n generalizing digits with
  | zero => rfl
  | succ n ih =>
    cases digits with
    | nil => simp at hlength
    | cons d digits =>
      have hd := h d (List.mem_cons_self ..)
      rw [List.cons_append, hexLoop, if_neg (hex_ne_zero hd), if_pos hd,
        ih (by simpa using hlength) fun e he => h e (List.mem_cons_of_mem _ he)]
      rfl

/-- The loop takes as many digits as it can, up to `n`. -/
theorem hexLoop_ok {n taken : ℕ} {text : List UInt8} (h : hexLoop n text = .ok taken) :
    taken ≤ n ∧ taken ≤ text.length ∧ (∀ d ∈ text.take taken, isHex d = true) ∧
      (taken < n → text.drop taken = [] ∨ (text.drop taken).head? = some 0) := by
  induction n generalizing taken text with
  | zero =>
    cases h
    simp
  | succ n ih =>
    cases text with
    | nil =>
      cases h
      simp
    | cons c text =>
      rw [hexLoop] at h
      split_ifs at h with hzero hhex
      · cases h
        simp [hzero]
      · obtain ⟨more, hmore, heq⟩ := bind_eq_ok.mp h
        cases heq
        obtain ⟨hle, hlength, hdigits, hend⟩ := ih hmore
        refine ⟨by omega, by simpa using hlength, ?_, fun hlt => ?_⟩
        · intro d hd
          rw [List.take_succ_cons, List.mem_cons] at hd
          rcases hd with rfl | hd
          · exact hhex
          · exact hdigits d hd
        · rw [List.drop_succ_cons]
          exact hend (by omega)

/-- **Strings** are read up to their quote. -/
theorem stringLoop_chars {s : List UInt8} (rest : List UInt8) (h : IsChars s) :
    stringLoop (s ++ quote :: rest) = .ok s.length := by
  induction h with
  | nil =>
    rw [List.nil_append, stringLoop.eq_def]
    simp only [quote_ne_zero, if_false, if_true]
    rfl
  | @plain c s hzero hquote hbackslash _ ih =>
    rw [List.cons_append, stringLoop.eq_def]
    simp only [hzero, hquote, hbackslash, if_false, ih]
    rfl
  | @escape e s hescape _ ih =>
    rw [List.cons_append, List.cons_append, stringLoop, if_neg backslash_ne.1,
      if_neg backslash_ne.2, if_pos rfl]
    simp only [hescape, if_true, ih]
    rfl
  | @unicode digits s hlength hdigits _ ih =>
    have hhex : hexLoop 4 (digits ++ (s ++ quote :: rest)) = .ok 4 :=
      hexLoop_digits _ hlength hdigits
    have hdrop : (digits ++ (s ++ quote :: rest)).drop 4 = s ++ quote :: rest := by
      rw [← hlength, List.drop_left]
    rw [List.cons_append, List.cons_append, List.append_assoc, stringLoop, if_neg backslash_ne.1,
      if_neg backslash_ne.2, if_pos rfl]
    simp only [not_escape_unicode, Bool.false_eq_true, if_false, if_true, hhex, ok_bind, hdrop, ih]
    simp [hlength]
    omega

theorem stringLoop_stops {text : List UInt8} (h : text = [] ∨ text.head? = some 0) :
    stringLoop text = .error .part := by
  cases text with
  | nil => rw [stringLoop.eq_def]
  | cons c text =>
    have hzero : c = 0 := by simpa using h
    rw [stringLoop.eq_def]
    simp only [hzero, if_true]

/-- What is read as a string is one. -/
theorem stringLoop_ok {text : List UInt8} {n : ℕ} (h : stringLoop text = .ok n) :
    ∃ s rest, text = s ++ quote :: rest ∧ IsChars s ∧ s.length = n := by
  fun_induction stringLoop text generalizing n with
  | case1 => cases h
  | case2 => cases h
  | case3 text =>
    cases h
    exact ⟨[], text, rfl, .nil, rfl⟩
  | case4 => cases h
  | case5 e text hescape _ _ ih =>
    obtain ⟨length, hlength, heq⟩ := bind_eq_ok.mp h
    obtain ⟨s, rest, rfl, hs, rfl⟩ := ih hlength
    cases heq
    exact ⟨backslash :: e :: s, rest, rfl, .escape hescape hs, rfl⟩
  | case6 text _ _ _ ih =>
    obtain ⟨taken, htaken, h⟩ := bind_eq_ok.mp h
    obtain ⟨length, hlength, heq⟩ := bind_eq_ok.mp h
    obtain ⟨hle, hroom, hdigits, hend⟩ := hexLoop_ok htaken
    by_cases hlt : taken < 4
    · rw [stringLoop_stops (hend hlt)] at hlength
      cases hlength
    · obtain ⟨s, rest, hs, hchars, rfl⟩ := ih taken hlength
      cases heq
      have hfour : (text.take taken).length = 4 := by
        rw [List.length_take]
        omega
      refine ⟨backslash :: 0x75 :: (text.take taken ++ s), rest, ?_,
        .unicode hfour hdigits hchars, ?_⟩
      · rw [List.cons_append, List.cons_append, List.append_assoc, ← hs, List.take_append_drop]
      · rw [List.length_cons, List.length_cons, List.length_append, hfour]
        omega
  | case7 => cases h
  | case8 c text hzero hquote hbackslash ih =>
    obtain ⟨length, hlength, heq⟩ := bind_eq_ok.mp h
    obtain ⟨s, rest, rfl, hs, rfl⟩ := ih hlength
    cases heq
    exact ⟨c :: s, rest, rfl, .plain hzero hquote hbackslash hs, rfl⟩

theorem hexLoop_error {n : ℕ} {text : List UInt8} {e : JsmnErr} (h : hexLoop n text = .error e) :
    e = .inval := by
  induction n generalizing text with
  | zero => cases h
  | succ n ih =>
    cases text with
    | nil => cases h
    | cons c text =>
      rw [hexLoop] at h
      split_ifs at h
      · rcases bind_eq_error.mp h with h | ⟨taken, -, h⟩
        · exact ih h
        · cases h
      · cases h
        rfl

theorem stringLoop_error {text : List UInt8} {e : JsmnErr} (h : stringLoop text = .error e) :
    e = .inval ∨ e = .part := by
  fun_induction stringLoop text with
  | case1 =>
    cases h
    exact Or.inr rfl
  | case2 =>
    cases h
    exact Or.inr rfl
  | case3 => cases h
  | case4 =>
    cases h
    exact Or.inr rfl
  | case5 _ _ _ _ _ ih =>
    rcases bind_eq_error.mp h with h | ⟨length, -, h⟩
    · exact ih h
    · cases h
  | case6 _ _ _ _ ih =>
    rcases bind_eq_error.mp h with h | ⟨taken, -, h⟩
    · exact Or.inl (hexLoop_error h)
    · rcases bind_eq_error.mp h with h | ⟨length, -, h⟩
      · exact ih taken h
      · cases h
  | case7 =>
    cases h
    exact Or.inl rfl
  | case8 _ _ _ _ _ ih =>
    rcases bind_eq_error.mp h with h | ⟨length, -, h⟩
    · exact ih h
    · cases h

/-! ## Numbers -/

/-- A cursor stands behind all the digits. -/
def NoDigit (text : List UInt8) : Prop := ∀ c, text.head? = some c → isDigit c = false

theorem noDigit_nil : NoDigit [] := by
  intro c h
  cases h

theorem dropWhile_noDigit {text : List UInt8} (h : NoDigit text) :
    text.dropWhile isDigit = text := by
  cases text with
  | nil => rfl
  | cons c text => rw [List.dropWhile_cons_of_neg (by simp [h c rfl])]

theorem digits_ok {text rest : List UInt8} (h : jsmnParsePrimitiveDigits text = .ok rest) :
    ∃ ds, IsDigits ds ∧ text = ds ++ rest := by
  cases text with
  | nil => cases h
  | cons c text =>
    rw [jsmnParsePrimitiveDigits] at h
    split_ifs at h with hc
    cases h
    refine ⟨c :: text.takeWhile isDigit, ⟨by simp, ?_⟩, ?_⟩
    · intro d hd
      rcases List.mem_cons.mp hd with rfl | hd
      · exact hc
      · exact List.all_eq_true.mp List.all_takeWhile d hd
    · rw [List.cons_append, List.takeWhile_append_dropWhile]

theorem digits_all {ds rest : List UInt8} (h : IsDigits ds) (hrest : NoDigit rest) :
    jsmnParsePrimitiveDigits (ds ++ rest) = .ok rest := by
  obtain ⟨hne, hall⟩ := h
  cases ds with
  | nil => exact absurd rfl hne
  | cons c ds =>
    rw [List.cons_append, jsmnParsePrimitiveDigits, if_pos (hall c (List.mem_cons_self ..)),
      List.dropWhile_append_of_pos fun d hd => hall d (List.mem_cons_of_mem _ hd),
      dropWhile_noDigit hrest]

theorem digits_error {text : List UInt8} {e : JsmnErr}
    (h : jsmnParsePrimitiveDigits text = .error e) :
    e ≠ .assertion := by
  rintro rfl
  cases text with
  | nil => cases h
  | cons c text =>
    rw [jsmnParsePrimitiveDigits] at h
    split_ifs at h
    cases h

/-- The digits up to the end. -/
theorem digits_end_iff (text : List UInt8) :
    jsmnParsePrimitiveDigits text = .ok [] ↔ IsDigits text := by
  constructor
  · intro h
    obtain ⟨ds, hds, heq⟩ := digits_ok h
    rw [List.append_nil] at heq
    rw [heq]
    exact hds
  · intro h
    have hall := digits_all h noDigit_nil
    rwa [List.append_nil] at hall

theorem exponentSign_eq (text : List UInt8) :
    ∃ sign, IsSign sign ∧ text = sign ++ exponentSign text := by
  cases text with
  | nil => exact ⟨[], Or.inl rfl, rfl⟩
  | cons c text =>
    rw [exponentSign]
    split_ifs with hsign
    · rcases Bool.or_eq_true_iff.mp hsign with hc | hc
      · exact ⟨[0x2D], Or.inr (Or.inl rfl), by rw [eq_of_beq hc]; rfl⟩
      · exact ⟨[0x2B], Or.inr (Or.inr rfl), by rw [eq_of_beq hc]; rfl⟩
    · exact ⟨[], Or.inl rfl, rfl⟩

theorem digit_not_sign {c : UInt8} (h : isDigit c = true) : (c == 0x2D || c == 0x2B) = false := by
  have hall : ∀ c : UInt8, isDigit c = true → (c == 0x2D || c == 0x2B) = false :=
    forall_uint8 (by decide)
  exact hall c h

theorem exponentSign_digits {sign ds : List UInt8} (hsign : IsSign sign) (hds : IsDigits ds) :
    exponentSign (sign ++ ds) = ds := by
  rcases hsign with rfl | rfl | rfl
  · obtain ⟨hne, hall⟩ := hds
    cases ds with
    | nil => exact absurd rfl hne
    | cons c ds =>
      rw [List.nil_append, exponentSign, digit_not_sign (hall c (List.mem_cons_self ..))]
      rfl
  · rfl
  · rfl

theorem exp_iff {text : List UInt8} (hne : text ≠ []) :
    jsmnParsePrimitiveExp text = .ok () ↔ IsExp text := by
  cases text with
  | nil => exact absurd rfl hne
  | cons c text =>
    constructor
    · intro h
      rw [jsmnParsePrimitiveExp] at h
      split_ifs at h with he hnone hsign
      obtain ⟨rest, hrest, h⟩ := bind_eq_ok.mp h
      split_ifs at h with hend
      rw [not_not] at hend
      rw [hend, digits_end_iff] at hrest
      obtain ⟨sign, hsigned, heq⟩ := exponentSign_eq text
      refine Or.inr ⟨c, sign, exponentSign text, ?_, hsigned, hrest, by rw [← heq]⟩
      by_contra hc
      rw [not_or] at hc
      exact he (by simp [hc.1, hc.2])
    · rintro (h | ⟨e, sign, ds, he, hsign, hds, heq⟩)
      · cases h
      · cases heq
        have hletter : (c != 0x65 && c != 0x45) = false := by
          rcases he with rfl | rfl <;> rfl
        have hsome : sign ++ ds ≠ [] := by simp [hds.1]
        rw [jsmnParsePrimitiveExp, hletter, if_neg Bool.false_ne_true, if_neg hsome,
          exponentSign_digits hsign hds, if_neg hds.1, (digits_end_iff ds).mpr hds]
        rfl

theorem exp_error {text : List UInt8} {e : JsmnErr} (hne : text ≠ [])
    (h : jsmnParsePrimitiveExp text = .error e) : e ≠ .assertion := by
  cases text with
  | nil => exact absurd rfl hne
  | cons c text =>
    rw [jsmnParsePrimitiveExp] at h
    split_ifs at h
    · cases h
      simp
    · cases h
      simp
    · cases h
      simp
    · rcases bind_eq_error.mp h with h | ⟨rest, -, h⟩
      · exact digits_error h
      · split_ifs at h
        cases h
        simp

/-- The dot of a fraction and the letter of an exponent are no digits. -/
theorem noDigit_exp {text : List UInt8} (h : IsExp text) : NoDigit text := by
  rcases h with rfl | ⟨e, sign, ds, he, -, -, rfl⟩
  · exact noDigit_nil
  · intro c hc
    cases hc
    rcases he with rfl | rfl <;> rfl

theorem noDigit_frac {frac exp : List UInt8} (hfrac : IsFrac frac) (hexp : IsExp exp) :
    NoDigit (frac ++ exp) := by
  rcases hfrac with rfl | ⟨ds, -, rfl⟩
  · exact noDigit_exp hexp
  · intro c hc
    cases hc
    rfl

theorem fracOrExp_iff {text : List UInt8} (hne : text ≠ []) :
    jsmnParsePrimitiveFracOrExp text = .ok () ↔
      ∃ frac exp, IsFrac frac ∧ IsExp exp ∧ text = frac ++ exp := by
  cases text with
  | nil => exact absurd rfl hne
  | cons c text =>
    rw [jsmnParsePrimitiveFracOrExp]
    constructor
    · intro h
      split_ifs at h with hdot hnone
      · obtain ⟨rest, hrest, h⟩ := bind_eq_ok.mp h
        obtain ⟨ds, hds, heq⟩ := digits_ok hrest
        refine ⟨0x2E :: ds, rest, Or.inr ⟨ds, hds, rfl⟩, ?_, by rw [eq_of_beq hdot, heq]; rfl⟩
        split_ifs at h with hmore
        · exact (exp_iff hmore).mp h
        · exact Or.inl (not_not.mp hmore)
      · exact ⟨[], c :: text, Or.inl rfl, (exp_iff hne).mp h, rfl⟩
    · rintro ⟨frac, exp, hfrac, hexp, heq⟩
      rcases hfrac with rfl | ⟨ds, hds, rfl⟩
      · rw [List.nil_append] at heq
        have hletter : (c == 0x2E) = false := by
          rcases hexp with rfl | ⟨e, sign, ds, he, -, -, rfl⟩
          · cases heq
          · cases heq
            rcases he with rfl | rfl <;> rfl
        rw [hletter, if_neg Bool.false_ne_true, exp_iff hne, heq]
        exact hexp
      · rw [List.cons_append] at heq
        obtain ⟨rfl, rfl⟩ := List.cons.inj heq
        have hsome : ds ++ exp ≠ [] := by simp [hds.1]
        rw [if_pos (by rfl), if_neg hsome, digits_all hds (noDigit_exp hexp), ok_bind]
        split_ifs with hmore
        · exact (exp_iff hmore).mpr hexp
        · rfl

theorem fracOrExp_error {text : List UInt8} {e : JsmnErr} (hne : text ≠ [])
    (h : jsmnParsePrimitiveFracOrExp text = .error e) : e ≠ .assertion := by
  cases text with
  | nil => exact absurd rfl hne
  | cons c text =>
    rw [jsmnParsePrimitiveFracOrExp] at h
    split_ifs at h
    · cases h
      simp
    · rcases bind_eq_error.mp h with h | ⟨rest, -, h⟩
      · exact digits_error h
      · split_ifs at h with hmore
        exact exp_error hmore h
    · exact exp_error hne h

theorem unsigned_iff (text : List UInt8) :
    jsmnParsePrimitiveUnsigned text = .ok () ↔ IsUnsigned text := by
  cases text with
  | nil =>
    refine iff_of_false (by simp [jsmnParsePrimitiveUnsigned]) ?_
    rintro ⟨int, frac, exp, hint, -, -, heq⟩
    obtain ⟨rfl, -⟩ := List.append_eq_nil_iff.mp heq.symm
    rcases hint with hint | ⟨⟨hne, -⟩, -⟩
    · cases hint
    · exact hne rfl
  | cons c text =>
    rw [jsmnParsePrimitiveUnsigned]
    constructor
    · intro h
      split_ifs at h with hzero hend
      · exact ⟨[0x30], [], [], Or.inl rfl, Or.inl rfl, Or.inl rfl,
          by rw [eq_of_beq hzero, hend]; rfl⟩
      · obtain ⟨frac, exp, hfrac, hexp, heq⟩ := (fracOrExp_iff hend).mp h
        exact ⟨[0x30], frac, exp, Or.inl rfl, hfrac, hexp, by rw [eq_of_beq hzero, heq]; rfl⟩
      · obtain ⟨rest, hrest, h⟩ := bind_eq_ok.mp h
        obtain ⟨ds, hds, heq⟩ := digits_ok hrest
        have hint : IsInt ds := by
          refine Or.inr ⟨hds, ?_⟩
          cases ds with
          | nil => exact absurd rfl hds.1
          | cons d ds =>
            cases heq
            intro hhead
            cases hhead
            exact hzero rfl
        split_ifs at h with hend
        · exact ⟨ds, [], [], hint, Or.inl rfl, Or.inl rfl, by rw [heq, hend]; rfl⟩
        · obtain ⟨frac, exp, hfrac, hexp, hrest'⟩ := (fracOrExp_iff hend).mp h
          exact ⟨ds, frac, exp, hint, hfrac, hexp, by rw [heq, hrest']⟩
    · rintro ⟨int, frac, exp, hint, hfrac, hexp, heq⟩
      rcases hint with rfl | ⟨hds, hhead⟩
      · cases heq
        rw [if_pos (by rfl)]
        split_ifs with hend
        · rfl
        · exact (fracOrExp_iff hend).mpr ⟨frac, exp, hfrac, hexp, rfl⟩
      · have hzero : (c == 0x30) = false := by
          cases int with
          | nil => exact absurd rfl hds.1
          | cons d int =>
            cases heq
            have hd : c ≠ 0x30 := fun h => hhead (by rw [h]; rfl)
            simpa using hd
        rw [hzero, if_neg Bool.false_ne_true, heq, digits_all hds (noDigit_frac hfrac hexp),
          ok_bind]
        split_ifs with hend
        · rfl
        · exact (fracOrExp_iff hend).mpr ⟨frac, exp, hfrac, hexp, rfl⟩

theorem unsigned_error {text : List UInt8} {e : JsmnErr}
    (h : jsmnParsePrimitiveUnsigned text = .error e) : e ≠ .assertion := by
  cases text with
  | nil =>
    cases h
    simp
  | cons c text =>
    rw [jsmnParsePrimitiveUnsigned] at h
    split_ifs at h with _ hend
    · exact fracOrExp_error hend h
    · rcases bind_eq_error.mp h with h | ⟨rest, -, h⟩
      · exact digits_error h
      · split_ifs at h with hend
        exact fracOrExp_error hend h

theorem unsigned_head {text : List UInt8} (h : IsUnsigned text) :
    ∃ c rest, text = c :: rest ∧ isDigit c = true := by
  obtain ⟨int, frac, exp, hint, -, -, rfl⟩ := h
  have hdigits : IsDigits int := by
    rcases hint with rfl | ⟨hds, -⟩
    · exact ⟨by simp, List.all_eq_true.mp rfl⟩
    · exact hds
  cases int with
  | nil => exact absurd rfl hdigits.1
  | cons c int => exact ⟨c, _, rfl, hdigits.2 c (List.mem_cons_self ..)⟩

theorem number_iff (text : List UInt8) :
    jsmnParsePrimitiveNumber text = .ok () ↔ IsNumber text := by
  cases text with
  | nil =>
    refine iff_of_false (by simp [jsmnParsePrimitiveNumber]) ?_
    rintro (h | ⟨rest, -, h⟩)
    · obtain ⟨c, rest, h, -⟩ := unsigned_head h
      cases h
    · cases h
  | cons c text =>
    rw [jsmnParsePrimitiveNumber]
    constructor
    · intro h
      split_ifs at h with hminus
      · exact Or.inr ⟨text, (unsigned_iff text).mp h, by rw [eq_of_beq hminus]⟩
      · exact Or.inl ((unsigned_iff _).mp h)
    · rintro (h | ⟨rest, hrest, heq⟩)
      · obtain ⟨d, rest, hd, hdigit⟩ := unsigned_head h
        cases hd
        have hminus : (c == 0x2D) = false := (Bool.or_eq_false_iff.mp (digit_not_sign hdigit)).1
        rw [hminus, if_neg Bool.false_ne_true, unsigned_iff]
        exact h
      · cases heq
        rw [if_pos (by rfl), unsigned_iff]
        exact hrest

theorem number_error {text : List UInt8} {e : JsmnErr}
    (h : jsmnParsePrimitiveNumber text = .error e) : e ≠ .assertion := by
  cases text with
  | nil =>
    cases h
    simp
  | cons c text =>
    rw [jsmnParsePrimitiveNumber] at h
    split_ifs at h
    · exact unsigned_error h
    · exact unsigned_error h

/-! ## Primitives -/

theorem number_head {text : List UInt8} (h : IsNumber text) :
    ∃ c rest, text = c :: rest ∧ (c = 0x2D ∨ isDigit c = true) := by
  rcases h with h | ⟨rest, -, rfl⟩
  · obtain ⟨c, rest, rfl, hc⟩ := unsigned_head h
    exact ⟨c, rest, rfl, Or.inr hc⟩
  · exact ⟨_, rest, rfl, Or.inl rfl⟩

theorem number_head_ne {text : List UInt8} (h : IsNumber text) (c : UInt8)
    (hc : c = 0x74 ∨ c = 0x66 ∨ c = 0x6E) : text.head? ≠ some c := by
  obtain ⟨d, rest, rfl, hd⟩ := number_head h
  intro heq
  cases heq
  rcases hc with rfl | rfl | rfl
  · exact absurd hd (by decide)
  · exact absurd hd (by decide)
  · exact absurd hd (by decide)

theorem validatePrimitive_iff (text : List UInt8) :
    validatePrimitive text = .ok () ↔ IsPrimitive text := by
  constructor
  · intro h
    rw [validatePrimitive] at h
    split_ifs at h with _ htrue _ hfalse _ hnull
    · exact Or.inl htrue
    · exact Or.inr (Or.inl hfalse)
    · exact Or.inr (Or.inr (Or.inl hnull))
    · refine Or.inr (Or.inr (Or.inr ((number_iff text).mp ?_)))
      split at h
      · assumption
      · cases h
      · cases h
  · rintro (rfl | rfl | rfl | h)
    · rfl
    · rfl
    · rfl
    · rw [validatePrimitive, if_neg (number_head_ne h _ (Or.inl rfl)),
        if_neg (number_head_ne h _ (Or.inr (Or.inl rfl))),
        if_neg (number_head_ne h _ (Or.inr (Or.inr rfl))), (number_iff text).mpr h]

theorem validatePrimitive_error {text : List UInt8} {e : JsmnErr}
    (h : validatePrimitive text = .error e) : e = .primitiveInval := by
  rw [validatePrimitive] at h
  split_ifs at h
  · cases h
    rfl
  · cases h
    rfl
  · cases h
    rfl
  · split at h
    · cases h
    · rename_i hnumber
      exact absurd rfl (number_error hnumber)
    · cases h
      rfl

/-- The text ends behind a primitive, or has a character that ends one. -/
def Delimited (text : List UInt8) : Prop := ∀ c, text.head? = some c → endsPrimitive c = true

theorem delimited_nil : Delimited [] := by
  intro c h
  cases h

theorem delimited_cons {c : UInt8} {text : List UInt8} (h : endsPrimitive c = true) :
    Delimited (c :: text) := by
  intro d hd
  cases hd
  exact h

theorem delimited_append {first rest : List UInt8} (h : ∀ c ∈ first, isSpace c = true)
    (hrest : Delimited rest) : Delimited (first ++ rest) := by
  cases first with
  | nil => exact hrest
  | cons c first => exact delimited_cons (by simp [endsPrimitive, h c (List.mem_cons_self ..)])

/-- A character of a primitive. -/
def inPrimitive (c : UInt8) : Bool := !endsPrimitive c && !(c < 32 || 127 ≤ c)

theorem inPrimitive_ne_zero {c : UInt8} (h : inPrimitive c = true) : c ≠ 0 := by
  rintro rfl
  exact absurd h (by decide)

/-- The characters that there are in primitives. -/
def isWord (c : UInt8) : Bool :=
  isDigit c || (trueText ++ falseText ++ nullText ++ [0x2B, 0x2D, 0x2E, 0x45]).contains c

theorem digit_word {c : UInt8} (h : isDigit c = true) : isWord c = true := by
  rw [isWord, h, Bool.true_or]

theorem digits_word {ds : List UInt8} (h : IsDigits ds) : ∀ c ∈ ds, isWord c = true :=
  fun c hc => digit_word (h.2 c hc)

theorem unsigned_word {text : List UInt8} (h : IsUnsigned text) : ∀ c ∈ text, isWord c = true := by
  obtain ⟨int, frac, exp, hint, hfrac, hexp, rfl⟩ := h
  intro c hc
  simp only [List.mem_append] at hc
  rcases hc with hc | hc | hc
  · rcases hint with rfl | ⟨hds, -⟩
    · exact digit_word (by simp_all [isDigit])
    · exact digits_word hds c hc
  · rcases hfrac with rfl | ⟨ds, hds, rfl⟩
    · cases hc
    · rcases List.mem_cons.mp hc with rfl | hc
      · rfl
      · exact digits_word hds c hc
  · rcases hexp with rfl | ⟨e, sign, ds, he, hsign, hds, rfl⟩
    · cases hc
    · simp only [List.mem_cons, List.mem_append] at hc
      rcases hc with rfl | hc | hc
      · rcases he with rfl | rfl <;> rfl
      · rcases hsign with rfl | rfl | rfl
        · cases hc
        · rw [List.mem_singleton.mp hc]
          rfl
        · rw [List.mem_singleton.mp hc]
          rfl
      · exact digits_word hds c hc

theorem primitive_word {text : List UInt8} (h : IsPrimitive text) :
    ∀ c ∈ text, isWord c = true := by
  rcases h with rfl | rfl | rfl | h | ⟨rest, h, rfl⟩
  · exact List.all_eq_true.mp rfl
  · exact List.all_eq_true.mp rfl
  · exact List.all_eq_true.mp rfl
  · exact unsigned_word h
  · intro c hc
    rcases List.mem_cons.mp hc with rfl | hc
    · rfl
    · exact unsigned_word h c hc

theorem word_inPrimitive {c : UInt8} (h : isWord c = true) : inPrimitive c = true := by
  have hall : ∀ c : UInt8, isWord c = true → inPrimitive c = true := forall_uint8 (by decide)
  exact hall c h

theorem primitive_inPrimitive {text : List UInt8} (h : IsPrimitive text) :
    ∀ c ∈ text, inPrimitive c = true :=
  fun c hc => word_inPrimitive (primitive_word h c hc)

/-- A primitive begins with one of the characters that `jsmn_parse` looks for. -/
theorem primitive_head {text : List UInt8} (h : IsPrimitive text) :
    ∃ c rest, text = c :: rest ∧ beginsPrimitive c = true := by
  rcases h with rfl | rfl | rfl | h
  · exact ⟨_, _, rfl, rfl⟩
  · exact ⟨_, _, rfl, rfl⟩
  · exact ⟨_, _, rfl, rfl⟩
  · obtain ⟨c, rest, rfl, hc⟩ := number_head h
    refine ⟨c, rest, rfl, ?_⟩
    rcases hc with rfl | hc
    · rfl
    · simp [beginsPrimitive, hc]

/-- **Primitives** are read up to what ends them. -/
theorem primitiveLoop_primitive {text rest : List UInt8} (h : ∀ c ∈ text, inPrimitive c = true)
    (hrest : Delimited rest) : primitiveLoop (text ++ rest) = .ok text := by
  induction text with
  | nil =>
    cases rest with
    | nil => rfl
    | cons c rest =>
      rw [List.nil_append, primitiveLoop, if_pos (hrest c rfl), ite_self]
  | cons c text ih =>
    have hc := h c (List.mem_cons_self ..)
    have hparts := hc
    rw [inPrimitive, Bool.and_eq_true, Bool.not_eq_true', Bool.not_eq_true'] at hparts
    rw [List.cons_append, primitiveLoop, if_neg (inPrimitive_ne_zero hc), hparts.1, hparts.2,
      ih fun d hd => h d (List.mem_cons_of_mem _ hd)]
    rfl

theorem primitiveLoop_ok {text first : List UInt8} (hzero : (0 : UInt8) ∉ text)
    (h : primitiveLoop text = .ok first) :
    ∃ rest, text = first ++ rest ∧ Delimited rest := by
  induction text generalizing first with
  | nil =>
    cases h
    exact ⟨[], rfl, delimited_nil⟩
  | cons c text ih =>
    rw [List.mem_cons, not_or] at hzero
    rw [primitiveLoop, if_neg (Ne.symm hzero.1)] at h
    split_ifs at h with hends
    · cases h
      exact ⟨c :: text, rfl, delimited_cons hends⟩
    · obtain ⟨more, hmore, heq⟩ := bind_eq_ok.mp h
      obtain ⟨rest, rfl, hrest⟩ := ih hzero.2 hmore
      cases heq
      exact ⟨rest, rfl, hrest⟩

theorem primitiveLoop_error {text : List UInt8} {e : JsmnErr}
    (h : primitiveLoop text = .error e) : e = .inval := by
  induction text with
  | nil => cases h
  | cons c text ih =>
    rw [primitiveLoop] at h
    split_ifs at h
    · cases h
      rfl
    · rcases bind_eq_error.mp h with h | ⟨more, -, h⟩
      · exact ih h
      · cases h

end Apple2ix.Json
