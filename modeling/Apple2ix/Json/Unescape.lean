import Apple2ix.Json.Create

/-! `json_unescapeSlashes` of json_parse.c, and what the body of a string means before and after. -/
namespace Apple2ix.Json
set_option autoImplicit false

/-! ## The loop -/

def slash : UInt8 := 0x2F

/-- `memmove` within a buffer. -/
def memmove (buf : List UInt8) (dst src n : ℕ) : List UInt8 :=
  buf.take dst ++ ((buf.drop src).take n ++ buf.drop (dst + n))

/-- `while (*p)`, with a bound on its passes: `len` counts the terminator of the string. -/
def unescapeLoop (len : ℕ) : ℕ → List UInt8 → Option ℕ → ℕ → Option (List UInt8)
  | 0, _, _, _ => none
  | fuel + 1, str, p0, p =>
    let c := str.getD p 0
    if c = 0 then some str
    else
      match p0.filter fun p0 => c = slash && str.getD p0 0 = backslash with
      | some p0 => unescapeLoop len fuel (memmove str p0 p (len - p)) (some p0) (p0 + 1)
      | none => unescapeLoop len fuel str (some p) (p + 1)

/-- `json_unescapeSlashes`: its result, and the string behind the pointer, which may be null. -/
def jsonUnescapeSlashes (strPtr : Option CString) : Option (Bool × Option CString) :=
  match strPtr with
  | none => some (false, none)
  | some str =>
    let len := str.bytes.length + 1
    (unescapeLoop len len (str.bytes ++ [0]) none 0).map fun buf => (true, some (.ofBuffer buf))

/-- A character behind those that are done. -/
def slashStep (done : List UInt8) (c : UInt8) : List UInt8 :=
  if c = slash ∧ done.getLast? = some backslash then done.dropLast ++ [slash] else done ++ [c]

/-- Where `p0` stands behind these characters. -/
def lastIndex (done : List UInt8) : Option ℕ := if done = [] then none else some (done.length - 1)

theorem getD_done (done : List UInt8) (c : UInt8) (rest : List UInt8) :
    (done ++ c :: rest).getD done.length 0 = c := by
  rw [List.getD_eq_getElem?_getD, List.getElem?_append_right (le_refl _), Nat.sub_self]
  rfl

/-- The test for a backslash looks at the last character that is done. -/
theorem filter_lastIndex (done rest : List UInt8) (c : UInt8) :
    (lastIndex done).filter (fun p0 => c = slash && (done ++ rest).getD p0 0 = backslash) =
      if c = slash ∧ done.getLast? = some backslash then some (done.length - 1) else none := by
  induction done using List.reverseRecOn with
  | nil => simp [lastIndex]
  | append_singleton done d _ =>
    simp [lastIndex, Option.filter]

/-- One character taken out, all that stands behind it moved down by one. -/
theorem memmove_down (front : List UInt8) (d : UInt8) (tail : List UInt8) :
    ∃ last, memmove (front ++ d :: tail) front.length (front.length + 1) tail.length =
      front ++ (tail ++ [last]) := by
  have hdrop : (front ++ d :: tail).drop (front.length + 1) = tail := by
    rw [← List.drop_drop, List.drop_left, List.drop_succ_cons, List.drop_zero]
  obtain ⟨last, hlast⟩ : ∃ last, (front ++ d :: tail).drop (front.length + tail.length) =
    [last] := by
    refine List.length_eq_one_iff.mp ?_
    rw [List.length_drop, List.length_append, List.length_cons]
    omega
  refine ⟨last, ?_⟩
  rw [memmove, List.take_left, hdrop, List.take_length, hlast]

/-- **One pass after the other**: the terminator moves to the front, what it leaves behind it is
never looked at. -/
theorem unescapeLoop_done {len fuel : ℕ} {done rest stale : List UInt8} (hrest : (0 : UInt8) ∉ rest)
    (hlen : (done ++ (rest ++ 0 :: stale)).length = len) (hfuel : rest.length < fuel) :
    ∃ stale', unescapeLoop len fuel (done ++ (rest ++ 0 :: stale)) (lastIndex done) done.length =
      some (rest.foldl slashStep done ++ 0 :: stale') := by
  induction rest generalizing done stale fuel with
  | nil =>
    obtain ⟨fuel, rfl⟩ := Nat.exists_eq_succ_of_ne_zero (Nat.ne_of_gt hfuel)
    refine ⟨stale, ?_⟩
    rw [List.nil_append, unescapeLoop, getD_done]
    rfl
  | cons c rest ih =>
    obtain ⟨fuel, rfl⟩ := Nat.exists_eq_succ_of_ne_zero (Nat.ne_of_gt (Nat.zero_lt_of_lt hfuel))
    rw [List.mem_cons, not_or] at hrest
    rw [List.length_cons] at hfuel
    rw [List.cons_append, unescapeLoop, getD_done, if_neg (Ne.symm hrest.1), filter_lastIndex,
      List.foldl_cons, slashStep]
    by_cases hmove : c = slash ∧ done.getLast? = some backslash
    · obtain ⟨front, rfl⟩ : ∃ front, done = front ++ [backslash] := by
        obtain ⟨front, d, rfl⟩ := List.eq_nil_or_concat' done |>.resolve_left (by
          rintro rfl
          cases hmove.2)
        simp only [List.getLast?_append, List.getLast?_singleton, Option.some_or,
          Option.some.injEq] at hmove
        exact ⟨front, by rw [hmove.2]⟩
      obtain ⟨last, hbuf⟩ := memmove_down front backslash (c :: (rest ++ 0 :: stale))
      have hsplit : front ++ [backslash] ++ c :: (rest ++ 0 :: stale) =
          front ++ backslash :: (c :: (rest ++ 0 :: stale)) := by simp
      have hmoved : front ++ (c :: (rest ++ 0 :: stale) ++ [last]) =
          (front ++ [slash]) ++ (rest ++ 0 :: (stale ++ [last])) := by simp [hmove.1]
      have hlength : (front ++ [slash] ++ (rest ++ 0 :: (stale ++ [last]))).length = len := by
        simp only [List.length_append, List.length_cons, List.length_nil] at hlen ⊢
        omega
      have hsize : len - (front ++ [backslash]).length = (c :: (rest ++ 0 :: stale)).length := by
        rw [← hlen, List.length_append, Nat.add_sub_cancel_left]
        rfl
      have hp0 : (front ++ [backslash]).length - 1 = front.length := by simp
      have hnext : lastIndex (front ++ [slash]) = some front.length := by simp [lastIndex]
      have hih := @ih fuel (front ++ [slash]) (stale ++ [last]) hrest.2 hlength (by omega)
      rw [hnext, List.length_append, List.length_singleton, ← hmoved, ← hbuf, ← hsplit] at hih
      rw [if_pos hmove, if_pos hmove, List.dropLast_concat, hsize, hp0, List.length_append,
        List.length_singleton]
      exact hih
    · rw [if_neg hmove, if_neg hmove]
      have hnext : lastIndex (done ++ [c]) = some done.length := by simp [lastIndex]
      have hbuf : done ++ c :: (rest ++ 0 :: stale) = (done ++ [c]) ++ (rest ++ 0 :: stale) := by
        simp
      have hih := @ih fuel (done ++ [c]) stale hrest.2 (by rw [← hbuf]; exact hlen) (by omega)
      rw [hnext, List.length_append, List.length_singleton, ← hbuf] at hih
      exact hih

/-- `json_unescapeSlashes` returns, with what the passes leave of the string. -/
theorem unescape_eq (str : CString) : ∃ t : CString, t.bytes = str.bytes.foldl slashStep [] ∧
    jsonUnescapeSlashes (some str) = some (true, some t) := by
  have hzero : (0 : UInt8) ∉ str.bytes.foldl slashStep [] := by
    refine List.foldlRecOn str.bytes slashStep (motive := fun done => (0 : UInt8) ∉ done)
      (by simp) ?_
    intro done hdone c hc
    have hne : (0 : UInt8) ≠ c := fun h => str.terminated (h ▸ hc)
    rw [slashStep]
    split_ifs
    · rw [List.mem_append, not_or]
      exact ⟨fun h => hdone (List.mem_of_mem_dropLast h), by decide⟩
    · rw [List.mem_append, List.mem_singleton, not_or]
      exact ⟨hdone, hne⟩
  obtain ⟨stale, hloop⟩ := @unescapeLoop_done (str.bytes.length + 1) _ [] _ [] str.terminated
    (by simp) (Nat.lt_succ_self _)
  refine ⟨⟨_, hzero⟩, rfl, ?_⟩
  have hbuffer : CString.ofBuffer (str.bytes.foldl slashStep [] ++ 0 :: stale) = ⟨_, hzero⟩ :=
    CString.ext (CString.ofBuffer_terminated hzero stale)
  have hunescape := congrArg (Option.map fun buf => (true, some (CString.ofBuffer buf))) hloop
  rw [Option.map_some, hbuffer] at hunescape
  exact hunescape

/-! ## What a string means -/

/-- A character of the body of a string, as it is written. -/
inductive Lexeme
  | plain (c : UInt8)
  | escape (e : UInt8)
  | unicode (digits : List UInt8)
  deriving DecidableEq, Repr

def Lexeme.text : Lexeme → List UInt8
  | .plain c => [c]
  | .escape e => [backslash, e]
  | .unicode digits => backslash :: 0x75 :: digits

def Lexeme.Valid : Lexeme → Prop
  | .plain c => c ≠ 0 ∧ c ≠ quote ∧ c ≠ backslash
  | .escape e => isEscape e = true
  | .unicode digits => digits.length = 4 ∧ ∀ d ∈ digits, isHex d = true

/-- The characters of a body. -/
def lexemes : List UInt8 → List Lexeme
  | [] => []
  | [c] => [.plain c]
  | c :: e :: rest =>
    if c ≠ backslash then .plain c :: lexemes (e :: rest)
    else if e = 0x75 then .unicode (rest.take 4) :: lexemes (rest.drop 4)
    else .escape e :: lexemes rest
termination_by text => text.length
decreasing_by
  all_goals simp only [List.length_cons, List.length_drop]; omega

/-- What stands for a character: a byte of the text as it is, or the 16 bits that are given by
their digits. -/
inductive Unit16
  | byte (c : UInt8)
  | code (n : ℕ)
  deriving DecidableEq, Repr

/-- The byte that an escape stands for. -/
def escaped (e : UInt8) : UInt8 :=
  if e = 0x62 then 0x08
  else if e = 0x66 then 0x0C
  else if e = 0x6E then 0x0A
  else if e = 0x72 then 0x0D
  else if e = 0x74 then 0x09
  else e

def hexDigit (d : UInt8) : ℕ :=
  if d ≤ 0x39 then d.toNat - 0x30 else if d ≤ 0x46 then d.toNat - 0x37 else d.toNat - 0x57

def Lexeme.unit : Lexeme → Unit16
  | .plain c => .byte c
  | .escape e => .byte (escaped e)
  | .unicode digits => .code (digits.foldl (fun n d => 16 * n + hexDigit d) 0)

/-- A code point in UTF-8. -/
def utf8 (n : ℕ) : List UInt8 :=
  if n < 0x80 then [.ofNat n]
  else if n < 0x800 then [.ofNat (0xC0 + n / 0x40), .ofNat (0x80 + n % 0x40)]
  else if n < 0x10000 then
    [.ofNat (0xE0 + n / 0x1000), .ofNat (0x80 + n / 0x40 % 0x40), .ofNat (0x80 + n % 0x40)]
  else
    [.ofNat (0xF0 + n / 0x40000), .ofNat (0x80 + n / 0x1000 % 0x40),
      .ofNat (0x80 + n / 0x40 % 0x40), .ofNat (0x80 + n % 0x40)]

/-- The text of some units; two surrogates next to each other are one code point. -/
def unitsText : List Unit16 → List UInt8
  | [] => []
  | .byte c :: rest => c :: unitsText rest
  | [.code n] => utf8 n
  | .code n :: .byte c :: rest => utf8 n ++ c :: unitsText rest
  | .code n :: .code m :: rest =>
    if 0xD800 ≤ n ∧ n < 0xDC00 ∧ 0xDC00 ≤ m ∧ m < 0xE000 then
      utf8 (0x10000 + 0x400 * (n - 0xD800) + (m - 0xDC00)) ++ unitsText rest
    else utf8 n ++ unitsText (.code m :: rest)

/-- The text that the body of a string stands for. -/
def decode (body : List UInt8) : List UInt8 := unitsText ((lexemes body).map Lexeme.unit)

def Lexeme.texts (ls : List Lexeme) : List UInt8 := ls.flatMap Lexeme.text

theorem chars_iff_lexemes {body : List UInt8} :
    IsChars body ↔ ∃ ls : List Lexeme, (∀ l ∈ ls, l.Valid) ∧ body = Lexeme.texts ls := by
  constructor
  · intro h
    induction h with
    | nil => exact ⟨[], by simp, rfl⟩
    | @plain c rest hzero hquote hbackslash _ ih =>
      obtain ⟨ls, hls, rfl⟩ := ih
      exact ⟨.plain c :: ls, List.forall_mem_cons.mpr ⟨⟨hzero, hquote, hbackslash⟩, hls⟩, rfl⟩
    | @escape e rest hescape _ ih =>
      obtain ⟨ls, hls, rfl⟩ := ih
      exact ⟨.escape e :: ls, List.forall_mem_cons.mpr ⟨hescape, hls⟩, rfl⟩
    | @unicode digits rest hlength hdigits _ ih =>
      obtain ⟨ls, hls, rfl⟩ := ih
      exact ⟨.unicode digits :: ls, List.forall_mem_cons.mpr ⟨⟨hlength, hdigits⟩, hls⟩, rfl⟩
  · rintro ⟨ls, hls, rfl⟩
    induction ls with
    | nil => exact .nil
    | cons l ls ih =>
      rw [List.forall_mem_cons] at hls
      cases l with
      | plain c => exact .plain hls.1.1 hls.1.2.1 hls.1.2.2 (ih hls.2)
      | escape e => exact .escape hls.1 (ih hls.2)
      | unicode digits => exact .unicode hls.1.1 hls.1.2 (ih hls.2)

/-- A body has its characters in one way. -/
theorem lexemes_texts {ls : List Lexeme} (h : ∀ l ∈ ls, l.Valid) :
    lexemes (Lexeme.texts ls) = ls := by
  induction ls with
  | nil => rw [Lexeme.texts, List.flatMap_nil, lexemes]
  | cons l ls ih =>
    rw [List.forall_mem_cons] at h
    have htail := ih h.2
    rw [Lexeme.texts] at htail
    rw [Lexeme.texts, List.flatMap_cons]
    cases l with
    | plain c =>
      have hc : c ≠ backslash := h.1.2.2
      generalize ls.flatMap Lexeme.text = rest at htail
      cases rest with
      | nil =>
        rw [lexemes] at htail
        subst htail
        exact lexemes.eq_2 c
      | cons e rest =>
        rw [Lexeme.text, List.singleton_append, lexemes, if_pos hc, htail]
    | escape e =>
      have he : e ≠ 0x75 := by
        rintro rfl
        have hescape : isEscape 0x75 = true := h.1
        exact absurd hescape (by decide)
      rw [Lexeme.text, List.cons_append, List.singleton_append, lexemes, if_neg (not_not.mpr rfl),
        if_neg he, htail]
    | unicode digits =>
      have hdigits : digits.length = 4 := h.1.1
      rw [Lexeme.text, List.cons_append, List.cons_append, lexemes, if_neg (not_not.mpr rfl),
        if_pos rfl, ← hdigits, List.take_left, List.drop_left, htail]

/-! ## What the loop makes of a body -/

/-- The characters that are left: an escaped slash becomes a slash, and an escaped backslash before
a slash becomes the escape of that slash. -/
def unslash : List Lexeme → List Lexeme
  | [] => []
  | [l] => [if l = .escape slash then .plain slash else l]
  | l :: m :: rest =>
    if l = .escape slash then .plain slash :: unslash (m :: rest)
    else if l = .escape backslash ∧ m = .plain slash then .escape slash :: unslash rest
    else l :: unslash (m :: rest)

theorem slashStep_append {done : List UInt8} {c : UInt8}
    (h : c ≠ slash ∨ done.getLast? ≠ some backslash) : slashStep done c = done ++ [c] := by
  rw [slashStep, if_neg]
  rintro ⟨hc, hlast⟩
  exact h.elim (absurd hc) (absurd hlast)

theorem foldl_noSlash {text : List UInt8} (h : slash ∉ text) (done : List UInt8) :
    text.foldl slashStep done = done ++ text := by
  induction text generalizing done with
  | nil => simp
  | cons c text ih =>
    rw [List.mem_cons, not_or] at h
    rw [List.foldl_cons, slashStep_append (Or.inl (Ne.symm h.1)), ih h.2, List.append_assoc,
      List.singleton_append]

/-- Any character but an escaped slash stays, unless it is a slash behind a backslash. -/
theorem foldl_lexeme {l : Lexeme} (hl : l.Valid) (hne : l ≠ .escape slash) {done : List UInt8}
    (hdone : done.getLast? = some backslash → l ≠ .plain slash) :
    l.text.foldl slashStep done = done ++ l.text := by
  cases l with
  | plain c =>
    refine slashStep_append ?_
    by_cases hc : c = slash
    · exact Or.inr fun hlast => hdone hlast (by rw [hc])
    · exact Or.inl hc
  | escape e =>
    refine foldl_noSlash ?_ done
    have he : slash ≠ e := fun h => hne (by rw [h])
    simp [Lexeme.text, he, show slash ≠ backslash by decide]
  | unicode digits =>
    refine foldl_noSlash ?_ done
    have hdigits : slash ∉ digits := fun h => absurd (hl.2 _ h) (by decide)
    simp [Lexeme.text, hdigits, show slash ≠ backslash by decide, show slash ≠ 0x75 by decide]

/-- Only an escaped backslash ends in a backslash. -/
theorem last_lexeme {l : Lexeme} (hl : l.Valid) (hne : l ≠ .escape backslash) (done : List UInt8) :
    (done ++ l.text).getLast? ≠ some backslash := by
  obtain ⟨front, d, htext, hd⟩ : ∃ front d, l.text = front ++ [d] ∧ d ≠ backslash := by
    cases l with
    | plain c => exact ⟨[], c, rfl, hl.2.2⟩
    | escape e => exact ⟨[backslash], e, rfl, fun he => hne (by rw [he])⟩
    | unicode digits =>
      rcases List.eq_nil_or_concat' digits with rfl | ⟨front, d, rfl⟩
      · cases hl.1
      · refine ⟨backslash :: 0x75 :: front, d, rfl, ?_⟩
        rintro rfl
        exact absurd (hl.2 backslash (by simp)) (by decide)
  rw [htext, ← List.append_assoc, List.getLast?_concat]
  exact fun h => hd (Option.some.inj h)

theorem texts_cons (l : Lexeme) (ls : List Lexeme) :
    Lexeme.texts (l :: ls) = l.text ++ Lexeme.texts ls := List.flatMap_cons

theorem plain_slash_valid : (Lexeme.plain slash).Valid := ⟨by decide, by decide, by decide⟩

theorem escape_slash_valid : (Lexeme.escape slash).Valid := show isEscape slash = true from rfl

/-- **The loop** on the characters of a body. -/
theorem foldl_unslash {ls : List Lexeme} (h : ∀ l ∈ ls, l.Valid) {done : List UInt8}
    (hdone : done.getLast? = some backslash → ls.head? ≠ some (.plain slash)) :
    (Lexeme.texts ls).foldl slashStep done = done ++ Lexeme.texts (unslash ls) := by
  have hslash : ∀ done, (Lexeme.escape slash).text.foldl slashStep done =
      done ++ (Lexeme.plain slash).text := by
    intro done
    have hfirst : slashStep done backslash = done ++ [backslash] :=
      slashStep_append (Or.inl (by decide))
    change slashStep (slashStep done backslash) slash = done ++ [slash]
    rw [hfirst, slashStep, if_pos ⟨rfl, List.getLast?_concat⟩, List.dropLast_concat]
  fun_induction unslash ls generalizing done with
  | case1 => simp [Lexeme.texts]
  | case2 l =>
    have hl := h l (List.mem_singleton_self l)
    have hfirst : done.getLast? = some backslash → l ≠ .plain slash := fun hlast heq =>
      hdone hlast (by rw [heq]; rfl)
    rw [texts_cons, texts_cons, List.foldl_append]
    split_ifs with hescape
    · rw [hescape, hslash]
      simp [Lexeme.texts]
    · rw [foldl_lexeme hl hescape hfirst]
      simp [Lexeme.texts]
  | case3 m rest ih =>
    rw [List.forall_mem_cons] at h
    have hnext : (done ++ (Lexeme.plain slash).text).getLast? ≠ some backslash :=
      last_lexeme plain_slash_valid nofun done
    rw [texts_cons (.escape slash), texts_cons (.plain slash), List.foldl_append, hslash,
      ih h.2 fun hlast => absurd hlast hnext, List.append_assoc]
  | case4 l m rest hne hpair ih =>
    obtain ⟨rfl, rfl⟩ := hpair
    rw [List.forall_mem_cons, List.forall_mem_cons] at h
    have hescape : (Lexeme.escape backslash).text.foldl slashStep done =
        done ++ (Lexeme.escape backslash).text := foldl_lexeme h.1 hne nofun
    have hmerge : slashStep (done ++ (Lexeme.escape backslash).text) slash =
        done ++ (Lexeme.escape slash).text := by
      have hsplit :
          done ++ (Lexeme.escape backslash).text = (done ++ [backslash]) ++ [backslash] := by
        simp [Lexeme.text]
      rw [hsplit, slashStep, if_pos ⟨rfl, List.getLast?_concat⟩, List.dropLast_concat,
        List.append_assoc]
      rfl
    have hplain :
        (Lexeme.plain slash).text.foldl slashStep (done ++ (Lexeme.escape backslash).text) =
        done ++ (Lexeme.escape slash).text := hmerge
    have hnext : (done ++ (Lexeme.escape slash).text).getLast? ≠ some backslash :=
      last_lexeme escape_slash_valid (by decide) done
    rw [texts_cons, texts_cons, texts_cons, List.foldl_append, List.foldl_append, hescape, hplain,
      ih h.2.2 fun hlast => absurd hlast hnext, List.append_assoc]
  | case5 l m rest hne hpair ih =>
    have hfirst : done.getLast? = some backslash → l ≠ .plain slash := fun hlast heq =>
      hdone hlast (by rw [heq]; rfl)
    rw [List.forall_mem_cons] at h
    have hnext : (done ++ l.text).getLast? = some backslash →
        (m :: rest).head? ≠ some (.plain slash) := by
      intro hlast hm
      have hl : l = .escape backslash := by
        by_contra hl
        exact last_lexeme h.1 hl done hlast
      exact hpair ⟨hl, Option.some.inj hm⟩
    rw [texts_cons l, texts_cons l, List.foldl_append, foldl_lexeme h.1 hne hfirst, ih h.2 hnext,
      List.append_assoc]

theorem unslash_valid {ls : List Lexeme} (h : ∀ l ∈ ls, l.Valid) : ∀ l ∈ unslash ls, l.Valid := by
  fun_induction unslash ls with
  | case1 => simp
  | case2 l =>
    rw [List.forall_mem_singleton] at h ⊢
    split_ifs
    · exact plain_slash_valid
    · exact h
  | case3 m rest ih =>
    exact List.forall_mem_cons.mpr ⟨plain_slash_valid, ih (List.forall_mem_cons.mp h).2⟩
  | case4 l m rest hne hpair ih =>
    rw [List.forall_mem_cons, List.forall_mem_cons] at h
    exact List.forall_mem_cons.mpr ⟨escape_slash_valid, ih h.2.2⟩
  | case5 l m rest hne hpair ih =>
    rw [List.forall_mem_cons] at h
    exact List.forall_mem_cons.mpr ⟨h.1, ih h.2⟩

/-- An escaped slash is left over exactly where an escaped backslash stood before a slash. -/
theorem escape_mem_unslash (ls : List Lexeme) :
    .escape slash ∈ unslash ls ↔ [.escape backslash, .plain slash] <:+: ls := by
  fun_induction unslash ls with
  | case1 => simp
  | case2 l =>
    have hshort : ¬ [.escape backslash, .plain slash] <:+: [l] :=
      fun h => by simpa using h.length_le
    refine iff_of_false (fun h => ?_) hshort
    rw [List.mem_singleton] at h
    split_ifs at h with hl
    exact hl h.symm
  | case3 m rest ih =>
    have hhead : ¬ [Lexeme.escape backslash, .plain slash] <+: .escape slash :: m :: rest :=
      fun h =>
      absurd (List.cons_prefix_cons.mp h).1 (by decide)
    rw [List.infix_cons_iff, List.mem_cons, ih, or_iff_right hhead, or_iff_right nofun]
  | case4 l m rest hne hpair ih =>
    obtain ⟨rfl, rfl⟩ := hpair
    exact iff_of_true (List.mem_cons_self ..) ⟨[], rest, rfl⟩
  | case5 l m rest hne hpair ih =>
    have hhead : ¬ [Lexeme.escape backslash, .plain slash] <+: l :: m :: rest := fun h => by
      obtain ⟨hl, hrest⟩ := List.cons_prefix_cons.mp h
      exact hpair ⟨hl.symm, (List.cons_prefix_cons.mp hrest).1.symm⟩
    rw [List.infix_cons_iff, List.mem_cons, ih, or_iff_right hhead, or_iff_right (Ne.symm hne)]

/-- Elsewhere the characters that are left stand for the same. -/
theorem unslash_units {ls : List Lexeme} (h : ¬ [.escape backslash, .plain slash] <:+: ls) :
    (unslash ls).map Lexeme.unit = ls.map Lexeme.unit := by
  have hslash : (Lexeme.plain slash).unit = (Lexeme.escape slash).unit := by decide
  fun_induction unslash ls with
  | case1 => rfl
  | case2 l =>
    rw [List.map_singleton, List.map_singleton]
    split_ifs with hl
    · rw [hl, hslash]
    · rfl
  | case3 m rest ih =>
    have hrest := ih fun hinfix => h (List.infix_cons hinfix)
    rw [List.map_cons, hrest, List.map_cons (l := m :: rest), hslash]
  | case4 l m rest hne hpair ih =>
    obtain ⟨rfl, rfl⟩ := hpair
    exact absurd ⟨[], rest, rfl⟩ h
  | case5 l m rest hne hpair ih =>
    have hrest := ih fun hinfix => h (List.infix_cons hinfix)
    rw [List.map_cons, hrest, List.map_cons (l := m :: rest)]

/-- **Main.** The body of a string keeps its meaning, and no slash in it stays escaped, if and only
if no escaped backslash of it stands before a slash. -/
theorem unescape_preserves {s : CString} (hs : IsChars s.bytes) :
    (∃ t : CString, jsonUnescapeSlashes (some s) = some (true, some t) ∧ IsChars t.bytes ∧
      decode t.bytes = decode s.bytes ∧ .escape slash ∉ lexemes t.bytes) ↔
      ¬ [.escape backslash, .plain slash] <:+: lexemes s.bytes := by
  obtain ⟨ls, hls, htext⟩ := chars_iff_lexemes.mp hs
  obtain ⟨t, ht, hunescape⟩ := unescape_eq s
  rw [htext, foldl_unslash hls (by simp), List.nil_append] at ht
  have hlexemes := lexemes_texts (unslash_valid hls)
  rw [htext, lexemes_texts hls, ← escape_mem_unslash]
  constructor
  · rintro ⟨t', ht', -, -, hescape⟩
    rw [hunescape] at ht'
    cases ht'
    rwa [ht, hlexemes] at hescape
  · intro hescape
    refine ⟨t, hunescape, chars_iff_lexemes.mpr ⟨_, unslash_valid hls, ht⟩, ?_, ?_⟩
    · rw [decode, decode, ht, hlexemes, lexemes_texts hls,
        unslash_units (mt (escape_mem_unslash ls).mpr hescape)]
    · rwa [ht, hlexemes]

theorem escape_backslash_valid : (Lexeme.escape backslash).Valid :=
  show isEscape backslash = true from rfl

/-- `\\/`, which stands for a backslash and a slash. -/
def backslashSlash : CString := ⟨[backslash, backslash, slash], by decide⟩

/-- The backslash is lost, and an escaped slash is left. -/
theorem unescape_backslashSlash : IsChars backslashSlash.bytes ∧
    decode backslashSlash.bytes = [backslash, slash] ∧
    ∃ t : CString, jsonUnescapeSlashes (some backslashSlash) = some (true, some t) ∧
      decode t.bytes = [slash] ∧ .escape slash ∈ lexemes t.bytes := by
  have hvalid : ∀ l ∈ [Lexeme.escape backslash, .plain slash], l.Valid :=
    List.forall_mem_cons.mpr
      ⟨escape_backslash_valid, List.forall_mem_singleton.mpr plain_slash_valid⟩
  have hbody : lexemes backslashSlash.bytes = [.escape backslash, .plain slash] :=
    lexemes_texts hvalid
  have hleft : lexemes [backslash, slash] = [.escape slash] :=
    lexemes_texts (List.forall_mem_singleton.mpr escape_slash_valid)
  obtain ⟨t, ht, hunescape⟩ := unescape_eq backslashSlash
  refine ⟨chars_iff_lexemes.mpr ⟨_, hvalid, rfl⟩, ?_, t, hunescape, ?_, ?_⟩
  · rw [decode, hbody]
    rfl
  · rw [ht, decode]
    change unitsText ((lexemes [backslash, slash]).map Lexeme.unit) = _
    rw [hleft]
    rfl
  · rw [ht]
    change _ ∈ lexemes [backslash, slash]
    rw [hleft]
    exact List.mem_singleton_self _

/-- `\/`. -/
def escapedSlash : CString := ⟨[backslash, slash], by decide⟩

theorem unescape_preserves_slash :
    ∃ t : CString, jsonUnescapeSlashes (some escapedSlash) = some (true, some t) ∧
      IsChars t.bytes ∧ decode t.bytes = decode escapedSlash.bytes ∧
      .escape slash ∉ lexemes t.bytes := by
  have hbody : lexemes escapedSlash.bytes = [.escape slash] :=
    lexemes_texts (List.forall_mem_singleton.mpr escape_slash_valid)
  refine (unescape_preserves (.escape rfl .nil)).mpr ?_
  rw [hbody]
  intro h
  simpa using h.length_le

end Apple2ix.Json
