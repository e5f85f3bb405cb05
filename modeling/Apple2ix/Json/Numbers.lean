import Apple2ix.Json.MapUpdate

/-! `json_mapParseLongValue` of json_parse.c, with `strtol`, and what it reads of a number that was
set. -/
namespace Apple2ix.Json
set_option autoImplicit false

/-! ## `strtol` -/

/-- `isspace`. -/
def isCSpace (c : UInt8) : Bool := c == 0x20 || (0x09 ≤ c && c ≤ 0x0D)

/-- What a character is worth as a digit; it is no digit of a base that is not greater. -/
def digitValue (c : UInt8) : ℕ :=
  if 0x30 ≤ c && c ≤ 0x39 then c.toNat - 0x30
  else if 0x41 ≤ c && c ≤ 0x5A then c.toNat - 0x37
  else if 0x61 ≤ c && c ≤ 0x7A then c.toNat - 0x57
  else 36

/-- The base, and what stands behind a mark of base 16. -/
def strtolBase (base : ℤ) (text : List UInt8) : ℕ × List UInt8 :=
  match text with
  | zero :: x :: d :: rest =>
    if (base = 0 ∨ base = 16) ∧ zero = 0x30 ∧ (x = 0x78 ∨ x = 0x58) ∧ digitValue d < 16 then
      (16, d :: rest)
    else if base = 0 then (if zero = 0x30 then 8 else 10, text)
    else (base.toNat, text)
  | _ =>
    if base = 0 then (if text.head? = some 0x30 then 8 else 10, text) else (base.toNat, text)

/-- The number at the beginning of a text. -/
def digitsValue (base : ℕ) (text : List UInt8) : ℕ :=
  (text.takeWhile fun c => digitValue c < base).foldl (fun n c => base * n + digitValue c) 0

/-- `strtol(str, NULL, base)`. -/
def strtol (text : List UInt8) (base : ℤ) : Int64 :=
  if base = 0 ∨ 2 ≤ base ∧ base ≤ 36 then
    let text := text.dropWhile isCSpace
    let negative := text.head? = some 0x2D
    let text := if text.head? = some 0x2D ∨ text.head? = some 0x2B then text.tail else text
    let (base, text) := strtolBase base text
    let n := digitsValue base text
    .ofIntClamp (if negative then -n else n)
  else 0

/-- `json_mapParseLongValue`. -/
def jsonMapParseLongValue (map : JSON) (key : CString) (base : Int64) :
    Except JsmnErr (Option Int64) := do
  match ← jsonMapGetStringValue map key with
  | none => .ok none
  | some idx =>
    let text ← validText map (map.token idx)
    .ok (some (strtol text base.toInt32.toInt))

theorem parseLong_eq_lookup (map : JSON) (key : CString) (base : Int64) :
    jsonMapParseLongValue map key base =
      (lookup map key).map (Option.map fun v => strtol v.2 base.toInt32.toInt) := by
  rw [jsonMapParseLongValue, lookup]
  cases jsonMapGetStringValue map key with
  | error e => rfl
  | ok found =>
    cases found with
    | none => rfl
    | some idx =>
      rw [ok_bind, ok_bind]
      cases htext : validText map (map.token idx) with
      | error e => simp only [htext]; rfl
      | ok text => simp only [htext]; rfl

/-! ## Reading a number that was printed -/

theorem digit_bounds {c : UInt8} (h : isDigit c = true) : digitValue c < 10 ∧ isCSpace c = false ∧
    c ≠ 0x2D ∧ c ≠ 0x2B := by
  have hall : ∀ c : UInt8, isDigit c = true → digitValue c < 10 ∧ isCSpace c = false ∧ c ≠ 0x2D ∧
      c ≠ 0x2B := forall_uint8 (by decide +kernel)
  exact hall c h

theorem digitValue_ofNat {d : ℕ} (h : d < 10) : digitValue (UInt8.ofNat (0x30 + d)) = d := by
  have hall : ∀ d < 10, digitValue (UInt8.ofNat (0x30 + d)) = d := by decide
  exact hall d h

theorem decimal_value (n : ℕ) :
    (decimal n).foldl (fun n c => 10 * n + digitValue c) 0 = n := by
  fun_induction decimal n with
  | case1 n hn =>
    rw [List.foldl_cons, List.foldl_nil, digitValue_ofNat hn]
    omega
  | case2 n hn ih =>
    rw [List.foldl_append, ih, List.foldl_cons, List.foldl_nil,
      digitValue_ofNat (Nat.mod_lt _ (by decide))]
    omega

/-- A number in base 10 is read up to its end. -/
theorem digitsValue_decimal (n : ℕ) : digitsValue 10 (decimal n) = n := by
  have hall : ∀ c ∈ decimal n, decide (digitValue c < 10) = true := fun c hc =>
    decide_eq_true (digit_bounds ((decimal_digits n).2 c hc)).1
  rw [digitsValue, List.takeWhile_eq_self_iff.mpr hall, decimal_value]

theorem strtolBase_ten (text : List UInt8) : strtolBase 10 text = (10, text) := by
  rw [strtolBase.eq_def]
  split
  · rw [if_neg (by omega), if_neg (by omega)]
    rfl
  · rw [if_neg (by omega)]
    rfl

/-- The first character of a number. -/
theorem decimal_first (n : ℕ) : ∃ c rest, decimal n = c :: rest ∧ isDigit c = true := by
  obtain ⟨hne, hdigits⟩ := decimal_digits n
  obtain ⟨c, rest, hcons⟩ := List.exists_cons_of_ne_nil hne
  exact ⟨c, rest, hcons, hdigits c (by rw [hcons]; exact List.mem_cons_self ..)⟩

/-- **A number** that was printed in base 10 is read as it was. -/
theorem strtol_longText (val : Int64) : strtol (longText val) 10 = val := by
  obtain ⟨c, rest, hcons, hc⟩ := decimal_first val.toInt.natAbs
  obtain ⟨-, hspace, hminus, hplus⟩ := digit_bounds hc
  rw [strtol, if_pos (by omega), longText]
  split_ifs with hneg
  · have hdrop : (0x2D :: decimal val.toInt.natAbs).dropWhile isCSpace =
        0x2D :: decimal val.toInt.natAbs := List.dropWhile_cons_of_neg (by decide)
    simp only [hdrop, List.head?_cons, true_or, if_true, List.tail_cons, strtolBase_ten,
      digitsValue_decimal]
    have hval : -(val.toInt.natAbs : ℤ) = val.toInt := by omega
    rw [hval, Int64.ofIntClamp_toInt]
  · have hdrop : (decimal val.toInt.natAbs).dropWhile isCSpace = decimal val.toInt.natAbs := by
      rw [hcons]
      exact List.dropWhile_cons_of_neg (by simp [hspace])
    have hhead : (decimal val.toInt.natAbs).head? = some c := by
      rw [hcons]
      rfl
    simp only [hdrop, hhead, Option.some.injEq, hminus, hplus, or_self, if_false, strtolBase_ten,
      digitsValue_decimal]
    have hval : (val.toInt.natAbs : ℤ) = val.toInt := by omega
    rw [hval, Int64.ofIntClamp_toInt]

/-! ## Numbers in a map -/

def longValue (val : Int64) : Value := .primitive ⟨longText val, longText_primitive val⟩

section
variable {map : JSON} {values : List UInt8 → Option Value} {key : CString}

theorem Holds.setLong (h : Holds map values) (hkey : Plain key) (val : Int64) : ∃ map',
    jsonMapSetLongValue map (some key) val = .ok (true, map') ∧
      Holds map' (Function.update values key.bytes (some (longValue val))) := by
  refine h.set hkey (longValue val) ?_
  rw [putText_other _ (by decide)]
  exact snprintf_bytes (longText_length val) (longText_primitive val)

end

end Apple2ix.Json
