import Apple2ix.Cpu.X86Refines

/-! Decimal arithmetic on the x86 core. -/
namespace Apple2ix.Cpu.X86
open Cpu Processor
set_option autoImplicit false

universe u
variable {σ : Type u}

/-! ## Digits -/

theorem low_nibble (value : UInt8) : (value &&& 0x0F).toNat = value.toNat % 0x10 :=
  (UInt8.toNat_and value 0x0F).trans (Nat.and_two_pow_sub_one_eq_mod value.toNat 4)

/-- A result corrected where its low digit is above 9, for `daa` and `das`. -/
theorem nine_lt_low (value : UInt8) : 9 < value &&& 0x0F ↔ 9 < value.toNat % 0x10 := by
  rw [UInt8.lt_iff_toNat_lt, low_nibble]
  rfl

theorem last_lt (value : UInt8) : 0x99 < value ↔ 0x99 < value.toNat := UInt8.lt_iff_toNat_lt

section Correction
variable {tens units : ℕ} (htens : tens < 20) (hunits : units < 10)
include htens hunits

theorem carry_iff : 0x100 ≤ 0x10 * tens + units ∨ 0x99 < (0x10 * tens + units) % 0x100 ↔
    100 ≤ 10 * tens + units := by
  by_cases hten : tens < 10
  · omega
  · omega

theorem borrow_iff : 0x60 + 0x10 * tens + units < 0x100 ∨
    0x99 < (0x60 + 0x10 * tens + units) % 0x100 ↔ ¬ 100 ≤ 10 * tens + units := by
  by_cases hten : tens < 10
  · omega
  · omega

theorem correct_carry (h : 100 ≤ 10 * tens + units) :
    ((0x10 * tens + units) % 0x100 + 0x60) % 0x100 = 0x10 * (tens % 10) + units := by
  have hten : 10 ≤ tens := by omega
  omega

theorem correct_none (h : ¬ 100 ≤ 10 * tens + units) :
    (0x10 * tens + units) % 0x100 = 0x10 * (tens % 10) + units := by
  have hten : tens < 10 := by omega
  omega

end Correction

/-! ## Addition -/

section Add
variable {a v : UInt8} (ha : IsBcd a) (hv : IsBcd v) (c : Bool)
include ha hv

/-- The sum with its low digit corrected, as tens and units. -/
theorem adcDec_low :
    let r := adcb a v c
    let lo := if 9 < r.value &&& 0x0F ∨ r.flags.af then addb 6 r.value
      else ⟨r.value, ⟨false, false, false, false, false⟩⟩
    ∃ tens units, tens < 20 ∧ units < 10 ∧
      fromBcd a + fromBcd v + c.toNat = 10 * tens + units ∧
      lo.value.toNat = (0x10 * tens + units) % 0x100 ∧
      (lo.flags.cf ∨ r.flags.cf ↔ 0x100 ≤ 0x10 * tens + units) := by
  intro r lo
  have hr : r.value.toNat = (v.toNat + a.toNat + c.toNat) % 0x100 := by
    rw [adcb_value, UInt8.toNat_ofNat']
  have haf : r.flags.af = decide (0x10 ≤ v.toNat % 0x10 + a.toNat % 0x10 + c.toNat) := rfl
  have hcf : r.flags.cf = decide (0x100 ≤ v.toNat + a.toNat + c.toNat) := rfl
  have hc := Bool.toNat_le c
  obtain ⟨ha1, ha0⟩ := ha
  obtain ⟨hv1, hv0⟩ := hv
  by_cases hlow : 9 < r.value &&& 0x0F ∨ r.flags.af = true
  · have hlo : lo = addb 6 r.value := if_pos hlow
    have hvalue : lo.value.toNat = (r.value.toNat + 6) % 0x100 := by
      rw [hlo, addb, adcb_value, UInt8.toNat_ofNat']
      rfl
    have hlocf : lo.flags.cf = decide (0x100 ≤ r.value.toNat + 6) := by rw [hlo]; rfl
    rw [nine_lt_low, haf, decide_eq_true_eq] at hlow
    refine ⟨a.toNat / 0x10 + v.toNat / 0x10 + 1, a.toNat % 0x10 + v.toNat % 0x10 + c.toNat - 10,
      by omega, by omega, ?_, ?_, ?_⟩
    · rw [fromBcd, fromBcd]
      omega
    · rw [hvalue]
      omega
    · rw [hlocf, hcf, decide_eq_true_eq, decide_eq_true_eq]
      omega
  · have hlo : lo = ⟨r.value, ⟨false, false, false, false, false⟩⟩ := if_neg hlow
    have hvalue : lo.value = r.value := by rw [hlo]
    rw [nine_lt_low, haf, decide_eq_true_eq] at hlow
    refine ⟨a.toNat / 0x10 + v.toNat / 0x10, a.toNat % 0x10 + v.toNat % 0x10 + c.toNat,
      by omega, by omega, ?_, ?_, ?_⟩
    · rw [fromBcd, fromBcd]
      omega
    · rw [hvalue]
      omega
    · rw [hlo, hcf, decide_eq_true_eq]
      simp only [Bool.false_eq_true, false_or]
      omega

/-- **Addition.** The corrected sum, and when it has a carry. -/
theorem adcDec_eq :
    let r := adcb a v c
    let lo := if 9 < r.value &&& 0x0F ∨ r.flags.af then addb 6 r.value
      else ⟨r.value, ⟨false, false, false, false, false⟩⟩
    (lo.flags.cf ∨ r.flags.cf ∨ 0x99 < lo.value ↔ 100 ≤ fromBcd a + fromBcd v + c.toNat) ∧
      (if lo.flags.cf ∨ r.flags.cf ∨ 0x99 < lo.value then lo.value + 0x60 else lo.value) =
        toBcd (fromBcd a + fromBcd v + c.toNat) := by
  intro r lo
  obtain ⟨tens, units, htens, hunits, hsum, hvalue, hcf⟩ := adcDec_low ha hv c
  change lo.value.toNat = _ at hvalue
  change (lo.flags.cf ∨ r.flags.cf ↔ _) at hcf
  have hcarry : lo.flags.cf ∨ r.flags.cf ∨ 0x99 < lo.value ↔
      100 ≤ fromBcd a + fromBcd v + c.toNat := by
    rw [← or_assoc, hcf, last_lt, hvalue, hsum]
    exact carry_iff htens hunits
  refine ⟨hcarry, ?_⟩
  simp only [hcarry]
  rw [hsum, ← UInt8.toNat_inj, toBcd_digits hunits]
  by_cases h : 100 ≤ 10 * tens + units
  · rw [if_pos h, UInt8.toNat_add, hvalue]
    exact correct_carry htens hunits h
  · rw [if_neg h, hvalue]
    exact correct_none htens hunits h

end Add

/-! ## Subtraction -/

section Subtract
variable {a v : UInt8} (ha : IsBcd a) (hv : IsBcd v) (b : Bool)
include ha hv

/-- The difference with its low digit corrected, a hundred added. -/
theorem sbcDec_low :
    let r := sbbb v a b
    let lo := if 9 < r.value &&& 0x0F ∨ r.flags.af then subb 6 r.value
      else ⟨r.value, ⟨false, false, false, false, false⟩⟩
    ∃ tens units, tens < 20 ∧ units < 10 ∧
      100 + fromBcd a - (fromBcd v + b.toNat) = 10 * tens + units ∧
      lo.value.toNat = (0x60 + 0x10 * tens + units) % 0x100 ∧
      (lo.flags.cf ∨ r.flags.cf ↔ 0x60 + 0x10 * tens + units < 0x100) := by
  intro r lo
  have hb : b.toUInt8.toNat = b.toNat := by cases b <;> rfl
  have hvlt := v.toNat_lt
  have halt := a.toNat_lt
  have hb1 := Bool.toNat_le b
  have hr : r.value.toNat = (0x200 + a.toNat - v.toNat - b.toNat) % 0x100 := by
    change (a - v - b.toUInt8).toNat = _
    rw [UInt8.toNat_sub, UInt8.toNat_sub, hb]
    omega
  have haf : r.flags.af = decide (a.toNat % 0x10 < v.toNat % 0x10 + b.toNat) := rfl
  have hcf : r.flags.cf = decide (a.toNat < v.toNat + b.toNat) := rfl
  obtain ⟨ha1, ha0⟩ := ha
  obtain ⟨hv1, hv0⟩ := hv
  by_cases hlow : 9 < r.value &&& 0x0F ∨ r.flags.af = true
  · have hlo : lo = subb 6 r.value := if_pos hlow
    have hvalue : lo.value.toNat = (0x100 + r.value.toNat - 6) % 0x100 := by
      rw [hlo, subb_value, UInt8.toNat_sub]
      change (2 ^ 8 - 6 + _) % _ = _
      omega
    have hlocf : lo.flags.cf = decide (r.value.toNat < 6) := by
      rw [hlo, subb_cf]
      rfl
    rw [nine_lt_low, haf, decide_eq_true_eq] at hlow
    refine ⟨9 + a.toNat / 0x10 - v.toNat / 0x10, 10 + a.toNat % 0x10 - (v.toNat % 0x10 + b.toNat),
      by omega, by omega, ?_, ?_, ?_⟩
    · rw [fromBcd, fromBcd]
      omega
    · rw [hvalue]
      omega
    · rw [hlocf, hcf, decide_eq_true_eq, decide_eq_true_eq]
      omega
  · have hlo : lo = ⟨r.value, ⟨false, false, false, false, false⟩⟩ := if_neg hlow
    have hvalue : lo.value = r.value := by rw [hlo]
    rw [nine_lt_low, haf, decide_eq_true_eq] at hlow
    refine ⟨10 + a.toNat / 0x10 - v.toNat / 0x10, a.toNat % 0x10 - (v.toNat % 0x10 + b.toNat),
      by omega, by omega, ?_, ?_, ?_⟩
    · rw [fromBcd, fromBcd]
      omega
    · rw [hvalue]
      omega
    · rw [hlo, hcf, decide_eq_true_eq]
      simp only [Bool.false_eq_true, false_or]
      omega

/-- **Subtraction.** The corrected difference, and when there is a borrow. -/
theorem sbcDec_eq :
    let r := sbbb v a b
    let lo := if 9 < r.value &&& 0x0F ∨ r.flags.af then subb 6 r.value
      else ⟨r.value, ⟨false, false, false, false, false⟩⟩
    let sum := 100 + fromBcd a + (!b).toNat - (fromBcd v + 1)
    (lo.flags.cf ∨ r.flags.cf ∨ 0x99 < lo.value ↔ ¬ 100 ≤ sum) ∧
      (if lo.flags.cf ∨ r.flags.cf ∨ 0x99 < lo.value then lo.value - 0x60 else lo.value) =
        toBcd sum := by
  intro r lo sum
  obtain ⟨tens, units, htens, hunits, hdiff, hvalue, hcf⟩ := sbcDec_low ha hv b
  change lo.value.toNat = _ at hvalue
  change (lo.flags.cf ∨ r.flags.cf ↔ _) at hcf
  have hb : (!b).toNat + b.toNat = 1 := by cases b <;> rfl
  have hsum : sum = 10 * tens + units := by
    rw [← hdiff]
    change 100 + fromBcd a + (!b).toNat - (fromBcd v + 1) = _
    omega
  have hborrow : lo.flags.cf ∨ r.flags.cf ∨ 0x99 < lo.value ↔ ¬ 100 ≤ sum := by
    rw [← or_assoc, hcf, last_lt, hvalue, hsum]
    exact borrow_iff htens hunits
  refine ⟨hborrow, ?_⟩
  simp only [hborrow]
  rw [hsum, ← UInt8.toNat_inj, toBcd_digits hunits]
  by_cases h : 100 ≤ 10 * tens + units
  · rw [if_neg (not_not.mpr h), hvalue, ← correct_carry htens hunits h]
    omega
  · rw [if_pos h, UInt8.toNat_sub, hvalue, ← correct_none htens hunits h]
    change (2 ^ 8 - 0x60 + _) % _ = _
    clear hsum hdiff hb
    omega

end Subtract

/-! ## Routines -/

section Routines
variable (s : State Ram)

theorem status_cleared (f : UInt8) :
    flagX86.status (f &&& ~~~(flagX86.n ||| flagX86.v ||| flagX86.z ||| flagX86.c)) =
      { flagX86.status f with n := false, v := false, z := false, c := false } ∧
    flagX86.status (f &&& ~~~(flagX86.n ||| flagX86.v ||| flagX86.z) ||| flagX86.c) =
      { flagX86.status f with n := false, v := false, z := false, c := true } ∧
    flagX86.status (f ||| flagX86.n) = { flagX86.status f with n := true } ∧
    flagX86.status (f ||| flagX86.z) = { flagX86.status f with z := true } := by
  refine ⟨?_, ?_, ?_, ?_⟩
  · rw [bic_select]
    simp (disch := decide) only [Layout.status, select_in, select_out]
    rfl
  · rw [orr_select, bic_select f]
    simp (disch := decide) only [Layout.status, select_in, select_out]
    rfl
  · rw [orr_select]
    simp (disch := decide) only [Layout.status, select_in, select_out]
    rfl
  · rw [orr_select]
    simp (disch := decide) only [Layout.status, select_in, select_out]
    rfl

theorem view_orN (b : Bool) : (if b then { s with f := s.f ||| flagX86.n } else s).view =
    { s.view with p := { s.view.p with n := s.view.p.n || b } } := by
  cases b with
  | false => simp [Bool.or_false]
  | true =>
    rw [Bool.or_true]
    exact congrArg (fun p => { s.view with p := p }) (status_cleared s.f).2.2.1

theorem view_orZ (b : Bool) : (if b then s else { s with f := s.f ||| flagX86.z }).view =
    { s.view with p := { s.view.p with z := s.view.p.z || !b } } := by
  cases b with
  | false =>
    rw [Bool.not_false, Bool.or_true]
    exact congrArg (fun p => { s.view with p := p }) (status_cleared s.f).2.2.2
  | true => simp [Bool.or_false]

theorem al_orN (b : Bool) : (if b then { s with f := s.f ||| flagX86.n } else s).al = s.al := by
  cases b <;> rfl

theorem al_orZ (b : Bool) : (if b then s else { s with f := s.f ||| flagX86.z }).al = s.al := by
  cases b <;> rfl

theorem view_decFinish (hn : s.view.p.n = false) (hz : s.view.p.z = false) :
    (decFinish s).view = { s.view with a := s.al, p := setNZ s.al s.view.p } := by
  have hset : ∀ u : State Ram, ({ u with a := u.al } : State Ram).view =
      { u.view with a := u.al } := fun _ => rfl
  have hsign : (s.al &&& 0x80 != 0) = negative s.al := signBit_eq s.al
  have hzero : (!(s.al != 0)) = (s.al == 0) := by simp [bne]
  rw [decFinish, hset, al_orZ, view_orZ, al_orN, view_orN, hn, hz, hzero, hsign, Bool.false_or,
    Bool.false_or, setNZ]

/-- The end of a routine on flags that are clear but for the carry. -/
theorem view_finish {f value : UInt8} {c : Bool} (hf : flagX86.status f =
      { s.view.p with n := false, v := false, z := false, c := c }) :
    (decFinish { s with al := value, f := f }).view =
      { s.view with a := value, p := { setNZ value s.view.p with c := c, v := false } } := by
  have hp : ({ s with al := value, f := f } : State Ram).view.p =
      { s.view.p with n := false, v := false, z := false, c := c } := hf
  rw [view_decFinish _ (congrArg Status.n hp) (congrArg Status.z hp), hp]
  rfl

theorem view_addLoaded (ha : IsBcd s.a) (hv : IsBcd s.al) : (addLoaded s).view =
    let sum := fromBcd s.a + fromBcd s.al + (btC s).toNat
    { s.view with
      a := toBcd sum
      p := { setNZ (toBcd sum) s.view.p with c := decide (100 ≤ sum), v := false } } := by
  obtain ⟨hcarry, hvalue⟩ := adcDec_eq ha hv (btC s)
  have hclear := (status_cleared s.f).1
  dsimp only
  by_cases h : 100 ≤ fromBcd s.a + fromBcd s.al + (btC s).toNat
  · have hrun : (addLoaded s).view = _ := congrArg State.view (if_pos (hcarry.mpr h))
    rw [if_pos (hcarry.mpr h)] at hvalue
    rw [← hvalue, decide_eq_true h, hrun]
    refine view_finish s ?_
    rw [(status_setFlag _).1]
    exact congrArg (fun p : Status => { p with c := true }) hclear
  · have hrun : (addLoaded s).view = _ := congrArg State.view (if_neg (mt hcarry.mp h))
    rw [if_neg (mt hcarry.mp h)] at hvalue
    rw [← hvalue, decide_eq_false h, hrun]
    exact view_finish s hclear

theorem view_subLoaded (ha : IsBcd s.a) (hv : IsBcd s.al) : (subLoaded s).view =
    let sum := 100 + fromBcd s.a + (btC s).toNat - (fromBcd s.al + 1)
    { s.view with
      a := toBcd sum
      p := { setNZ (toBcd sum) s.view.p with c := decide (100 ≤ sum), v := false } } := by
  obtain ⟨hborrow, hvalue⟩ := sbcDec_eq ha hv (!btC s)
  have hclear := (status_cleared s.f).2.1
  rw [Bool.not_not] at hborrow hvalue
  dsimp only
  by_cases h : 100 ≤ 100 + fromBcd s.a + (btC s).toNat - (fromBcd s.al + 1)
  · have hno := not_iff_not.mpr hborrow
    rw [not_not] at hno
    have hrun : (subLoaded s).view = _ := congrArg State.view (if_neg (hno.mpr h))
    rw [if_neg (hno.mpr h)] at hvalue
    rw [← hvalue, decide_eq_true h, hrun]
    exact view_finish s hclear
  · have hrun : (subLoaded s).view = _ := congrArg State.view (if_pos (hborrow.mpr h))
    rw [if_pos (hborrow.mpr h)] at hvalue
    rw [← hvalue, decide_eq_false h, hrun]
    refine view_finish s ?_
    rw [(status_clearFlag _).1]
    exact congrArg (fun p : Status => { p with c := false }) hclear

/-- What both routines begin with. -/
theorem view_operand : (getFromEaB ramBus (countCycle s)).view =
    { s.view with cycles := s.view.cycles + 1 } := rfl

/-- **Decimal addition**, on two bytes of decimal digits. -/
theorem view_opAdcDec (ha : IsBcd s.a) (hv : IsBcd s.byte) :
    (opAdcDec ramBus s).view = addDecimal s.byte s.view := by
  rw [opAdcDec, view_addLoaded (getFromEaB ramBus (countCycle s)) ha hv, view_operand]
  rfl

/-- **Decimal subtraction**. -/
theorem view_opSbcDec (ha : IsBcd s.a) (hv : IsBcd s.byte) :
    (opSbcDec ramBus s).view = subDecimal s.byte s.view := by
  rw [opSbcDec, view_subLoaded (getFromEaB ramBus (countCycle s)) ha hv, view_operand]
  rfl

end Routines

end Apple2ix.Cpu.X86
