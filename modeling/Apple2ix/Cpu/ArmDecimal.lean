import Apple2ix.Cpu.ArmFlags

/-! Decimal arithmetic on the ARM core, nybble by nybble. -/
namespace Apple2ix.Cpu.Arm
open Cpu Processor
set_option autoImplicit false

universe u
variable {σ : Type u}

/-! ## Nybbles -/

/-- The low nybbles added and adjusted. -/
def addLow (a v c : ℕ) : ℕ :=
  let lo := a % 0x10 + (v % 0x10 + c)
  if lo ≤ 9 then lo else lo + 6

/-- The high nybbles and the carry of the low ones. -/
def addHigh (a v c : ℕ) : ℕ := a / 0x10 + (v / 0x10 + addLow a v c / 0x10)

def adjusted (hi : ℕ) : ℕ := if hi ≤ 9 then hi else hi + 6

theorem adjusted_digits {hi units : ℕ} (hhi : hi < 20) (hunits : units < 10) :
    (0x10 * adjusted hi + units) % 0x100 = 0x10 * (hi % 10) + units := by
  rw [adjusted]
  by_cases hfits : hi ≤ 9
  · rw [if_pos hfits]
    omega
  · rw [if_neg hfits]
    omega

/-- What `op_ADC_dec` leaves in A_Reg. -/
def addWord (a v c : ℕ) : ℕ := 0x10 * adjusted (addHigh a v c) + addLow a v c % 0x10

/-- The low nybbles subtracted. -/
def subLow (a v b : ℕ) : ℕ := (0x200 + a % 0x10 - v % 0x10 - b) % 0x100

/-- The high nybbles and the borrow of the low ones. -/
def subHigh (a v b : ℕ) : ℕ :=
  (0x200 + a / 0x10 - v / 0x10 - (if subLow a v b ≤ 9 then 0 else 1)) % 0x100

def readjusted (n : ℕ) : ℕ := if n ≤ 9 then n else (n - 6) % 0x10

theorem readjusted_lt (n : ℕ) : readjusted n < 0x10 := by
  rw [readjusted]
  split <;> omega

def subWord (a v b : ℕ) : ℕ := 0x10 * readjusted (subHigh a v b) + readjusted (subLow a v b)

section Digits
variable {a v : UInt8} (ha : IsBcd a) (hv : IsBcd v) (c : Bool)
include ha hv

theorem addLow_bcd : addLow a.toNat v.toNat c.toNat % 0x10 =
      (a.toNat % 0x10 + v.toNat % 0x10 + c.toNat) % 10 ∧
    addLow a.toNat v.toNat c.toNat / 0x10 = (a.toNat % 0x10 + v.toNat % 0x10 + c.toNat) / 10 := by
  have hc := Bool.toNat_le c
  obtain ⟨-, ha0⟩ := ha
  obtain ⟨-, hv0⟩ := hv
  rw [addLow]
  by_cases hlow : a.toNat % 0x10 + (v.toNat % 0x10 + c.toNat) ≤ 9
  · simp only [hlow, if_true]
    omega
  · simp only [hlow, if_false]
    omega

/-- On decimal digits the high nybbles exceed 9 when the sum does not fit. -/
theorem addHigh_bcd :
    addHigh a.toNat v.toNat c.toNat ≤ 9 ↔ ¬ 100 ≤ fromBcd a + fromBcd v + c.toNat := by
  obtain ⟨-, hlow⟩ := addLow_bcd ha hv c
  rw [addHigh, hlow, fromBcd, fromBcd]
  omega

theorem addWord_bcd : addWord a.toNat v.toNat c.toNat % 0x100 =
    (toBcd (fromBcd a + fromBcd v + c.toNat)).toNat := by
  have hc := Bool.toNat_le c
  obtain ⟨hdigit, hlow⟩ := addLow_bcd ha hv c
  have hunits : (a.toNat % 0x10 + v.toNat % 0x10 + c.toNat) % 10 < 10 := Nat.mod_lt _ (by omega)
  have hsum : fromBcd a + fromBcd v + c.toNat = 10 * addHigh a.toNat v.toNat c.toNat +
      (a.toNat % 0x10 + v.toNat % 0x10 + c.toNat) % 10 := by
    rw [addHigh, hlow, fromBcd, fromBcd]
    omega
  have hlt : addHigh a.toNat v.toNat c.toNat < 20 := by
    rw [addHigh, hlow]
    obtain ⟨ha1, ha0⟩ := ha
    obtain ⟨hv1, hv0⟩ := hv
    omega
  rw [addWord, hdigit, hsum, toBcd_digits hunits]
  exact adjusted_digits hlt hunits

theorem subLow_bcd (b : Bool) : readjusted (subLow a.toNat v.toNat b.toNat) =
      (10 + a.toNat % 0x10 - v.toNat % 0x10 - b.toNat) % 10 ∧
    (subLow a.toNat v.toNat b.toNat ≤ 9 ↔ v.toNat % 0x10 + b.toNat ≤ a.toNat % 0x10) := by
  have hb := Bool.toNat_le b
  obtain ⟨-, ha0⟩ := ha
  obtain ⟨-, hv0⟩ := hv
  have hlow : subLow a.toNat v.toNat b.toNat ≤ 9 ↔ v.toNat % 0x10 + b.toNat ≤ a.toNat % 0x10 := by
    rw [subLow]
    omega
  refine ⟨?_, hlow⟩
  rw [readjusted]
  by_cases hfits : subLow a.toNat v.toNat b.toNat ≤ 9
  · rw [if_pos hfits, subLow]
    rw [hlow] at hfits
    omega
  · rw [if_neg hfits, subLow]
    rw [hlow] at hfits
    omega

theorem subHigh_bcd (b : Bool) : subHigh a.toNat v.toNat b.toNat ≤ 9 ↔
    100 ≤ 100 + fromBcd a + (!b).toNat - (fromBcd v + 1) := by
  have hb : (!b).toNat + b.toNat = 1 := by cases b <;> rfl
  obtain ⟨-, hlow⟩ := subLow_bcd ha hv b
  obtain ⟨ha1, ha0⟩ := ha
  obtain ⟨hv1, hv0⟩ := hv
  rw [subHigh, fromBcd, fromBcd]
  by_cases hfits : subLow a.toNat v.toNat b.toNat ≤ 9
  · rw [if_pos hfits]
    rw [hlow] at hfits
    omega
  · rw [if_neg hfits]
    rw [hlow] at hfits
    omega

theorem subWord_bcd (b : Bool) : subWord a.toNat v.toNat b.toNat =
    (toBcd (100 + fromBcd a + (!b).toNat - (fromBcd v + 1))).toNat := by
  have hb : (!b).toNat + b.toNat = 1 := by cases b <;> rfl
  obtain ⟨hdigit, hlow⟩ := subLow_bcd ha hv b
  have hunits : (10 + a.toNat % 0x10 - v.toNat % 0x10 - b.toNat) % 10 < 10 :=
    Nat.mod_lt _ (by omega)
  -- the difference of the tens, ten added
  obtain ⟨tens, htens⟩ : ∃ tens, tens + v.toNat / 0x10 + (if subLow a.toNat v.toNat b.toNat ≤ 9
      then 0 else 1) = 10 + a.toNat / 0x10 := by
    obtain ⟨ha1, ha0⟩ := ha
    obtain ⟨hv1, hv0⟩ := hv
    refine ⟨10 + a.toNat / 0x10 - v.toNat / 0x10 - (if subLow a.toNat v.toNat b.toNat ≤ 9
      then 0 else 1), ?_⟩
    split <;> omega
  have hhigh : subHigh a.toNat v.toNat b.toNat = (0x200 + tens - 10) % 0x100 := by
    obtain ⟨ha1, ha0⟩ := ha
    obtain ⟨hv1, hv0⟩ := hv
    rw [subHigh]
    omega
  have hsum : 100 + fromBcd a + (!b).toNat - (fromBcd v + 1) =
      10 * tens + (10 + a.toNat % 0x10 - v.toNat % 0x10 - b.toNat) % 10 := by
    obtain ⟨ha1, ha0⟩ := ha
    obtain ⟨hv1, hv0⟩ := hv
    rw [fromBcd, fromBcd]
    by_cases hfits : subLow a.toNat v.toNat b.toNat ≤ 9
    · rw [if_pos hfits] at htens
      rw [hlow] at hfits
      omega
    · rw [if_neg hfits] at htens
      rw [hlow] at hfits
      omega
  rw [subWord, hdigit, hhigh, readjusted, hsum, toBcd_digits hunits]
  obtain ⟨ha1, ha0⟩ := ha
  clear hsum hhigh hdigit hlow hunits
  by_cases hten : 10 ≤ tens
  · have htens' : (0x200 + tens - 10) % 0x100 = tens - 10 := by
      split at htens <;> omega
    rw [htens', if_pos (by split at htens <;> omega)]
    split at htens <;> omega
  · have htens' : (0x200 + tens - 10) % 0x100 = 0xF6 + tens := by omega
    rw [htens', if_neg (by omega)]
    omega

end Digits

/-! ## Words -/

theorem le_nine (w : UInt32) : w ≤ 0x09 ↔ w.toNat ≤ 9 := UInt32.le_iff_toNat_le

theorem nybbles_toNat {hi lo : UInt32} (hhi : hi.toNat < 0x100) (hlo : lo.toNat < 0x10) :
    (hi <<< 4 ||| lo).toNat = 0x10 * hi.toNat + lo.toNat := by
  have hshift : (hi <<< 4).toNat = hi.toNat <<< 4 := by
    rw [shiftLeft_toNat hi 4 (n := 4) rfl, Nat.shiftLeft_eq]
    omega
  rw [UInt32.toNat_or, hshift, ← Nat.shiftLeft_add_eq_or_of_lt hlo, Nat.shiftLeft_eq]
  omega

theorem carry_toNat (c : Bool) : c.toUInt32.toNat = c.toNat := by cases c <;> rfl

section Words
variable {a r : UInt32} (ha : a.toNat < 0x100) (hr : r.toNat < 0x100) (c : Bool)

/-- The adjusted low nybble of `op_ADC_dec`. -/
def addLowWord (a r : UInt32) (c : Bool) : UInt32 :=
  let lo := (a &&& 0x0F) + ((r &&& 0x0F) + c.toUInt32)
  if lo ≤ 0x09 then lo else lo + 6

theorem addLowWord_toNat : (addLowWord a r c).toNat = addLow a.toNat r.toNat c.toNat := by
  have hc := Bool.toNat_le c
  have hlo : ((a &&& 0x0F) + ((r &&& 0x0F) + c.toUInt32)).toNat =
      a.toNat % 0x10 + (r.toNat % 0x10 + c.toNat) := by
    rw [UInt32.toNat_add, UInt32.toNat_add, and_nibble, and_nibble, carry_toNat]
    omega
  simp only [addLowWord, addLow, le_nine, hlo]
  by_cases hfits : a.toNat % 0x10 + (r.toNat % 0x10 + c.toNat) ≤ 9
  · rw [if_pos hfits, if_pos hfits, hlo]
  · rw [if_neg hfits, if_neg hfits, UInt32.toNat_add, hlo]
    change (_ + 6) % 2 ^ 32 = _
    omega

/-- The sum of the high nybbles. -/
def addHighWord (a r : UInt32) (c : Bool) : UInt32 :=
  a >>> 4 + (r >>> 4 + addLowWord a r c >>> 4)

include ha hr

theorem addHighWord_toNat : (addHighWord a r c).toNat = addHigh a.toNat r.toNat c.toNat := by
  have hc := Bool.toNat_le c
  have hlow : addLow a.toNat r.toNat c.toNat < 0x100 := by
    rw [addLow]
    split <;> omega
  rw [addHighWord, UInt32.toNat_add, UInt32.toNat_add, shiftRight_toNat a 4 (n := 4) rfl,
    shiftRight_toNat r 4 (n := 4) rfl, shiftRight_toNat _ 4 (n := 4) rfl, addLowWord_toNat, addHigh]
  omega

omit ha hr in
/-- The low nybble of `op_SBC_dec`, a byte. -/
def subLowWord (a r : UInt32) (b : Bool) : UInt32 :=
  ((((a &&& 0x0F) - (r &&& 0x0F)) &&& 0xFF) - b.toUInt32) &&& 0xFF

omit ha hr in
theorem subLowWord_toNat (b : Bool) :
    (subLowWord a r b).toNat = subLow a.toNat r.toNat b.toNat := by
  have hb := Bool.toNat_le b
  rw [subLowWord, and_byte, UInt32.toNat_sub, and_byte, UInt32.toNat_sub, and_nibble, and_nibble,
    carry_toNat, subLow]
  omega

/-- The difference of the high nybbles. -/
def subHighWord (a r : UInt32) (b : Bool) : UInt32 :=
  ((((a >>> 4) - (r >>> 4)) &&& 0xFF) - (if subLowWord a r b ≤ 0x09 then 0 else 1)) &&& 0xFF

theorem subHighWord_toNat (b : Bool) :
    (subHighWord a r b).toNat = subHigh a.toNat r.toNat b.toNat := by
  have hborrow : (if subLowWord a r b ≤ 0x09 then (0 : UInt32) else 1).toNat =
      if subLow a.toNat r.toNat b.toNat ≤ 9 then 0 else 1 := by
    simp only [le_nine, subLowWord_toNat]
    split <;> rfl
  rw [subHighWord, and_byte, UInt32.toNat_sub, and_byte, UInt32.toNat_sub,
    shiftRight_toNat a 4 (n := 4) rfl, shiftRight_toNat r 4 (n := 4) rfl, hborrow, subHigh]
  split <;> omega

omit ha hr in
/-- A difference without its borrow. -/
def readjustedWord (w : UInt32) : UInt32 := if w ≤ 0x09 then w else (w - 6) &&& 0x0F

omit ha hr in
theorem readjustedWord_toNat (w : UInt32) : (readjustedWord w).toNat = readjusted w.toNat := by
  rw [readjustedWord, readjusted]
  simp only [le_nine]
  by_cases hfits : w.toNat ≤ 9
  · rw [if_pos hfits, if_pos hfits]
  · rw [if_neg hfits, if_neg hfits, and_nibble, UInt32.toNat_sub]
    change (2 ^ 32 - 6 + _) % 2 ^ 32 % 0x10 = _
    omega

end Words

/-! ## Addition -/

section Add
variable (arch : Arch) (bus : WideBus σ) (s : State σ)

/-- The operands of both routines: A_Reg and the byte at EffectiveAddr. -/
def decOperands : State σ := getFromEaB bus (addOpCycles 1 s)

/-- `op_ADC_dec`, by the two sums. -/
theorem opAdcDec_run {c : Bool} (hc : carryIn (decOperands bus s) = c.toUInt32) :
    let u := decOperands bus s
    let hi := addHighWord u.a u.r0 c
    opAdcDec arch bus s = mergeNybbles arch (addLowWord u.a u.r0 c &&& 0x0F)
      (if hi ≤ 0x09 then { bicF nvzcFlags u with a := u.a >>> 4, r0 := hi }
      else orrF flagArm.c.toUInt32 { bicF nvzcFlags u with a := u.a >>> 4, r0 := hi + 6 }) := by
  intro u hi
  have hcarry : carryIn u = c.toUInt32 := hc
  simp only [hi, addHighWord, addLowWord, ← hcarry]
  rfl

theorem orrF_r0 (w : UInt32) : (orrF w s).r0 = s.r0 := rfl

theorem mergeNybbles_a (lo : UInt32) : (mergeNybbles arch lo s).a = s.r0 <<< 4 ||| lo := rfl

/-- A_Reg after an addition, which is out of range when the high nybbles exceed 9. -/
theorem opAdcDec_a {c : Bool} (hc : carryIn (decOperands bus s) = c.toUInt32)
    (ha : s.a.toNat < 0x100) : (opAdcDec arch bus s).a.toNat =
      addWord s.a.toNat (decOperands bus s).r0.toNat c.toNat := by
  have hr : (decOperands bus s).r0.toNat < 0x100 := UInt8.toNat_lt _
  have hua : (decOperands bus s).a.toNat < 0x100 := ha
  have hhigh := addHighWord_toNat hua hr c
  have hlow := addLowWord_toNat (a := (decOperands bus s).a) (r := (decOperands bus s).r0) c
  have hlo : (addLowWord (decOperands bus s).a (decOperands bus s).r0 c &&& 0x0F).toNat < 0x10 := by
    rw [and_nibble]
    exact Nat.mod_lt _ (by omega)
  have hbound : addHigh s.a.toNat (decOperands bus s).r0.toNat c.toNat < 0x40 := by
    have hc1 := Bool.toNat_le c
    rw [addHigh, addLow]
    split <;> omega
  change _ = addHigh s.a.toNat _ _ at hhigh
  change _ = addLow s.a.toNat _ _ at hlow
  rw [opAdcDec_run arch bus s hc, mergeNybbles_a, addWord, adjusted]
  simp only [le_nine, hhigh]
  by_cases hfits : addHigh s.a.toNat (decOperands bus s).r0.toNat c.toNat ≤ 9
  · rw [if_pos hfits, if_pos hfits, nybbles_toNat (by rw [hhigh]; omega) hlo, and_nibble, hhigh,
      hlow]
  · have hsix : (addHighWord (decOperands bus s).a (decOperands bus s).r0 c + 6).toNat =
        addHigh s.a.toNat (decOperands bus s).r0.toNat c.toNat + 6 := by
      rw [UInt32.toNat_add, hhigh]
      change (_ + 6) % 2 ^ 32 = _
      omega
    have hsix' :
        (addHighWord (decOperands bus s).a (decOperands bus s).r0 c + 6).toNat < 0x100 := by
      omega
    rw [if_neg hfits, if_neg hfits, orrF_r0]
    dsimp only
    rw [nybbles_toNat hsix' hlo, and_nibble, hsix, hlow]

end Add

/-! ## Subtraction -/

section Subtract
variable (arch : Arch) (bus : WideBus σ) (s : State σ)

/-- `op_SBC_dec`, by the two differences. -/
theorem opSbcDec_run {b : Bool} (hb : borrowIn (decOperands bus s) = b.toUInt32) :
    let u := decOperands bus s
    let hi := subHighWord u.a u.r0 b
    opSbcDec arch bus s = mergeNybbles arch (readjustedWord (subLowWord u.a u.r0 b))
      (if hi ≤ 0x09 then
        { orrF flagArm.c.toUInt32 (bicF nvzcFlags u) with a := u.a >>> 4, r0 := hi }
      else bicF flagArm.c { orrF flagArm.c.toUInt32 (bicF nvzcFlags u) with
        a := u.a >>> 4, r0 := (hi - 6) &&& 0x0F }) := by
  intro u hi
  have hborrow : borrowIn u = b.toUInt32 := hb
  simp only [hi, readjustedWord, subHighWord, subLowWord, ← hborrow]
  rfl

/-- A_Reg after a subtraction is in range. -/
theorem opSbcDec_a {b : Bool} (hb : borrowIn (decOperands bus s) = b.toUInt32)
    (ha : s.a.toNat < 0x100) : (opSbcDec arch bus s).a.toNat =
      subWord s.a.toNat (decOperands bus s).r0.toNat b.toNat := by
  have hr : (decOperands bus s).r0.toNat < 0x100 := UInt8.toNat_lt _
  have hua : (decOperands bus s).a.toNat < 0x100 := ha
  have hhigh := subHighWord_toNat hua hr b
  have hlow := subLowWord_toNat (a := (decOperands bus s).a) (r := (decOperands bus s).r0) b
  have hlo := readjustedWord_toNat (subLowWord (decOperands bus s).a (decOperands bus s).r0 b)
  change _ = subHigh s.a.toNat _ _ at hhigh
  change _ = subLow s.a.toNat _ _ at hlow
  rw [hlow] at hlo
  have hlo16 := readjusted_lt (subLow s.a.toNat (decOperands bus s).r0.toNat b.toNat)
  have hhi := readjustedWord_toNat (subHighWord (decOperands bus s).a (decOperands bus s).r0 b)
  rw [hhigh] at hhi
  have hhi16 := readjusted_lt (subHigh s.a.toNat (decOperands bus s).r0.toNat b.toNat)
  rw [opSbcDec_run arch bus s hb, mergeNybbles_a, subWord, ← hlo, ← hhi]
  rw [← hlo] at hlo16
  rw [← hhi] at hhi16
  rw [← nybbles_toNat (by omega) hlo16]
  congr 3
  rw [readjustedWord]
  split <;> rfl

end Subtract

/-! ## On 64K -/

section Routines
variable (arch : Arch) (s : State Ram)

theorem view_mergeNybbles (lo : UInt32) (hn : s.view.p.n = false) :
    (mergeNybbles arch lo s).view = { s.view with
      a := (s.r0 <<< 4 ||| lo).toUInt8
      p := setNZ (s.r0 <<< 4 ||| lo).toUInt8 s.view.p } := by
  rw [mergeNybbles, view_zeroByte, view_negByte]
  · rfl
  · exact hn

/-- The end of a routine on flags that are clear but for the carry. -/
theorem view_finish {a r f lo : UInt32} {value : UInt8} {c : Bool} (hf : flagArm.status f.toUInt8 =
      { s.view.p with n := false, v := false, z := false, c := c })
    (hvalue : (r <<< 4 ||| lo).toUInt8 = value) :
    (mergeNybbles arch lo { s with a := a, r0 := r, f := f }).view =
      { s.view with a := value, p := { setNZ value s.view.p with c := c, v := false } } := by
  have hp : ({ s with a := a, r0 := r, f := f } : State Ram).view.p =
      { s.view.p with n := false, v := false, z := false, c := c } := hf
  rw [view_mergeNybbles _ _ _ (congrArg Status.n hp), hp]
  dsimp only
  rw [hvalue]
  rfl

theorem addOpCycles_one (n : UInt8) : (n.toUInt32 + 1).toUInt8 = n + 1 := by
  rw [UInt32.toUInt8_add, wide_byte]
  rfl

theorem view_decOperands : (decOperands ram s).view = { s.view with cycles := s.view.cycles + 1 } :=
  congrArg (fun n => { s.view with cycles := n }) (addOpCycles_one s.opcycles)

theorem carryIn_operands : carryIn (decOperands ram s) = s.view.p.c.toUInt32 :=
  carryIn_eq (decOperands ram s)

/-- **Decimal addition**, on two bytes of decimal digits. -/
theorem view_opAdcDec (ha : s.a.toNat < 0x100) (hbcd : IsBcd s.view.a) (hv : IsBcd s.byte) :
    (opAdcDec arch ram s).view = addDecimal s.byte s.view := by
  have hc := carryIn_operands s
  have hview : s.a.toNat = s.view.a.toNat := by
    change _ = s.a.toUInt8.toNat
    rw [UInt32.toNat_toUInt8]
    omega
  have hr : (decOperands ram s).r0.toNat = s.byte.toNat := rfl
  have hvalue : (opAdcDec arch ram s).a.toUInt8 =
      toBcd (fromBcd s.view.a + fromBcd s.byte + s.view.p.c.toNat) := by
    rw [← UInt8.toNat_inj, UInt32.toNat_toUInt8, opAdcDec_a arch ram s hc ha, hview, hr]
    exact addWord_bcd hbcd hv _
  have hhigh := addHighWord_toNat (a := (decOperands ram s).a) (r := (decOperands ram s).r0) ha
    (UInt8.toNat_lt _) s.view.p.c
  change _ = addHigh s.a.toNat _ _ at hhigh
  have hfits := addHigh_bcd hbcd hv s.view.p.c
  rw [← hview, ← hr, ← hhigh, ← le_nine] at hfits
  have hclear : flagArm.status (s.f &&& ~~~nvzcFlags.toUInt32).toUInt8 =
      { s.view.p with n := false, v := false, z := false, c := false } := by
    rw [bic_byte, status_bic_nvzc]
    rfl
  rw [opAdcDec_run arch ram s hc] at hvalue ⊢
  change _ = { s.view with
    a := toBcd (fromBcd s.view.a + fromBcd s.byte + s.view.p.c.toNat)
    p := { setNZ (toBcd (fromBcd s.view.a + fromBcd s.byte + s.view.p.c.toNat)) s.view.p with
      c := decide (100 ≤ fromBcd s.view.a + fromBcd s.byte + s.view.p.c.toNat), v := false }
    cycles := s.view.cycles + 1 }
  by_cases h : 100 ≤ fromBcd s.view.a + fromBcd s.byte + s.view.p.c.toNat
  · rw [if_neg (fun hle => hfits.mp hle h)] at hvalue ⊢
    have hset : flagArm.status (s.f &&& ~~~nvzcFlags.toUInt32 ||| flagArm.c.toUInt32).toUInt8 =
        { s.view.p with n := false, v := false, z := false, c := true } := by
      rw [orr_byte, (status_set _).1, hclear]
    have hfinish := view_finish arch (decOperands ram s)
      (a := (decOperands ram s).a >>> 4) hset hvalue
    rw [view_decOperands] at hfinish
    rw [decide_eq_true h]
    exact hfinish
  · rw [if_pos (hfits.mpr h)] at hvalue ⊢
    have hfinish := view_finish arch (decOperands ram s)
      (a := (decOperands ram s).a >>> 4) hclear hvalue
    rw [view_decOperands] at hfinish
    rw [decide_eq_false h]
    exact hfinish

theorem borrowIn_operands : borrowIn (decOperands ram s) = (!s.view.p.c).toUInt32 :=
  borrowIn_eq (decOperands ram s)

/-- **Decimal subtraction**. -/
theorem view_opSbcDec (ha : s.a.toNat < 0x100) (hbcd : IsBcd s.view.a) (hv : IsBcd s.byte) :
    (opSbcDec arch ram s).view = subDecimal s.byte s.view := by
  have hb := borrowIn_operands s
  have hview : s.a.toNat = s.view.a.toNat := by
    change _ = s.a.toUInt8.toNat
    rw [UInt32.toNat_toUInt8]
    omega
  have hr : (decOperands ram s).r0.toNat = s.byte.toNat := rfl
  have hvalue : (opSbcDec arch ram s).a.toUInt8 =
      toBcd (100 + fromBcd s.view.a + s.view.p.c.toNat - (fromBcd s.byte + 1)) := by
    have hword := subWord_bcd hbcd hv (!s.view.p.c)
    rw [Bool.not_not] at hword
    rw [← UInt8.toNat_inj, UInt32.toNat_toUInt8, opSbcDec_a arch ram s hb ha, hview, hr, hword]
    exact Nat.mod_eq_of_lt (UInt8.toNat_lt _)
  have hhigh := subHighWord_toNat (a := (decOperands ram s).a) (r := (decOperands ram s).r0) ha
    (UInt8.toNat_lt _) (!s.view.p.c)
  change _ = subHigh s.a.toNat _ _ at hhigh
  have hfits := subHigh_bcd hbcd hv (!s.view.p.c)
  rw [← hview, ← hr, ← hhigh, ← le_nine, Bool.not_not] at hfits
  have hset : flagArm.status (s.f &&& ~~~nvzcFlags.toUInt32 ||| flagArm.c.toUInt32).toUInt8 =
      { s.view.p with n := false, v := false, z := false, c := true } := by
    rw [orr_byte, (status_set _).1, bic_byte, status_bic_nvzc]
    rfl
  rw [opSbcDec_run arch ram s hb] at hvalue ⊢
  change _ = { s.view with
    a := toBcd (100 + fromBcd s.view.a + s.view.p.c.toNat - (fromBcd s.byte + 1))
    p := { setNZ (toBcd (100 + fromBcd s.view.a + s.view.p.c.toNat - (fromBcd s.byte + 1)))
        s.view.p with
      c := decide (100 ≤ 100 + fromBcd s.view.a + s.view.p.c.toNat - (fromBcd s.byte + 1))
      v := false }
    cycles := s.view.cycles + 1 }
  by_cases h : 100 ≤ 100 + fromBcd s.view.a + s.view.p.c.toNat - (fromBcd s.byte + 1)
  · rw [if_pos (hfits.mpr h)] at hvalue ⊢
    have hfinish := view_finish arch (decOperands ram s)
      (a := (decOperands ram s).a >>> 4) hset hvalue
    rw [view_decOperands] at hfinish
    rw [decide_eq_true h]
    exact hfinish
  · rw [if_neg (fun hle => h (hfits.mp hle))] at hvalue ⊢
    have hclear : flagArm.status ((s.f &&& ~~~nvzcFlags.toUInt32 ||| flagArm.c.toUInt32) &&&
        ~~~flagArm.c.toUInt32).toUInt8 =
        { s.view.p with n := false, v := false, z := false, c := false } := by
      rw [bic_byte, (status_bic _).1, hset]
    have hfinish := view_finish arch (decOperands ram s)
      (a := (decOperands ram s).a >>> 4) hclear hvalue
    rw [view_decOperands] at hfinish
    rw [decide_eq_false h]
    exact hfinish

end Routines

end Apple2ix.Cpu.Arm
