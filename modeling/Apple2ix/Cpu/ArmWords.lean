import Apple2ix.Cpu.Arm
import Apple2ix.Cpu.Instructions

/-! Bytes and addresses in words of the host, as the ARM core masks and shifts them. -/
namespace Apple2ix.Cpu.Arm
open Cpu Processor
set_option autoImplicit false

universe u
variable {σ : Type u}

/-! ## Masks -/

/-- A mask that keeps the low bits of a word whose upper bits are clear. -/
theorem and_toNat {w m : UInt32} (n k : ℕ) (hw : w.toNat < 2 ^ k)
    (hm : ∀ i, i < k → m.toBitVec.getLsbD i = decide (i < n)) :
    (w &&& m).toNat = w.toNat % 2 ^ n := by
  apply Nat.eq_of_testBit_eq
  intro i
  have hbit : (w &&& m).toNat.testBit i = (w.toNat.testBit i && m.toBitVec.getLsbD i) := by
    rw [UInt32.toNat_and, Nat.testBit_and]
    rfl
  rw [hbit, Nat.testBit_mod_two_pow]
  by_cases hi : i < k
  · rw [hm i hi, Bool.and_comm]
  · have hclear : w.toNat.testBit i = false :=
      Nat.testBit_lt_two_pow (hw.trans_le (Nat.pow_le_pow_right (by omega) (by omega)))
    rw [hclear, Bool.false_and, Bool.and_false]

theorem and_byte (w : UInt32) : (w &&& 0xFF).toNat = w.toNat % 0x100 :=
  and_toNat 8 32 w.toNat_lt (by decide)

theorem and_nibble (w : UInt32) : (w &&& 0x0F).toNat = w.toNat % 0x10 :=
  and_toNat 4 32 w.toNat_lt (by decide)

theorem bic_0x100 {w : UInt32} (h : w.toNat < 0x200) : (w &&& ~~~0x100).toNat = w.toNat % 0x100 :=
  and_toNat 8 9 h (by decide)

theorem bic_0x10000 {w : UInt32} (h : w.toNat < 0x20000) :
    (w &&& ~~~0x10000).toNat = w.toNat % 0x10000 :=
  and_toNat 16 17 h (by decide)

theorem bic_0xFF0000 {w : UInt32} (h : w.toNat < 0x1000000) :
    (w &&& ~~~0xFF0000).toNat = w.toNat % 0x10000 :=
  and_toNat 16 24 h (by decide)

/-! ## Shifts -/

theorem shiftLeft_toNat (w m : UInt32) {n : ℕ} (hm : m.toNat % 32 = n) :
    (w <<< m).toNat = w.toNat * 2 ^ n % 2 ^ 32 := by
  rw [UInt32.toNat_shiftLeft, hm, Nat.shiftLeft_eq]

theorem shiftRight_toNat (w m : UInt32) {n : ℕ} (hm : m.toNat % 32 = n) :
    (w >>> m).toNat = w.toNat / 2 ^ n := by
  rw [UInt32.toNat_shiftRight, hm, Nat.shiftRight_eq_div_pow]

/-! ## Bytes -/

@[simp] theorem wide_byte (v : UInt8) : v.toUInt32.toUInt8 = v := UInt8.toUInt8_toUInt32 v

@[simp] theorem wide_word (w : UInt16) : w.toUInt32.toUInt16 = w := UInt16.toUInt16_toUInt32 w

theorem byte_toNat (v : UInt8) : v.toUInt32.toNat = v.toNat := rfl

theorem word_toNat (w : UInt16) : w.toUInt32.toNat = w.toNat := rfl

/-- A word with the value of a byte. -/
theorem eq_byte {w : UInt32} {v : UInt8} (h : w.toNat = v.toNat) : w = v.toUInt32 := by
  rw [← UInt32.toNat_inj, h, byte_toNat]

theorem eq_word {w : UInt32} {v : UInt16} (h : w.toNat = v.toNat) : w = v.toUInt32 := by
  rw [← UInt32.toNat_inj, h, word_toNat]

theorem wide_bne_zero (v : UInt8) : (v.toUInt32 != 0) = (v != 0) := by
  rw [Bool.eq_iff_iff, bne_iff_ne, bne_iff_ne, ← UInt32.toNat_inj.ne, ← UInt8.toNat_inj.ne]
  rfl

/-- A word in range is the byte it holds. -/
theorem narrow {w : UInt32} (h : w.toNat < 0x100) : w.toUInt8.toUInt32 = w := by
  rw [← UInt32.toNat_inj, byte_toNat, UInt32.toNat_toUInt8]
  omega

theorem narrow_word {w : UInt32} (h : w.toNat < 0x10000) : w.toUInt16.toUInt32 = w := by
  rw [← UInt32.toNat_inj, word_toNat, UInt32.toNat_toUInt16]
  omega

/-- A mask of one byte sees the low byte only. -/
theorem and_mask (w : UInt32) (mask : UInt8) :
    w &&& mask.toUInt32 = (w.toUInt8 &&& mask).toUInt32 := by
  have hlt : (w &&& mask.toUInt32).toNat < 0x100 := by
    rw [UInt32.toNat_and]
    exact Nat.and_le_right.trans_lt mask.toNat_lt
  rw [← narrow hlt, UInt32.toUInt8_and, wide_byte]

theorem addUint16_toNat {x amt : UInt32} (hx : x.toNat < 0x10000) (hamt : amt.toNat < 0x10000) :
    (addUint16 x amt).toNat = (x.toNat + amt.toNat) % 0x10000 := by
  have hadd : (x + amt).toNat = x.toNat + amt.toNat := by
    rw [UInt32.toNat_add]
    omega
  rw [addUint16, bic_0xFF0000 (by omega), hadd]

theorem addUint16_wide (w amt : UInt16) :
    addUint16 w.toUInt32 amt.toUInt32 = (w + amt).toUInt32 := by
  have hw : w.toUInt32.toNat < 0x10000 := w.toNat_lt
  have hamt : amt.toUInt32.toNat < 0x10000 := amt.toNat_lt
  apply eq_word
  rw [addUint16_toNat hw hamt, UInt16.toNat_add]
  rfl

theorem incUint16_wide (w : UInt16) : incUint16 w.toUInt32 = (w + 1).toUInt32 := addUint16_wide w 1

theorem and_0xFF (w : UInt32) : (w &&& 0xFF).toNat = w.toNat % 0x100 :=
  (UInt32.toNat_and w 0xFF).trans (Nat.and_two_pow_sub_one_eq_mod w.toNat 8)

theorem incUint8_wide (v : UInt8) : incUint8 v.toUInt32 = (v + 1).toUInt32 := by
  have hv := v.toNat_lt
  apply eq_byte
  rw [incUint8, and_0xFF, UInt32.toNat_add, UInt8.toNat_add, byte_toNat]
  change (v.toNat + 1) % 2 ^ 32 % 0x100 = (v.toNat + 1) % 2 ^ 8
  omega

theorem decUint8_wide (v : UInt8) : decUint8 v.toUInt32 = (v - 1).toUInt32 := by
  have hv := v.toNat_lt
  apply eq_byte
  rw [decUint8, and_0xFF, UInt32.toNat_sub, UInt8.toNat_sub, byte_toNat]
  change (2 ^ 32 - 1 + v.toNat) % 2 ^ 32 % 0x100 = (2 ^ 8 - 1 + v.toNat) % 2 ^ 8
  omega

/-! ## Bytes at the top of a word -/

/-- `lsl x, x, #24`. -/
def top (v : UInt8) : UInt32 := v.toUInt32 <<< 24

theorem top_toNat (v : UInt8) : (top v).toNat = v.toNat * 2 ^ 24 := by
  have hv := v.toNat_lt
  have h24 : (24 : UInt32).toNat % 32 = 24 := rfl
  rw [top, UInt32.toNat_shiftLeft, byte_toNat, h24, Nat.shiftLeft_eq]
  omega

@[simp] theorem top_shiftRight (v : UInt8) : top v >>> 24 = v.toUInt32 := by
  have h24 : (24 : UInt32).toNat % 32 = 24 := rfl
  rw [← UInt32.toNat_inj, UInt32.toNat_shiftRight, h24, Nat.shiftRight_eq_div_pow, top_toNat,
    byte_toNat]
  omega

theorem eq_top {w : UInt32} {v : UInt8} (h : w.toNat = v.toNat * 2 ^ 24) : w = top v := by
  rw [← UInt32.toNat_inj, h, top_toNat]

theorem top_eq_zero (v : UInt8) : (top v == 0) = (v == 0) := by
  have hiff : top v = 0 ↔ v = 0 := by
    rw [← UInt32.toNat_inj, ← UInt8.toNat_inj, top_toNat]
    change v.toNat * 2 ^ 24 = 0 ↔ v.toNat = 0
    omega
  rw [Bool.eq_iff_iff, beq_iff_eq, beq_iff_eq, hiff]

theorem top_and (v w : UInt8) : top v &&& top w = top (v &&& w) := by
  rw [top, top, top, UInt8.toUInt32_and, UInt32.shiftLeft_and]

theorem signBit_top (v : UInt8) : signBit (top v) = negative v := by
  have htop : (0x80000000 : UInt32) = top 0x80 := rfl
  rw [signBit, bne, htop, top_and, top_eq_zero]
  exact and_sign v

theorem top_or (v w : UInt8) : top v ||| top w = top (v ||| w) := by
  rw [top, top, top, UInt8.toUInt32_or, UInt32.shiftLeft_or]

theorem top_xor (v w : UInt8) : top v ^^^ top w = top (v ^^^ w) := by
  rw [top, top, top, UInt8.toUInt32_xor, UInt32.shiftLeft_xor]

theorem top_add (v w : UInt8) : top v + top w = top (v + w) := by
  apply eq_top
  rw [UInt32.toNat_add, UInt8.toNat_add, top_toNat, top_toNat]
  omega

theorem top_sub (v w : UInt8) : top v - top w = top (v - w) := by
  have hv := v.toNat_lt
  have hw := w.toNat_lt
  apply eq_top
  rw [UInt32.toNat_sub, UInt8.toNat_sub, top_toNat, top_toNat]
  omega

/-! ## Host flags -/

theorem subs_value (x y : UInt32) : (subs x y).value = x - y := by
  change x + ~~~y + 1 = x - y
  rw [← UInt32.toBitVec_inj]
  simp [BitVec.sub_eq_add_neg, BitVec.neg_eq_not_add, BitVec.add_assoc]

theorem subs_n (x y : UInt32) : (subs x y).flags.n = signBit (x - y) := by
  rw [← subs_value]
  rfl

theorem subs_z (x y : UInt32) : (subs x y).flags.z = (x - y == 0) := by
  rw [← subs_value]
  rfl

theorem subs_c (x y : UInt32) : (subs x y).flags.c = decide (y.toNat ≤ x.toNat) := by
  have hx := x.toNat_lt
  have hy := y.toNat_lt
  have hnot : (~~~y).toNat = 2 ^ 32 - 1 - y.toNat := UInt32.toNat_not y
  change decide (2 ^ 32 ≤ x.toNat + (~~~y).toNat + 1) = _
  rw [hnot, decide_eq_decide]
  omega

/-- What `cmp x, #0` leaves: the carry is always set. -/
theorem subs_zero (x : UInt32) : (subs x 0).flags.n = signBit x ∧ (subs x 0).flags.z = (x == 0) ∧
    (subs x 0).flags.c = true := by
  refine ⟨?_, ?_, ?_⟩
  · rw [subs_n, UInt32.sub_zero]
  · rw [subs_z, UInt32.sub_zero]
  · rw [subs_c]
    exact decide_eq_true (Nat.zero_le _)

theorem logic_n (arch : Arch) (value : UInt32) (old : Nzcv) :
    (logic arch value old).n = signBit value := by
  cases arch <;> rfl

theorem logic_z (arch : Arch) (value : UInt32) (old : Nzcv) :
    (logic arch value old).z = (value == 0) := by
  cases arch <;> rfl

theorem flagNotZero_eq (flags : Nzcv) : flagNotZero flags = if flags.z then 0 else 1 := by
  obtain ⟨n, z, c, v⟩ := flags
  cases n <;> cases z <;> cases c <;> cases v <;> rfl

theorem lahf_status (flags : Nzcv) : (flagArm.status (lahf flags).toUInt8).n = flags.n ∧
    (flagArm.status (lahf flags).toUInt8).z = flags.z ∧
    (flagArm.status (lahf flags).toUInt8).c = flags.c := by
  obtain ⟨n, z, c, v⟩ := flags
  cases n <;> cases z <;> cases c <;> cases v <;> exact ⟨rfl, rfl, rfl⟩

/-! ## F_Reg -/

section Register
variable (w : UInt32) (flags : Nzcv)

/-- The low byte of F_Reg after a flag macro, whose mask lets the host's flags through. -/
theorem take_byte (mask : UInt8) :
    (w &&& ~~~mask.toUInt32 ||| lahf flags &&& mask.toUInt32).toUInt8 =
      w.toUInt8 &&& ~~~mask ||| (lahf flags).toUInt8 &&& mask := by
  rw [UInt32.toUInt8_or, UInt32.toUInt8_and, UInt32.toUInt8_and, UInt32.toUInt8_not, wide_byte]

theorem bic_byte (mask : UInt8) : (w &&& ~~~mask.toUInt32).toUInt8 = w.toUInt8 &&& ~~~mask := by
  rw [UInt32.toUInt8_and, UInt32.toUInt8_not, wide_byte]

theorem orr_byte (mask : UInt8) : (w ||| mask.toUInt32).toUInt8 = w.toUInt8 ||| mask := by
  rw [UInt32.toUInt8_or, wide_byte]

theorem status_take_z (f : UInt8) :
    flagArm.status (f &&& ~~~flagArm.z ||| (lahf flags).toUInt8 &&& flagArm.z) =
      { flagArm.status f with z := flags.z } := by
  rw [← (lahf_status flags).2.1]
  simp (disch := decide) only [Layout.status, select_in, select_out]

theorem status_take_nz (f : UInt8) : flagArm.status
      (f &&& ~~~(flagArm.n ||| flagArm.z) ||| (lahf flags).toUInt8 &&& (flagArm.n ||| flagArm.z)) =
      { flagArm.status f with n := flags.n, z := flags.z } := by
  rw [← (lahf_status flags).1, ← (lahf_status flags).2.1]
  simp (disch := decide) only [Layout.status, select_in, select_out]

theorem status_take_nzc (f : UInt8) :
    flagArm.status (f &&& ~~~(flagArm.n ||| flagArm.z ||| flagArm.c) |||
      (lahf flags).toUInt8 &&& (flagArm.n ||| flagArm.z ||| flagArm.c)) =
      { flagArm.status f with n := flags.n, z := flags.z, c := flags.c } := by
  rw [← (lahf_status flags).1, ← (lahf_status flags).2.1, ← (lahf_status flags).2.2]
  simp (disch := decide) only [Layout.status, select_in, select_out]

end Register

/-- Single flags that are cleared. -/
theorem status_bic (f : UInt8) :
    flagArm.status (f &&& ~~~flagArm.c) = { flagArm.status f with c := false } ∧
    flagArm.status (f &&& ~~~flagArm.d) = { flagArm.status f with d := false } ∧
    flagArm.status (f &&& ~~~flagArm.i) = { flagArm.status f with i := false } ∧
    flagArm.status (f &&& ~~~flagArm.v) = { flagArm.status f with v := false } := by
  refine ⟨?_, ?_, ?_, ?_⟩ <;>
  · rw [bic_select]
    simp (disch := decide) only [Layout.status, select_in, select_out]
    rfl

theorem status_bic_nvzc (f : UInt8) : flagArm.status (f &&& ~~~nvzcFlags) =
    { flagArm.status f with n := false, v := false, z := false, c := false } := by
  rw [bic_select]
  simp (disch := decide) only [Layout.status, select_in, select_out]
  rfl

/-- Single flags that are set, -/
theorem status_set (f : UInt8) :
    flagArm.status (f ||| flagArm.c) = { flagArm.status f with c := true } ∧
    flagArm.status (f ||| flagArm.d) = { flagArm.status f with d := true } ∧
    flagArm.status (f ||| flagArm.i) = { flagArm.status f with i := true } ∧
    flagArm.status (f ||| flagArm.b) = { flagArm.status f with b := true } ∧
    flagArm.status (f ||| flagArm.x) = { flagArm.status f with x := true } := by
  refine ⟨?_, ?_, ?_, ?_, ?_⟩ <;>
  · rw [orr_select]
    simp (disch := decide) only [Layout.status, select_in, select_out]
    rfl

/-- and from a condition. -/
theorem status_orr (f : UInt8) (b : Bool) :
    flagArm.status (f ||| b.toUInt8 <<< 3) =
      { flagArm.status f with n := (flagArm.status f).n || b } ∧
    flagArm.status (f ||| b.toUInt8) = { flagArm.status f with v := (flagArm.status f).v || b } ∧
    flagArm.status (f ||| b.toUInt8 <<< 1) =
      { flagArm.status f with c := (flagArm.status f).c || b } := by
  cases b with
  | false =>
    have hzero : f ||| 0 = f := UInt8.or_zero
    refine ⟨?_, ?_, ?_⟩ <;>
    · change flagArm.status (f ||| 0) = _
      rw [hzero, Bool.or_false]
  | true =>
    refine ⟨?_, ?_, ?_⟩
    · change flagArm.status (f ||| flagArm.n) = _
      rw [orr_select, Bool.or_true]
      simp (disch := decide) only [Layout.status, select_in, select_out]
      rfl
    · change flagArm.status (f ||| flagArm.v) = _
      rw [orr_select, Bool.or_true]
      simp (disch := decide) only [Layout.status, select_in, select_out]
      rfl
    · rw [Bool.or_true]
      exact (status_set f).1

/-! ## Rotates to the right -/

/-- The carry in of `_DoROR`, next to the byte. -/
theorem rorCarry_eq (f : UInt32) : (f &&& flagArm.c.toUInt32) <<< 7 =
    (flagArm.status f.toUInt8).c.toUInt32 <<< 8 := by
  rw [and_mask, ← ite_and_bit (by decide)]
  change (if (flagArm.status f.toUInt8).c then flagArm.c else 0).toUInt32 <<< 7 = _
  cases (flagArm.status f.toUInt8).c <;> rfl

/-- The carry above a byte. -/
theorem byte_carry_toNat (v : UInt8) (c : Bool) :
    (v.toUInt32 ||| c.toUInt32 <<< 8).toNat = 2 ^ 8 * c.toNat + v.toNat := by
  have hcarry : (c.toUInt32 <<< 8).toNat = 2 ^ 8 * c.toNat := by cases c <;> rfl
  rw [UInt32.toNat_or, hcarry, byte_toNat, Nat.or_comm, Nat.two_pow_add_eq_or_of_lt v.toNat_lt]

theorem carry_top_toNat (v : UInt8) (c : Bool) :
    (v >>> 1 ||| c.toUInt8 <<< 7).toNat = 2 ^ 7 * c.toNat + v.toNat / 2 := by
  have hv := v.toNat_lt
  have hcarry : (c.toUInt8 <<< 7).toNat = 2 ^ 7 * c.toNat := by cases c <;> rfl
  have hhalf : (v >>> 1).toNat = v.toNat / 2 := by
    rw [UInt8.toNat_shiftRight, Nat.shiftRight_eq_div_pow]
    rfl
  rw [UInt8.toNat_or, hcarry, hhalf, Nat.or_comm, Nat.two_pow_add_eq_or_of_lt (by omega)]

/-- The byte rotated, without the bit that is carried out. -/
theorem rorValue_eq (v : UInt8) (c : Bool) :
    ror (v.toUInt32 ||| c.toUInt32 <<< 8) 1 &&& ~~~(0x80000000 : UInt32) =
      (v >>> 1 ||| c.toUInt8 <<< 7).toUInt32 := by
  have hc := Bool.toNat_le c
  have hv := v.toNat_lt
  have hx := byte_carry_toNat v c
  apply eq_byte
  rw [carry_top_toNat, and_toNat 31 32 (UInt32.toNat_lt _) (by decide), ror, UInt32.toNat_or,
    Nat.or_mod_two_pow, shiftRight_toNat _ 1 (n := 1) rfl,
    shiftLeft_toNat _ (32 - 1) (n := 31) rfl, hx]
  have hlow : (2 ^ 8 * c.toNat + v.toNat) * 2 ^ 31 % 2 ^ 32 % 2 ^ 31 = 0 := by omega
  rw [hlow, Nat.or_zero]
  omega

end Apple2ix.Cpu.Arm
