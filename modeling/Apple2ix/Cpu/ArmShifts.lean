import Apple2ix.Cpu.ArmRefines

/-! The shifts and rotates of the ARM core, on 32 bits or 64, as those of the 65c02. -/
namespace Apple2ix.Cpu.Arm
open Cpu Processor
set_option autoImplicit false

/-! ## Bytes -/

theorem add_self (v : UInt8) : v + v = v <<< 1 := by
  revert v
  exact forall_uint8 (by decide)

theorem signBit_toNat (w : UInt32) : signBit w = decide (2 ^ 31 ≤ w.toNat) := by
  have hw := w.toNat_lt
  have hsign : (0x80000000 : UInt32).toNat = 2 ^ 31 := rfl
  have hand : (w &&& 0x80000000).toNat = (w.toNat.testBit 31).toNat * 2 ^ 31 := by
    rw [UInt32.toNat_and, hsign, Nat.and_two_pow]
  have hbit : w.toNat.testBit 31 = decide (2 ^ 31 ≤ w.toNat) := by
    rw [Nat.testBit_eq_decide_div_mod_eq, decide_eq_decide]
    omega
  have hzero : (w &&& 0x80000000 = 0) ↔ (w &&& 0x80000000).toNat = 0 := UInt32.toNat_inj.symm
  rw [signBit, ← hbit, Bool.eq_iff_iff, bne_iff_ne, ne_eq, hzero, hand]
  cases w.toNat.testBit 31 <;> decide

section Bytes
variable (v : UInt8)

theorem half_toNat : (v >>> 1).toNat = v.toNat / 2 := by
  rw [UInt8.toNat_shiftRight, Nat.shiftRight_eq_div_pow]
  rfl

theorem shiftRight1_wide : v.toUInt32 >>> 1 = (v >>> 1).toUInt32 := by
  apply eq_byte
  rw [shiftRight_toNat _ 1 (n := 1) rfl, byte_toNat, half_toNat]
  rfl

theorem wide_beq_zero : (v.toUInt32 == 0) = (v == 0) := by
  rw [Bool.eq_iff_iff, beq_iff_eq, beq_iff_eq, ← UInt32.toNat_inj, ← UInt8.toNat_inj]
  rfl

theorem signBit_half : signBit (v >>> 1).toUInt32 = negative (v >>> 1) := by
  have hv := v.toNat_lt
  rw [signBit_toNat, byte_toNat, negative, half_toNat, decide_eq_decide]
  omega

theorem and_one (w : UInt32) : w &&& 1 = (w.toUInt8 &&& 1).toUInt32 := and_mask w 1

theorem lowBit_wide : ((v.toUInt32 &&& 1) <<< 1).toUInt8 =
    (decide (v.toNat % 2 = 1)).toUInt8 <<< 1 := by
  rw [and_one, wide_byte, ← X86.low_bit, ← ite_and_bit (m := 1) (by decide)]
  cases v &&& 1 != 0 <;> rfl

theorem bit0_wide : (v.toUInt32 &&& 1 != 0) = decide (v.toNat % 2 = 1) := by
  rw [and_one, wide_byte, wide_bne_zero, X86.low_bit]

/-! ## Rotates to the left -/

/-- The carry in of `DoROL`, below the byte. -/
theorem rolCarry_eq (f : UInt32) : f <<< 6 &&& (0x80 : UInt32) =
    (flagArm.status f.toUInt8).c.toUInt32 <<< 7 := by
  have hmask : (0x80 : UInt32) = flagArm.c.toUInt32 <<< 6 := rfl
  rw [hmask, ← UInt32.shiftLeft_and, and_mask, ← ite_and_bit (by decide)]
  change (if (flagArm.status f.toUInt8).c then flagArm.c else 0).toUInt32 <<< 6 = _
  cases (flagArm.status f.toUInt8).c <;> rfl

/-- The byte above its carry. -/
def rolWord (v : UInt8) (c : Bool) : UInt64 :=
  v.toUInt32.toUInt64 <<< 8 ||| (c.toUInt32 <<< 7).toUInt64

theorem rolWord_toNat (c : Bool) : (rolWord v c).toNat = 2 ^ 8 * v.toNat + 2 ^ 7 * c.toNat := by
  have hv := v.toNat_lt
  have hc := Bool.toNat_le c
  have hhigh : (v.toUInt32.toUInt64 <<< 8).toNat = 2 ^ 8 * v.toNat := by
    rw [UInt64.toNat_shiftLeft]
    change v.toNat <<< 8 % 2 ^ 64 = _
    rw [Nat.shiftLeft_eq]
    omega
  have hlow : (c.toUInt32 <<< 7).toUInt64.toNat = 2 ^ 7 * c.toNat := by cases c <;> rfl
  rw [rolWord, UInt64.toNat_or, hhigh, hlow, Nat.two_pow_add_eq_or_of_lt (by omega)]

theorem rolled_toNat (c : Bool) : (v <<< 1 ||| c.toUInt8).toNat =
    (2 * v.toNat + c.toNat) % 0x100 := by
  revert v
  cases c with
  | false => exact forall_uint8 (by decide)
  | true => exact forall_uint8 (by decide)

theorem rolWord_shift (c : Bool) :
    (rolWord v c <<< 49).toNat = 2 ^ 56 * (v <<< 1 ||| c.toUInt8).toNat := by
  have hc := Bool.toNat_le c
  rw [rolled_toNat, UInt64.toNat_shiftLeft]
  change (rolWord v c).toNat <<< 49 % 2 ^ 64 = _
  rw [Nat.shiftLeft_eq, rolWord_toNat]
  omega

theorem rolWord_narrow (c : Bool) :
    (rolWord v c).toUInt32 <<< 17 = top (v <<< 1 ||| c.toUInt8) := by
  have hc := Bool.toNat_le c
  apply eq_top
  rw [shiftLeft_toNat _ 17 (n := 17) rfl, UInt64.toNat_toUInt32, rolWord_toNat, rolled_toNat]
  omega

theorem and_bit15 (x : ℕ) : x &&& 0x8000 = (decide (x / 2 ^ 15 % 2 = 1)).toNat * 2 ^ 15 := by
  have hand := Nat.and_two_pow x 15
  rw [Nat.testBit_eq_decide_div_mod_eq] at hand
  exact hand

theorem rolWord_carry (c : Bool) : decide ((rolWord v c).toNat / 2 ^ 15 % 2 = 1) = negative v := by
  have hv := v.toNat_lt
  have hc := Bool.toNat_le c
  rw [rolWord_toNat, negative, decide_eq_decide]
  omega

theorem rolOut_aarch64 (c : Bool) :
    ((rolWord v c &&& 0x8000).toUInt32 >>> 14).toUInt8 = (negative v).toUInt8 <<< 1 := by
  have hand : (rolWord v c &&& 0x8000).toNat = (negative v).toNat * 2 ^ 15 := by
    rw [← rolWord_carry v c, ← and_bit15]
    exact UInt64.toNat_and _ _
  have hbit : ((rolWord v c &&& 0x8000).toUInt32 >>> 14).toNat = (negative v).toNat * 2 := by
    have hb := Bool.toNat_le (negative v)
    rw [shiftRight_toNat _ 14 (n := 14) rfl, UInt64.toNat_toUInt32, hand]
    omega
  rw [← UInt8.toNat_inj, UInt32.toNat_toUInt8, hbit]
  cases negative v <;> rfl

theorem rolOut_arm32 (c : Bool) : ((rolWord v c).toUInt32 &&& 0x8000 != 0) = negative v := by
  have hword := rolWord_toNat v c
  have hlt : (rolWord v c).toNat % 2 ^ 32 = (rolWord v c).toNat := by
    have hv := v.toNat_lt
    have hc := Bool.toNat_le c
    omega
  have hand : ((rolWord v c).toUInt32 &&& 0x8000).toNat = (negative v).toNat * 2 ^ 15 := by
    rw [← rolWord_carry v c, ← and_bit15, UInt32.toNat_and, UInt64.toNat_toUInt32, hlt]
    rfl
  have hzero : (rolWord v c).toUInt32 &&& 0x8000 = 0 ↔
      ((rolWord v c).toUInt32 &&& 0x8000).toNat = 0 := UInt32.toNat_inj.symm
  rw [Bool.eq_iff_iff, bne_iff_ne, ne_eq, hzero, hand]
  cases negative v <;> decide

/-! ## Rotates to the right -/

theorem rorOut_eq (c : Bool) :
    ((ror (v.toUInt32 ||| c.toUInt32 <<< 8) 1 &&& (0x80000000 : UInt32)) >>> 30).toUInt8 =
      (decide (v.toNat % 2 = 1)).toUInt8 <<< 1 := by
  have hword := byte_carry_toNat v c
  have hv := v.toNat_lt
  have hc := Bool.toNat_le c
  have hbit : (ror (v.toUInt32 ||| c.toUInt32 <<< 8) 1).toNat.testBit 31 =
      decide (v.toNat % 2 = 1) := by
    rw [ror, UInt32.toNat_or, Nat.testBit_or, shiftRight_toNat _ 1 (n := 1) rfl,
      shiftLeft_toNat _ (32 - 1) (n := 31) rfl, hword, Nat.testBit_eq_decide_div_mod_eq,
      Nat.testBit_eq_decide_div_mod_eq, ← Bool.decide_or, decide_eq_decide]
    omega
  have hsign : (0x80000000 : UInt32).toNat = 2 ^ 31 := rfl
  have hand : (ror (v.toUInt32 ||| c.toUInt32 <<< 8) 1 &&& (0x80000000 : UInt32)).toNat =
      (decide (v.toNat % 2 = 1)).toNat * 2 ^ 31 := by
    rw [UInt32.toNat_and, hsign, Nat.and_two_pow, hbit]
  rw [← UInt8.toNat_inj, UInt32.toNat_toUInt8, shiftRight_toNat _ 30 (n := 30) rfl, hand]
  cases decide (v.toNat % 2 = 1) <;> rfl

end Bytes

theorem status_bic_nzc (f : UInt8) :
    flagArm.status (f &&& ~~~(flagArm.n ||| flagArm.z ||| flagArm.c)) =
    { flagArm.status f with n := false, z := false, c := false } := by
  rw [bic_select]
  simp (disch := decide) only [Layout.status, select_in, select_out]
  rfl

-- states are compared field by field, which must not evaluate what the others hold
attribute [local irreducible] UInt32.shiftLeft UInt32.shiftRight

/-! ## Operations on one register -/

/-- An operation leaves a byte and its flags, and the address as it is. -/
structure Does (f : OnReg Ram) (g : Shift) (v : UInt8) (t : State Ram) : Prop where
  value : (f v.toUInt32 t).1 = (g v t.view.p).1.toUInt32
  view : (f v.toUInt32 t).2.view = { t.view with p := (g v t.view.p).2 }
  ea : (f v.toUInt32 t).2.ea = t.ea

section OnReg
variable {f : OnReg Ram} {g : Shift} {s : State Ram}

theorem view_modify (h : Does f g s.byte (getFromEaB ram s)) :
    (modify ram f s).view = onCell g s.ea.toUInt16 s.view := by
  have hmodify : modify ram f s = putToEaB ram { (f s.byte.toUInt32 (getFromEaB ram s)).2 with
    r0 := (f s.byte.toUInt32 (getFromEaB ram s)).1 } := rfl
  have hstore : ∀ (t : State Ram) (w : UInt32), (putToEaB ram { t with r0 := w }).view =
      storeCell w.toUInt8 t.ea.toUInt16 t.view := fun _ _ => rfl
  rw [hmodify, hstore, h.view, h.ea, h.value, wide_byte]
  rfl

theorem view_modifyAcc (h : Does f g s.view.a s) (ha : s.a = s.view.a.toUInt32) :
    (modifyAcc f s).view = onAcc g s.view := by
  have hmodify : modifyAcc f s = { (f s.a s).2 with a := (f s.a s).1 } := rfl
  have hview : ∀ (t : State Ram) (w : UInt32), ({ t with a := w } : State Ram).view =
      { t.view with a := w.toUInt8 } := fun _ _ => rfl
  rw [hmodify, hview, ha, h.view, h.value, wide_byte]
  rfl

theorem view_modifyX (h : Does f g s.view.x s) (hx : s.x = s.view.x.toUInt32) : (modifyX f s).view =
    { s.view with x := (g s.view.x s.view.p).1, p := (g s.view.x s.view.p).2 } := by
  have hmodify : modifyX f s = { (f s.x s).2 with x := (f s.x s).1 } := rfl
  have hview : ∀ (t : State Ram) (w : UInt32), ({ t with x := w } : State Ram).view =
      { t.view with x := w.toUInt8 } := fun _ _ => rfl
  rw [hmodify, hview, hx, h.view, h.value, wide_byte]

theorem view_modifyY (h : Does f g s.view.y s) (hy : s.y = s.view.y.toUInt32) : (modifyY f s).view =
    { s.view with y := (g s.view.y s.view.p).1, p := (g s.view.y s.view.p).2 } := by
  have hmodify : modifyY f s = { (f s.y s).2 with y := (f s.y s).1 } := rfl
  have hview : ∀ (t : State Ram) (w : UInt32), ({ t with y := w } : State Ram).view =
      { t.view with y := w.toUInt8 } := fun _ _ => rfl
  rw [hmodify, hview, hy, h.view, h.value, wide_byte]

end OnReg

section Shifts
variable (arch : Arch) (v : UInt8) (t : State Ram)

theorem doDec_does : Does doDec Processor.dec v t := by
  have hone : (1 : UInt32) <<< 24 = top 1 := rfl
  have hdec : doDec v.toUInt32 t = ((subs (top v) (top 1)).value >>> 24,
      flagNZ { t with apsr := (subs (top v) (top 1)).flags }) := rfl
  rw [subs_value, top_sub, top_shiftRight] at hdec
  refine ⟨congrArg Prod.fst hdec, ?_, ?_⟩
  · rw [hdec, view_flagTop (v := v - 1)]
    · rfl
    · rw [subs_n, top_sub]
    · rw [subs_z, top_sub]
  · rw [hdec]
    rfl

/-- What `adds` leaves of two bytes at the top of a word. -/
theorem adcs_top (w : UInt8) (c : Bool) :
    (adcs (top v) (top w) c).value = top (v + w) + c.toUInt32 := by
  rw [← top_add]
  cases c <;> rfl

theorem doInc_does : Does doInc Processor.inc v t := by
  have hzero (w : UInt32) : w + false.toUInt32 = w := UInt32.add_zero w
  have hinc : doInc v.toUInt32 t = ((adcs (top v) (top 1) false).value >>> 24,
      flagNZ { t with apsr := (adcs (top v) (top 1) false).flags }) := rfl
  have hvalue : (adcs (top v) (top 1) false).value = top (v + 1) := by rw [adcs_top, hzero]
  have hn : (adcs (top v) (top 1) false).flags.n = signBit (adcs (top v) (top 1) false).value := rfl
  have hz : (adcs (top v) (top 1) false).flags.z = ((adcs (top v) (top 1) false).value == 0) := rfl
  rw [hvalue] at hn hz
  rw [hvalue, top_shiftRight] at hinc
  refine ⟨congrArg Prod.fst hinc, ?_, ?_⟩
  · rw [hinc, view_flagTop _ hn hz]
    rfl
  · rw [hinc]
    rfl

/-! ## Shifts -/

/-- The carry of the host, which `adcs` adds below the byte, spoils Z and nothing else. -/
theorem doAsl_ram : (doAsl v.toUInt32 t).1 = (v <<< 1).toUInt32 ∧
    (doAsl v.toUInt32 t).2.view = { t.view with p := { (Processor.asl v t.view.p).2 with
      z := v <<< 1 == 0 && !t.apsr.c } } := by
  have hasl : doAsl v.toUInt32 t = ((adcs (top v) (top v) t.apsr.c).value >>> 24,
      flagNZC { t with apsr := (adcs (top v) (top v) t.apsr.c).flags }) := rfl
  have hc := Bool.toNat_le t.apsr.c
  have hv := v.toNat_lt
  have hw := (v <<< 1).toNat_lt
  have hvalue : (adcs (top v) (top v) t.apsr.c).value.toNat =
      (v <<< 1).toNat * 2 ^ 24 + t.apsr.c.toNat := by
    rw [adcs_top, add_self, UInt32.toNat_add, top_toNat, carry_toNat]
    omega
  have hshift : (adcs (top v) (top v) t.apsr.c).value >>> 24 = (v <<< 1).toUInt32 := by
    apply eq_byte
    rw [shiftRight_toNat _ 24 (n := 24) rfl, hvalue]
    omega
  have hn : (adcs (top v) (top v) t.apsr.c).flags.n = negative (v <<< 1) := by
    change signBit (adcs (top v) (top v) t.apsr.c).value = _
    rw [signBit_toNat, hvalue, negative, decide_eq_decide]
    omega
  have hz : (adcs (top v) (top v) t.apsr.c).flags.z = (v <<< 1 == 0 && !t.apsr.c) := by
    change ((adcs (top v) (top v) t.apsr.c).value == 0) = _
    rw [Bool.eq_iff_iff, beq_iff_eq, ← UInt32.toNat_inj, hvalue, Bool.and_eq_true, beq_iff_eq,
      ← UInt8.toNat_inj]
    change (v <<< 1).toNat * 2 ^ 24 + t.apsr.c.toNat = 0 ↔ (v <<< 1).toNat = 0 ∧ _
    cases t.apsr.c <;> simp
  have hcarry : (adcs (top v) (top v) t.apsr.c).flags.c = negative v := by
    change decide (2 ^ 32 ≤ (top v).toNat + (top v).toNat + t.apsr.c.toNat) = _
    rw [top_toNat, negative, decide_eq_decide]
    omega
  refine ⟨(congrArg Prod.fst hasl).trans hshift, ?_⟩
  rw [hasl, view_flagNZC]
  dsimp only
  rw [hn, hz, hcarry]
  rfl

theorem doAsl_does (hc : t.apsr.c = false) : Does doAsl Processor.asl v t where
  value := (doAsl_ram v t).1
  view := by
    have hz : (v <<< 1 == 0 && !false) = (v <<< 1 == 0) := Bool.and_true _
    rw [(doAsl_ram v t).2, hc, hz]
    rfl
  ea := rfl

/-- A carry that is put into F_Reg. -/
theorem view_putC {w : UInt32} {b : Bool} (hw : w.toUInt8 = b.toUInt8 <<< 1) :
    (orrF w (bicF flagArm.c t)).view = { t.view with p := { t.view.p with c := b } } := by
  have hf : (t.f &&& ~~~flagArm.c.toUInt32 ||| w).toUInt8 =
      t.f.toUInt8 &&& ~~~flagArm.c ||| b.toUInt8 <<< 1 := by
    rw [UInt32.toUInt8_or, bic_byte, hw]
  have hstatus := (status_orr (t.f.toUInt8 &&& ~~~flagArm.c) b).2.2
  rw [← hf, (status_bic t.f.toUInt8).1, Bool.false_or] at hstatus
  exact congrArg (fun p => { t.view with p := p }) hstatus

theorem doLsr_aarch64 (x : UInt32) : doLsr .aarch64 x t = (x >>> 1,
    flagNZ (cmpZero (x >>> 1) (orrF ((x &&& 1) <<< 1) (bicF flagArm.c t)))) := rfl

theorem doLsr_arm32 (x : UInt32) : doLsr .arm32 x t = (x >>> 1, flagNZC { t with
    apsr := { logic .arm32 (x >>> 1) t.apsr with c := x &&& 1 != 0 } }) := rfl

theorem view_apsr (flags : Nzcv) : ({ t with apsr := flags } : State Ram).view = t.view := rfl

theorem view_cmpZero (x : UInt32) : (flagNZ (cmpZero x t)).view =
    { t.view with p := { t.view.p with n := signBit x, z := x == 0 } } := by
  have hcmp : (cmpZero x t).apsr = (subs x 0).flags := rfl
  have hview : (cmpZero x t).view = t.view := view_apsr t (subs x 0).flags
  rw [view_flagNZ, hcmp, (subs_zero x).1, (subs_zero x).2.1, hview]

theorem doLsr_value (x : UInt32) : (doLsr arch x t).1 = x >>> 1 := by
  cases arch with
  | aarch64 => rw [doLsr_aarch64]
  | arm32 => rw [doLsr_arm32]

theorem doLsr_ea (x : UInt32) : (doLsr arch x t).2.ea = t.ea := by
  cases arch with
  | aarch64 =>
    rw [doLsr_aarch64]
    rfl
  | arm32 =>
    rw [doLsr_arm32]
    rfl

theorem view_doLsr : (doLsr arch v.toUInt32 t).2.view =
    { t.view with p := (Processor.lsr v t.view.p).2 } := by
  have hn := signBit_half v
  have hz := wide_beq_zero (v >>> 1)
  cases arch with
  | aarch64 =>
    rw [doLsr_aarch64, view_cmpZero, view_putC t (lowBit_wide v), shiftRight1_wide, hn, hz]
    rfl
  | arm32 =>
    rw [doLsr_arm32, view_flagNZC]
    dsimp only
    rw [shiftRight1_wide, logic_n, logic_z, bit0_wide, hn, hz]
    rfl

theorem doLsr_does : Does (doLsr arch) Processor.lsr v t where
  value := (doLsr_value arch t v.toUInt32).trans (shiftRight1_wide v)
  view := view_doLsr arch v t
  ea := doLsr_ea arch t v.toUInt32

theorem flagRol_aarch64 (x : UInt64) : flagRol .aarch64 x t = ((x <<< 49 >>> 56).toUInt32,
    flagNZ { orrF ((x &&& 0x8000).toUInt32 >>> 14) (bicF flagArm.c t) with
      apsr := ⟨x <<< 49 >>> 63 != 0, x <<< 49 == 0, true, false⟩ }) := rfl

theorem flagRol_arm32 (x : UInt64) : flagRol .arm32 x t = (x.toUInt32 <<< 17 >>> 24,
    flagNZC { t with
      apsr :=
        { logic .arm32 (x.toUInt32 <<< 17) t.apsr with c := x.toUInt32 &&& 0x8000 != 0 } }) := rfl

theorem flagRol_value (c : Bool) :
    (flagRol arch (rolWord v c) t).1 = (v <<< 1 ||| c.toUInt8).toUInt32 := by
  cases arch with
  | aarch64 =>
    have hshift : (rolWord v c <<< 49 >>> 56).toNat = (v <<< 1 ||| c.toUInt8).toNat := by
      have hmod : (56 : UInt64).toNat % 64 = 56 := rfl
      rw [UInt64.toNat_shiftRight, hmod, rolWord_shift, Nat.shiftRight_eq_div_pow]
      omega
    apply eq_byte
    rw [flagRol_aarch64, UInt64.toNat_toUInt32, hshift]
    exact Nat.mod_eq_of_lt ((UInt8.toNat_lt _).trans (by decide))
  | arm32 => rw [flagRol_arm32, rolWord_narrow, top_shiftRight]

theorem view_flagRol (c : Bool) : (flagRol arch (rolWord v c) t).2.view =
    { t.view with p := { setNZ (v <<< 1 ||| c.toUInt8) t.view.p with c := negative v } } := by
  cases arch with
  | aarch64 =>
    have hvalue := rolWord_shift v c
    have hlt := (v <<< 1 ||| c.toUInt8).toNat_lt
    have hn : (rolWord v c <<< 49 >>> 63 != 0) = negative (v <<< 1 ||| c.toUInt8) := by
      have hmod : (63 : UInt64).toNat % 64 = 63 := rfl
      rw [negative, Bool.eq_iff_iff, bne_iff_ne, ne_eq, ← UInt64.toNat_inj, UInt64.toNat_shiftRight,
        hmod, hvalue, Nat.shiftRight_eq_div_pow, decide_eq_true_iff]
      change ¬ _ = 0 ↔ _
      omega
    have hz : (rolWord v c <<< 49 == 0) = (v <<< 1 ||| c.toUInt8 == 0) := by
      rw [Bool.eq_iff_iff, beq_iff_eq, beq_iff_eq, ← UInt64.toNat_inj, hvalue, ← UInt8.toNat_inj]
      change 2 ^ 56 * _ = 0 ↔ _ = 0
      omega
    rw [flagRol_aarch64, view_flagNZ, view_apsr, view_putC t (rolOut_aarch64 v c)]
    dsimp only
    rw [hn, hz]
    rfl
  | arm32 =>
    rw [flagRol_arm32, view_flagNZC, view_apsr, rolWord_narrow]
    dsimp only
    rw [logic_n, logic_z, signBit_top, top_eq_zero, rolOut_arm32]
    rfl

theorem flagRol_ea (x : UInt64) : (flagRol arch x t).2.ea = t.ea := by
  cases arch with
  | aarch64 =>
    rw [flagRol_aarch64]
    rfl
  | arm32 =>
    rw [flagRol_arm32]
    rfl

/-- F_Reg is shifted and shifted back. -/
theorem doRol_run (hf : t.f.toNat < 0x100) :
    doRol arch v.toUInt32 t = flagRol arch (rolWord v t.view.p.c) t := by
  have hback : t.f <<< 6 >>> 6 = t.f := by
    rw [← UInt32.toNat_inj, shiftRight_toNat _ 6 (n := 6) rfl, shiftLeft_toNat _ 6 (n := 6) rfl]
    omega
  have hrol : doRol arch v.toUInt32 t = flagRol arch
      (v.toUInt32.toUInt64 <<< 8 ||| (t.f <<< 6 &&& (0x80 : UInt32)).toUInt64)
      { t with f := t.f <<< 6 >>> 6 } := rfl
  rw [hrol, hback, rolCarry_eq]
  rfl

theorem doRol_does (hf : t.f.toNat < 0x100) : Does (doRol arch) Processor.rol v t where
  value := by
    rw [doRol_run arch v t hf, flagRol_value]
    rfl
  view := by
    rw [doRol_run arch v t hf, view_flagRol]
    rfl
  ea := by rw [doRol_run arch v t hf, flagRol_ea]

/-- Flags that are put into F_Reg one by one. -/
theorem view_putNZ {value : UInt8} {w : UInt32} (hn : t.view.p.n = false)
    (hw : w = value.toUInt32) : (negByte w (zeroByte arch w t)).view =
      { t.view with p := setNZ value t.view.p } := by
  have hzero := view_zeroByte t arch w
  have hclear : (zeroByte arch w t).view.p.n = false := by
    rw [hzero]
    exact hn
  rw [view_negByte _ w hclear, hzero, hw, wide_byte]
  rfl

theorem doRor_run : doRor arch v.toUInt32 t =
    let w := ror (v.toUInt32 ||| t.view.p.c.toUInt32 <<< 8) 1
    let x := (v >>> 1 ||| t.view.p.c.toUInt8 <<< 7).toUInt32
    (x, negByte x (zeroByte arch x
      (orrF ((w &&& 0x80000000) >>> 30) (bicF (flagArm.n ||| flagArm.z ||| flagArm.c) t)))) := by
  have hror : doRor arch v.toUInt32 t =
      let w := ror (v.toUInt32 ||| (t.f &&& flagArm.c.toUInt32) <<< 7) 1
      let x := w &&& ~~~(0x80000000 : UInt32)
      (x, negByte x (zeroByte arch x
        (orrF ((w &&& 0x80000000) >>> 30) (bicF (flagArm.n ||| flagArm.z ||| flagArm.c) t)))) := rfl
  rw [hror, rorCarry_eq]
  dsimp only
  rw [rorValue_eq]
  rfl

theorem view_rorFlags (c : Bool) :
    (orrF ((ror (v.toUInt32 ||| c.toUInt32 <<< 8) 1 &&& (0x80000000 : UInt32)) >>> 30)
      (bicF (flagArm.n ||| flagArm.z ||| flagArm.c) t)).view =
      { t.view with
        p := { t.view.p with n := false, z := false, c := decide (v.toNat % 2 = 1) } } := by
  have hstatus := (status_orr (t.f.toUInt8 &&& ~~~(flagArm.n ||| flagArm.z ||| flagArm.c))
    (decide (v.toNat % 2 = 1))).2.2
  rw [← rorOut_eq v c, ← bic_byte, ← UInt32.toUInt8_or, bic_byte, status_bic_nzc,
    Bool.false_or] at hstatus
  exact congrArg (fun p => { t.view with p := p }) hstatus

theorem doRor_does : Does (doRor arch) Processor.ror v t where
  value := by
    rw [doRor_run]
    rfl
  view := by
    have hflags := view_rorFlags v t t.view.p.c
    have hn :
        (orrF ((ror (v.toUInt32 ||| t.view.p.c.toUInt32 <<< 8) 1 &&& (0x80000000 : UInt32)) >>> 30)
        (bicF (flagArm.n ||| flagArm.z ||| flagArm.c) t)).view.p.n = false := by rw [hflags]
    rw [doRor_run]
    dsimp only
    rw [view_putNZ arch _ hn rfl, hflags]
    rfl
  ea := by
    rw [doRor_run]
    rfl

end Shifts

end Apple2ix.Cpu.Arm
