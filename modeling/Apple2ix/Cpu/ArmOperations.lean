import Apple2ix.Cpu.ArmShifts

/-! The operations of the ARM core on A and on memory, as operations of the 65c02. -/
namespace Apple2ix.Cpu.Arm
open Cpu Processor
set_option autoImplicit false

theorem carryOut_bit (c : Bool) : (~~~((!c).toUInt32 <<< 1) &&& 2).toUInt8 = c.toUInt8 <<< 1 := by
  cases c <;> rfl

theorem bit6_wide (v : UInt8) : ((v.toUInt32 &&& 0x40) >>> 6).toUInt8 =
    (v &&& 0x40 != 0).toUInt8 := by
  have hand : v.toUInt32 &&& 0x40 = (v &&& 0x40).toUInt32 := (UInt8.toUInt32_and v 0x40).symm
  rw [hand, ← ite_and_bit (by decide)]
  cases v &&& 0x40 != 0 <;> rfl

theorem status_bic_nvz (f : UInt8) :
    flagArm.status (f &&& ~~~(flagArm.n ||| flagArm.z) &&& ~~~flagArm.v) =
      { flagArm.status f with n := false, v := false, z := false } := by
  have hnz : flagArm.status (f &&& ~~~(flagArm.n ||| flagArm.z)) =
      { flagArm.status f with n := false, z := false } := by
    rw [bic_select]
    simp (disch := decide) only [Layout.status, select_in, select_out]
    rfl
  rw [(status_bic _).2.2.2, hnz]

-- states are compared field by field, which must not evaluate what the others hold
attribute [local irreducible] UInt32.shiftLeft UInt32.shiftRight

/-! ## Logical operations, at the top of a word -/

section Top
variable (arch : Arch) (s : State Ram)

/-- A result at the top of A_Reg, with its flags. -/
theorem view_topAcc {v : UInt8} {flags : Nzcv} (hn : flags.n = signBit (top v))
    (hz : flags.z = (top v == 0)) :
    ({ flagNZ { s with a := top v, apsr := flags } with a := top v >>> 24 } : State Ram).view =
      loadA v s.view := by
  have hview := view_flagTop { s with a := top v } hn hz
  have hp := congrArg Processor.p hview
  rw [top_shiftRight]
  have hacc :
      ({ flagNZ { s with a := top v, apsr := flags } with a := v.toUInt32 } : State Ram).view =
      { s.view with
        a := v.toUInt32.toUInt8
        p := (flagNZ { s with a := top v, apsr := flags }).view.p } := rfl
  rw [hacc, wide_byte]
  exact congrArg (fun p => { s.view with a := v, p := p }) hp

theorem view_doAnd : (doAnd arch ram s).view = loadA (s.view.a &&& s.byte) s.view := by
  have htop : s.a <<< 24 &&& s.byte.toUInt32 <<< 24 = top (s.view.a &&& s.byte) := by
    rw [shiftLeft_top, ← top_and]
    rfl
  have hand : doAnd arch ram s =
      let t := { getFromEaB ram s with r0 := s.byte.toUInt32 <<< 24 }
      let a := s.a <<< 24 &&& s.byte.toUInt32 <<< 24
      { flagNZ { t with a := a, apsr := logic arch a t.apsr } with a := a >>> 24 } := rfl
  rw [hand, htop]
  exact view_topAcc _ (logic_n arch _ _) (logic_z arch _ _)

theorem view_doEor : (doEor ram s).view = loadA (s.view.a ^^^ s.byte) s.view := by
  have htop : s.a <<< 24 ^^^ s.byte.toUInt32 <<< 24 = top (s.view.a ^^^ s.byte) := by
    rw [shiftLeft_top, ← top_xor]
    rfl
  have heor : doEor ram s =
      let t := { getFromEaB ram s with r0 := s.byte.toUInt32 <<< 24 }
      let a := s.a <<< 24 ^^^ s.byte.toUInt32 <<< 24
      { flagNZ { t with a := a, apsr := (subs a 0).flags } with a := a >>> 24 } := rfl
  rw [heor, htop]
  exact view_topAcc _ (subs_zero _).1 (subs_zero _).2.1

theorem view_doOra : (doOra ram s).view = loadA (s.view.a ||| s.byte) s.view := by
  have htop : s.a <<< 24 ||| s.byte.toUInt32 <<< 24 = top (s.view.a ||| s.byte) := by
    rw [shiftLeft_top, ← top_or]
    rfl
  have hora : doOra ram s =
      let t := { getFromEaB ram s with r0 := s.byte.toUInt32 <<< 24 }
      let a := s.a <<< 24 ||| s.byte.toUInt32 <<< 24
      { flagNZ { t with a := a, apsr := (subs a 0).flags } with a := a >>> 24 } := rfl
  rw [hora, htop]
  exact view_topAcc _ (subs_zero _).1 (subs_zero _).2.1

theorem view_compare (reg : UInt32) :
    (compare ram reg s).view = Processor.compare reg.toUInt8 s.byte s.view := by
  have hcmp : compare ram reg s = flagNZC { getFromEaB ram s with
      r0 := s.byte.toUInt32 <<< 24
      apsr := (subs (reg <<< 24) (s.byte.toUInt32 <<< 24)).flags } := rfl
  have htop : s.byte.toUInt32 <<< 24 = top s.byte := rfl
  have hcarry : decide ((top s.byte).toNat ≤ (top reg.toUInt8).toNat) =
      decide (s.byte.toNat ≤ reg.toUInt8.toNat) := by
    rw [top_toNat, top_toNat, decide_eq_decide]
    omega
  rw [hcmp, shiftLeft_top reg, htop, view_flagNZC]
  simp only [subs_n, subs_z, subs_c, hcarry, top_sub, signBit_top, top_eq_zero]
  rfl

/-! ## Loads -/

theorem view_doLdx : (doLdx ram s).view = loadX s.byte s.view := by
  have hload :
      doLdx ram s = orFlags s.byte.toUInt32 { getFromEaB ram s with x := s.byte.toUInt32 } := rfl
  rw [hload, view_orFlags, wide_byte]
  exact congrArg (fun x => { s.view with x := x, p := setNZ s.byte s.view.p }) (wide_byte s.byte)

theorem view_doLdy : (doLdy ram s).view = loadY s.byte s.view := by
  have hload :
      doLdy ram s = orFlags s.byte.toUInt32 { getFromEaB ram s with y := s.byte.toUInt32 } := rfl
  rw [hload, view_orFlags, wide_byte]
  exact congrArg (fun y => { s.view with y := y, p := setNZ s.byte s.view.p }) (wide_byte s.byte)

end Top

/-! ## Binary arithmetic -/

section Signs
variable (a v : UInt8)

theorem sign_wide : a.toUInt32 >>> 7 = (negative a).toUInt32 := by
  have ha := a.toNat_lt
  rw [← UInt32.toNat_inj, shiftRight_toNat _ 7 (n := 7) rfl, byte_toNat, carry_toNat, negative]
  by_cases hneg : 0x80 ≤ a.toNat
  · rw [decide_eq_true hneg, Bool.toNat_true]
    omega
  · rw [decide_eq_false hneg, Bool.toNat_false]
    omega

theorem negative_not : negative (~~~v) = !negative v := by
  revert v
  exact forall_uint8 (by decide)

/-- A signed sum that does not fit, by the signs of the operands and of the result. -/
theorem overflow_signs (c : Bool) {value : UInt8}
    (hvalue : value = UInt8.ofNat (a.toNat + v.toNat + c.toNat)) :
    ((negative a ^^ negative value) && (negative v ^^ negative value)) =
      decide (signed a + signed v + c.toNat < -0x80 ∨ 0x7F < signed a + signed v + c.toNat) := by
  have hadd : (X86.adcb v a c).value = value := (X86.adcb_value v a c).trans hvalue.symm
  rw [← X86.adcb_ovf, ← hadd, ← X86.signBit_eq, ← X86.signBit_eq, ← X86.signBit_eq,
    ← X86.signBit_xor, ← X86.signBit_xor, ← X86.signBit_and]
  rfl

end Signs

section Binary
variable (arch : Arch)

/-- V put into F_Reg, where it is clear. -/
theorem view_putV {t : State Ram} {w : UInt32} {v : Bool} (hclear : t.view.p.v = false)
    (hw : w.toUInt8 = v.toUInt8) :
    (orrF w t).view = { t.view with p := { t.view.p with v := v } } := by
  have hstatus := (status_orr t.f.toUInt8 v).2.1
  have hv : (flagArm.status t.f.toUInt8).v = false := hclear
  rw [← hw, ← UInt32.toUInt8_or, hv, Bool.false_or] at hstatus
  exact congrArg (fun p => { t.view with p := p }) hstatus

/-- N, V, Z and C put into F_Reg, where they are clear. -/
theorem view_putNvzc {t : State Ram} {p : Status} {value : UInt8} {wc wv : UInt32} {c v : Bool}
    (hp : t.view.p = { p with n := false, v := false, z := false, c := false })
    (hc : wc.toUInt8 = c.toUInt8 <<< 1) (hv : wv.toUInt8 = v.toUInt8) :
    (zeroByte arch value.toUInt32 (orrF wv (negByte value.toUInt32 (orrF wc t)))).view =
      { t.view with p := { setNZ value p with c := c, v := v } } := by
  have hcarry : (orrF wc t).view = { t.view with p := { t.view.p with c := c } } := by
    have hstatus := (status_orr t.f.toUInt8 c).2.2
    have hclear : (flagArm.status t.f.toUInt8).c = false := congrArg Status.c hp
    rw [← hc, ← UInt32.toUInt8_or, hclear, Bool.false_or] at hstatus
    exact congrArg (fun p => { t.view with p := p }) hstatus
  have hnegative : (negByte value.toUInt32 (orrF wc t)).view =
      { t.view with p := { t.view.p with c := c, n := negative value } } := by
    rw [view_negByte _ _ (by rw [hcarry]; exact congrArg Status.n hp), hcarry, wide_byte]
  have hclear : (negByte value.toUInt32 (orrF wc t)).view.p.v = false := by
    rw [hnegative]
    exact congrArg Status.v hp
  rw [view_zeroByte, view_putV hclear hv, hnegative, hp, wide_byte]
  rfl

/-- F_Reg without N, V, Z and C, and a byte in A_Reg. -/
theorem view_clear (t : State Ram) (value : UInt8) :
    ({ bicF nvzcFlags t with a := value.toUInt32 } : State Ram).view =
      { t.view with
        a := value
        p := { t.view.p with n := false, v := false, z := false, c := false } } := by
  have hf : (t.f &&& ~~~nvzcFlags.toUInt32).toUInt8 = t.f.toUInt8 &&& ~~~nvzcFlags :=
    bic_byte t.f nvzcFlags
  have hstatus := status_bic_nvzc t.f.toUInt8
  rw [← hf] at hstatus
  have hview : ({ bicF nvzcFlags t with a := value.toUInt32 } : State Ram).view =
      { t.view with
        a := value.toUInt32.toUInt8
        p := flagArm.status (t.f &&& ~~~nvzcFlags.toUInt32).toUInt8 } := rfl
  rw [hview, hstatus, wide_byte]
  rfl

/-- The sum of the binary branch of `DoADC_b`, its carry and the byte. -/
theorem sum_wide (a v : UInt8) (c : Bool) :
    let w := a.toUInt32 + c.toUInt32 + v.toUInt32
    (w &&& ~~~0x100) = (UInt8.ofNat (a.toNat + v.toNat + c.toNat)).toUInt32 ∧
      ((w &&& 0x100) >>> 7).toUInt8 =
        (decide (0x100 ≤ a.toNat + v.toNat + c.toNat)).toUInt8 <<< 1 := by
  intro w
  have ha := a.toNat_lt
  have hv := v.toNat_lt
  have hc := Bool.toNat_le c
  have hw : w.toNat = a.toNat + v.toNat + c.toNat := by
    rw [UInt32.toNat_add, UInt32.toNat_add, byte_toNat, byte_toNat, carry_toNat]
    omega
  have hand :
      (w &&& 0x100).toNat = (decide (0x100 ≤ a.toNat + v.toNat + c.toNat)).toNat * 2 ^ 8 := by
    have h256 : (0x100 : UInt32).toNat = 2 ^ 8 := rfl
    have hbit : w.toNat.testBit 8 = decide (0x100 ≤ a.toNat + v.toNat + c.toNat) := by
      rw [Nat.testBit_eq_decide_div_mod_eq, hw, decide_eq_decide]
      omega
    rw [UInt32.toNat_and, h256, Nat.and_two_pow, hbit]
  constructor
  · apply eq_byte
    rw [bic_0x100 (by omega), hw, UInt8.toNat_ofNat']
  · rw [← UInt8.toNat_inj, UInt32.toNat_toUInt8, shiftRight_toNat _ 7 (n := 7) rfl, hand]
    cases decide (0x100 ≤ a.toNat + v.toNat + c.toNat) <;> rfl

theorem overflow_wide (x y z : Bool) :
    (overflow x.toUInt32 y.toUInt32 z.toUInt32).toUInt8 = ((x ^^ z) && (y ^^ z)).toUInt8 := by
  cases x <;> cases y <;> cases z <;> rfl

/-- The end of both binary branches. -/
theorem view_binary (s : State Ram) (w : UInt32) {src value : UInt8} {wc wv : UInt32}
    (hvalue : value = UInt8.ofNat (s.view.a.toNat + src.toNat + s.view.p.c.toNat))
    (hc : wc.toUInt8 =
      (decide (0x100 ≤ s.view.a.toNat + src.toNat + s.view.p.c.toNat)).toUInt8 <<< 1)
    (hv : wv.toUInt8 =
      ((negative s.view.a ^^ negative value) && (negative src ^^ negative value)).toUInt8) :
    (zeroByte arch value.toUInt32 (orrF wv (negByte value.toUInt32 (orrF wc
      { bicF nvzcFlags { s with a := w } with a := value.toUInt32 })))).view =
        addBinary src s.view := by
  have hclear := view_clear { s with a := w } value
  rw [view_putNvzc arch (congrArg Processor.p hclear) hc hv, hclear, hvalue,
    overflow_signs _ _ _ rfl]
  rfl

theorem view_doAdcB {s : State Ram} (ha : s.a = s.view.a.toUInt32) (hd : s.view.p.d = false) :
    (doAdcB arch ram s).view = addBinary s.byte s.view := by
  have hhas : s.has flagArm.d = false := (has_eq s flagArm.d).trans hd
  have hrun : doAdcB arch ram s =
      let t := getFromEaB ram s
      let w := t.a + carryIn t + t.r0
      let a := w &&& ~~~0x100
      zeroByte arch a (orrF (overflow (t.a >>> 7) (t.r0 >>> 7) (a >>> 7)) (negByte a
        (orrF ((w &&& 0x100) >>> 7) { bicF nvzcFlags { t with a := w } with a := a }))) :=
    if_neg (by rw [hhas]; exact Bool.false_ne_true)
  have hcarry : carryIn (getFromEaB ram s) = s.view.p.c.toUInt32 := carryIn_eq (getFromEaB ram s)
  have hload : (getFromEaB ram s).a = s.view.a.toUInt32 := ha
  have hr0 : (getFromEaB ram s).r0 = s.byte.toUInt32 := rfl
  obtain ⟨hvalue, hout⟩ := sum_wide s.view.a s.byte s.view.p.c
  rw [hrun]
  dsimp only
  rw [hload, hr0, hcarry, hvalue, sign_wide, sign_wide, sign_wide]
  exact view_binary arch (getFromEaB ram s) _ rfl hout (overflow_wide _ _ _)

/-- The difference of the binary branch of `DoSBC_b`, its borrow and the byte. -/
theorem difference_wide (a v : UInt8) (c : Bool) :
    let w := a.toUInt32 - v.toUInt32 - (!c).toUInt32
    w &&& 0xFF = (UInt8.ofNat (a.toNat + (~~~v).toNat + c.toNat)).toUInt32 ∧
      (~~~((w &&& 0x80000000) >>> 30) &&& 2).toUInt8 =
        (decide (0x100 ≤ a.toNat + (~~~v).toNat + c.toNat)).toUInt8 <<< 1 := by
  intro w
  have ha := a.toNat_lt
  have hv := v.toNat_lt
  have hnot : (~~~v).toNat = 0xFF - v.toNat := UInt8.toNat_not v
  have hborrow : (!c).toNat + c.toNat = 1 := by cases c <;> rfl
  have hw : w.toNat = (2 ^ 32 + a.toNat - v.toNat - (!c).toNat) % 2 ^ 32 := by
    rw [UInt32.toNat_sub, UInt32.toNat_sub, byte_toNat, byte_toNat, carry_toNat]
    omega
  have hsign : (w &&& 0x80000000).toNat =
      (decide (¬ 0x100 ≤ a.toNat + (~~~v).toNat + c.toNat)).toNat * 2 ^ 31 := by
    have h31 : (0x80000000 : UInt32).toNat = 2 ^ 31 := rfl
    have hbit : w.toNat.testBit 31 = decide (¬ 0x100 ≤ a.toNat + (~~~v).toNat + c.toNat) := by
      rw [Nat.testBit_eq_decide_div_mod_eq, hw, decide_eq_decide]
      omega
    rw [UInt32.toNat_and, h31, Nat.and_two_pow, hbit]
  constructor
  · apply eq_byte
    rw [and_byte, hw, UInt8.toNat_ofNat']
    omega
  · have hshift : (w &&& 0x80000000) >>> 30 =
        (decide (¬ 0x100 ≤ a.toNat + (~~~v).toNat + c.toNat)).toUInt32 <<< 1 := by
      rw [← UInt32.toNat_inj, shiftRight_toNat _ 30 (n := 30) rfl, hsign,
        shiftLeft_toNat _ 1 (n := 1) rfl, carry_toNat]
      cases decide (¬ 0x100 ≤ a.toNat + (~~~v).toNat + c.toNat) <;> rfl
    rw [hshift, decide_not]
    exact carryOut_bit _

theorem underflow_wide (x y z : Bool) :
    ((x.toUInt32 ^^^ z.toUInt32) &&& (x.toUInt32 ^^^ y.toUInt32)).toUInt8 =
      ((x ^^ z) && (!y ^^ z)).toUInt8 := by
  cases x <;> cases y <;> cases z <;> rfl

theorem view_doSbcB {s : State Ram} (ha : s.a = s.view.a.toUInt32) (hd : s.view.p.d = false) :
    (doSbcB arch ram s).view = addBinary (~~~s.byte) s.view := by
  have hhas : s.has flagArm.d = false := (has_eq s flagArm.d).trans hd
  have hrun : doSbcB arch ram s =
      let t := getFromEaB ram s
      let w := t.a - t.r0 - borrowIn t
      let a := w &&& 0xFF
      zeroByte arch a (orrF ((t.a >>> 7 ^^^ a >>> 7) &&& (t.a >>> 7 ^^^ t.r0 >>> 7)) (negByte a
        (orrF (~~~((w &&& 0x80000000) >>> 30) &&& 2)
          { bicF nvzcFlags { t with a := w } with a := a }))) :=
    if_neg (by rw [hhas]; exact Bool.false_ne_true)
  have hborrow : borrowIn (getFromEaB ram s) = (!s.view.p.c).toUInt32 :=
    borrowIn_eq (getFromEaB ram s)
  have hload : (getFromEaB ram s).a = s.view.a.toUInt32 := ha
  have hr0 : (getFromEaB ram s).r0 = s.byte.toUInt32 := rfl
  obtain ⟨hvalue, hout⟩ := difference_wide s.view.a s.byte s.view.p.c
  rw [hrun]
  dsimp only
  rw [hload, hr0, hborrow, hvalue, sign_wide, sign_wide, sign_wide]
  refine view_binary arch (getFromEaB ram s) _ rfl hout ?_
  rw [underflow_wide, negative_not]
  rfl

end Binary

/-! ## Tests of bits -/

section Bits
variable (arch : Arch) (s : State Ram)

theorem masked_byte (w : UInt32) (v : UInt8) : (w &&& v.toUInt32).toUInt8 = w.toUInt8 &&& v := by
  rw [UInt32.toUInt8_and, wide_byte]

theorem view_doBit : (doBit arch ram s).view = testBits s.byte s.view := by
  let t := bicF flagArm.v (bicF (flagArm.n ||| flagArm.z) (getFromEaB ram s))
  have ht : t.view = { s.view with p := { s.view.p with n := false, v := false, z := false } } := by
    have hf : (s.f &&& ~~~(flagArm.n ||| flagArm.z).toUInt32 &&& ~~~flagArm.v.toUInt32).toUInt8 =
        s.f.toUInt8 &&& ~~~(flagArm.n ||| flagArm.z) &&& ~~~flagArm.v := by rw [bic_byte, bic_byte]
    have hstatus := status_bic_nvz s.f.toUInt8
    rw [← hf] at hstatus
    exact congrArg (fun p => { s.view with p := p }) hstatus
  have hbit : doBit arch ram s = negByte s.byte.toUInt32 (orrF ((s.byte.toUInt32 &&& 0x40) >>> 6)
      (zeroByte arch (s.a &&& s.byte.toUInt32) t)) := rfl
  have hzero : (zeroByte arch (s.a &&& s.byte.toUInt32) t).view =
      { t.view with p := { t.view.p with z := s.view.a &&& s.byte == 0 } } := by
    rw [view_zeroByte, masked_byte]
    rfl
  have hv : (zeroByte arch (s.a &&& s.byte.toUInt32) t).view.p.v = false := by rw [hzero, ht]
  have hover := view_putV hv (bit6_wide s.byte)
  have hn : (orrF ((s.byte.toUInt32 &&& 0x40) >>> 6)
      (zeroByte arch (s.a &&& s.byte.toUInt32) t)).view.p.n = false := by rw [hover, hzero, ht]
  rw [hbit, view_negByte _ _ hn, hover, hzero, ht, wide_byte]
  rfl

theorem view_zeroAnd (t : State Ram) (v : UInt8) : (zeroByte arch (t.a &&& v.toUInt32) t).view =
    testZero v t.view := by
  rw [view_zeroByte, masked_byte]
  rfl

/-- `ands` of the operand and A_Reg. -/
theorem view_testZero (x : UInt32) : (flagZ { getFromEaB ram s with
    apsr := logic arch (s.byte.toUInt32 &&& s.a) s.apsr, r0 := x }).view =
      testZero s.byte s.view := by
  have hlt : (s.byte.toUInt32 &&& s.a).toNat < 0x100 := and_lt_left (byte_lt s.byte)
  have hand : s.byte.toUInt32 &&& s.a = (s.view.a &&& s.byte).toUInt32 := by
    rw [← narrow hlt, UInt32.toUInt8_and, wide_byte, UInt8.and_comm]
    rfl
  rw [view_flagZ]
  dsimp only
  rw [logic_z, hand, wide_beq_zero]
  rfl

theorem view_doTrb : (doTrb arch ram s).view =
    storeCell (s.byte &&& ~~~s.view.a) s.ea.toUInt16 (testZero s.byte s.view) := by
  have hvalue : (s.byte.toUInt32 &&& ~~~s.a).toUInt8 = s.byte &&& ~~~s.view.a := by
    rw [UInt32.toUInt8_and, UInt32.toUInt8_not, wide_byte]
    rfl
  have htrb : (doTrb arch ram s).view = storeCell (s.byte.toUInt32 &&& ~~~s.a).toUInt8 s.ea.toUInt16
      (flagZ { getFromEaB ram s with
        apsr := logic arch (s.byte.toUInt32 &&& s.a) s.apsr, r0 := s.byte.toUInt32 }).view := rfl
  rw [htrb, hvalue, view_testZero]

theorem view_doTsb : (doTsb arch ram s).view =
    storeCell (s.byte ||| s.view.a) s.ea.toUInt16 (testZero s.byte s.view) := by
  have hvalue : (s.a ||| s.byte.toUInt32).toUInt8 = s.byte ||| s.view.a := by
    rw [UInt32.toUInt8_or, wide_byte, UInt8.or_comm]
    rfl
  have htsb : (doTsb arch ram s).view = storeCell (s.a ||| s.byte.toUInt32).toUInt8 s.ea.toUInt16
      (flagZ { getFromEaB ram s with
        apsr := logic arch (s.byte.toUInt32 &&& s.a) s.apsr, r0 := s.byte.toUInt32 }).view := rfl
  rw [htsb, hvalue, view_testZero]

end Bits

end Apple2ix.Cpu.Arm
