import Apple2ix.Cpu.Instructions
import Apple2ix.Cpu.X86

/-! What the flag macros and host instructions of the x86 core give, as flags of the 65c02. -/
namespace Apple2ix.Cpu.X86
open Cpu Processor
set_option autoImplicit false

universe u
variable {σ : Type u}

/-! ## Bits of a byte -/

theorem signBit_eq (value : UInt8) : signBit value = negative value := and_sign value

theorem signBit_msb (value : UInt8) : signBit value = value.toBitVec.getLsbD 7 := by
  rw [signBit, and_bit (k := 7) rfl, ← Nat.testBit_eq_decide_div_mod_eq]
  rfl

theorem signBit_and (x y : UInt8) : signBit (x &&& y) = (signBit x && signBit y) := by
  rw [signBit_msb, signBit_msb, signBit_msb, UInt8.toBitVec_and, BitVec.getLsbD_and]

theorem signBit_xor (x y : UInt8) : signBit (x ^^^ y) = (signBit x ^^ signBit y) := by
  rw [signBit_msb, signBit_msb, signBit_msb, UInt8.toBitVec_xor, BitVec.getLsbD_xor]

/-! ## Arithmetic -/

section Arithmetic
variable (src dst : UInt8) (cf : Bool)

theorem adcb_value : (adcb src dst cf).value = UInt8.ofNat (dst.toNat + src.toNat + cf.toNat) := by
  have hcf : cf.toUInt8.toNat = cf.toNat := by cases cf <;> rfl
  rw [← UInt8.toNat_inj, adcb, UInt8.toNat_add, UInt8.toNat_add, hcf, UInt8.toNat_ofNat']
  omega

theorem adcb_cf :
    (adcb src dst cf).flags.cf = decide (0x100 ≤ dst.toNat + src.toNat + cf.toNat) := rfl

theorem adcb_zf : (adcb src dst cf).flags.zf = ((adcb src dst cf).value == 0) := rfl

theorem adcb_sf : (adcb src dst cf).flags.sf = negative (adcb src dst cf).value := signBit_eq _

/-- OF is set when the sum of the signed values is not the signed value of the result. -/
theorem adcb_ovf : (adcb src dst cf).flags.ovf =
    decide (signed dst + signed src + cf.toNat < -0x80 ∨
      0x7F < signed dst + signed src + cf.toNat) := by
  have hvalue := adcb_value src dst cf
  have hflag : (adcb src dst cf).flags.ovf = ((negative dst ^^ negative (adcb src dst cf).value) &&
      (negative src ^^ negative (adcb src dst cf).value)) := by
    rw [← signBit_eq, ← signBit_eq, ← signBit_eq, ← signBit_xor, ← signBit_xor, ← signBit_and]
    rfl
  have hmod : (adcb src dst cf).value.toNat = (dst.toNat + src.toNat + cf.toNat) % 0x100 := by
    rw [hvalue, UInt8.toNat_ofNat']
  have hsrc := src.toNat_lt
  have hdst := dst.toNat_lt
  have hcf := Bool.toNat_le cf
  rw [hflag, Bool.eq_iff_iff]
  simp only [negative, signed, decide_eq_true_eq, Bool.and_eq_true, bne_iff_ne, ne_eq,
    decide_eq_decide]
  by_cases hd : 0x80 ≤ dst.toNat <;> by_cases hs : 0x80 ≤ src.toNat
  all_goals simp only [hd, hs, if_true, if_false, true_iff, false_iff, not_not]
  all_goals omega

theorem subb_value : (subb src dst).value = dst - src := UInt8.sub_zero _

theorem subb_cf : (subb src dst).flags.cf = decide (dst.toNat < src.toNat) := rfl

theorem subb_zf : (subb src dst).flags.zf = (dst - src == 0) := by
  rw [← subb_value]
  rfl

theorem subb_sf : (subb src dst).flags.sf = negative (dst - src) := by
  rw [← subb_value, ← signBit_eq]
  rfl

end Arithmetic

/-! ## Shifts -/

/-- The value and the status of an instruction after `FlagNZ`. -/
def Result.nz (r : Result) (p : Status) : UInt8 × Status :=
  (r.value, { p with n := r.flags.sf, z := r.flags.zf })

/-- The same after `FlagNZC`. -/
def Result.nzc (r : Result) (p : Status) : UInt8 × Status :=
  (r.value, { p with n := r.flags.sf, z := r.flags.zf, c := r.flags.cf })

section Shifts
variable (v : UInt8) (s : State σ) (p : Status)

/-- A result is as expected when the value and the carry are, its sign and zero being its own. -/
theorem nzc_eq {r : Result} {value : UInt8} {c : Bool} (hvalue : r.value = value)
    (hsf : r.flags.sf = signBit r.value) (hzf : r.flags.zf = (r.value == 0))
    (hcf : r.flags.cf = c) :
    r.nzc p = (value, { setNZ value p with c := c }) := by
  rw [Result.nzc, hsf, hzf, hvalue, hcf, signBit_eq]
  rfl

theorem nz_eq {r : Result} {value : UInt8} (hvalue : r.value = value)
    (hsf : r.flags.sf = signBit r.value) (hzf : r.flags.zf = (r.value == 0)) :
    r.nz p = (value, setNZ value p) := by
  rw [Result.nz, hsf, hzf, hvalue, signBit_eq]
  rfl

/-- Adding a byte to itself shifts it. -/
theorem add_self (cf : Bool) : v + v + cf.toUInt8 = v <<< 1 ||| cf.toUInt8 := by
  have hcf : cf.toUInt8.toNat < 2 ^ 1 := by cases cf <;> decide
  have heven : v.toNat <<< 1 % 2 ^ 8 = 2 ^ 1 * (v.toNat % 2 ^ 7) := by
    rw [Nat.shiftLeft_eq]
    omega
  rw [← UInt8.toNat_inj, UInt8.toNat_or, UInt8.toNat_shiftLeft, UInt8.toNat_add, UInt8.toNat_add]
  change ((v.toNat + v.toNat) % 2 ^ 8 + cf.toUInt8.toNat) % 2 ^ 8 =
    v.toNat <<< 1 % 2 ^ 8 ||| cf.toUInt8.toNat
  rw [heven, ← Nat.two_pow_add_eq_or_of_lt hcf]
  omega

theorem add_self_carry (cf : Bool) :
    decide (0x100 ≤ v.toNat + v.toNat + cf.toNat) = negative v := by
  have hcf := Bool.toNat_le cf
  rw [negative, decide_eq_decide]
  omega

theorem nzc_aslb : (aslb v s).nzc p = asl v p := by
  refine nzc_eq p ?_ rfl rfl (add_self_carry v false)
  have h := add_self v false
  rw [show false.toUInt8 = 0 from rfl, UInt8.or_zero] at h
  exact h

theorem nzc_rolb (hc : btC s = p.c) : (rolb v s).nzc p = rol v p := by
  rw [rolb, hc]
  exact nzc_eq p (add_self v p.c) rfl rfl (add_self_carry v p.c)

theorem low_bit : (v &&& 1 != 0) = decide (v.toNat % 2 = 1) := by
  rw [and_bit (k := 0) rfl, Nat.pow_zero, Nat.div_one]

theorem nzc_lsrb : (lsrb v s).nzc p = lsr v p := nzc_eq p rfl rfl rfl (low_bit v)

theorem nz_decb : (decb v s).nz p = dec v p := nz_eq p (subb_value 1 v) rfl rfl

theorem nz_incb : (incb v s).nz p = inc v p := nz_eq p (UInt8.add_zero _) rfl rfl

end Shifts

/-! ## Rotates to the right -/

theorem rorq_toNat (w : UInt16) : (w.toUInt64 >>> 1 ||| w.toUInt64 <<< 63).toNat =
    (w.toNat % 2) * 2 ^ 63 + w.toNat / 2 := by
  have hw := w.toNat_lt
  have hlow : (w.toUInt64 >>> 1).toNat = w.toNat / 2 := by
    rw [UInt64.toNat_shiftRight, UInt16.toNat_toUInt64]
    change w.toNat >>> 1 = _
    rw [Nat.shiftRight_eq_div_pow]
  have hhigh : (w.toUInt64 <<< 63).toNat = (w.toNat % 2) <<< 63 := by
    rw [UInt64.toNat_shiftLeft, UInt16.toNat_toUInt64]
    change (w.toNat <<< 63) % 2 ^ 64 = _
    rw [Nat.shiftLeft_eq, Nat.shiftLeft_eq]
    omega
  rw [UInt64.toNat_or, hlow, hhigh, Nat.or_comm, ← Nat.shiftLeft_add_eq_or_of_lt (by omega),
    Nat.shiftLeft_eq]

/-- The low byte of the rotated word and its bit 63. -/
theorem rorq_bits (w : UInt16) :
    (w.toUInt64 >>> 1 ||| w.toUInt64 <<< 63).toNat % 2 ^ 8 = w.toNat / 2 % 2 ^ 8 ∧
      (w.toUInt64 >>> 1 ||| w.toUInt64 <<< 63).toNat / 2 ^ 63 = w.toNat % 2 := by
  have hw := w.toNat_lt
  rw [rorq_toNat]
  obtain hbit | hbit := Nat.mod_two_eq_zero_or_one w.toNat
  · rw [hbit]
    omega
  · rw [hbit]
    omega

theorem rorw_toNat (w : UInt16) : (w >>> 1 ||| w <<< 15).toNat =
    (w.toNat % 2) * 2 ^ 15 + w.toNat / 2 := by
  have hw := w.toNat_lt
  have hlow : (w >>> 1).toNat = w.toNat / 2 := by
    rw [UInt16.toNat_shiftRight]
    change w.toNat >>> 1 = _
    rw [Nat.shiftRight_eq_div_pow]
  have hhigh : (w <<< 15).toNat = (w.toNat % 2) <<< 15 := by
    rw [UInt16.toNat_shiftLeft]
    change (w.toNat <<< 15) % 2 ^ 16 = _
    rw [Nat.shiftLeft_eq, Nat.shiftLeft_eq]
    omega
  rw [UInt16.toNat_or, hlow, hhigh, Nat.or_comm, ← Nat.shiftLeft_add_eq_or_of_lt (by omega),
    Nat.shiftLeft_eq]

/-- The two bytes of the rotated word. -/
theorem rorw_bits (w : UInt16) :
    (w >>> 1 ||| w <<< 15).toNat % 0x100 = w.toNat / 2 % 0x100 ∧
      (w >>> 1 ||| w <<< 15).toNat / 0x100 = w.toNat % 2 * 0x80 + w.toNat / 0x200 := by
  have hw := w.toNat_lt
  rw [rorw_toNat]
  obtain hbit | hbit := Nat.mod_two_eq_zero_or_one w.toNat
  · rw [hbit]
    omega
  · rw [hbit]
    omega

theorem ror_toNat (v : UInt8) (c : Bool) : (v >>> 1 ||| c.toUInt8 <<< 7).toNat =
    128 * c.toNat + v.toNat / 2 := by
  have hv := v.toNat_lt
  have hhigh : (c.toUInt8 <<< 7).toNat = 2 ^ 7 * c.toNat := by cases c <;> rfl
  have hlow : (v >>> 1).toNat = v.toNat / 2 := by
    rw [UInt8.toNat_shiftRight]
    exact Nat.shiftRight_eq_div_pow v.toNat 1
  rw [UInt8.or_comm, UInt8.toNat_or, hhigh, hlow, ← Nat.two_pow_add_eq_or_of_lt (by omega)]

theorem nzc_rorb (v : UInt8) (s : State σ) (p : Status) (hc : btC s = p.c) :
    (rorb v s).nzc p = ror v p := by
  have hf := low_bit s.f
  have hjoin := join_toNat s.f v
  have hv := v.toNat_lt
  obtain ⟨hlow, hhigh⟩ := rorq_bits (join s.f v)
  refine nzc_eq p ?_ rfl rfl ?_
  · change ((join s.f v).toUInt64 >>> 1 ||| (join s.f v).toUInt64 <<< 63).toUInt8 = _
    rw [← UInt8.toNat_inj, UInt64.toNat_toUInt8, hlow, ror_toNat, ← hc]
    change _ = 128 * (s.f &&& 1 != 0).toNat + _
    rw [hf]
    by_cases hodd : s.f.toNat % 2 = 1
    · simp only [hodd, decide_true, Bool.toNat_true]
      omega
    · simp only [hodd, decide_false, Bool.toNat_false]
      omega
  · change ((((join s.f v).toUInt64 >>> 1 ||| (join s.f v).toUInt64 <<< 63) >>> 63) != 0) = _
    rw [Bool.eq_iff_iff, bne_iff_ne, decide_eq_true_iff, ne_eq, ← UInt64.toNat_inj,
      UInt64.toNat_shiftRight]
    change ¬ (_ >>> 63 = 0) ↔ _
    rw [Nat.shiftRight_eq_div_pow, hhigh]
    omega

/-- A low bit put into a byte. -/
theorem low_bit_toNat (f v : UInt8) :
    (f &&& ~~~flagX86.c ||| v &&& flagX86.c).toNat = 2 * (f.toNat / 2) + v.toNat % 2 := by
  have hupper : ∀ f : UInt8, (f &&& ~~~1).toNat = 2 ^ 1 * (f.toNat / 2) := forall_uint8 (by decide)
  have hlow : (v &&& 1).toNat = v.toNat % 2 :=
    (UInt8.toNat_and v 1).trans (Nat.and_two_pow_sub_one_eq_mod v.toNat 1)
  change (f &&& ~~~1 ||| v &&& 1).toNat = _
  rw [UInt8.toNat_or, hupper, hlow, ← Nat.two_pow_add_eq_or_of_lt (Nat.mod_lt _ (by decide))]

/-- `op_ROR_acc` up to its last flags. -/
theorem opRorAcc_eq (s : State σ) : opRorAcc s = orFlags (ror s.a (flagX86.status s.f)).1
    { s with
      a := (ror s.a (flagX86.status s.f)).1
      f := s.f &&& ~~~flagX86.c ||| s.a &&& flagX86.c } := by
  have hjoin := join_toNat s.f s.a
  have ha := s.a.toNat_lt
  have hf := s.f.toNat_lt
  obtain ⟨hlow, hhigh⟩ := rorw_bits (join s.f s.a)
  have hvalue : loByte (join s.f s.a >>> 1 ||| join s.f s.a <<< 15) =
      (ror s.a (flagX86.status s.f)).1 := by
    rw [← UInt8.toNat_inj, loByte_toNat, hlow]
    change _ = (s.a >>> 1 ||| (s.f &&& 1 != 0).toUInt8 <<< 7).toNat
    rw [ror_toNat, low_bit s.f]
    by_cases hodd : s.f.toNat % 2 = 1
    · simp only [hodd, decide_true, Bool.toNat_true]
      omega
    · simp only [hodd, decide_false, Bool.toNat_false]
      omega
  have hflag : (join s.f s.a &&& 1 != 0).toNat = s.a.toNat % 2 := by
    have hlow : (join s.f s.a &&& 1).toNat = s.a.toNat % 2 := by
      rw [UInt16.toNat_and, hjoin]
      change (_ &&& 1) = _
      rw [Nat.and_one_is_mod]
      omega
    obtain heven | hodd := Nat.mod_two_eq_zero_or_one s.a.toNat
    · rw [heven] at hlow ⊢
      rw [UInt16.toNat_inj.mp (hlow.trans rfl : _ = (0 : UInt16).toNat)]
      rfl
    · rw [hodd] at hlow ⊢
      rw [UInt16.toNat_inj.mp (hlow.trans rfl : _ = (1 : UInt16).toNat)]
      rfl
  have hreg : (adcb (hiByte (join s.f s.a >>> 1 ||| join s.f s.a <<< 15))
      (hiByte (join s.f s.a >>> 1 ||| join s.f s.a <<< 15)) (join s.f s.a &&& 1 != 0)).value =
      s.f &&& ~~~flagX86.c ||| s.a &&& flagX86.c := by
    have hodd : (join s.f s.a).toNat % 2 = s.a.toNat % 2 := by omega
    have hhalf : (join s.f s.a).toNat / 0x200 = s.f.toNat / 2 := by omega
    rw [← UInt8.toNat_inj, adcb_value, UInt8.toNat_ofNat', hiByte_toNat, hhigh, hflag,
      low_bit_toNat, hodd, hhalf]
    omega
  rw [← hvalue, ← hreg]
  rfl

/-! ## Harvesting -/

theorem lahf_n (flags : HostFlags) : (flagX86.status (lahf flags)).n = flags.sf := by
  obtain ⟨cf, zf, sf, ovf, af⟩ := flags
  cases cf <;> cases zf <;> cases sf <;> cases ovf <;> cases af <;> rfl

theorem lahf_z (flags : HostFlags) : (flagX86.status (lahf flags)).z = flags.zf := by
  obtain ⟨cf, zf, sf, ovf, af⟩ := flags
  cases cf <;> cases zf <;> cases sf <;> cases ovf <;> cases af <;> rfl

theorem lahf_c (flags : HostFlags) : (flagX86.status (lahf flags)).c = flags.cf := by
  obtain ⟨cf, zf, sf, ovf, af⟩ := flags
  cases cf <;> cases zf <;> cases sf <;> cases ovf <;> cases af <;> rfl

section Status
variable (f : UInt8) (flags : HostFlags)

theorem status_flagZ : flagX86.status (f &&& ~~~flagX86.z ||| lahf flags &&& flagX86.z) =
    { flagX86.status f with z := flags.zf } := by
  rw [← lahf_z flags]
  simp (disch := decide) only [Layout.status, select_in, select_out]

theorem status_flagNZ :
    flagX86.status
        (f &&& ~~~(flagX86.n ||| flagX86.z) ||| lahf flags &&& (flagX86.n ||| flagX86.z)) =
      { flagX86.status f with n := flags.sf, z := flags.zf } := by
  rw [← lahf_n flags, ← lahf_z flags]
  simp (disch := decide) only [Layout.status, select_in, select_out]

theorem status_flagNZC :
    flagX86.status (f &&& ~~~(flagX86.n ||| flagX86.z ||| flagX86.c) |||
        lahf flags &&& (flagX86.n ||| flagX86.z ||| flagX86.c)) =
      { flagX86.status f with n := flags.sf, z := flags.zf, c := flags.cf } := by
  rw [← lahf_n flags, ← lahf_z flags, ← lahf_c flags]
  simp (disch := decide) only [Layout.status, select_in, select_out]

/-- The bits of `%ah` and `%al` together. -/
theorem status_flagNVZC :
    flagX86.status (f &&& ~~~(flagX86.n ||| flagX86.v ||| flagX86.z ||| flagX86.c) |||
        (flags.ovf.toUInt8 <<< 3 &&& flagX86.v) |||
        lahf flags &&& (flagX86.n ||| flagX86.z ||| flagX86.c)) =
      { flagX86.status f with n := flags.sf, v := flags.ovf, z := flags.zf, c := flags.cf } := by
  have hbits : ∃ g, (flags.ovf.toUInt8 <<< 3 &&& flagX86.v) |||
        lahf flags &&& (flagX86.n ||| flagX86.z ||| flagX86.c) =
        g &&& (flagX86.n ||| flagX86.v ||| flagX86.z ||| flagX86.c) ∧
      (flagX86.status g).n = flags.sf ∧ (flagX86.status g).v = flags.ovf ∧
      (flagX86.status g).z = flags.zf ∧ (flagX86.status g).c = flags.cf := by
    obtain ⟨cf, zf, sf, ovf, af⟩ := flags
    refine ⟨lahf ⟨cf, zf, sf, ovf, af⟩ ||| ovf.toUInt8 <<< 3, ?_⟩
    cases cf <;> cases zf <;> cases sf <;> cases ovf <;> cases af <;>
      exact ⟨rfl, rfl, rfl, rfl, rfl⟩
  obtain ⟨g, hg, hn, hv, hz, hc⟩ := hbits
  rw [UInt8.or_assoc, hg, ← hn, ← hv, ← hz, ← hc]
  simp (disch := decide) only [Layout.status, select_in, select_out]

end Status

end Apple2ix.Cpu.X86
