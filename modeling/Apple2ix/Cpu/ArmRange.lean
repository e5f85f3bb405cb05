import Apple2ix.Cpu.ArmDecimal
import Apple2ix.Cpu.ArmFlags
import Apple2ix.Cpu.ArmLoop
import Apple2ix.Foundations.Runs

/-! The registers of the ARM core stay in range, whatever memory does. -/
namespace Apple2ix.Cpu.Arm
open Cpu Processor Runs
set_option autoImplicit false

universe u
variable {σ : Type u}

-- registers are compared field by field, which must not evaluate what the others hold
attribute [local irreducible] UInt32.shiftLeft

/-- Bytes in the byte registers, 16 bits in PC_Reg and EffectiveAddr. -/
structure State.InRange (s : State σ) : Prop where
  a : s.a.toNat < 0x100
  f : s.f.toNat < 0x100
  x : s.x.toNat < 0x100
  y : s.y.toNat < 0x100
  sp : s.sp.toNat < 0x100
  pc : s.pc.toNat < 0x10000
  ea : s.ea.toNat < 0x10000

/-! ## Words that fit -/

section Words
variable {w v : UInt32}

theorem or_lt {n : ℕ} (hw : w.toNat < 2 ^ n) (hv : v.toNat < 2 ^ n) : (w ||| v).toNat < 2 ^ n := by
  rw [UInt32.toNat_or]
  exact Nat.or_lt_two_pow hw hv

theorem and_lt_left {n : ℕ} (hw : w.toNat < n) : (w &&& v).toNat < n := by
  rw [UInt32.toNat_and]
  exact Nat.and_le_left.trans_lt hw

theorem and_lt_right {n : ℕ} (hv : v.toNat < n) : (w &&& v).toNat < n := by
  rw [UInt32.toNat_and]
  exact Nat.and_le_right.trans_lt hv

theorem xor_lt {n : ℕ} (hw : w.toNat < 2 ^ n) (hv : v.toNat < 2 ^ n) :
    (w ^^^ v).toNat < 2 ^ n := by
  rw [UInt32.toNat_xor]
  exact Nat.xor_lt_two_pow hw hv

theorem byte_lt (v : UInt8) : v.toUInt32.toNat < 0x100 := v.toNat_lt

theorem shiftRight24_lt (w : UInt32) : (w >>> 24).toNat < 0x100 := by
  have hw := w.toNat_lt
  rw [shiftRight_toNat w 24 (n := 24) rfl]
  omega

theorem shiftRight16_lt (w : UInt32) : (w >>> 16).toNat < 0x10000 := by
  have hw := w.toNat_lt
  rw [shiftRight_toNat w 16 (n := 16) rfl]
  omega

theorem shiftRight_lt {k : ℕ} (m : UInt32) (hw : w.toNat < k) : (w >>> m).toNat < k := by
  rw [UInt32.toNat_shiftRight, Nat.shiftRight_eq_div_pow]
  exact (Nat.div_le_self _ _).trans_lt hw

theorem bit7_lt (x : UInt32) : ((x &&& 0x80) >>> 4).toNat < 0x100 :=
  shiftRight_lt 4 (and_lt_right (by decide))

theorem shiftLeft8_lt (hw : w.toNat < 0x100) : (w <<< 8).toNat < 0x10000 := by
  rw [shiftLeft_toNat w 8 (n := 8) rfl]
  omega

theorem incUint16_lt (hw : w.toNat < 0x10000) : (incUint16 w).toNat < 0x10000 := by
  rw [incUint16, addUint16_toNat hw (by decide)]
  exact Nat.mod_lt _ (by omega)

theorem incUint8_lt (w : UInt32) : (incUint8 w).toNat < 0x100 := and_lt_right (by decide)

theorem decUint8_lt (w : UInt32) : (decUint8 w).toNat < 0x100 := and_lt_right (by decide)

end Words

/-! ## Macros -/

section Macros
variable (bus : WideBus σ) {s : State σ}

theorem getFromPcB_inRange (h : s.InRange) : (getFromPcB bus s).InRange :=
  ⟨h.a, h.f, h.x, h.y, h.sp, incUint16_lt h.pc, h.pc⟩

theorem hiByteToWord_r0 (s : State σ) : (hiByteToWord bus s).r0.toNat < 0x10000 := shiftRight16_lt _

theorem getFromPcW_inRange (h : s.InRange) : (getFromPcW bus s).InRange :=
  ⟨h.a, h.f, h.x, h.y, h.sp, shiftRight16_lt _, incUint16_lt h.pc⟩

theorem getFromPcW_r0 (s : State σ) : (getFromPcW bus s).r0.toNat < 0x10000 := hiByteToWord_r0 bus _

theorem getFromEaB_inRange (h : s.InRange) : (getFromEaB bus s).InRange :=
  ⟨h.a, h.f, h.x, h.y, h.sp, h.pc, h.ea⟩

theorem getFromEaB_r0 (s : State σ) : (getFromEaB bus s).r0.toNat < 0x100 := byte_lt _

theorem getFromEaW_inRange (h : s.InRange) : (getFromEaW bus s).InRange :=
  ⟨h.a, h.f, h.x, h.y, h.sp, shiftRight16_lt _, incUint16_lt h.ea⟩

theorem getFromEaW_r0 (s : State σ) : (getFromEaW bus s).r0.toNat < 0x10000 := hiByteToWord_r0 bus _

theorem putToEaB_inRange (h : s.InRange) : (putToEaB bus s).InRange :=
  ⟨h.a, h.f, h.x, h.y, h.sp, h.pc, h.ea⟩

theorem getFromMemB_inRange {x : UInt32} (h : s.InRange) (hx : x.toNat < 0x10000) :
    (getFromMemB bus x s).InRange := ⟨h.a, h.f, h.x, h.y, h.sp, h.pc, hx⟩

theorem getFromMemW_inRange {x : UInt32} (h : s.InRange) (hx : x.toNat < 0x10000) :
    (getFromMemW bus x s).InRange :=
  ⟨h.a, h.f, h.x, h.y, h.sp, shiftRight16_lt _, incUint16_lt hx⟩

theorem bicF_inRange (mask : UInt8) (h : s.InRange) : (bicF mask s).InRange :=
  ⟨h.a, and_lt_left h.f, h.x, h.y, h.sp, h.pc, h.ea⟩

theorem orrF_inRange {w : UInt32} (h : s.InRange) (hw : w.toNat < 0x100) : (orrF w s).InRange :=
  ⟨h.a, or_lt (n := 8) h.f hw, h.x, h.y, h.sp, h.pc, h.ea⟩

theorem takeFlags_inRange (mask : UInt8) (h : s.InRange) : (takeFlags mask s).InRange :=
  orrF_inRange (bicF_inRange mask h) (and_lt_right (byte_lt mask))

/-- `wr0`, the host flags and the cycles are not in it. -/
theorem scratch_inRange (h : s.InRange) (r0 : UInt32) (apsr : Nzcv) (opcycles : UInt8) :
    ({ s with r0 := r0, apsr := apsr, opcycles := opcycles } : State σ).InRange :=
  ⟨h.a, h.f, h.x, h.y, h.sp, h.pc, h.ea⟩

theorem cmpZero_inRange (x : UInt32) (h : s.InRange) : (cmpZero x s).InRange :=
  scratch_inRange h s.r0 _ s.opcycles

theorem orFlags_inRange (x : UInt32) (h : s.InRange) : (orFlags x s).InRange :=
  takeFlags_inRange _ (scratch_inRange h _ _ s.opcycles)

theorem zeroByte_inRange (arch : Arch) (x : UInt32) (h : s.InRange) : (zeroByte arch x s).InRange :=
  takeFlags_inRange _ (scratch_inRange h s.r0 _ s.opcycles)

theorem negByte_inRange (x : UInt32) (h : s.InRange) : (negByte x s).InRange := by
  rw [negByte]
  exact orrF_inRange h (bit7_lt x)

theorem push_inRange (x : UInt32) (h : s.InRange) : (push bus x s).InRange :=
  ⟨h.a, h.f, h.x, h.y, decUint8_lt _, h.pc, h.ea⟩

theorem pop_inRange (h : s.InRange) : (pop bus s).2.InRange :=
  ⟨h.a, h.f, h.x, h.y, incUint8_lt _, h.pc, h.ea⟩

theorem pop_lt (s : State σ) : (pop bus s).1.toNat < 0x100 := byte_lt _

theorem encodeFlags_inRange (h : s.InRange) : (encodeFlags s).InRange :=
  ⟨h.a, h.f, h.x, h.y, h.sp, h.pc, h.ea⟩

theorem pushR0_inRange (h : s.InRange) : (pushR0 bus s).InRange :=
  ⟨h.a, h.f, h.x, h.y, decUint8_lt _, h.pc, h.ea⟩

/-! ## Addressing -/

theorem zpageIndex_lt {x y : UInt32} (hx : x.toNat < 0x100) (hy : y.toNat < 0x100) :
    ((x + y) &&& ~~~0x100).toNat < 0x100 := by
  have hsum : (x + y).toNat = x.toNat + y.toNat := by
    rw [UInt32.toNat_add]
    omega
  rw [bic_0x100 (by omega)]
  exact Nat.mod_lt _ (by omega)

theorem absIndex_lt {x y : UInt32} (hx : x.toNat < 0x10000) (hy : y.toNat < 0x100) :
    ((x + y) &&& ~~~0x10000).toNat < 0x10000 := by
  have hsum : (x + y).toNat = x.toNat + y.toNat := by
    rw [UInt32.toNat_add]
    omega
  rw [bic_0x10000 (by omega)]
  exact Nat.mod_lt _ (by omega)

theorem addIndexReg_inRange {index : UInt32} (h : s.InRange) (hr0 : s.r0.toNat < 0x10000)
    (hindex : index.toNat < 0x100) : (addIndexReg index s).InRange :=
  ⟨h.a, h.f, h.x, h.y, h.sp, h.pc, absIndex_lt hr0 hindex⟩

theorem addIndexRegTest_inRange {index : UInt32} (h : s.InRange) (hr0 : s.r0.toNat < 0x10000)
    (hindex : index.toNat < 0x100) : (addIndexRegTest index s).InRange :=
  ⟨h.a, h.f, h.x, h.y, h.sp, h.pc, absIndex_lt hr0 hindex⟩

theorem getZPage_inRange (h : s.InRange) : (getZPage bus s).InRange :=
  ⟨h.a, h.f, h.x, h.y, h.sp, incUint16_lt h.pc, (byte_lt _).trans (by decide)⟩

theorem getAbs_inRange (h : s.InRange) : (getAbs bus s).InRange := by
  have hword := getFromPcW_inRange bus h
  exact ⟨hword.a, hword.f, hword.x, hword.y, hword.sp, hword.pc, getFromPcW_r0 bus s⟩

theorem getZPage_ea (s : State σ) : (getZPage bus s).ea.toNat < 0x100 := byte_lt _

/-- A pointer is read from page zero, and is a word. -/
theorem indZPage_inRange (h : s.InRange) (hea : s.ea.toNat < 0x100) : (indZPage bus s).InRange :=
  ⟨h.a, h.f, h.x, h.y, h.sp, h.pc, (zpageIndex_lt hea (by decide)).trans (by decide)⟩

theorem indZPage_r0 (s : State σ) : (indZPage bus s).r0.toNat < 0x10000 :=
  or_lt (n := 16) ((byte_lt _).trans (by decide)) (shiftLeft8_lt (byte_lt _))

theorem eaFromR0_inRange (h : s.InRange) (hr0 : s.r0.toNat < 0x10000) : (eaFromR0 s).InRange :=
  ⟨h.a, h.f, h.x, h.y, h.sp, h.pc, hr0⟩

theorem getMode_inRange (mode : Mode) (h : s.InRange) : (getMode bus mode s).InRange := by
  have hbyte := getFromPcB_inRange bus h
  have hword := getFromPcW_inRange bus h
  have hr0 : (getFromPcB bus s).r0.toNat < 0x100 := byte_lt _
  have hzpage := getZPage_inRange bus h
  have hpointer := indZPage_inRange bus hzpage (getZPage_ea bus s)
  cases mode with
  | imm => exact ⟨h.a, h.f, h.x, h.y, h.sp, incUint16_lt h.pc, h.pc⟩
  | zpage => exact hzpage
  | zpageX =>
    exact ⟨h.a, h.f, h.x, h.y, h.sp, incUint16_lt h.pc,
      (zpageIndex_lt hr0 h.x).trans (by decide)⟩
  | zpageY =>
    exact ⟨h.a, h.f, h.x, h.y, h.sp, incUint16_lt h.pc,
      (zpageIndex_lt hr0 h.y).trans (by decide)⟩
  | abs => exact getAbs_inRange bus h
  | absX => exact addIndexRegTest_inRange hword (getFromPcW_r0 bus s) hword.x
  | absXStx => exact addIndexReg_inRange hword (getFromPcW_r0 bus s) hword.x
  | absY => exact addIndexRegTest_inRange hword (getFromPcW_r0 bus s) hword.y
  | absYSta => exact addIndexReg_inRange hword (getFromPcW_r0 bus s) hword.y
  | indX =>
    have hea := zpageIndex_lt (getZPage_ea bus s) hzpage.x
    refine eaFromR0_inRange (indZPage_inRange bus ?_ hea) (indZPage_r0 bus _)
    exact ⟨h.a, h.f, h.x, h.y, h.sp, incUint16_lt h.pc, hea.trans (by decide)⟩
  | indY => exact addIndexRegTest_inRange hpointer (indZPage_r0 bus _) hpointer.y
  | indYSta => exact addIndexReg_inRange hpointer (indZPage_r0 bus _) hpointer.y
  | indZpage => exact eaFromR0_inRange hpointer (indZPage_r0 bus _)

end Macros

/-! ## One register -/

section Registers
variable {s : State σ} {w : UInt32}

theorem setA_inRange (h : s.InRange) (hw : w.toNat < 0x100) :
    ({ s with a := w } : State σ).InRange :=
  ⟨hw, h.f, h.x, h.y, h.sp, h.pc, h.ea⟩

theorem setX_inRange (h : s.InRange) (hw : w.toNat < 0x100) :
    ({ s with x := w } : State σ).InRange :=
  ⟨h.a, h.f, hw, h.y, h.sp, h.pc, h.ea⟩

theorem setY_inRange (h : s.InRange) (hw : w.toNat < 0x100) :
    ({ s with y := w } : State σ).InRange :=
  ⟨h.a, h.f, h.x, hw, h.sp, h.pc, h.ea⟩

theorem setSp_inRange (h : s.InRange) (hw : w.toNat < 0x100) :
    ({ s with sp := w } : State σ).InRange :=
  ⟨h.a, h.f, h.x, h.y, hw, h.pc, h.ea⟩

theorem setPc_inRange (h : s.InRange) (hw : w.toNat < 0x10000) :
    ({ s with pc := w } : State σ).InRange :=
  ⟨h.a, h.f, h.x, h.y, h.sp, hw, h.ea⟩

theorem setEa_inRange (h : s.InRange) (hw : w.toNat < 0x10000) :
    ({ s with ea := w } : State σ).InRange :=
  ⟨h.a, h.f, h.x, h.y, h.sp, h.pc, hw⟩

end Registers

/-! ## Operations on one register -/

/-- An operation that keeps the registers in range, and its own. -/
def OnReg.Ranged (f : OnReg σ) : Prop :=
  ∀ x (s : State σ), x.toNat < 0x100 → s.InRange → (f x s).1.toNat < 0x100 ∧ (f x s).2.InRange

section OnReg
variable {s : State σ} {f : OnReg σ}

theorem doAsl_ranged : (doAsl : OnReg σ).Ranged := fun _ s _ h =>
  ⟨shiftRight24_lt _, takeFlags_inRange _ (scratch_inRange h s.r0 _ s.opcycles)⟩

theorem doDec_ranged : (doDec : OnReg σ).Ranged := fun _ s _ h =>
  ⟨shiftRight24_lt _, takeFlags_inRange _ (scratch_inRange h s.r0 _ s.opcycles)⟩

theorem doInc_ranged : (doInc : OnReg σ).Ranged := fun _ s _ h =>
  ⟨shiftRight24_lt _, takeFlags_inRange _ (scratch_inRange h s.r0 _ s.opcycles)⟩

theorem doLsr_ranged (arch : Arch) : (doLsr arch : OnReg σ).Ranged := by
  intro x s hx h
  have hvalue : (x >>> 1).toNat < 0x100 := shiftRight_lt 1 hx
  have hbit : ((x &&& 1) <<< 1).toNat < 0x100 := by
    have hand : (x &&& 1).toNat < 2 := and_lt_right (by decide)
    rw [shiftLeft_toNat _ 1 (n := 1) rfl]
    omega
  cases arch with
  | aarch64 =>
    exact ⟨hvalue, takeFlags_inRange _ (cmpZero_inRange _ (orrF_inRange (bicF_inRange _ h) hbit))⟩
  | arm32 => exact ⟨hvalue, takeFlags_inRange _ (scratch_inRange h s.r0 _ s.opcycles)⟩

theorem rolCarry_lt (x : UInt64) : ((x &&& 0x8000).toUInt32 >>> 14).toNat < 0x100 := by
  have hand : (x &&& 0x8000).toNat ≤ 0x8000 := by
    rw [UInt64.toNat_and]
    exact Nat.and_le_right
  rw [shiftRight_toNat _ 14 (n := 14) rfl, UInt64.toNat_toUInt32]
  omega

theorem shiftRight56_lt (x : UInt64) : (x >>> 56).toUInt32.toNat < 0x100 := by
  have hx := x.toNat_lt
  have hshift : (x >>> 56).toNat = x.toNat / 2 ^ 56 := by
    rw [UInt64.toNat_shiftRight, Nat.shiftRight_eq_div_pow]
    rfl
  rw [UInt64.toNat_toUInt32, hshift]
  omega

theorem flagRol_inRange (arch : Arch) (x : UInt64) (h : s.InRange) :
    (flagRol arch x s).1.toNat < 0x100 ∧ (flagRol arch x s).2.InRange := by
  cases arch with
  | aarch64 =>
    have hcarry := orrF_inRange (bicF_inRange flagArm.c h) (rolCarry_lt x)
    exact ⟨shiftRight56_lt _, takeFlags_inRange _ (scratch_inRange hcarry _ _ s.opcycles)⟩
  | arm32 =>
    exact ⟨shiftRight24_lt _, takeFlags_inRange _ (scratch_inRange h s.r0 _ s.opcycles)⟩

theorem undo_lt {w : UInt32} (hw : w.toNat < 0x100) : (w <<< 6 >>> 6).toNat < 0x100 := by
  rw [shiftRight_toNat _ 6 (n := 6) rfl, shiftLeft_toNat _ 6 (n := 6) rfl]
  omega

theorem doRol_ranged (arch : Arch) : (doRol arch : OnReg σ).Ranged := by
  intro x s _ h
  exact flagRol_inRange arch _ ⟨h.a, undo_lt h.f, h.x, h.y, h.sp, h.pc, h.ea⟩

theorem rorCarry_lt (w : UInt32) : ((w &&& 0x80000000) >>> 30).toNat < 0x100 := by
  have hw := (w &&& 0x80000000).toNat_lt
  rw [shiftRight_toNat _ 30 (n := 30) rfl]
  omega

theorem doRor_ranged (arch : Arch) : (doRor arch : OnReg σ).Ranged := by
  intro x s hx h
  have hvalue : (ror (x ||| (s.f &&& flagArm.c.toUInt32) <<< 7) 1 &&& ~~~0x80000000).toNat <
      0x100 := by
    rw [rorCarry_eq, ← narrow hx, rorValue_eq]
    exact byte_lt _
  have hclear := bicF_inRange (flagArm.n ||| flagArm.z ||| flagArm.c) h
  exact ⟨hvalue, negByte_inRange _ (zeroByte_inRange arch _ (orrF_inRange hclear (rorCarry_lt _)))⟩

end OnReg

/-! ## Arithmetic -/

section Arithmetic
variable (arch : Arch) (bus : WideBus σ) {s : State σ}

/-- What the high nybbles of a decimal addition come to. -/
def decimalHigh (s : State σ) : ℕ :=
  let u := decOperands bus s
  addHigh u.a.toNat u.r0.toNat (flagArm.status u.f.toUInt8).c.toNat

theorem mergeNybbles_inRange {lo : UInt32} (h : s.InRange)
    (ha : (mergeNybbles arch lo s).a.toNat < 0x100) : (mergeNybbles arch lo s).InRange := by
  have hset := setA_inRange (scratch_inRange h (s.r0 <<< 4) s.apsr s.opcycles) ha
  exact zeroByte_inRange arch _ (negByte_inRange _ hset)

theorem decOperands_inRange (h : s.InRange) : (decOperands bus s).InRange :=
  getFromEaB_inRange bus (scratch_inRange h s.r0 s.apsr _)

theorem flagC_lt : flagArm.c.toUInt32.toNat < 0x100 := byte_lt _

/-- **A decimal addition** keeps the registers in range exactly when it has no carry out. -/
theorem opAdcDec_inRange (h : s.InRange) :
    (opAdcDec arch bus s).InRange ↔ decimalHigh bus s ≤ 9 := by
  have hc := carryIn_eq (decOperands bus s)
  have hword := opAdcDec_a arch bus s hc h.a
  have hlow : addLow s.a.toNat (decOperands bus s).r0.toNat
      (flagArm.status (decOperands bus s).f.toUInt8).c.toNat % 0x10 < 0x10 :=
        Nat.mod_lt _ (by omega)
  have hhigh : decimalHigh bus s = addHigh s.a.toNat (decOperands bus s).r0.toNat
      (flagArm.status (decOperands bus s).f.toUInt8).c.toNat := rfl
  rw [addWord, adjusted, ← hhigh] at hword
  constructor
  · intro hrange
    have ha := hrange.a
    by_contra hcarry
    rw [hword, if_neg hcarry] at ha
    omega
  · intro hfits
    have ha : (opAdcDec arch bus s).a.toNat < 0x100 := by
      rw [hword, if_pos hfits]
      omega
    rw [opAdcDec_run arch bus s hc] at ha ⊢
    have hu := bicF_inRange nvzcFlags (decOperands_inRange bus h)
    refine mergeNybbles_inRange arch ?_ ha
    split
    · exact scratch_inRange (setA_inRange hu (shiftRight_lt 4 h.a)) _ _ _
    · exact orrF_inRange (scratch_inRange (setA_inRange hu (shiftRight_lt 4 h.a)) _ _ _) flagC_lt

theorem opSbcDec_inRange (h : s.InRange) : (opSbcDec arch bus s).InRange := by
  have hb := borrowIn_eq (decOperands bus s)
  have ha : (opSbcDec arch bus s).a.toNat < 0x100 := by
    rw [opSbcDec_a arch bus s hb h.a, subWord]
    have hlo := readjusted_lt (subLow s.a.toNat (decOperands bus s).r0.toNat
      (!(flagArm.status (decOperands bus s).f.toUInt8).c).toNat)
    have hhi := readjusted_lt (subHigh s.a.toNat (decOperands bus s).r0.toNat
      (!(flagArm.status (decOperands bus s).f.toUInt8).c).toNat)
    omega
  rw [opSbcDec_run arch bus s hb] at ha ⊢
  have hu := orrF_inRange (bicF_inRange nvzcFlags (decOperands_inRange bus h)) flagC_lt
  refine mergeNybbles_inRange arch ?_ ha
  split
  · exact scratch_inRange (setA_inRange hu (shiftRight_lt 4 h.a)) _ _ _
  · exact bicF_inRange _ (scratch_inRange (setA_inRange hu (shiftRight_lt 4 h.a)) _ _ _)

theorem carryOut_lt (w : UInt32) : ((w &&& 0x100) >>> 7).toNat < 0x100 := by
  have hbit : (w &&& 0x100).toNat < 0x101 := and_lt_right (by decide)
  rw [shiftRight_toNat _ 7 (n := 7) rfl]
  omega

theorem overflow_lt (signA signO signRes : UInt32) : (overflow signA signO signRes).toNat < 0x100 :=
  and_lt_right (and_lt_right (by decide))

/-- The binary branch of `DoADC_b`. -/
theorem sum_lt {a c v : UInt32} (ha : a.toNat < 0x100) (hc : c.toNat ≤ 1) (hv : v.toNat < 0x100) :
    ((a + c + v) &&& ~~~0x100).toNat < 0x100 := by
  have hsum : (a + c + v).toNat = a.toNat + c.toNat + v.toNat := by
    rw [UInt32.toNat_add, UInt32.toNat_add]
    omega
  rw [bic_0x100 (by omega)]
  exact Nat.mod_lt _ (by omega)

theorem carryIn_le (s : State σ) : (carryIn s).toNat ≤ 1 := by
  rw [carryIn_eq, carry_toNat]
  exact Bool.toNat_le _

theorem doAdcB_binary (h : s.InRange) (hd : s.has flagArm.d = false) :
    (doAdcB arch bus s).InRange := by
  have hload := getFromEaB_inRange bus h
  have hsum := sum_lt hload.a (carryIn_le (getFromEaB bus s)) (getFromEaB_r0 bus s)
  have hset := setA_inRange (bicF_inRange nvzcFlags hload) hsum
  have hcarry := orrF_inRange hset (carryOut_lt ((getFromEaB bus s).a + carryIn (getFromEaB bus s) +
    (getFromEaB bus s).r0))
  have hrun : doAdcB arch bus s = _ := if_neg (by rw [hd]; exact Bool.false_ne_true)
  rw [hrun]
  exact zeroByte_inRange arch _ (orrF_inRange (negByte_inRange _ hcarry) (overflow_lt _ _ _))

theorem doSbcB_inRange (h : s.InRange) : (doSbcB arch bus s).InRange := by
  rw [doSbcB]
  split
  · exact opSbcDec_inRange arch bus h
  have hload := getFromEaB_inRange bus h
  have hset := setA_inRange (w := ((getFromEaB bus s).a - (getFromEaB bus s).r0 -
    borrowIn (getFromEaB bus s)) &&& 0xFF) (bicF_inRange nvzcFlags hload) (and_lt_right (by decide))
  have hborrow := orrF_inRange (w := ~~~((((getFromEaB bus s).a - (getFromEaB bus s).r0 -
    borrowIn (getFromEaB bus s)) &&& 0x80000000) >>> 30) &&& 2) hset (and_lt_right (by decide))
  refine zeroByte_inRange arch _ (orrF_inRange (negByte_inRange _ hborrow) ?_)
  exact and_lt_left (xor_lt (n := 8) (shiftRight_lt 7 hload.a) (shiftRight_lt 7 hset.a))

end Arithmetic

/-! ## Loads, stores and logic -/

section Data
variable (arch : Arch) (bus : WideBus σ) {s : State σ}

theorem take_lt {f : UInt32} (w : UInt32) (mask : UInt8) (hf : f.toNat < 0x100) :
    (f &&& ~~~mask.toUInt32 ||| w &&& mask.toUInt32).toNat < 0x100 :=
  or_lt (n := 8) (and_lt_left hf) (and_lt_right (byte_lt mask))

theorem doAnd_inRange (h : s.InRange) : (doAnd arch bus s).InRange :=
  ⟨shiftRight24_lt _, take_lt _ _ h.f, h.x, h.y, h.sp, h.pc, h.ea⟩

theorem doEor_inRange (h : s.InRange) : (doEor bus s).InRange :=
  ⟨shiftRight24_lt _, take_lt _ _ h.f, h.x, h.y, h.sp, h.pc, h.ea⟩

theorem doOra_inRange (h : s.InRange) : (doOra bus s).InRange :=
  ⟨shiftRight24_lt _, take_lt _ _ h.f, h.x, h.y, h.sp, h.pc, h.ea⟩

theorem compare_inRange (reg : UInt32) (h : s.InRange) : (compare bus reg s).InRange :=
  takeFlags_inRange _ (scratch_inRange (getFromEaB_inRange bus h) _ _ s.opcycles)

theorem doLda_inRange (h : s.InRange) : (doLda bus s).InRange :=
  orFlags_inRange _ (setA_inRange (getFromEaB_inRange bus h) (getFromEaB_r0 bus s))

theorem doLdx_inRange (h : s.InRange) : (doLdx bus s).InRange :=
  orFlags_inRange _ (setX_inRange (getFromEaB_inRange bus h) (getFromEaB_r0 bus s))

theorem doLdy_inRange (h : s.InRange) : (doLdy bus s).InRange :=
  orFlags_inRange _ (setY_inRange (getFromEaB_inRange bus h) (getFromEaB_r0 bus s))

theorem doStore_inRange (value : UInt32) (h : s.InRange) : (doStore bus value s).InRange :=
  putToEaB_inRange bus (scratch_inRange h value s.apsr s.opcycles)

theorem doBit_inRange (h : s.InRange) : (doBit arch bus s).InRange := by
  have hclear := bicF_inRange flagArm.v (bicF_inRange (flagArm.n ||| flagArm.z)
    (getFromEaB_inRange bus h))
  refine negByte_inRange _ (orrF_inRange (zeroByte_inRange arch _ hclear) ?_)
  exact shiftRight_lt 6 (and_lt_right (by decide))

theorem opBitImm_inRange (h : s.InRange) : (opBitImm arch bus s).InRange :=
  zeroByte_inRange arch _ (getFromEaB_inRange bus (getMode_inRange bus .imm h))

theorem doTrb_inRange (h : s.InRange) : (doTrb arch bus s).InRange := by
  have hflag := takeFlags_inRange flagArm.z (scratch_inRange (getFromEaB_inRange bus h)
    (getFromEaB bus s).r0 (logic arch ((getFromEaB bus s).r0 &&& (getFromEaB bus s).a)
      (getFromEaB bus s).apsr) s.opcycles)
  exact putToEaB_inRange bus (scratch_inRange hflag _ _ s.opcycles)

theorem doTsb_inRange (h : s.InRange) : (doTsb arch bus s).InRange := by
  have hflag := takeFlags_inRange flagArm.z (scratch_inRange (getFromEaB_inRange bus h)
    (getFromEaB bus s).r0 (logic arch ((getFromEaB bus s).r0 &&& (getFromEaB bus s).a)
      (getFromEaB bus s).apsr) s.opcycles)
  exact putToEaB_inRange bus (scratch_inRange hflag _ _ s.opcycles)

section OnReg
variable {f : OnReg σ} (hf : f.Ranged)
include hf

theorem modify_inRange (h : s.InRange) : (modify bus f s).InRange := by
  obtain ⟨-, hrange⟩ := hf _ _ (getFromEaB_r0 bus s) (getFromEaB_inRange bus h)
  exact putToEaB_inRange bus ⟨hrange.a, hrange.f, hrange.x, hrange.y, hrange.sp, hrange.pc,
    hrange.ea⟩

theorem modifyAcc_inRange (h : s.InRange) : (modifyAcc f s).InRange := by
  obtain ⟨hvalue, hrange⟩ := hf s.a s h.a h
  exact setA_inRange hrange hvalue

theorem modifyX_inRange (h : s.InRange) : (modifyX f s).InRange := by
  obtain ⟨hvalue, hrange⟩ := hf s.x s h.x h
  exact setX_inRange hrange hvalue

theorem modifyY_inRange (h : s.InRange) : (modifyY f s).InRange := by
  obtain ⟨hvalue, hrange⟩ := hf s.y s h.y h
  exact setY_inRange hrange hvalue

end OnReg

end Data

/-! ## Branches -/

section Branches
variable (bus : WideBus σ) {s : State σ}

/-- The offset of a branch in a word of the host. -/
theorem cbw_toNat {x : UInt32} (h : x.toNat < 0x100) :
    (cbw x).toNat = if 0x80 ≤ x.toNat then 2 ^ 32 - 0x100 + x.toNat else x.toNat := by
  have hbyte : ∀ v : UInt8, (cbw v.toUInt32).toNat =
      if 0x80 ≤ v.toNat then 2 ^ 32 - 0x100 + v.toNat else v.toNat :=
    forall_uint8 (by decide +kernel)
  rw [← narrow h]
  exact hbyte x.toUInt8

/-- The target of a branch lies below address 0. -/
def Below (pc offset : UInt32) : Prop := 0x80 ≤ offset.toNat ∧ pc.toNat + offset.toNat < 0x100

instance (pc offset : UInt32) : Decidable (Below pc offset) := inferInstanceAs (Decidable (_ ∧ _))

/-- The mask of a target leaves the top byte. -/
theorem bic_top {w : UInt32} (h : 2 ^ 31 ≤ w.toNat) : 2 ^ 31 ≤ (w &&& ~~~0xFF0000).toNat := by
  have hw := w.toNat_lt
  have hbit : (w &&& ~~~0xFF0000).toNat.testBit 31 = true := by
    have hmask : (~~~0xFF0000 : UInt32).toNat.testBit 31 = true := by decide
    have htop : w.toNat.testBit 31 = true := by
      rw [Nat.testBit_eq_decide_div_mod_eq]
      exact decide_eq_true (by omega)
    rw [UInt32.toNat_and, Nat.testBit_and, htop, hmask]
    rfl
  exact Nat.ge_two_pow_of_testBit hbit

theorem target_lt {pc offset : UInt32} (hpc : pc.toNat < 0x10000) (hoffset : offset.toNat < 0x100) :
    ((pc + cbw offset) &&& ~~~0xFF0000).toNat < 0x10000 ↔ ¬ Below pc offset := by
  have hcbw := cbw_toNat hoffset
  have hsum : (pc + cbw offset).toNat = (pc.toNat + (cbw offset).toNat) % 2 ^ 32 :=
    UInt32.toNat_add _ _
  rw [Below]
  by_cases hsign : 0x80 ≤ offset.toNat
  · rw [if_pos hsign] at hcbw
    by_cases hbelow : pc.toNat + offset.toNat < 0x100
    · have htop := bic_top (w := pc + cbw offset) (by omega)
      omega
    · have hmask := bic_0xFF0000 (w := pc + cbw offset) (by omega)
      omega
  · rw [if_neg hsign] at hcbw
    have hmask := bic_0xFF0000 (w := pc + cbw offset) (by omega)
    omega

theorem branchXCycles_pc (s : State σ) :
    (branchXCycles s).pc = (s.pc + cbw s.r0) &&& ~~~0xFF0000 := rfl

/-- **A taken branch** keeps PC in range exactly when its target is not below 0. -/
theorem branchXCycles_inRange (h : s.InRange) (hr0 : s.r0.toNat < 0x100) :
    (branchXCycles s).InRange ↔ ¬ Below s.pc s.r0 := by
  rw [← target_lt h.pc hr0, ← branchXCycles_pc]
  constructor
  · exact fun hrange => hrange.pc
  · intro hpc
    exact scratch_inRange (setPc_inRange h hpc) _ _ _

end Branches

/-! ## Control -/

section Control
variable (bus : WideBus σ) {s : State σ}

theorem interruptVector_inRange (h : s.InRange) : (interruptVector bus s).InRange :=
  setPc_inRange (getFromEaW_inRange bus (setEa_inRange h (by decide))) (getFromEaW_r0 bus _)

theorem status_inRange (h : s.InRange) : (push bus (encodeFlags s).r0 (encodeFlags s)).InRange :=
  push_inRange bus (encodeFlags s).r0 (encodeFlags_inRange h)

theorem opBrk_inRange (h : s.InRange) : (opBrk bus s).InRange := by
  have hpc := setPc_inRange h (incUint16_lt h.pc)
  have hpush := pushR0_inRange bus (scratch_inRange hpc (ror (incUint16 s.pc) 8) s.apsr s.opcycles)
  have hflags := orrF_inRange (orrF_inRange hpush (byte_lt flagArm.b)) (byte_lt flagArm.x)
  exact interruptVector_inRange bus (orrF_inRange (status_inRange bus hflags) (byte_lt flagArm.i))

theorem opJmpAbs_inRange (h : s.InRange) : (opJmpAbs bus s).InRange := by
  have habs := getAbs_inRange bus h
  exact setPc_inRange habs habs.ea

theorem jmpSpecial_inRange (h : s.InRange) : (jmpSpecial bus s).InRange := by
  have hback : ((s.r0 - 0xFF) <<< 16 >>> 16).toNat < 0x10000 := shiftRight16_lt _
  have hpc := getFromMemB_inRange bus (setPc_inRange h hback) hback
  have hnext := absIndex_lt (y := 0xFF) hback (by decide)
  have hlow := getFromMemB_inRange bus (setPc_inRange hpc hnext) hnext
  refine setPc_inRange (scratch_inRange hlow _ _ s.opcycles) (or_lt (n := 16) (shiftLeft8_lt ?_) ?_)
  · exact byte_lt _
  · exact (byte_lt _).trans (by decide)

/-- The pointer of an indirect jump does not end in FF here, so that EffectiveAddr, which is one
above it after the word, comes back to it. -/
theorem pointer_lt {w : UInt32} (hw : w.toNat < 0x10000) (hlast : ¬ (w <<< 24) ^^^ 0xFF000000 = 0) :
    (incUint16 w - 1).toNat < 0x10000 := by
  have hne : w.toNat ≠ 0xFFFF := by
    intro hff
    have heq : w = 0xFFFF := UInt32.toNat_inj.mp hff
    subst heq
    exact hlast (by decide +kernel)
  have hinc := incUint16_lt hw
  have hsum : (incUint16 w).toNat = (w.toNat + 1) % 0x10000 := by
    rw [incUint16, addUint16_toNat hw (by decide)]
    rfl
  have hle : (1 : UInt32) ≤ incUint16 w := by
    change (1 : UInt32).toNat ≤ (incUint16 w).toNat
    change 1 ≤ _
    omega
  rw [UInt32.toNat_sub_of_le _ _ hle]
  omega

theorem getFromMemW_ea (x : UInt32) (s : State σ) : (getFromMemW bus x s).ea = incUint16 x := rfl

theorem getFromMemW_r0 (x : UInt32) (s : State σ) : (getFromMemW bus x s).r0.toNat < 0x10000 :=
  hiByteToWord_r0 bus _

theorem opJmpInd_inRange (h : s.InRange) : (opJmpInd bus s).InRange := by
  have hword := getFromPcW_inRange bus h
  have hr0 := getFromPcW_r0 bus s
  rw [opJmpInd]
  split
  · exact jmpSpecial_inRange bus hword
  · next hlast =>
    have hmem := getFromMemW_inRange bus hword hr0
    have hea := pointer_lt hr0 hlast
    rw [← getFromMemW_ea bus _ (getFromPcW bus s)] at hea
    have hpc := getFromMemW_r0 bus (getFromPcW bus s).r0 (getFromPcW bus s)
    exact ⟨hmem.a, hmem.f, hmem.x, hmem.y, hmem.sp, hpc, hea⟩

theorem opJmpAbsIndX_inRange (h : s.InRange) : (opJmpAbsIndX bus s).InRange := by
  have hword := getFromPcW_inRange bus h
  exact ⟨hword.a, hword.f, hword.x, hword.y, hword.sp, hiByteToWord_r0 bus _,
    incUint16_lt (shiftRight16_lt _)⟩

theorem opJsr_inRange (h : s.InRange) : (opJsr bus s).InRange := by
  have habs := getAbs_inRange bus h
  have hpush := pushR0_inRange bus (scratch_inRange habs
    (ror (((getAbs bus s).pc - 1) <<< 16) 24) (getAbs bus s).apsr (getAbs bus s).opcycles)
  exact setPc_inRange hpush hpush.ea

theorem popFlags_inRange (h : s.InRange) : (popFlags bus s).InRange := by
  have hpop := pop_inRange bus h
  have hbits : (popFlags bus s).f.toNat < 0x100 :=
    or_lt (n := 8) (or_lt (n := 8) (byte_lt _) (byte_lt _)) (byte_lt _)
  exact ⟨hpop.a, hbits, hpop.x, hpop.y, hpop.sp, hpop.pc, hpop.ea⟩

theorem popPc_inRange (h : s.InRange) : (popPc bus s).InRange := by
  have hpops := pop_inRange bus (pop_inRange bus h)
  exact ⟨hpops.a, hpops.f, hpops.x, hpops.y, hpops.sp,
    or_lt (n := 16) (shiftLeft8_lt (pop_lt bus _)) ((pop_lt bus _).trans (by decide)), hpops.ea⟩

theorem opPhp_inRange (h : s.InRange) : (opPhp bus s).InRange := status_inRange bus h

theorem opPla_inRange (h : s.InRange) : (opPla bus s).InRange :=
  orFlags_inRange _ (setA_inRange (pop_inRange bus h) (pop_lt bus s))

theorem opPlx_inRange (h : s.InRange) : (opPlx bus s).InRange :=
  orFlags_inRange _ (setX_inRange (pop_inRange bus h) (pop_lt bus s))

theorem opPly_inRange (h : s.InRange) : (opPly bus s).InRange :=
  orFlags_inRange _ (setY_inRange (pop_inRange bus h) (pop_lt bus s))

theorem opRti_inRange (h : s.InRange) : (opRti bus s).InRange :=
  popPc_inRange bus (popFlags_inRange bus h)

theorem opRts_inRange (h : s.InRange) : (opRts bus s).InRange := by
  have hpop := popPc_inRange bus h
  exact setPc_inRange hpop (incUint16_lt hpop.pc)

/-- A branch is taken to a target below address 0. -/
def TakenBelow (taken : State σ → Bool) (s : State σ) : Prop :=
  taken (getFromPcB bus s) = true ∧ Below (getFromPcB bus s).pc (getFromPcB bus s).r0

theorem branch_inRange (taken : State σ → Bool) (h : s.InRange) :
    (branch bus taken s).InRange ↔ ¬ TakenBelow bus taken s := by
  have hbyte := getFromPcB_inRange bus h
  have hr0 : (getFromPcB bus s).r0.toNat < 0x100 := byte_lt _
  rw [branch, TakenBelow]
  split
  · next htaken => rw [branchXCycles_inRange hbyte hr0, and_iff_right htaken]
  · next hnot => exact iff_of_true hbyte fun hboth => hnot hboth.1

end Control

/-! ## Instructions -/

section Run
variable (arch : Arch) (bus : WideBus σ) {s : State σ}

/-- A decimal addition that carries out, or a branch that is taken to below address 0. -/
def Overruns (op : Op) (s : State σ) : Prop :=
  match op with
  | .adc mode =>
    (getMode bus mode s).has flagArm.d = true ∧ 9 < decimalHigh bus (getMode bus mode s)
  | .bcc => TakenBelow bus (fun s => !s.has flagArm.c) s
  | .bcs => TakenBelow bus (fun s => s.has flagArm.c) s
  | .beq => TakenBelow bus (fun s => s.has flagArm.z) s
  | .bmi => TakenBelow bus (fun s => s.has flagArm.n) s
  | .bne => TakenBelow bus (fun s => !s.has flagArm.z) s
  | .bpl => TakenBelow bus (fun s => !s.has flagArm.n) s
  | .bra => TakenBelow bus (fun _ => true) s
  | .bvc => TakenBelow bus (fun s => !s.has flagArm.v) s
  | .bvs => TakenBelow bus (fun s => s.has flagArm.v) s
  | _ => False

theorem doAdcB_inRange (h : s.InRange) : (doAdcB arch bus s).InRange ↔
    ¬ (s.has flagArm.d = true ∧ 9 < decimalHigh bus s) := by
  cases hd : s.has flagArm.d with
  | false => exact iff_of_true (doAdcB_binary arch bus h hd) nofun
  | true =>
    have hrun : doAdcB arch bus s = opAdcDec arch bus s := if_pos hd
    rw [hrun, opAdcDec_inRange arch bus h, and_iff_right rfl, not_lt]

/-- **An instruction** keeps the registers in range exactly when it is not one of these. -/
theorem run_inRange (op : Op) (h : s.InRange) :
    (run arch bus op s).InRange ↔ ¬ Overruns bus op s := by
  have hmode := fun mode => getMode_inRange bus mode h
  cases op with
  | adc mode => exact doAdcB_inRange arch bus (hmode mode)
  | bcc => exact branch_inRange bus (fun s => !s.has flagArm.c) h
  | bcs => exact branch_inRange bus (fun s => s.has flagArm.c) h
  | beq => exact branch_inRange bus (fun s => s.has flagArm.z) h
  | bmi => exact branch_inRange bus (fun s => s.has flagArm.n) h
  | bne => exact branch_inRange bus (fun s => !s.has flagArm.z) h
  | bpl => exact branch_inRange bus (fun s => !s.has flagArm.n) h
  | bra => exact branch_inRange bus (fun _ => true) h
  | bvc => exact branch_inRange bus (fun s => !s.has flagArm.v) h
  | bvs => exact branch_inRange bus (fun s => s.has flagArm.v) h
  | and mode => exact iff_of_true (doAnd_inRange arch bus (hmode mode)) not_false
  | asl mode => exact iff_of_true (modify_inRange bus doAsl_ranged (hmode mode)) not_false
  | aslAcc => exact iff_of_true (modifyAcc_inRange doAsl_ranged h) not_false
  | bit mode => exact iff_of_true (doBit_inRange arch bus (hmode mode)) not_false
  | bitImm => exact iff_of_true (opBitImm_inRange arch bus h) not_false
  | brk => exact iff_of_true (opBrk_inRange bus h) not_false
  | clc | cld | cli | clv => exact iff_of_true (bicF_inRange _ h) not_false
  | cmp mode | cpx mode | cpy mode =>
    exact iff_of_true (compare_inRange bus _ (hmode mode)) not_false
  | dea => exact iff_of_true (modifyAcc_inRange doDec_ranged h) not_false
  | dec mode => exact iff_of_true (modify_inRange bus doDec_ranged (hmode mode)) not_false
  | dex => exact iff_of_true (modifyX_inRange doDec_ranged h) not_false
  | dey => exact iff_of_true (modifyY_inRange doDec_ranged h) not_false
  | eor mode => exact iff_of_true (doEor_inRange bus (hmode mode)) not_false
  | ina => exact iff_of_true (modifyAcc_inRange doInc_ranged h) not_false
  | inc mode => exact iff_of_true (modify_inRange bus doInc_ranged (hmode mode)) not_false
  | inx => exact iff_of_true (modifyX_inRange doInc_ranged h) not_false
  | iny => exact iff_of_true (modifyY_inRange doInc_ranged h) not_false
  | jmpAbs => exact iff_of_true (opJmpAbs_inRange bus h) not_false
  | jmpInd => exact iff_of_true (opJmpInd_inRange bus h) not_false
  | jmpAbsIndX => exact iff_of_true (opJmpAbsIndX_inRange bus h) not_false
  | jsr => exact iff_of_true (opJsr_inRange bus h) not_false
  | lda mode => exact iff_of_true (doLda_inRange bus (hmode mode)) not_false
  | ldx mode => exact iff_of_true (doLdx_inRange bus (hmode mode)) not_false
  | ldy mode => exact iff_of_true (doLdy_inRange bus (hmode mode)) not_false
  | lsr mode => exact iff_of_true (modify_inRange bus (doLsr_ranged arch) (hmode mode)) not_false
  | lsrAcc => exact iff_of_true (modifyAcc_inRange (doLsr_ranged arch) h) not_false
  | ora mode => exact iff_of_true (doOra_inRange bus (hmode mode)) not_false
  | pha | phx | phy => exact iff_of_true (push_inRange bus _ h) not_false
  | php => exact iff_of_true (opPhp_inRange bus h) not_false
  | pla => exact iff_of_true (opPla_inRange bus h) not_false
  | plp => exact iff_of_true (popFlags_inRange bus h) not_false
  | plx => exact iff_of_true (opPlx_inRange bus h) not_false
  | ply => exact iff_of_true (opPly_inRange bus h) not_false
  | rol mode => exact iff_of_true (modify_inRange bus (doRol_ranged arch) (hmode mode)) not_false
  | rolAcc => exact iff_of_true (modifyAcc_inRange (doRol_ranged arch) h) not_false
  | ror mode => exact iff_of_true (modify_inRange bus (doRor_ranged arch) (hmode mode)) not_false
  | rorAcc => exact iff_of_true (modifyAcc_inRange (doRor_ranged arch) h) not_false
  | rti => exact iff_of_true (opRti_inRange bus h) not_false
  | rts => exact iff_of_true (opRts_inRange bus h) not_false
  | sbc mode => exact iff_of_true (doSbcB_inRange arch bus (hmode mode)) not_false
  | sec | sed | sei => exact iff_of_true (orrF_inRange h (byte_lt _)) not_false
  | sta mode | stx mode | sty mode | stz mode =>
    exact iff_of_true (doStore_inRange bus _ (hmode mode)) not_false
  | tax => exact iff_of_true (orFlags_inRange _ (setX_inRange h h.a)) not_false
  | tay => exact iff_of_true (orFlags_inRange _ (setY_inRange h h.a)) not_false
  | trb mode => exact iff_of_true (doTrb_inRange arch bus (hmode mode)) not_false
  | tsb mode => exact iff_of_true (doTsb_inRange arch bus (hmode mode)) not_false
  | tsx => exact iff_of_true (orFlags_inRange _ (setX_inRange h h.sp)) not_false
  | txa => exact iff_of_true (orFlags_inRange _ (setA_inRange h h.x)) not_false
  | txs => exact iff_of_true (setSp_inRange h h.x) not_false
  | tya => exact iff_of_true (orFlags_inRange _ (setA_inRange h h.y)) not_false
  | bbr _ | bbs _ | rmb _ | smb _ | nop | stp65c02 | unk65c02 | wai65c02 =>
    exact iff_of_true h not_false

theorem fetch_inRange (h : s.InRange) : (fetch bus s).InRange := by
  have hbyte := getFromPcB_inRange bus h
  exact ⟨hbyte.a, hbyte.f, hbyte.x, hbyte.y, hbyte.sp, hbyte.pc, hbyte.ea⟩

/-- The instruction at PC takes a register out of its range. -/
def Escapes (s : State σ) : Prop :=
  Overruns bus (handlerOf (fetch bus s).opcode) (fetch bus s)

theorem jumpNextInstruction_inRange (h : s.InRange) :
    (jumpNextInstruction arch bus s).InRange ↔ ¬ Escapes bus s :=
  run_inRange arch bus _ (fetch_inRange bus h)

end Run

/-! ## The loop -/

section Loop
variable (arch : Arch) (bus : WideBus σ) {s t : State σ} {entry : Entry σ} {c d : Core σ}
  {event : Event σ}

theorem restore_inRange (saved : Saved) (s : State σ) : (restore saved s).InRange :=
  ⟨byte_lt _, byte_lt _, byte_lt _, byte_lt _, byte_lt _, saved.pc.toNat_lt, saved.ea.toNat_lt⟩

def Entry.InRange : Entry σ → Prop
  | .next s => s.InRange
  | .irq s => s.InRange
  | .reset s => s.InRange
  | .reinit => True

theorem continue2_inRange (buttons : Buttons) (h : s.InRange) : (continue2 buttons s).InRange := by
  have hr0 := scratch_inRange h s.signal.toUInt32 s.apsr s.opcycles
  rw [continue2]
  split_ifs
  · exact hr0
  · rw [exIrq]
    split_ifs
    · exact hr0
    · exact hr0
  · exact trivial
  · exact hr0

theorem enter_inRange (buttons : Buttons) (saved : Saved) (s : State σ) :
    (enter buttons saved s).InRange := by
  have hrestore := restore_inRange saved s
  rw [enter]
  split
  · exact continue2_inRange buttons hrestore
  · exact ⟨hrestore.a, hrestore.f, hrestore.x, hrestore.y, hrestore.sp, hrestore.pc, hrestore.ea⟩

theorem cpuStatsReset_inRange (h : s.InRange) : (cpuStatsReset s).InRange :=
  ⟨h.a, h.f, h.x, h.y, h.sp, h.pc, h.ea⟩

theorem irqEntry_inRange (h : s.InRange) : (irqEntry bus s).InRange := by
  have hpush := pushR0_inRange bus (scratch_inRange h (ror s.pc 8) s.apsr s.opcycles)
  have hstatus := status_inRange bus (orrF_inRange hpush (byte_lt flagArm.x))
  have hvector :=
    interruptVector_inRange bus (orrF_inRange hstatus (byte_lt (flagArm.b ||| flagArm.i)))
  exact scratch_inRange (cpuStatsReset_inRange hvector) _ _ _

theorem exReset_inRange (h : s.InRange) : (exReset bus s).InRange := by
  have hea : (0xFFFC : UInt32).toNat < 0x10000 := by decide
  exact ⟨h.a, h.f, h.x, h.y, h.sp, hiByteToWord_r0 bus _, incUint16_lt hea⟩

theorem start_inRange (h : entry.InRange) (hstart : entry.start bus = some t) : t.InRange := by
  cases entry with
  | next s =>
    cases hstart
    exact cpuStatsReset_inRange h
  | irq s =>
    cases hstart
    exact irqEntry_inRange bus h
  | reset s =>
    cases hstart
    exact exReset_inRange bus h
  | reinit => cases hstart

theorem account_inRange (saved : Saved) (h : s.InRange) : (account bus saved s).state.InRange := by
  rw [account]
  split <;> exact ⟨h.a, h.f, h.x, h.y, h.sp, h.pc, h.ea⟩

/-- Between two instructions of a call the registers are in range. -/
def Core.InRange (c : Core σ) : Prop := c.running = true → c.state.InRange

theorem entry_inRange (h : c.InRange) (hpossible : event.Possible c = true)
    (hentry : event.entry c = some entry) : entry.InRange := by
  cases event with
  | call buttons n =>
    cases hentry
    exact enter_inRange buttons c.saved _
  | instruction buttons =>
    cases hentry
    exact continue2_inRange buttons (h hpossible)
  | interrupt _ | uninterrupt _ | registers _ | memory _ => cases hentry

/-- **Before every instruction** the registers are in range, if they are between instructions. -/
theorem next_inRange (h : c.InRange) (hpossible : event.Possible c = true)
    (hnext : event.next bus c = some t) : t.InRange := by
  obtain ⟨entry, hentry, hstart⟩ := Option.bind_eq_some_iff.mp hnext
  exact start_inRange bus (entry_inRange h hpossible hentry) hstart

/-- The instruction of the event, if it runs one, keeps the registers in range. -/
def Confined (c : Core σ) (event : Event σ) : Prop :=
  ∀ t, event.next bus c = some t → ¬ Escapes bus t

theorem run_entry_inRange (saved : Saved) (s : State σ) (h : entry.InRange)
    (hconfined : ∀ t, entry.start bus = some t → ¬ Escapes bus t) :
    (entry.run arch bus saved s).InRange := by
  rw [Entry.run]
  split
  · next t hstart =>
    have ht := start_inRange bus h hstart
    exact fun _ => account_inRange bus saved
      ((jumpNextInstruction_inRange arch bus ht).mpr (hconfined t hstart))
  · exact nofun

theorem step_inRange (h : c.InRange) (hconfined : Confined bus c event)
    (hstep : step arch bus c event = .ok d) : d.InRange := by
  unfold Arm.step at hstep
  split at hstep
  case isFalse => cases hstep
  case isTrue hpossible =>
    cases event with
    | call buttons n =>
      cases hstep
      exact run_entry_inRange arch bus _ _ (enter_inRange buttons c.saved _) hconfined
    | instruction buttons =>
      cases hstep
      exact run_entry_inRange arch bus _ _ (continue2_inRange buttons (h hpossible)) hconfined
    | interrupt _ | uninterrupt _ | memory _ =>
      cases hstep
      intro hrun
      have hs := h hrun
      exact ⟨hs.a, hs.f, hs.x, hs.y, hs.sp, hs.pc, hs.ea⟩
    | registers saved =>
      cases hstep
      exact h

/-- **Register ranges.** From a call of `cpu65_run`, the registers are in range before every
instruction of a run, as long as no decimal addition carries out and no branch is taken to below
address 0. -/
theorem register_ranges (hidle : c.running = false) {events : List (Event σ)}
    (hconfined : Along (step arch bus) (Confined bus) c events)
    (hrun : runM (step arch bus) c events = .ok d) (hpossible : event.Possible d = true)
    (hnext : event.next bus d = some t) : t.InRange := by
  have hstart : c.InRange := fun hrunning => absurd (hidle.symm.trans hrunning) Bool.noConfusion
  have hrange := runM_along_invariant Core.InRange
    (fun _ _ _ h hconfined hstep => step_inRange arch bus h hconfined hstep) hstart hconfined hrun
  exact next_inRange bus hrange hpossible hnext

end Loop

/-! ## Registers that leave their range -/

/-- The thread outside of `cpu65_run`, with registers and a program. -/
def idle (saved : Saved) (program : UInt16 → UInt8) : Core Ram where
  running := false
  saved := saved
  state :=
    { a := 0
      f := 0
      x := 0
      y := 0
      sp := 0
      pc := 0
      ea := 0
      r0 := 0
      apsr := ⟨false, false, false, false⟩
      opcode := 0
      opcycles := 0
      rw := 0
      d := 0
      cycleCount := 0
      cyclesToExecute := 0
      signal := 0
      emulReinitialize := 0
      mem := ⟨program, []⟩ }

/-- The instruction of an event, if it runs one, is one of `pushing`. -/
def checkPushing (c : Core Ram) (event : Event Ram) : Bool :=
  (event.next ram c).all fun t => isPushing (fetch ram t).opcode

theorem confined_pushing (c : Core Ram) (event : Event Ram) (h : checkPushing c event = true) :
    Confined ram c event := by
  intro t ht
  rw [checkPushing, ht, Option.all_some] at h
  rw [Escapes]
  obtain h | h | h := handlerOf_pushing h
  all_goals
    rw [h]
    exact not_false

/-- `LDX #5`, `PHX` and `PLA`, and what follows them. -/
theorem register_ranges_pushing : ∃ d t, runM (step .aarch64 ram)
      (idle ⟨0, 0, 0, 0, 0, 0, 0xFF⟩ pushing)
      [.call ⟨0, 0⟩ 100, .instruction ⟨0, 0⟩, .instruction ⟨0, 0⟩] = .ok d ∧
    (Event.instruction ⟨0, 0⟩).next ram d = some t ∧ t.InRange ∧ t.a = 5 ∧ t.x = 5 := by
  have hconfined : Along (step .aarch64 ram) (Confined ram) (idle ⟨0, 0, 0, 0, 0, 0, 0xFF⟩ pushing)
      [.call ⟨0, 0⟩ 100, .instruction ⟨0, 0⟩, .instruction ⟨0, 0⟩] :=
    along_of_check confined_pushing (by decide +kernel)
  obtain ⟨d, hd, t, hpossible, ht, ha, hx⟩ : ∃ d, runM (step .aarch64 ram)
      (idle ⟨0, 0, 0, 0, 0, 0, 0xFF⟩ pushing)
      [.call ⟨0, 0⟩ 100, .instruction ⟨0, 0⟩, .instruction ⟨0, 0⟩] = .ok d ∧
    ∃ t, (Event.instruction ⟨0, 0⟩).Possible d = true ∧
      (Event.instruction ⟨0, 0⟩).next ram d = some t ∧ t.a = 5 ∧ t.x = 5 :=
    ⟨_, rfl, _, rfl, rfl, rfl, rfl⟩
  exact ⟨d, t, hd, ht, register_ranges .aarch64 ram rfl hconfined hd hpossible ht, ha, hx⟩

/-- `ADC #$01` of 99 in decimal mode. -/
def carrying : Core Ram :=
  idle ⟨0, 0, 0x99, 0x08, 0, 0, 0xFF⟩ fun ea => if ea = 0 then 0x69 else 0x01

/-- `BRA` from address 2 to 128 below. -/
def wrapping : Core Ram := idle ⟨0, 0, 0, 0, 0, 0, 0xFF⟩ fun _ => 0x80

/-- The state before the second instruction of a call. -/
def second (c : Core Ram) : Option (State Ram) :=
  match runM (step .aarch64 ram) c [.call ⟨0, 0⟩ 100] with
  | .ok d => if d.running then (Event.instruction ⟨0, 0⟩).next ram d else none
  | .error _ => none

theorem second_some {c : Core Ram} {t : State Ram} (h : second c = some t) :
    ∃ d, runM (step .aarch64 ram) c [.call ⟨0, 0⟩ 100] = .ok d ∧
      (Event.instruction ⟨0, 0⟩).Possible d = true ∧
      (Event.instruction ⟨0, 0⟩).next ram d = some t := by
  unfold second at h
  split at h
  · next d hd =>
    split at h
    · next hrunning => exact ⟨d, hd, hrunning, h⟩
    · cases h
  · cases h

theorem register_ranges_leave :
    (∃ d t, runM (step .aarch64 ram) carrying [.call ⟨0, 0⟩ 100] = .ok d ∧
      (Event.instruction ⟨0, 0⟩).Possible d = true ∧
      (Event.instruction ⟨0, 0⟩).next ram d = some t ∧ t.a = 0x100) ∧
    ∃ d t, runM (step .aarch64 ram) wrapping [.call ⟨0, 0⟩ 100] = .ok d ∧
      (Event.instruction ⟨0, 0⟩).Possible d = true ∧
      (Event.instruction ⟨0, 0⟩).next ram d = some t ∧ t.pc = 0xFF00FF82 := by
  constructor
  · have hsecond : (second carrying).map State.a = some 0x100 := by decide +kernel
    obtain ⟨t, ht, ha⟩ := Option.map_eq_some_iff.mp hsecond
    obtain ⟨d, hd, hpossible, hnext⟩ := second_some ht
    exact ⟨d, t, hd, hpossible, hnext, ha⟩
  · have hsecond : (second wrapping).map State.pc = some 0xFF00FF82 := by decide +kernel
    obtain ⟨t, ht, hpc⟩ := Option.map_eq_some_iff.mp hsecond
    obtain ⟨d, hd, hpossible, hnext⟩ := second_some ht
    exact ⟨d, t, hd, hpossible, hnext, hpc⟩

end Apple2ix.Cpu.Arm
