import Apple2ix.Cpu.ArmRefines
import Apple2ix.Cpu.X86Loop

/-! What the handlers of both cores leave of the fields that `continue` counts with. -/
namespace Apple2ix.Cpu
set_option autoImplicit false

universe u
variable {σ : Type u}

/-- The fields of `cpu65_run_args_s` that are no registers of the 65c02. -/
structure Meter where
  opcode : UInt8
  opcycles : UInt8
  cycleCount : Int32
  cyclesToExecute : Int32
  signal : UInt8
  emulReinitialize : UInt8

/-- Only `cpu65_opcycles` changes, by at most `n`. -/
def Meter.Spends (n : ℕ) (m m' : Meter) : Prop :=
  ∃ k : UInt8, k.toNat ≤ n ∧ m' = { m with opcycles := m.opcycles + k }

namespace Meter.Spends
variable {m m' m'' : Meter} {n k : ℕ}

theorem refl (n : ℕ) (m : Meter) : m.Spends n m := by
  refine ⟨0, Nat.zero_le n, ?_⟩
  rw [UInt8.add_zero]

theorem of_eq (h : m' = m) : m.Spends n m' := h ▸ refl n m

theorem mono (h : m.Spends n m') (hle : n ≤ k) : m.Spends k m' := by
  obtain ⟨c, hc, rfl⟩ := h
  exact ⟨c, hc.trans hle, rfl⟩

theorem trans (h : m.Spends n m') (h' : m'.Spends k m'') : m.Spends (n + k) m'' := by
  obtain ⟨a, ha, rfl⟩ := h
  obtain ⟨b, hb, rfl⟩ := h'
  refine ⟨a + b, ?_, ?_⟩
  · rw [UInt8.toNat_add]
    exact (Nat.mod_le _ _).trans (Nat.add_le_add ha hb)
  · simp only [UInt8.add_assoc]

end Meter.Spends

namespace X86

/-! ## The x86 core -/

def State.meter (s : State σ) : Meter where
  opcode := s.opcode
  opcycles := s.opcycles
  cycleCount := s.cycleCount
  cyclesToExecute := s.cyclesToExecute
  signal := s.signal
  emulReinitialize := s.emulReinitialize

section Handlers
variable (bus : Bus σ) (s : State σ)

theorem countCycle_spends : s.meter.Spends 1 (countCycle s).meter := by
  refine ⟨1, by decide, ?_⟩
  rfl

theorem setEa_meter (ea : UInt16) : ({ s with ea := ea } : State σ).meter = s.meter := rfl

theorem setPc_meter (pc : UInt16) : ({ s with pc := pc } : State σ).meter = s.meter := rfl

theorem setAx_meter (w : UInt16) : (s.setAx w).meter = s.meter := rfl

theorem getFromEaB_meter : (getFromEaB bus s).meter = s.meter := rfl

theorem getFromPcB_meter : (getFromPcB bus s).meter = s.meter := rfl

theorem getFromPcW_meter : (getFromPcW bus s).meter = s.meter := rfl

theorem getFromEaW_meter : (getFromEaW bus s).meter = s.meter := rfl

theorem getFromMemW_meter (x : UInt16) : (getFromMemW bus x s).meter = s.meter := by
  rw [getFromMemW, getFromEaW_meter, setEa_meter]

theorem eaFromAx_meter : (eaFromAx s).meter = s.meter := rfl

theorem getAbs_meter : (getAbs bus s).meter = s.meter := by
  rw [getAbs, eaFromAx_meter, getFromPcW_meter]

theorem indZPage_meter : (indZPage bus s).meter = s.meter := by
  have hpointer : ∀ (t : State σ) (ah : UInt8) (ea : UInt16),
    ({ t with ah := ah, ea := ea } : State σ).meter = t.meter := fun _ _ _ => rfl
  rw [indZPage, getFromEaB_meter, hpointer, getFromEaB_meter]
  rfl

theorem addIndex_id_meter (index : UInt8) : (addIndex index id s).meter = s.meter := by
  simp only [addIndex]
  split <;> rfl

theorem addIndex_spends (index : UInt8) : s.meter.Spends 1 (addIndex index countCycle s).meter := by
  simp only [addIndex]
  split
  · exact countCycle_spends s
  · exact .refl 1 s.meter

theorem getMode_spends (mode : Mode) : s.meter.Spends 1 (getMode bus mode s).meter := by
  have hpointer : (indZPage bus (getFromPcB bus s)).meter = s.meter := indZPage_meter bus _
  cases mode with
  | imm | zpage | zpageX | zpageY => exact .of_eq rfl
  | abs => exact .of_eq (getAbs_meter bus s)
  | indX => exact .of_eq ((eaFromAx_meter _).trans (indZPage_meter bus _))
  | indZpage => exact .of_eq ((eaFromAx_meter _).trans hpointer)
  | absX => exact addIndex_spends (getFromPcW bus s) s.x
  | absY => exact addIndex_spends (getFromPcW bus s) s.y
  | indY =>
    have hindex := addIndex_spends (indZPage bus (getFromPcB bus s))
      (indZPage bus (getFromPcB bus s)).y
    rw [hpointer] at hindex
    exact hindex
  | absXStx => exact .of_eq (addIndex_id_meter (getFromPcW bus s) s.x)
  | absYSta => exact .of_eq (addIndex_id_meter (getFromPcW bus s) s.y)
  | indYSta => exact .of_eq ((addIndex_id_meter _ _).trans hpointer)

theorem decFinish_meter : (decFinish s).meter = s.meter := by
  simp only [decFinish]
  split <;> split <;> rfl

theorem meter_ite {c : Prop} [Decidable c] {t u : State σ} {m : Meter} (ht : t.meter = m)
    (hu : u.meter = m) : (if c then t else u).meter = m := by
  split
  · exact ht
  · exact hu

theorem opAdcDec_spends : s.meter.Spends 1 (opAdcDec bus s).meter := by
  have hfinish : (opAdcDec bus s).meter = (countCycle s).meter :=
    meter_ite (decFinish_meter _) (decFinish_meter _)
  rw [hfinish]
  exact countCycle_spends s

theorem opSbcDec_spends : s.meter.Spends 1 (opSbcDec bus s).meter := by
  have hfinish : (opSbcDec bus s).meter = (countCycle s).meter :=
    meter_ite (decFinish_meter _) (decFinish_meter _)
  rw [hfinish]
  exact countCycle_spends s

theorem doAdc_spends : s.meter.Spends 1 (doAdc bus s).meter := by
  rw [doAdc]
  split
  · exact opAdcDec_spends bus s
  · exact .refl 1 s.meter

theorem doSbc_spends : s.meter.Spends 1 (doSbc bus s).meter := by
  rw [doSbc]
  split
  · exact opSbcDec_spends bus s
  · exact .refl 1 s.meter

theorem branchXCycles_spends : s.meter.Spends 2 (branchXCycles s).meter := by
  simp only [branchXCycles]
  split
  · exact (countCycle_spends s).mono (Nat.le_succ 1)
  · exact (countCycle_spends s).trans (countCycle_spends _)

theorem branch_spends (taken : State σ → Bool) : s.meter.Spends 2 (branch bus taken s).meter := by
  simp only [branch]
  split
  · exact branchXCycles_spends (getFromPcB bus s)
  · exact .refl 2 s.meter

theorem opJmpAbs_meter : (opJmpAbs bus s).meter = s.meter := by
  rw [opJmpAbs, setPc_meter, getAbs_meter]

theorem opJmpInd_meter : (opJmpInd bus s).meter = s.meter := by
  have hspecial :
      ∀ t : State σ, (getFromMemB bus (t.pc - 0xFF) { t with pc := t.pc - 0xFF }).meter =
    t.meter := fun _ => rfl
  have hlow : ∀ t : State σ,
    (getFromMemB bus (t.pc + 0xFF) { t with al := t.ah, ah := t.al, pc := t.pc + 0xFF }).meter =
      t.meter := fun _ => rfl
  rw [opJmpInd]
  refine meter_ite ?_ ?_
  · rw [setPc_meter]
    exact (hlow _).trans ((hspecial _).trans ((setPc_meter _ _).trans (getFromPcW_meter bus s)))
  · rw [setPc_meter, getFromMemW_meter, getFromPcW_meter]

theorem modify_meter {f : UInt8 → State σ → Result} {flag : HostFlags → State σ → State σ}
    (h : ∀ flags t, (flag flags t).meter = t.meter) : (modify bus f flag s).meter = s.meter := h _ _

theorem modifyAcc_meter {f : UInt8 → State σ → Result} {flag : HostFlags → State σ → State σ}
    (h : ∀ flags t, (flag flags t).meter = t.meter) : (modifyAcc f flag s).meter = s.meter := h _ _

theorem flagNZ_meter (flags : HostFlags) : (flagNZ flags s).meter = s.meter := rfl

theorem flagNZC_meter (flags : HostFlags) : (flagNZC flags s).meter = s.meter := rfl

theorem popFlags_meter : (popFlags bus s).meter = s.meter := rfl

theorem popAx_meter : (popAx bus s).meter = s.meter := rfl

theorem pushAx_meter : (pushAx bus s).meter = s.meter := rfl

theorem interruptVector_meter : (interruptVector bus s).meter = s.meter := by
  rw [interruptVector, setPc_meter, getFromEaW_meter, setEa_meter]

theorem brkFrame_meter : (brkFrame bus s).meter = s.meter := by
  have htail :
      ∀ t : State σ, (encodeFlags { setFlag (flagX86.b ||| flagX86.x) t with ah := 0 }).meter =
    t.meter := fun _ => rfl
  rw [brkFrame, htail, pushAx_meter, setAx_meter, setPc_meter]

theorem irqFrame_meter : (irqFrame bus s).meter = s.meter := by
  have htail : ∀ t : State σ, (encodeFlags { setFlag flagX86.x t with ah := 0 }).meter = t.meter :=
    fun _ => rfl
  rw [irqFrame, htail, pushAx_meter, setAx_meter]

theorem opBrk_meter : (opBrk bus s).meter = s.meter := by
  have hpush : ∀ t : State σ, (setFlag flagX86.i (push bus t.al t)).meter = t.meter := fun _ => rfl
  rw [opBrk, interruptVector_meter, hpush, brkFrame_meter]

theorem opRti_meter : (opRti bus s).meter = s.meter := by
  rw [opRti, setPc_meter, popAx_meter, popFlags_meter]

theorem opJsr_meter : (opJsr bus s).meter = s.meter := by
  rw [opJsr, setPc_meter, pushAx_meter, setAx_meter, getAbs_meter]

theorem opRts_meter : (opRts bus s).meter = s.meter := by
  rw [opRts, setPc_meter, setAx_meter, popAx_meter]

theorem opJmpAbsIndX_meter : (opJmpAbsIndX bus s).meter = s.meter := by
  rw [opJmpAbsIndX, setPc_meter, getFromMemW_meter, setEa_meter, setAx_meter, setEa_meter,
    getFromPcW_meter]

/-- An operation that leaves what its mode has left. -/
theorem operation_spends (mode : Mode) {t : State σ} (h : t.meter = (getMode bus mode s).meter) :
    s.meter.Spends 2 t.meter := by
  rw [h]
  exact (getMode_spends bus s mode).mono (Nat.le_succ 1)

/-- **Handlers** take at most two cycles more than the table says, and leave the rest alone. -/
theorem run_spends (op : Op) : s.meter.Spends 2 (run bus op s).meter := by
  cases op with
  | adc mode => exact (getMode_spends bus s mode).trans (doAdc_spends bus _)
  | sbc mode => exact (getMode_spends bus s mode).trans (doSbc_spends bus _)
  | and mode | bit mode | cmp mode | cpx mode | cpy mode
  | eor mode | lda mode | ldx mode | ldy mode =>
    exact operation_spends bus s mode rfl
  | ora mode | sta mode | stx mode | sty mode | stz mode | trb mode | tsb mode =>
    exact operation_spends bus s mode rfl
  | asl mode | lsr mode | rol mode | ror mode =>
    exact operation_spends bus s mode (modify_meter bus _ fun flags t => flagNZC_meter t flags)
  | dec mode | inc mode =>
    exact operation_spends bus s mode (modify_meter bus _ fun flags t => flagNZ_meter t flags)
  | aslAcc | lsrAcc | rolAcc =>
    exact .of_eq (modifyAcc_meter s fun flags t => flagNZC_meter t flags)
  | dea | ina => exact .of_eq (modifyAcc_meter s fun flags t => flagNZ_meter t flags)
  | bcc | bcs | beq | bmi | bne | bpl | bra | bvc | bvs => exact branch_spends bus s _
  | jmpInd => exact .of_eq (opJmpInd_meter bus s)
  | jmpAbs => exact .of_eq (opJmpAbs_meter bus s)
  | rti => exact .of_eq (opRti_meter bus s)
  | brk => exact .of_eq (opBrk_meter bus s)
  | jsr => exact .of_eq (opJsr_meter bus s)
  | jmpAbsIndX => exact .of_eq (opJmpAbsIndX_meter bus s)
  | rts => exact .of_eq (opRts_meter bus s)
  | _ => exact .of_eq rfl

end Handlers

end X86

namespace Arm

/-! ## The ARM core -/

def State.meter (s : State σ) : Meter where
  opcode := s.opcode
  opcycles := s.opcycles
  cycleCount := s.cycleCount
  cyclesToExecute := s.cyclesToExecute
  signal := s.signal
  emulReinitialize := s.emulReinitialize

theorem flagNotZero_le (flags : Nzcv) : (flagNotZero flags).toNat ≤ 1 := by
  have hbit : ((mrs flags >>> 30) &&& 1).toNat = 0 ∨ ((mrs flags >>> 30) &&& 1).toNat = 1 := by
    have hand : ((mrs flags >>> 30) &&& 1).toNat = (mrs flags >>> 30).toNat % 2 := by
      rw [UInt32.toNat_and]
      exact Nat.and_one_is_mod _
    omega
  rw [flagNotZero, UInt32.toNat_xor]
  obtain h | h := hbit
  · rw [h]
    decide
  · rw [h]
    decide

section Handlers
variable (arch : Arch) (bus : WideBus σ) (s : State σ)

theorem addOpCycles_spends {x : UInt32} {n : ℕ} (hx : x.toNat ≤ n) :
    s.meter.Spends n (addOpCycles x s).meter := by
  refine ⟨x.toUInt8, ?_, ?_⟩
  · rw [UInt32.toNat_toUInt8]
    exact (Nat.mod_le _ _).trans hx
  · rw [← addOpCycles_narrow]
    rfl

theorem setPc_meter (pc : UInt32) : ({ s with pc := pc } : State σ).meter = s.meter := rfl

theorem setA_meter (w : UInt32) : ({ s with a := w } : State σ).meter = s.meter := rfl

theorem setX_meter (w : UInt32) : ({ s with x := w } : State σ).meter = s.meter := rfl

theorem setY_meter (w : UInt32) : ({ s with y := w } : State σ).meter = s.meter := rfl

theorem setR0_meter (r0 : UInt32) : ({ s with r0 := r0 } : State σ).meter = s.meter := rfl

theorem setEa_meter (ea : UInt32) : ({ s with ea := ea } : State σ).meter = s.meter := rfl

theorem setEaPc_meter (ea pc : UInt32) :
    ({ s with ea := ea, pc := pc } : State σ).meter = s.meter :=
  rfl

theorem setPcR0_meter (pc r0 : UInt32) :
    ({ s with pc := pc, r0 := r0 } : State σ).meter = s.meter :=
  rfl

theorem vmemR_meter : (vmemR bus s).meter = s.meter := rfl

theorem getFromEaB_meter : (getFromEaB bus s).meter = s.meter := rfl

theorem getFromPcB_meter : (getFromPcB bus s).meter = s.meter := rfl

theorem hiByteToWord_meter : (hiByteToWord bus s).meter = s.meter := by
  rw [hiByteToWord, setPcR0_meter, vmemR_meter, setEaPc_meter]

theorem getFromPcW_meter : (getFromPcW bus s).meter = s.meter := by
  rw [getFromPcW, hiByteToWord_meter, vmemR_meter, setEaPc_meter]

theorem getFromEaW_meter : (getFromEaW bus s).meter = s.meter := by
  rw [getFromEaW, hiByteToWord_meter, vmemR_meter, setPc_meter]

theorem indZPage_meter : (indZPage bus s).meter = s.meter := by
  rw [indZPage, setR0_meter, getFromEaB_meter, setEa_meter, getFromEaB_meter]

theorem eaFromR0_meter : (eaFromR0 s).meter = s.meter := rfl

theorem getAbs_meter : (getAbs bus s).meter = s.meter := by
  rw [getAbs, eaFromR0_meter, getFromPcW_meter]

theorem addIndexReg_meter (index : UInt32) : (addIndexReg index s).meter = s.meter := rfl

theorem addIndexRegTest_spends (index : UInt32) :
    s.meter.Spends 1 (addIndexRegTest index s).meter :=
  addOpCycles_spends (cmpZero (s.r0 >>> 8 ^^^ ((s.r0 + index) &&& ~~~0x10000) >>> 8)
    { s with r0 := (s.r0 + index) &&& ~~~0x10000 }) (flagNotZero_le _)

theorem getMode_spends (mode : Mode) : s.meter.Spends 1 (getMode bus mode s).meter := by
  have hpointer : (indZPage bus (getZPage bus s)).meter = s.meter := by
    rw [indZPage_meter, getZPage, eaFromR0_meter, getFromPcB_meter]
  cases mode with
  | imm => exact .of_eq (setEaPc_meter s _ _)
  | zpage => exact .of_eq (by rw [getMode, getZPage, eaFromR0_meter, getFromPcB_meter])
  | zpageX =>
    exact .of_eq (by rw [getMode, getZPageX, eaFromR0_meter, setR0_meter, getFromPcB_meter])
  | zpageY =>
    exact .of_eq (by rw [getMode, getZPageY, eaFromR0_meter, setR0_meter, getFromPcB_meter])
  | abs => exact .of_eq (getAbs_meter bus s)
  | absXStx => exact .of_eq (by rw [getMode, getAbsXStx, addIndexReg_meter, getFromPcW_meter])
  | absYSta => exact .of_eq (by rw [getMode, getAbsYSta, addIndexReg_meter, getFromPcW_meter])
  | indX => exact .of_eq (by
      rw [getMode, getIndZPageX, eaFromR0_meter, indZPage_meter, setEa_meter, getZPage,
        eaFromR0_meter, getFromPcB_meter])
  | indZpage => exact .of_eq (by rw [getMode, getIndZPage, eaFromR0_meter, hpointer])
  | indYSta => exact .of_eq (by rw [getMode, getIndZPageYSta, addIndexReg_meter, hpointer])
  | absX =>
    have hindex := addIndexRegTest_spends (getFromPcW bus s) (getFromPcW bus s).x
    rw [getFromPcW_meter] at hindex
    rw [getMode, getAbsX]
    exact hindex
  | absY =>
    have hindex := addIndexRegTest_spends (getFromPcW bus s) (getFromPcW bus s).y
    rw [getFromPcW_meter] at hindex
    rw [getMode, getAbsY]
    exact hindex
  | indY =>
    have hindex := addIndexRegTest_spends (indZPage bus (getZPage bus s))
      (indZPage bus (getZPage bus s)).y
    rw [hpointer] at hindex
    rw [getMode, getIndZPageY]
    exact hindex

theorem orrF_meter (w : UInt32) : (orrF w s).meter = s.meter := rfl

theorem bicF_meter (mask : UInt8) : (bicF mask s).meter = s.meter := rfl

theorem takeFlags_meter (mask : UInt8) : (takeFlags mask s).meter = s.meter := by
  rw [takeFlags, orrF_meter, bicF_meter]

theorem setApsr_meter (flags : Nzcv) : ({ s with apsr := flags } : State σ).meter = s.meter := rfl

theorem zeroByte_meter (x : UInt32) : (zeroByte arch x s).meter = s.meter := by
  rw [zeroByte, flagZ, takeFlags_meter, setApsr_meter]

theorem negByte_meter (x : UInt32) : (negByte x s).meter = s.meter := by
  rw [negByte, orrF_meter]

theorem orFlags_meter (value : UInt32) : (orFlags value s).meter = s.meter := by
  rw [orFlags, flagNZ, takeFlags_meter, cmpZero, setApsr_meter, setR0_meter]

theorem meter_ite {c : Prop} [Decidable c] {t u : State σ} {m : Meter} (ht : t.meter = m)
    (hu : u.meter = m) : (if c then t else u).meter = m := by
  split
  · exact ht
  · exact hu

theorem setAR0_meter (w r0 : UInt32) : ({ s with a := w, r0 := r0 } : State σ).meter = s.meter :=
  rfl

theorem mergeNybbles_meter (loNyb : UInt32) : (mergeNybbles arch loNyb s).meter = s.meter := by
  rw [mergeNybbles, zeroByte_meter, negByte_meter, setAR0_meter]

theorem opAdcDec_spends : s.meter.Spends 1 (opAdcDec arch bus s).meter := by
  have hmerge : (opAdcDec arch bus s).meter = (addOpCycles 1 s).meter := by
    rw [opAdcDec, mergeNybbles_meter]
    exact meter_ite rfl rfl
  rw [hmerge]
  exact addOpCycles_spends s (Nat.le_refl 1)

theorem opSbcDec_spends : s.meter.Spends 1 (opSbcDec arch bus s).meter := by
  have hmerge : (opSbcDec arch bus s).meter = (addOpCycles 1 s).meter := by
    rw [opSbcDec, mergeNybbles_meter]
    exact meter_ite rfl rfl
  rw [hmerge]
  exact addOpCycles_spends s (Nat.le_refl 1)

theorem doAdcB_spends : s.meter.Spends 1 (doAdcB arch bus s).meter := by
  rw [doAdcB]
  split
  · exact opAdcDec_spends arch bus s
  · exact .refl 1 s.meter

theorem doSbcB_spends : s.meter.Spends 1 (doSbcB arch bus s).meter := by
  rw [doSbcB]
  split
  · exact opSbcDec_spends arch bus s
  · exact .refl 1 s.meter

theorem branchXCycles_spends : s.meter.Spends 2 (branchXCycles s).meter := by
  obtain ⟨flags, hflags⟩ : ∃ flags, (branchXCycles s).meter =
    { s.meter with opcycles := (s.opcycles.toUInt32 + 1 + flagNotZero flags).toUInt8 } := ⟨_, rfl⟩
  have hflag := flagNotZero_le flags
  have hcount : (1 + flagNotZero flags).toNat ≤ 2 := by
    rw [UInt32.toNat_add]
    change (1 + (flagNotZero flags).toNat) % 2 ^ 32 ≤ 2
    omega
  rw [hflags, UInt32.add_assoc]
  exact addOpCycles_spends s hcount

theorem branch_spends (taken : State σ → Bool) : s.meter.Spends 2 (branch bus taken s).meter := by
  rw [branch]
  split
  · exact branchXCycles_spends (getFromPcB bus s)
  · exact .refl 2 s.meter

theorem doDec_meter (x : UInt32) : (doDec x s).2.meter = s.meter := by
  rw [doDec, flagNZ, takeFlags_meter, setApsr_meter]

theorem doInc_meter (x : UInt32) : (doInc x s).2.meter = s.meter := by
  rw [doInc, flagNZ, takeFlags_meter, setApsr_meter]

theorem doAsl_meter (x : UInt32) : (doAsl x s).2.meter = s.meter := by
  rw [doAsl, flagNZC, takeFlags_meter, setApsr_meter]

theorem doLsr_meter (x : UInt32) : (doLsr arch x s).2.meter = s.meter := by
  cases arch with
  | aarch64 => rw [doLsr, flagNZ, takeFlags_meter, cmpZero, setApsr_meter, orrF_meter, bicF_meter]
  | arm32 => rw [doLsr, flagNZC, takeFlags_meter, setApsr_meter]

theorem setF_meter (w : UInt32) : ({ s with f := w } : State σ).meter = s.meter := rfl

theorem flagRol_meter (x : UInt64) : (flagRol arch x s).2.meter = s.meter := by
  cases arch with
  | aarch64 => rw [flagRol, flagNZ, takeFlags_meter, setApsr_meter, orrF_meter, bicF_meter]
  | arm32 => rw [flagRol, flagNZC, takeFlags_meter, setApsr_meter]

theorem doRol_meter (x : UInt32) : (doRol arch x s).2.meter = s.meter := by
  rw [doRol, flagRol_meter, setF_meter, setF_meter]

theorem doRor_meter (x : UInt32) : (doRor arch x s).2.meter = s.meter := by
  rw [doRor, negByte_meter, zeroByte_meter, orrF_meter, bicF_meter]

theorem putToEaB_meter : (putToEaB bus s).meter = s.meter := rfl

theorem doStore_meter (value : UInt32) : (doStore bus value s).meter = s.meter := by
  rw [doStore, putToEaB_meter, setR0_meter]

theorem doAnd_meter : (doAnd arch bus s).meter = s.meter := by
  rw [doAnd, setA_meter, flagNZ, takeFlags_meter, setApsr_meter, setA_meter, setAR0_meter,
    getFromEaB_meter]

theorem doEor_meter : (doEor bus s).meter = s.meter := by
  rw [doEor, setA_meter, flagNZ, takeFlags_meter, cmpZero, setApsr_meter, setA_meter, setAR0_meter,
    getFromEaB_meter]

theorem doOra_meter : (doOra bus s).meter = s.meter := by
  rw [doOra, setA_meter, flagNZ, takeFlags_meter, cmpZero, setApsr_meter, setA_meter, setAR0_meter,
    getFromEaB_meter]

theorem doBit_meter : (doBit arch bus s).meter = s.meter := by
  rw [doBit, negByte_meter, orrF_meter, zeroByte_meter, bicF_meter, bicF_meter, getFromEaB_meter]

theorem opBitImm_meter : (opBitImm arch bus s).meter = s.meter := by
  rw [opBitImm, zeroByte_meter, getFromEaB_meter, getImm, setEaPc_meter]

theorem compare_meter (reg : UInt32) : (compare bus reg s).meter = s.meter := by
  rw [compare, flagNZC, takeFlags_meter, setApsr_meter, setR0_meter, getFromEaB_meter]

theorem doLda_meter : (doLda bus s).meter = s.meter := by
  rw [doLda, orFlags_meter, setA_meter, getFromEaB_meter]

theorem doLdx_meter : (doLdx bus s).meter = s.meter := by
  rw [doLdx, orFlags_meter, setX_meter, getFromEaB_meter]

theorem doLdy_meter : (doLdy bus s).meter = s.meter := by
  rw [doLdy, orFlags_meter, setY_meter, getFromEaB_meter]

theorem doTrb_meter : (doTrb arch bus s).meter = s.meter := by
  rw [doTrb, putToEaB_meter, setR0_meter, flagZ, takeFlags_meter, setApsr_meter, getFromEaB_meter]

theorem doTsb_meter : (doTsb arch bus s).meter = s.meter := by
  rw [doTsb, putToEaB_meter, setR0_meter, flagZ, takeFlags_meter, setApsr_meter, getFromEaB_meter]

theorem modify_meter {f : OnReg σ} (h : ∀ x t, (f x t).2.meter = t.meter) :
    (modify bus f s).meter = s.meter := by
  rw [modify, putToEaB_meter, setR0_meter, h, getFromEaB_meter]

theorem modifyAcc_meter {f : OnReg σ} (h : ∀ x t, (f x t).2.meter = t.meter) :
    (modifyAcc f s).meter = s.meter := by
  rw [modifyAcc, setA_meter, h]

theorem modifyX_meter {f : OnReg σ} (h : ∀ x t, (f x t).2.meter = t.meter) :
    (modifyX f s).meter = s.meter := by
  rw [modifyX, setX_meter, h]

theorem modifyY_meter {f : OnReg σ} (h : ∀ x t, (f x t).2.meter = t.meter) :
    (modifyY f s).meter = s.meter := by
  rw [modifyY, setY_meter, h]

theorem push_meter (x : UInt32) : (push bus x s).meter = s.meter := rfl

theorem pop_meter : (pop bus s).2.meter = s.meter := rfl

theorem pushR0_meter : (pushR0 bus s).meter = s.meter := by
  rw [pushR0, push_meter, setR0_meter, push_meter]

theorem setR0F_meter (r0 w : UInt32) : ({ s with r0 := r0, f := w } : State σ).meter = s.meter :=
  rfl

theorem popFlags_meter : (popFlags bus s).meter = s.meter := by
  rw [popFlags, orrF_meter, orrF_meter, setR0F_meter, pop_meter]

theorem setR0Pc_meter (r0 pc : UInt32) :
    ({ s with r0 := r0, pc := pc } : State σ).meter = s.meter :=
  rfl

theorem popPc_meter : (popPc bus s).meter = s.meter := by
  rw [popPc, setR0Pc_meter, pop_meter, pop_meter]

theorem opPla_meter : (opPla bus s).meter = s.meter := by
  rw [opPla, orFlags_meter, setA_meter, pop_meter]

theorem opPlx_meter : (opPlx bus s).meter = s.meter := by
  rw [opPlx, orFlags_meter, setX_meter, pop_meter]

theorem opPly_meter : (opPly bus s).meter = s.meter := by
  rw [opPly, orFlags_meter, setY_meter, pop_meter]

theorem encodeFlags_meter : (encodeFlags s).meter = s.meter := rfl

theorem interruptVector_meter : (interruptVector bus s).meter = s.meter := by
  rw [interruptVector, setPc_meter, getFromEaW_meter, setEa_meter]

theorem opBrk_meter : (opBrk bus s).meter = s.meter := by
  rw [opBrk, interruptVector_meter, orrF_meter, push_meter, encodeFlags_meter, orrF_meter,
    orrF_meter, pushR0_meter, setR0_meter, setPc_meter]

theorem opRti_meter : (opRti bus s).meter = s.meter := by
  rw [opRti, popPc_meter, popFlags_meter]

theorem opRts_meter : (opRts bus s).meter = s.meter := by
  rw [opRts, setPc_meter, popPc_meter]

theorem opJsr_meter : (opJsr bus s).meter = s.meter := by
  rw [opJsr, setPc_meter, pushR0_meter, setR0_meter, getAbs_meter]

theorem getFromMemB_meter (x : UInt32) : (getFromMemB bus x s).meter = s.meter := rfl

theorem jmpSpecial_meter : (jmpSpecial bus s).meter = s.meter := by
  rw [jmpSpecial, setPc_meter, setR0_meter, getFromMemB_meter, setPc_meter, getFromMemB_meter,
    setPc_meter, setPc_meter]

theorem opJmpInd_meter : (opJmpInd bus s).meter = s.meter := by
  have hword := getFromPcW_meter bus s
  rw [opJmpInd]
  dsimp only
  refine meter_ite ((jmpSpecial_meter bus _).trans hword) ?_
  rw [setEaPc_meter, getFromMemW, getFromEaW_meter, setEa_meter, hword]

theorem opJmpAbsIndX_meter : (opJmpAbsIndX bus s).meter = s.meter := by
  have hea : ∀ (t : State σ) (ea r0 : UInt32), ({ t with ea := ea, r0 := r0 } : State σ).meter =
    t.meter := fun _ _ _ => rfl
  rw [opJmpAbsIndX, setPc_meter, getFromMemW, getFromEaW_meter, setEa_meter, setEa_meter, hea,
    getFromPcW_meter]

theorem operation_spends (mode : Mode) {t : State σ} (h : t.meter = (getMode bus mode s).meter) :
    s.meter.Spends 2 t.meter := by
  rw [h]
  exact (getMode_spends bus s mode).mono (Nat.le_succ 1)

/-- **Handlers** of this core, the same way. -/
theorem run_spends (op : Op) : s.meter.Spends 2 (run arch bus op s).meter := by
  cases op with
  | adc mode => exact (getMode_spends bus s mode).trans (doAdcB_spends arch bus _)
  | sbc mode => exact (getMode_spends bus s mode).trans (doSbcB_spends arch bus _)
  | and mode => exact operation_spends bus s mode (doAnd_meter arch bus _)
  | bit mode => exact operation_spends bus s mode (doBit_meter arch bus _)
  | cmp mode | cpx mode | cpy mode => exact operation_spends bus s mode (compare_meter bus _ _)
  | eor mode => exact operation_spends bus s mode (doEor_meter bus _)
  | lda mode => exact operation_spends bus s mode (doLda_meter bus _)
  | ldx mode => exact operation_spends bus s mode (doLdx_meter bus _)
  | ldy mode => exact operation_spends bus s mode (doLdy_meter bus _)
  | ora mode => exact operation_spends bus s mode (doOra_meter bus _)
  | sta mode | stx mode | sty mode | stz mode =>
    exact operation_spends bus s mode (doStore_meter bus _ _)
  | trb mode => exact operation_spends bus s mode (doTrb_meter arch bus _)
  | tsb mode => exact operation_spends bus s mode (doTsb_meter arch bus _)
  | asl mode => exact operation_spends bus s mode (modify_meter bus _ fun x t => doAsl_meter t x)
  | lsr mode =>
    exact operation_spends bus s mode (modify_meter bus _ fun x t => doLsr_meter arch t x)
  | rol mode =>
    exact operation_spends bus s mode (modify_meter bus _ fun x t => doRol_meter arch t x)
  | ror mode =>
    exact operation_spends bus s mode (modify_meter bus _ fun x t => doRor_meter arch t x)
  | dec mode => exact operation_spends bus s mode (modify_meter bus _ fun x t => doDec_meter t x)
  | inc mode => exact operation_spends bus s mode (modify_meter bus _ fun x t => doInc_meter t x)
  | aslAcc => exact .of_eq (modifyAcc_meter s fun x t => doAsl_meter t x)
  | lsrAcc => exact .of_eq (modifyAcc_meter s fun x t => doLsr_meter arch t x)
  | rolAcc => exact .of_eq (modifyAcc_meter s fun x t => doRol_meter arch t x)
  | rorAcc => exact .of_eq (modifyAcc_meter s fun x t => doRor_meter arch t x)
  | dea => exact .of_eq (modifyAcc_meter s fun x t => doDec_meter t x)
  | ina => exact .of_eq (modifyAcc_meter s fun x t => doInc_meter t x)
  | dex => exact .of_eq (modifyX_meter s fun x t => doDec_meter t x)
  | dey => exact .of_eq (modifyY_meter s fun x t => doDec_meter t x)
  | inx => exact .of_eq (modifyX_meter s fun x t => doInc_meter t x)
  | iny => exact .of_eq (modifyY_meter s fun x t => doInc_meter t x)
  | bcc | bcs | beq | bmi | bne | bpl | bra | bvc | bvs => exact branch_spends bus s _
  | jmpInd => exact .of_eq (opJmpInd_meter bus s)
  | jmpAbsIndX => exact .of_eq (opJmpAbsIndX_meter bus s)
  | jmpAbs => exact .of_eq ((setPc_meter _ _).trans (getAbs_meter bus s))
  | jsr => exact .of_eq (opJsr_meter bus s)
  | rti => exact .of_eq (opRti_meter bus s)
  | rts => exact .of_eq (opRts_meter bus s)
  | brk => exact .of_eq (opBrk_meter bus s)
  | bitImm => exact .of_eq (opBitImm_meter arch bus s)
  | pha | phx | phy => exact .of_eq (push_meter bus s _)
  | php => exact .of_eq ((push_meter bus _ _).trans (encodeFlags_meter s))
  | plp => exact .of_eq (popFlags_meter bus s)
  | pla => exact .of_eq (opPla_meter bus s)
  | plx => exact .of_eq (opPlx_meter bus s)
  | ply => exact .of_eq (opPly_meter bus s)
  | clc | cld | cli | clv => exact .of_eq (bicF_meter s _)
  | sec | sed | sei => exact .of_eq (orrF_meter s _)
  | tax | tsx => exact .of_eq ((orFlags_meter _ _).trans (setX_meter s _))
  | tay => exact .of_eq ((orFlags_meter _ _).trans (setY_meter s _))
  | txa | tya => exact .of_eq ((orFlags_meter _ _).trans (setA_meter s _))
  | _ => exact .of_eq rfl

end Handlers

end Arm

end Apple2ix.Cpu
