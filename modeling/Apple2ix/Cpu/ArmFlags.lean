import Apple2ix.Cpu.ArmWords

/-! The flag macros of the ARM core and the operations on its registers, as they change the
registers of the 65c02. -/
namespace Apple2ix.Cpu.Arm
open Cpu Processor
set_option autoImplicit false

universe u
variable {σ : Type u}

/-- The core on a memory of 64K. -/
def ram : WideBus Ram := wide ramBus

/-- The registers as `CommonSaveCPUState` and the `strh` of PC_Reg narrow them. -/
def State.view (s : State Ram) : Processor where
  a := s.a.toUInt8
  x := s.x.toUInt8
  y := s.y.toUInt8
  sp := s.sp.toUInt8
  pc := s.pc.toUInt16
  p := flagArm.status s.f.toUInt8
  cycles := s.opcycles
  ram := s.mem

/-- The byte at EffectiveAddr. -/
def State.byte (s : State Ram) : UInt8 := s.mem.cell s.ea.toUInt16

/-! ## Flags -/

section Tests
variable (s : State σ)

theorem has_eq (flag : UInt8) : s.has flag = (s.f.toUInt8 &&& flag != 0) := by
  rw [State.has, and_mask, wide_bne_zero]

theorem carryIn_eq : carryIn s = (flagArm.status s.f.toUInt8).c.toUInt32 := by
  rw [carryIn, and_mask, ← ite_and_bit (by decide)]
  change (if (flagArm.status s.f.toUInt8).c then flagArm.c else 0).toUInt32 >>> 1 = _
  cases (flagArm.status s.f.toUInt8).c <;> rfl

theorem borrowIn_eq : borrowIn s = (!(flagArm.status s.f.toUInt8).c).toUInt32 := by
  rw [borrowIn, carryIn_eq]
  cases (flagArm.status s.f.toUInt8).c <;> rfl

end Tests

section Flags
variable (s : State Ram)

theorem view_flagZ : (flagZ s).view = { s.view with p := { s.view.p with z := s.apsr.z } } := by
  have hstatus := status_take_z s.apsr s.f.toUInt8
  rw [← take_byte] at hstatus
  exact congrArg (fun p => { s.view with p := p }) hstatus

theorem view_flagNZ : (flagNZ s).view =
    { s.view with p := { s.view.p with n := s.apsr.n, z := s.apsr.z } } := by
  have hstatus := status_take_nz s.apsr s.f.toUInt8
  rw [← take_byte] at hstatus
  exact congrArg (fun p => { s.view with p := p }) hstatus

theorem view_flagNZC : (flagNZC s).view =
    { s.view with p := { s.view.p with n := s.apsr.n, z := s.apsr.z, c := s.apsr.c } } := by
  have hstatus := status_take_nzc s.apsr s.f.toUInt8
  rw [← take_byte] at hstatus
  exact congrArg (fun p => { s.view with p := p }) hstatus

/-- The flags of a byte at the top of a word. -/
theorem view_flagTop {v : UInt8} {flags : Nzcv} (hn : flags.n = signBit (top v))
    (hz : flags.z = (top v == 0)) : (flagNZ { s with apsr := flags }).view =
      { s.view with p := setNZ v s.view.p } := by
  rw [view_flagNZ, setNZ, ← signBit_top, ← top_eq_zero, ← hn, ← hz]
  rfl

theorem view_cmpTop (v : UInt8) :
    (flagNZ (cmpZero (top v) s)).view = { s.view with p := setNZ v s.view.p } :=
  view_flagTop s (subs_zero (top v)).1 (subs_zero (top v)).2.1

/-- `orr` of N_Flag from bit 7. -/
theorem view_negByte (w : UInt32) (hn : s.view.p.n = false) : (negByte w s).view =
    { s.view with p := { s.view.p with n := negative w.toUInt8 } } := by
  have hmask (v : UInt8) : ((v &&& 0x80).toUInt32 >>> 4).toUInt8 = (negative v).toUInt8 <<< 3 := by
    rw [← ite_and_bit (by decide), and_sign]
    cases negative v <;> rfl
  have hbit : ((w &&& 0x80) >>> 4).toUInt8 = (negative w.toUInt8).toUInt8 <<< 3 := by
    have hand : w &&& 0x80 = (w.toUInt8 &&& 0x80).toUInt32 := and_mask w 0x80
    rw [hand, hmask]
  have hstatus := (status_orr s.f.toUInt8 (negative w.toUInt8)).1
  have hp : (flagArm.status s.f.toUInt8).n = false := hn
  rw [← hbit, ← UInt32.toUInt8_or, hp, Bool.false_or] at hstatus
  exact congrArg (fun p => { s.view with p := p }) hstatus

theorem view_zeroByte (arch : Arch) (w : UInt32) : (zeroByte arch w s).view =
    { s.view with p := { s.view.p with z := w.toUInt8 == 0 } } := by
  have hzero : (w &&& 0xFF == 0) = (w.toUInt8 == 0) := by
    rw [Bool.eq_iff_iff, beq_iff_eq, beq_iff_eq, ← UInt32.toNat_inj, ← UInt8.toNat_inj, and_byte,
      UInt32.toNat_toUInt8]
    rfl
  rw [zeroByte, view_flagZ]
  simp only [logic_z, hzero]
  rfl

end Flags

/-! ## Loads and stores -/

section Transfers
variable (s : State Ram)

theorem view_r0 (w : UInt32) : ({ s with r0 := w } : State Ram).view = s.view := rfl

/-- `lsl x, x, #24` leaves the low byte. -/
theorem shiftLeft_top (w : UInt32) : w <<< 24 = top w.toUInt8 := by
  apply eq_top
  rw [shiftLeft_toNat w 24 (n := 24) rfl, UInt32.toNat_toUInt8]
  omega

theorem view_orFlags (w : UInt32) : (orFlags w s).view =
    { s.view with p := setNZ w.toUInt8 s.view.p } := by
  have htop := shiftLeft_top w
  have horr : orFlags w s = flagNZ (cmpZero (w <<< 24) { s with r0 := w <<< 24 }) := rfl
  rw [horr, htop, view_cmpTop, view_r0]

theorem view_doLda : (doLda ram s).view = loadA s.byte s.view := by
  have hload : ({ getFromEaB ram s with a := s.byte.toUInt32 } : State Ram).view =
      { s.view with a := s.byte } := congrArg (fun a => { s.view with a := a }) (wide_byte s.byte)
  have hflags := view_orFlags { getFromEaB ram s with a := s.byte.toUInt32 } s.byte.toUInt32
  rw [wide_byte, hload] at hflags
  exact hflags

theorem view_doStore (w : UInt32) : (doStore ram w s).view =
    storeCell w.toUInt8 s.ea.toUInt16 s.view := rfl

end Transfers

end Apple2ix.Cpu.Arm
