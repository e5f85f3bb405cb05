import Apple2ix.Cpu.ArmRange
import Apple2ix.Cpu.X86Refines

/-! The ARM core on a memory of 64K does what the instructions of the 65c02 do. The handlers of RAM
leave the flags of the host as they are. -/
namespace Apple2ix.Cpu.Arm
open Cpu Processor
set_option autoImplicit false

-- states are compared field by field, which must not evaluate what the others hold
attribute [local irreducible] UInt32.shiftLeft

/-! ## Registers in range are those of a processor -/

section Registers
variable {s : State Ram} (h : s.InRange)
include h

theorem State.InRange.a_wide : s.a = s.view.a.toUInt32 := (narrow h.a).symm

theorem State.InRange.x_wide : s.x = s.view.x.toUInt32 := (narrow h.x).symm

theorem State.InRange.y_wide : s.y = s.view.y.toUInt32 := (narrow h.y).symm

theorem State.InRange.pc_wide : s.pc = s.view.pc.toUInt32 := (narrow_word h.pc).symm

end Registers

theorem incUint16_narrow {w : UInt32} (h : w.toNat < 0x10000) :
    (incUint16 w).toUInt16 = w.toUInt16 + 1 := by
  rw [← narrow_word h, incUint16_wide, wide_word, wide_word]

theorem incUint8_narrow {w : UInt32} (h : w.toNat < 0x100) :
    (incUint8 w).toUInt8 = w.toUInt8 + 1 := by
  rw [← narrow h, incUint8_wide, wide_byte, wide_byte]

theorem decUint8_narrow {w : UInt32} (h : w.toNat < 0x100) :
    (decUint8 w).toUInt8 = w.toUInt8 - 1 := by
  rw [← narrow h, decUint8_wide, wide_byte, wide_byte]

/-! ## Words of two bytes -/

/-- The low byte of a word and, above it, the high one. -/
theorem join_wide (hi lo : UInt8) : lo.toUInt32 ||| hi.toUInt32 <<< 8 = (join hi lo).toUInt32 := by
  have hhi := hi.toNat_lt
  have hlo := lo.toNat_lt
  have hshift : (hi.toUInt32 <<< 8).toNat = 2 ^ 8 * hi.toNat := by
    rw [shiftLeft_toNat _ 8 (n := 8) rfl, byte_toNat]
    omega
  apply eq_word
  rw [UInt32.toNat_or, hshift, byte_toNat, Nat.or_comm, ← Nat.two_pow_add_eq_or_of_lt hlo,
    join_toNat]
  omega

/-- PC_Reg with PC above a byte. -/
theorem held_toNat (pc : UInt16) (w : UInt16) :
    (pc.toUInt32 <<< 16 ||| w.toUInt32).toNat = 2 ^ 16 * pc.toNat + w.toNat := by
  have hpc := pc.toNat_lt
  have hshift : (pc.toUInt32 <<< 16).toNat = 2 ^ 16 * pc.toNat := by
    rw [shiftLeft_toNat _ 16 (n := 16) rfl, word_toNat]
    omega
  rw [UInt32.toNat_or, hshift, word_toNat, ← Nat.two_pow_add_eq_or_of_lt w.toNat_lt]

theorem held_word (pc w : UInt16) :
    (pc.toUInt32 <<< 16 ||| w.toUInt32) <<< 16 >>> 16 = w.toUInt32 := by
  have hw := w.toNat_lt
  apply eq_word
  rw [shiftRight_toNat _ 16 (n := 16) rfl, shiftLeft_toNat _ 16 (n := 16) rfl, held_toNat]
  omega

theorem held_pc (pc w : UInt16) : (pc.toUInt32 <<< 16 ||| w.toUInt32) >>> 16 = pc.toUInt32 := by
  have hw := w.toNat_lt
  apply eq_word
  rw [shiftRight_toNat _ 16 (n := 16) rfl, held_toNat]
  omega

/-- The second byte of a word, where PC_Reg holds PC. -/
theorem hiByteToWord_ram {s : State Ram} {pc : UInt16} {lo : UInt8}
    (hpc : s.pc = pc.toUInt32 <<< 16)
    (hr0 : s.r0 = lo.toUInt32) (hea : s.ea.toNat < 0x10000) : hiByteToWord ram s =
      { s with
        r0 := (join (s.mem.cell (s.ea.toUInt16 + 1)) lo).toUInt32
        ea := incUint16 s.ea
        pc := pc.toUInt32 } := by
  have hlo : lo.toUInt32 = lo.toUInt16.toUInt32 := (UInt8.toUInt32_toUInt16 lo).symm
  have hbyte : hiByteToWord ram s =
      { s with
        r0 :=
          (s.pc ||| s.r0 ||| (s.mem.cell (incUint16 s.ea).toUInt16).toUInt32 <<< 8) <<< 16 >>> 16
        ea := incUint16 s.ea
        pc := (s.pc ||| s.r0) >>> 16 } := rfl
  rw [hbyte, hpc, hr0, UInt32.or_assoc, join_wide, held_word, hlo, held_pc, incUint16_narrow hea]

section Helpers
variable {s : State Ram} (h : s.InRange)

theorem getFromPcB_ram (s : State Ram) : getFromPcB ram s =
    { s with r0 := (s.mem.cell s.pc.toUInt16).toUInt32, ea := s.pc, pc := incUint16 s.pc } := rfl

include h

theorem getFromPcW_ram : getFromPcW ram s =
    { s with
      r0 := s.view.word.toUInt32
      ea := incUint16 s.pc
      pc := (s.view.pc + 2).toUInt32 } := by
  have hload : getFromPcW ram s = hiByteToWord ram
      { s with
        r0 := (s.mem.cell s.pc.toUInt16).toUInt32
        ea := s.pc
        pc := addUint16 s.pc 2 <<< 16 } := rfl
  have hpc : addUint16 s.pc 2 = (s.view.pc + 2).toUInt32 := by
    rw [h.pc_wide]
    exact addUint16_wide s.view.pc 2
  have hheld : addUint16 s.pc 2 <<< 16 = (s.view.pc + 2).toUInt32 <<< 16 := by rw [hpc]
  exact hload.trans (hiByteToWord_ram hheld rfl h.pc)

theorem getFromEaW_ram : getFromEaW ram s =
    { s with
      r0 := (join (s.mem.cell (s.ea.toUInt16 + 1)) (s.mem.cell s.ea.toUInt16)).toUInt32
      ea := incUint16 s.ea } := by
  have hload : getFromEaW ram s = hiByteToWord ram
      { s with r0 := (s.mem.cell s.ea.toUInt16).toUInt32, pc := s.pc <<< 16 } := rfl
  have hheld : s.pc <<< 16 = s.view.pc.toUInt32 <<< 16 := by rw [← h.pc_wide]
  have hword := hload.trans (hiByteToWord_ram hheld rfl h.ea)
  rw [← h.pc_wide] at hword
  exact hword

theorem view_getFromPcB : (getFromPcB ram s).view = { s.view with pc := s.view.pc + 1 } := by
  rw [getFromPcB_ram]
  exact congrArg (fun pc => { s.view with pc := pc }) (incUint16_narrow h.pc)

theorem view_getFromPcW : (getFromPcW ram s).view = { s.view with pc := s.view.pc + 2 } := by
  rw [getFromPcW_ram h]
  exact congrArg (fun pc => { s.view with pc := pc }) (wide_word _)

end Helpers

/-! ## Addresses -/

/-- An index added in page zero. -/
theorem zpageIndex_wide (lo index : UInt8) :
    (lo.toUInt32 + index.toUInt32) &&& ~~~0x100 = (lo + index).toUInt32 := by
  have hlo := lo.toNat_lt
  have hindex := index.toNat_lt
  have hsum : (lo.toUInt32 + index.toUInt32).toNat = lo.toNat + index.toNat := by
    rw [UInt32.toNat_add, byte_toNat, byte_toNat]
    omega
  apply eq_byte
  rw [bic_0x100 (by omega), hsum, UInt8.toNat_add]

theorem absIndex_wide (base : UInt16) (index : UInt8) :
    (base.toUInt32 + index.toUInt32) &&& ~~~0x10000 = (base + index.toUInt16).toUInt32 := by
  have hbase := base.toNat_lt
  have hindex := index.toNat_lt
  have hsum : (base.toUInt32 + index.toUInt32).toNat = base.toNat + index.toNat := by
    rw [UInt32.toNat_add, word_toNat, byte_toNat]
    omega
  apply eq_word
  rw [bic_0x10000 (by omega), hsum, UInt16.toNat_add, UInt8.toNat_toUInt16]

theorem hiByte_wide (w : UInt16) : w.toUInt32 >>> 8 = (hiByte w).toUInt32 := by
  apply eq_byte
  rw [shiftRight_toNat _ 8 (n := 8) rfl, word_toNat, hiByte_toNat]
  rfl

/-- `TestPageBoundary`. -/
theorem flagNotZero_cmp (x y : UInt8) :
    flagNotZero (subs (x.toUInt32 ^^^ y.toUInt32) 0).flags = if y = x then 0 else 1 := by
  have hxor : (x.toUInt32 ^^^ y.toUInt32 == 0) = decide (y = x) := by
    have hzero : (0 : UInt32) = (0 : UInt8).toUInt32 := rfl
    rw [← UInt8.toUInt32_xor, hzero, Bool.eq_iff_iff, beq_iff_eq, decide_eq_true_iff,
      UInt8.toUInt32_inj, UInt8.xor_eq_zero_iff, eq_comm]
  rw [flagNotZero_eq, (subs_zero _).2.1, hxor]
  by_cases heq : y = x
  · rw [decide_eq_true heq, if_pos rfl, if_pos heq]
  · rw [decide_eq_false heq, if_neg Bool.false_ne_true, if_neg heq]

theorem addOpCycles_narrow (n : UInt8) (x : UInt32) : (n.toUInt32 + x).toUInt8 = n + x.toUInt8 := by
  rw [UInt32.toUInt8_add, wide_byte]

section Index
variable {s : State Ram} {base : UInt16} {index : UInt8} {x : UInt32}

theorem addIndexReg_ram (hr0 : s.r0 = base.toUInt32) (hx : x = index.toUInt32) :
    (addIndexReg x s).view = s.view ∧ (addIndexReg x s).ea.toUInt16 = base + index.toUInt16 := by
  refine ⟨rfl, ?_⟩
  change ((s.r0 + x) &&& ~~~0x10000).toUInt16 = _
  rw [hr0, hx, absIndex_wide, wide_word]

theorem addIndexRegTest_ram (hr0 : s.r0 = base.toUInt32) (hx : x = index.toUInt32) :
    (addIndexRegTest x s).view = s.view.spend (crossing base index) ∧
      (addIndexRegTest x s).ea.toUInt16 = base + index.toUInt16 := by
  have hcross :
      (flagNotZero (subs (s.r0 >>> 8 ^^^ ((s.r0 + x) &&& ~~~0x10000) >>> 8) 0).flags).toUInt8 =
      crossing base index := by
    rw [hr0, hx, absIndex_wide, hiByte_wide, hiByte_wide, flagNotZero_cmp, crossing]
    split <;> rfl
  constructor
  · rw [← hcross]
    exact congrArg (fun n => { s.view with cycles := n }) (addOpCycles_narrow s.opcycles _)
  · change ((s.r0 + x) &&& ~~~0x10000).toUInt16 = _
    rw [hr0, hx, absIndex_wide, wide_word]

end Index

/-- The pointer at EffectiveAddr, in page zero. -/
theorem indZPage_ram {s : State Ram} {at0 : UInt8} (hea : s.ea = at0.toUInt32) :
    (indZPage ram s).view = s.view ∧ (indZPage ram s).r0 = (s.view.pointer at0).toUInt32 := by
  have hnext : (s.ea + 1) &&& ~~~0x100 = (at0 + 1).toUInt32 := by
    rw [hea]
    exact zpageIndex_wide at0 1
  have hload : (indZPage ram s).r0 = (s.mem.cell s.ea.toUInt16).toUInt32 |||
      (s.mem.cell ((s.ea + 1) &&& ~~~0x100).toUInt16).toUInt32 <<< 8 := rfl
  refine ⟨rfl, ?_⟩
  rw [hload, hnext, hea, join_wide, UInt8.toUInt16_toUInt32, UInt8.toUInt16_toUInt32]
  rfl

section Modes
variable {s : State Ram} (h : s.InRange)
include h

theorem getFromPcW_r0_ram : (getFromPcW ram s).r0 = s.view.word.toUInt32 :=
  congrArg State.r0 (getFromPcW_ram h)

/-- **Addressing.** The macros find the effective address of the 65c02, and the cycles it takes. -/
theorem getMode_ram (mode : Mode) : (getMode ram mode s).view = s.view.skip mode ∧
    (getMode ram mode s).ea.toUInt16 = s.view.address mode := by
  have hbyte := view_getFromPcB h
  have hword := view_getFromPcW h
  have hr0 := getFromPcW_r0_ram h
  obtain ⟨hpointer, hat⟩ :=
    indZPage_ram (s := getZPage ram s) (Eq.refl (s.mem.cell s.view.pc).toUInt32)
  have hview : (indZPage ram (getZPage ram s)).view = { s.view with pc := s.view.pc + 1 } :=
    hpointer.trans hbyte
  cases mode with
  | imm => exact ⟨hbyte.trans (X86.skip_eq .imm s.view rfl), rfl⟩
  | zpage => exact ⟨hbyte.trans (X86.skip_eq .zpage s.view rfl), UInt8.toUInt16_toUInt32 _⟩
  | zpageX =>
    refine ⟨hbyte.trans (X86.skip_eq .zpageX s.view rfl), ?_⟩
    change (((s.mem.cell s.view.pc).toUInt32 + s.x) &&& ~~~0x100).toUInt16 = _
    rw [h.x_wide, zpageIndex_wide, UInt8.toUInt16_toUInt32]
    rfl
  | zpageY =>
    refine ⟨hbyte.trans (X86.skip_eq .zpageY s.view rfl), ?_⟩
    change (((s.mem.cell s.view.pc).toUInt32 + s.y) &&& ~~~0x100).toUInt16 = _
    rw [h.y_wide, zpageIndex_wide, UInt8.toUInt16_toUInt32]
    rfl
  | abs =>
    refine ⟨hword.trans (X86.skip_eq .abs s.view rfl), ?_⟩
    change (getFromPcW ram s).r0.toUInt16 = _
    rw [hr0, wide_word]
    rfl
  | absX =>
    obtain ⟨hspend, hea⟩ := addIndexRegTest_ram hr0 h.x_wide
    rw [hword] at hspend
    exact ⟨hspend, hea⟩
  | absXStx =>
    obtain ⟨hsame, hea⟩ := addIndexReg_ram hr0 h.x_wide
    exact ⟨(hsame.trans hword).trans (X86.skip_eq .absXStx s.view rfl), hea⟩
  | absY =>
    obtain ⟨hspend, hea⟩ := addIndexRegTest_ram hr0 h.y_wide
    rw [hword] at hspend
    exact ⟨hspend, hea⟩
  | absYSta =>
    obtain ⟨hsame, hea⟩ := addIndexReg_ram hr0 h.y_wide
    exact ⟨(hsame.trans hword).trans (X86.skip_eq .absYSta s.view rfl), hea⟩
  | indX =>
    have hat : (s.mem.cell s.view.pc).toUInt32 + s.x &&& ~~~0x100 =
        (s.mem.cell s.view.pc + s.view.x).toUInt32 := by rw [h.x_wide, zpageIndex_wide]
    obtain ⟨hpointer, hr0⟩ := indZPage_ram (s := { getZPage ram s with
      ea := (s.mem.cell s.view.pc).toUInt32 + s.x &&& ~~~0x100 }) hat
    refine ⟨(hpointer.trans hbyte).trans (X86.skip_eq .indX s.view rfl), ?_⟩
    exact (congrArg UInt32.toUInt16 hr0).trans (wide_word _)
  | indY =>
    obtain ⟨hspend, hea⟩ := addIndexRegTest_ram hat h.y_wide
    rw [hview] at hspend
    exact ⟨hspend, hea⟩
  | indYSta =>
    obtain ⟨hsame, hea⟩ := addIndexReg_ram hat h.y_wide
    exact ⟨(hsame.trans hview).trans (X86.skip_eq .indYSta s.view rfl), hea⟩
  | indZpage =>
    refine ⟨hview.trans (X86.skip_eq .indZpage s.view rfl), ?_⟩
    exact (congrArg UInt32.toUInt16 hat).trans (wide_word _)

end Modes

end Apple2ix.Cpu.Arm
