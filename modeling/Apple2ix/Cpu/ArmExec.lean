import Apple2ix.Cpu.ArmOperations
import Apple2ix.Cpu.X86Exec

/-! Each handler of the ARM core is the instruction of the 65c02, but for one flag of one of
them. -/
namespace Apple2ix.Cpu.Arm
open Cpu Processor
set_option autoImplicit false

/-! ## Branches -/

theorem cbw_narrow (v : UInt8) : (cbw v.toUInt32).toUInt16 = offset v := by
  revert v
  exact forall_uint8 (by decide +kernel)

theorem target_narrow (pc : UInt16) (v : UInt8) :
    ((pc.toUInt32 + cbw v.toUInt32) &&& ~~~0xFF0000).toUInt16 = pc + offset v := by
  have hmask : (~~~0xFF0000 : UInt32).toUInt16 = 0xFFFF := rfl
  have hall : ∀ w : UInt16, w &&& 0xFFFF = w := by
    intro w
    have hw := w.toNat_lt
    rw [← UInt16.toNat_inj, UInt16.toNat_and]
    exact (Nat.and_two_pow_sub_one_eq_mod w.toNat 16).trans (Nat.mod_eq_of_lt hw)
  rw [UInt32.toUInt16_and, hmask, hall, UInt32.toUInt16_add, wide_word, cbw_narrow]

theorem offset_below {v : UInt8} (h : 0x80 ≤ v.toNat) : (offset v).toNat = 0xFF00 + v.toNat := by
  have hall : ∀ v : UInt8, 0x80 ≤ v.toNat → (offset v).toNat = 0xFF00 + v.toNat :=
    forall_uint8 (by decide +kernel)
  exact hall v h

/-- The pages of a target and of the instruction after the branch. A target below address 0 is in
the last page, and the registers say so. -/
theorem target_page (pc : UInt16) (v : UInt8) :
    flagNotZero (subs (((pc.toUInt32 + cbw v.toUInt32) &&& ~~~0xFF0000) >>> 8 ^^^ pc.toUInt32 >>> 8)
      0).flags = if hiByte (pc + offset v) = hiByte pc then 0 else 1 := by
  have hpc : pc.toUInt32.toNat < 0x10000 := pc.toNat_lt
  have hv : v.toUInt32.toNat < 0x100 := v.toNat_lt
  have htarget := target_narrow pc v
  have hrange := target_lt hpc hv
  by_cases hbelow : Below pc.toUInt32 v.toUInt32
  · have hcbw := cbw_toNat hv
    obtain ⟨hsign, hsum⟩ := hbelow
    rw [if_pos hsign] at hcbw
    have htop : 2 ^ 31 ≤ ((pc.toUInt32 + cbw v.toUInt32) &&& ~~~0xFF0000).toNat := by
      apply bic_top
      rw [UInt32.toNat_add]
      omega
    have hpage : hiByte (pc + offset v) ≠ hiByte pc := by
      rw [ne_eq, ← UInt8.toNat_inj, hiByte_toNat, hiByte_toNat, UInt16.toNat_add,
        offset_below hsign]
      rw [word_toNat, byte_toNat] at hsum
      omega
    rw [flagNotZero_eq, (subs_zero _).2.1, if_neg hpage, if_neg]
    rw [beq_iff_eq, UInt32.xor_eq_zero_iff, ← UInt32.toNat_inj, shiftRight_toNat _ 8 (n := 8) rfl,
      shiftRight_toNat _ 8 (n := 8) rfl]
    omega
  · have hwide := narrow_word (hrange.mpr hbelow)
    rw [htarget] at hwide
    rw [← hwide, hiByte_wide, hiByte_wide, flagNotZero_cmp]
    by_cases hpage : hiByte (pc + offset v) = hiByte pc
    · rw [if_pos hpage, if_pos hpage.symm]
    · rw [if_neg hpage, if_neg (Ne.symm hpage)]

/-- `BranchXCycles`, after the operand. -/
theorem view_branchXCycles {t : State Ram} {pc : UInt16} {v : UInt8} (hpc : t.pc = pc.toUInt32)
    (hr0 : t.r0 = v.toUInt32) : (branchXCycles t).view = { t.view with
      pc := pc + offset v
      cycles := t.view.cycles + (if hiByte (pc + offset v) = hiByte pc then 1 else 2) } := by
  have hview : (branchXCycles t).view = { t.view with
      pc := ((t.pc + cbw t.r0) &&& ~~~0xFF0000).toUInt16
      cycles := (t.opcycles.toUInt32 + (1 : UInt32) +
        flagNotZero
          (subs (((t.pc + cbw t.r0) &&& ~~~0xFF0000) >>> 8 ^^^ t.pc >>> 8) 0).flags).toUInt8 } :=
    rfl
  rw [hview, hpc, hr0, target_narrow, target_page, UInt32.add_assoc, addOpCycles_narrow]
  by_cases hpage : hiByte (pc + offset v) = hiByte pc
  · rw [if_pos hpage, if_pos hpage]
    rfl
  · rw [if_neg hpage, if_neg hpage]
    rfl

theorem view_branch {s : State Ram} (h : s.InRange) {taken : State Ram → Bool} {b : Bool}
    (hb : taken (getFromPcB ram s) = b) :
    (branch ram taken s).view = Processor.branch b s.view := by
  have hfetch := view_getFromPcB h
  have hpc : (getFromPcB ram s).pc = (s.view.pc + 1).toUInt32 := by
    have hinc : (getFromPcB ram s).pc = incUint16 s.pc := rfl
    rw [hinc, h.pc_wide, incUint16_wide]
  rw [branch, hb, Processor.branch]
  cases b with
  | false => exact hfetch
  | true =>
    have htaken := view_branchXCycles hpc (v := s.mem.cell s.view.pc) rfl
    rw [hfetch] at htaken
    exact htaken

/-! ## The stack -/

theorem word_lt (w : UInt16) : w.toUInt32.toNat < 0x10000 := w.toNat_lt

section Rotated
variable (w : UInt16)

theorem ror8_hi : (ror w.toUInt32 8).toUInt8 = hiByte w := by
  have hw := w.toNat_lt
  have hsmall : w.toNat / 2 ^ 8 < 2 ^ 24 := by omega
  rw [← UInt8.toNat_inj, UInt32.toNat_toUInt8, hiByte_toNat, ror, UInt32.toNat_or,
    shiftRight_toNat _ 8 (n := 8) rfl, shiftLeft_toNat _ (32 - 8) (n := 24) rfl, word_toNat,
    Nat.or_mod_two_pow]
  have hlow : w.toNat * 2 ^ 24 % 2 ^ 32 % 2 ^ 8 = 0 := by omega
  rw [hlow, Nat.or_zero]
  omega

theorem ror8_lo : (ror w.toUInt32 8 >>> 24).toUInt8 = loByte w := by
  have hw := w.toNat_lt
  rw [← UInt8.toNat_inj, UInt32.toNat_toUInt8, loByte_toNat, shiftRight_toNat _ 24 (n := 24) rfl,
    ror,
    UInt32.toNat_or, shiftRight_toNat _ 8 (n := 8) rfl, shiftLeft_toNat _ (32 - 8) (n := 24) rfl,
    word_toNat, ← Nat.shiftRight_eq_div_pow, Nat.shiftRight_or_distrib, Nat.shiftRight_eq_div_pow,
    Nat.shiftRight_eq_div_pow]
  have hhigh : w.toNat / 2 ^ 8 / 2 ^ 24 = 0 := by omega
  rw [hhigh, Nat.zero_or]
  omega

/-- The word that `op_JSR` pushes, which it has shifted to the top. -/
theorem ror24_pred : ror ((w.toUInt32 - 1) <<< 16) 24 = ror (w - 1).toUInt32 8 := by
  have hw := w.toNat_lt
  have hpred : (w - 1).toNat = (2 ^ 16 - 1 + w.toNat) % 2 ^ 16 := UInt16.toNat_sub w 1
  have hwide : (w.toUInt32 - 1).toNat = (2 ^ 32 - 1 + w.toNat) % 2 ^ 32 := UInt32.toNat_sub _ 1
  have hhigh : (w.toUInt32 - 1) <<< 16 >>> 24 = (w - 1).toUInt32 >>> 8 := by
    rw [← UInt32.toNat_inj, shiftRight_toNat _ 24 (n := 24) rfl, shiftLeft_toNat _ 16 (n := 16) rfl,
      shiftRight_toNat _ 8 (n := 8) rfl, word_toNat, hwide, hpred]
    omega
  have hlow : (w.toUInt32 - 1) <<< 16 <<< (32 - 24) = (w - 1).toUInt32 <<< (32 - 8) := by
    rw [← UInt32.toNat_inj, shiftLeft_toNat _ (32 - 24) (n := 8) rfl,
      shiftLeft_toNat _ 16 (n := 16) rfl, shiftLeft_toNat _ (32 - 8) (n := 24) rfl, word_toNat,
        hwide, hpred]
    omega
  rw [ror, ror, hhigh, hlow]

/-- The first byte of the page of a pointer that ends in FF. -/
theorem back_wide : (w.toUInt32 - 0xFF) <<< 16 >>> 16 = (w - 0xFF).toUInt32 := by
  have hw := w.toNat_lt
  have hback : (w - 0xFF).toNat = (2 ^ 16 - 0xFF + w.toNat) % 2 ^ 16 := UInt16.toNat_sub w 0xFF
  have hwide : (w.toUInt32 - 0xFF).toNat = (2 ^ 32 - 0xFF + w.toNat) % 2 ^ 32 :=
    UInt32.toNat_sub _ 0xFF
  apply eq_word
  rw [shiftRight_toNat _ 16 (n := 16) rfl, shiftLeft_toNat _ 16 (n := 16) rfl, hwide, hback]
  omega

/-- An index added to a word and cut to 16 bits. -/
theorem cut_wide (x : UInt8) :
    (w.toUInt32 + x.toUInt32) <<< 16 >>> 16 = (w + x.toUInt16).toUInt32 := by
  have hw := w.toNat_lt
  have hx := x.toNat_lt
  apply eq_word
  rw [shiftRight_toNat _ 16 (n := 16) rfl, shiftLeft_toNat _ 16 (n := 16) rfl, UInt32.toNat_add,
    UInt16.toNat_add, UInt8.toNat_toUInt16, word_toNat, byte_toNat]
  omega

end Rotated

-- states are compared field by field, which must not evaluate what the others hold
attribute [local irreducible] UInt32.shiftLeft UInt32.shiftRight getFromPcW getFromEaW

section Stack
variable {s : State Ram} (h : s.InRange)
include h

theorem view_push (w : UInt32) : (push ram w s).view = Processor.push w.toUInt8 s.view :=
  congrArg (fun sp =>
    { s.view with ram := s.view.ram.write (stackCell s.view.sp) w.toUInt8, sp := sp })
    (decUint8_narrow h.sp)

theorem view_pop : (pop ram s).2.view = s.view.drop ∧ (pop ram s).1 = s.view.top.toUInt32 := by
  have hsp := incUint8_narrow h.sp
  have hcell : (pop ram s).1 = (s.mem.cell (stackCell (incUint8 s.sp).toUInt8)).toUInt32 := rfl
  constructor
  · exact congrArg (fun sp => { s.view with sp := sp }) hsp
  · rw [hcell, hsp]
    rfl

/-- A word that is rotated to have its high byte first. -/
theorem view_pushR0 {w : UInt16} (hhi : s.r0.toUInt8 = hiByte w)
    (hlo : (s.r0 >>> 24).toUInt8 = loByte w) :
    (pushR0 ram s).view = Processor.pushWord w s.view := by
  have hfirst := view_push h s.r0
  have hrange : ({ push ram s.r0 s with r0 := s.r0 >>> 24 } : State Ram).InRange :=
    scratch_inRange (push_inRange ram s.r0 h) _ s.apsr s.opcycles
  have hsecond := view_push hrange (s.r0 >>> 24)
  have hview : ({ push ram s.r0 s with r0 := s.r0 >>> 24 } : State Ram).view =
    (push ram s.r0 s).view := rfl
  rw [hview, hfirst, hhi, hlo] at hsecond
  exact hsecond

theorem view_pushStatus : (push ram (encodeFlags s).r0 (encodeFlags s)).view =
    Processor.push s.view.statusByte s.view := by
  have hr0 : (encodeFlags s).r0 = s.view.statusByte.toUInt32 :=
    congrArg UInt8.toUInt32 (encode_status flagArm s.f.toUInt8)
  rw [view_push (encodeFlags_inRange h), hr0, wide_byte]
  rfl

theorem view_popFlags : (popFlags ram s).view = s.view.pullFlags := by
  obtain ⟨hdrop, htop⟩ := view_pop h
  have hf : ((flagArm.decode (pop ram s).1.toUInt8).toUInt32 ||| flagArm.b.toUInt32 |||
      flagArm.x.toUInt32).toUInt8 = flagArm.decode s.view.top ||| flagArm.b ||| flagArm.x := by
    rw [orr_byte, orr_byte, wide_byte, htop, wide_byte]
  have hstatus : flagArm.status (flagArm.decode s.view.top ||| flagArm.b ||| flagArm.x) =
      { flag6502.status s.view.top with b := true, x := true } := by
    rw [(status_set _).2.2.2.2, (status_set _).2.2.2.1, status_decode isBits_arm]
  have hpull : (popFlags ram s).view = { (pop ram s).2.view with
      p :=
        flagArm.status ((flagArm.decode (pop ram s).1.toUInt8).toUInt32 ||| flagArm.b.toUInt32 |||
        flagArm.x.toUInt32).toUInt8 } := rfl
  rw [hpull, hf, hstatus, hdrop]
  rfl

/-- A word from the stack. -/
theorem view_popPc : (popPc ram s).view = { s.view with
    pc := s.view.topWord
    sp := s.view.sp + 1 + 1 } := by
  obtain ⟨hdrop, htop⟩ := view_pop h
  obtain ⟨hdrops, hhi⟩ := view_pop (pop_inRange ram h)
  have hpc : ((pop ram (pop ram s).2).1 <<< 8 ||| (pop ram s).1).toUInt16 = s.view.topWord := by
    rw [hhi, htop, hdrop, UInt32.or_comm, join_wide, wide_word]
    rfl
  have hpop : (popPc ram s).view = { (pop ram (pop ram s).2).2.view with
      pc := ((pop ram (pop ram s).2).1 <<< 8 ||| (pop ram s).1).toUInt16 } := rfl
  rw [hpop, hpc, hdrops, hdrop]
  rfl

theorem view_opPla : (opPla ram s).view = loadA s.view.top s.view.drop := by
  obtain ⟨hdrop, htop⟩ := view_pop h
  have hpla : opPla ram s = orFlags (pop ram s).1 { (pop ram s).2 with a := (pop ram s).1 } := rfl
  have hview : ({ (pop ram s).2 with a := (pop ram s).1 } : State Ram).view =
      { (pop ram s).2.view with a := (pop ram s).1.toUInt8 } := rfl
  rw [hpla, view_orFlags, hview, hdrop, htop, wide_byte]
  rfl

theorem view_opPlx : (opPlx ram s).view = loadX s.view.top s.view.drop := by
  obtain ⟨hdrop, htop⟩ := view_pop h
  have hplx : opPlx ram s = orFlags (pop ram s).1 { (pop ram s).2 with x := (pop ram s).1 } := rfl
  have hview : ({ (pop ram s).2 with x := (pop ram s).1 } : State Ram).view =
      { (pop ram s).2.view with x := (pop ram s).1.toUInt8 } := rfl
  rw [hplx, view_orFlags, hview, hdrop, htop, wide_byte]
  rfl

theorem view_opPly : (opPly ram s).view = loadY s.view.top s.view.drop := by
  obtain ⟨hdrop, htop⟩ := view_pop h
  have hply : opPly ram s = orFlags (pop ram s).1 { (pop ram s).2 with y := (pop ram s).1 } := rfl
  have hview : ({ (pop ram s).2 with y := (pop ram s).1 } : State Ram).view =
      { (pop ram s).2.view with y := (pop ram s).1.toUInt8 } := rfl
  rw [hply, view_orFlags, hview, hdrop, htop, wide_byte]
  rfl

end Stack

/-! ## Jumps -/

section FlagBits
variable (s : State Ram)

theorem view_breakFlags : (orrF flagArm.x.toUInt32 (orrF flagArm.b.toUInt32 s)).view =
    { s.view with p := { s.view.p with b := true, x := true } } := by
  have hf : (s.f ||| flagArm.b.toUInt32 ||| flagArm.x.toUInt32).toUInt8 =
      s.f.toUInt8 ||| flagArm.b ||| flagArm.x := by rw [orr_byte, orr_byte]
  have hstatus : flagArm.status (s.f.toUInt8 ||| flagArm.b ||| flagArm.x) =
      { flagArm.status s.f.toUInt8 with b := true, x := true } := by
    rw [(status_set _).2.2.2.2, (status_set _).2.2.2.1]
  rw [← hf] at hstatus
  exact congrArg (fun p => { s.view with p := p }) hstatus

theorem view_disable : (orrF flagArm.i.toUInt32 s).view =
    { s.view with p := { s.view.p with i := true } } := by
  have hstatus := (status_set s.f.toUInt8).2.2.1
  rw [← orr_byte] at hstatus
  exact congrArg (fun p => { s.view with p := p }) hstatus

end FlagBits

theorem last_byte (w : UInt16) : (w.toUInt32 <<< 24) ^^^ 0xFF000000 = 0 ↔ loByte w = 0xFF := by
  have htop : (0xFF000000 : UInt32) = top 0xFF := by rw [← UInt32.toNat_inj, top_toNat]; rfl
  rw [shiftLeft_top, htop, UInt32.xor_eq_zero_iff, ← UInt32.toNat_inj, ← UInt8.toNat_inj, top_toNat,
    top_toNat, UInt32.toNat_toUInt8, word_toNat, loByte_toNat]
  omega

/-- The high byte of a pointer comes from the page of the low one. -/
theorem view_jmpSpecial {t : State Ram} {w : UInt16} (hr0 : t.r0 = w.toUInt32) :
    (jmpSpecial ram t).view =
      { t.view with pc := join (t.mem.cell (w - 0xFF)) (t.mem.cell w) } := by
  have hjmp : jmpSpecial ram t =
      let first := (t.r0 - 0xFF) <<< 16 >>> 16
      let last := (first + 0xFF) &&& ~~~0x10000
      let word := (t.mem.cell first.toUInt16).toUInt32 <<< 8 ||| (t.mem.cell last.toUInt16).toUInt32
      { t with pc := word, ea := last, r0 := word } := rfl
  have hlast : ((w - 0xFF).toUInt32 + 0xFF) &&& ~~~0x10000 = w.toUInt32 := by
    have hindex := absIndex_wide (w - 0xFF) 0xFF
    have hback : w - 0xFF + (0xFF : UInt8).toUInt16 = w := UInt16.sub_add_cancel w 0xFF
    rw [hback] at hindex
    exact hindex
  rw [hjmp, hr0, back_wide]
  dsimp only
  rw [hlast, wide_word, wide_word, UInt32.or_comm, join_wide]
  exact congrArg (fun pc => { t.view with pc := pc }) (wide_word _)

section Jumps
variable {s : State Ram} (h : s.InRange)
include h

theorem view_opRti : (opRti ram s).view = Processor.rti s.view := by
  have hsp : ∀ sp : UInt8, sp + 1 + 1 = sp + 2 := fun sp => by rw [UInt8.add_assoc]; rfl
  have hrti := view_popPc (popFlags_inRange ram h)
  rw [view_popFlags h, hsp] at hrti
  exact hrti

theorem view_opRts : (opRts ram s).view =
    { s.view with pc := s.view.topWord + 1, sp := s.view.sp + 2 } := by
  have hsp : ∀ sp : UInt8, sp + 1 + 1 = sp + 2 := fun sp => by rw [UInt8.add_assoc]; rfl
  have hpop := view_popPc h
  have hpc := incUint16_narrow (popPc_inRange ram h).pc
  have hview : (opRts ram s).view =
      { (popPc ram s).view with pc := (incUint16 (popPc ram s).pc).toUInt16 } := rfl
  have hpc' : (popPc ram s).pc.toUInt16 = s.view.topWord := congrArg Processor.pc hpop
  rw [hview, hpc, hpc', hpop, hsp]

theorem view_interruptVector : (interruptVector ram s).view =
    { s.view with pc := join (s.view.ram.cell 0xFFFF) (s.view.ram.cell 0xFFFE) } := by
  have hrange : ({ s with ea := 0xFFFE } : State Ram).InRange := setEa_inRange h (by decide)
  have hnext : (0xFFFE : UInt32).toUInt16 + 1 = 0xFFFF := by decide
  have hword := getFromEaW_ram hrange
  have hvector : interruptVector ram s = { getFromEaW ram { s with ea := 0xFFFE } with
      pc := (getFromEaW ram { s with ea := 0xFFFE }).r0 } := rfl
  rw [hvector, hword]
  dsimp only
  rw [hnext]
  exact congrArg (fun pc => { s.view with pc := pc }) (wide_word _)

theorem view_opBrk : (opBrk ram s).view = Processor.brk s.view := by
  let t : State Ram := { s with pc := incUint16 s.pc, r0 := ror (incUint16 s.pc) 8 }
  let u := orrF flagArm.x.toUInt32 (orrF flagArm.b.toUInt32 (pushR0 ram t))
  let v := orrF flagArm.i.toUInt32 (push ram (encodeFlags u).r0 (encodeFlags u))
  have ht : t.InRange := scratch_inRange (setPc_inRange h (incUint16_lt h.pc)) _ s.apsr s.opcycles
  have hu : u.InRange := orrF_inRange (orrF_inRange (pushR0_inRange ram ht) (byte_lt _)) (byte_lt _)
  have hv : v.InRange := orrF_inRange (status_inRange ram hu) (byte_lt _)
  have hpc : incUint16 s.pc = (s.view.pc + 1).toUInt32 := by rw [h.pc_wide, incUint16_wide]
  have htview : t.view = { s.view with pc := s.view.pc + 1 } :=
    congrArg (fun pc => { s.view with pc := pc }) (incUint16_narrow h.pc)
  have hr0 : t.r0 = ror (s.view.pc + 1).toUInt32 8 := by rw [← hpc]
  have hhi : t.r0.toUInt8 = hiByte (s.view.pc + 1) := by rw [hr0, ror8_hi]
  have hlo : (t.r0 >>> 24).toUInt8 = loByte (s.view.pc + 1) := by rw [hr0, ror8_lo]
  have hbrk : opBrk ram s = interruptVector ram v := rfl
  have hvview : v.view = { Processor.push u.view.statusByte u.view with
      p := { u.view.p with i := true } } := by
    rw [view_disable, view_pushStatus hu]
    rfl
  rw [hbrk, view_interruptVector hv, hvview, view_breakFlags, view_pushR0 ht hhi hlo, htview]
  rfl

theorem view_opJmpAbs : (opJmpAbs ram s).view = { s.view with pc := s.view.word } := by
  have hjmp : opJmpAbs ram s = { getFromPcW ram s with
      ea := (getFromPcW ram s).r0, pc := (getFromPcW ram s).r0 } := rfl
  rw [hjmp, getFromPcW_ram h]
  exact congrArg (fun pc => { s.view with pc := pc }) (wide_word _)

theorem view_opJsr : (opJsr ram s).view =
    { Processor.pushWord (s.view.pc + 1) s.view with pc := s.view.word } := by
  let t : State Ram := { s with
    r0 := ror (s.view.pc + 1).toUInt32 8
    ea := s.view.word.toUInt32
    pc := (s.view.pc + 2).toUInt32 }
  have ht : t.InRange := scratch_inRange (setPc_inRange (setEa_inRange h (word_lt _)) (word_lt _))
    _ s.apsr s.opcycles
  have hback : s.view.pc + 2 - 1 = s.view.pc + 1 := by
    have htwo : s.view.pc + 1 + 1 = s.view.pc + 2 := UInt16.add_assoc _ _ _
    rw [← htwo, UInt16.add_sub_cancel]
  have hjsr : opJsr ram s =
      let u := getAbs ram s
      let v := pushR0 ram { u with r0 := ror ((u.pc - 1) <<< 16) 24 }
      { v with pc := v.ea } := rfl
  have habs : getAbs ram s = { s with
      r0 := s.view.word.toUInt32
      ea := s.view.word.toUInt32
      pc := (s.view.pc + 2).toUInt32 } := by rw [getAbs, getFromPcW_ram h, eaFromR0]
  have hpushed : opJsr ram s = { pushR0 ram t with pc := t.ea } := by
    rw [hjsr, habs]
    dsimp only
    rw [ror24_pred, hback]
    rfl
  have hview : ({ pushR0 ram t with pc := t.ea } : State Ram).view =
      { (pushR0 ram t).view with pc := s.view.word.toUInt32.toUInt16 } := rfl
  rw [hpushed, hview, view_pushR0 ht (ror8_hi _) (ror8_lo _), wide_word]
  rfl

theorem view_opJmpAbsIndX : (opJmpAbsIndX ram s).view = Processor.jmpAbsIndX s.view := by
  let t : State Ram := { s with
    r0 := s.x
    ea := (s.view.word + s.view.x.toUInt16).toUInt32
    pc := (s.view.pc + 2).toUInt32 }
  have ht : t.InRange := scratch_inRange (setPc_inRange (setEa_inRange h (word_lt _)) (word_lt _))
    _ s.apsr s.opcycles
  have hjmp : opJmpAbsIndX ram s =
      let u := getFromPcW ram s
      let v := getFromEaW ram { u with ea := (u.r0 + u.x) <<< 16 >>> 16, r0 := u.x }
      { v with pc := v.r0 } := rfl
  have hload : opJmpAbsIndX ram s = { getFromEaW ram t with pc := (getFromEaW ram t).r0 } := by
    have hcut : (s.view.word.toUInt32 + s.x) <<< 16 >>> 16 =
        (s.view.word + s.view.x.toUInt16).toUInt32 := by rw [h.x_wide, cut_wide]
    rw [hjmp, getFromPcW_ram h]
    dsimp only
    rw [hcut]
  have hea : t.ea.toUInt16 = s.view.word + s.view.x.toUInt16 := wide_word _
  rw [hload, getFromEaW_ram ht]
  dsimp only
  rw [hea]
  exact congrArg (fun pc => { s.view with pc := pc }) (wide_word _)

theorem view_opJmpInd : (opJmpInd ram s).view = Processor.jmpInd s.view := by
  have hr0 : (getFromPcW ram s).r0 = s.view.word.toUInt32 := congrArg State.r0 (getFromPcW_ram h)
  have hview := view_getFromPcW h
  have hload : (getFromPcW ram s).mem = s.mem := congrArg Processor.ram hview
  rw [Processor.jmpInd, X86.page_wrap, opJmpInd]
  dsimp only
  by_cases hlast : loByte s.view.word = 0xFF
  · rw [hr0, if_pos ((last_byte s.view.word).mpr hlast), if_pos hlast, view_jmpSpecial hr0, hview,
      hload]
    rfl
  · let t : State Ram := { getFromPcW ram s with ea := s.view.word.toUInt32 }
    have ht : t.InRange := setEa_inRange (getFromPcW_inRange ram h) (word_lt _)
    have hload : getFromMemW ram s.view.word.toUInt32 (getFromPcW ram s) = getFromEaW ram t := rfl
    have htview : t.view = { s.view with pc := s.view.pc + 2 } := hview
    have hea : t.ea.toUInt16 = s.view.word := wide_word _
    have hmem : t.mem = s.mem := congrArg Processor.ram htview
    have hjump : ∀ (u : State Ram) (pc ea : UInt32),
        ({ u with pc := pc, ea := ea } : State Ram).view =
        { u.view with pc := pc.toUInt16 } := fun _ _ _ => rfl
    have hword : (getFromEaW ram t).view = { t.view with pc := t.view.pc } := by
      rw [getFromEaW_ram ht]
      rfl
    have hpc : (getFromEaW ram t).r0.toUInt16 =
        join (s.mem.cell (s.view.word + 1)) (s.mem.cell s.view.word) := by
      rw [getFromEaW_ram ht]
      dsimp only
      rw [wide_word, hea, hmem]
    rw [hr0, if_neg fun hff => hlast ((last_byte s.view.word).mp hff), if_neg hlast, hload, hjump,
      hpc,
      hword, htview]
    rfl

end Jumps

/-! ## Handlers -/

section Modes
variable (arch : Arch) (mode : Mode) {s : State Ram} (h : s.InRange)
include h

theorem getMode_view : (getMode ram mode s).view = s.view.skip mode := (getMode_ram h mode).1

theorem getMode_ea : (getMode ram mode s).ea.toUInt16 = s.view.address mode :=
  (getMode_ram h mode).2

theorem getMode_byte : (getMode ram mode s).byte = s.view.operand mode := by
  have hmem : (getMode ram mode s).mem = s.mem := congrArg Processor.ram (getMode_view mode h)
  rw [State.byte, getMode_ea mode h, hmem]
  rfl

theorem getMode_a : (getMode ram mode s).view.a = s.view.a :=
  (congrArg Processor.a (getMode_view mode h) :)

theorem getMode_x : (getMode ram mode s).view.x = s.view.x :=
  (congrArg Processor.x (getMode_view mode h) :)

theorem getMode_y : (getMode ram mode s).view.y = s.view.y :=
  (congrArg Processor.y (getMode_view mode h) :)

theorem view_compareMode {reg : UInt32} {value : UInt8} (hreg : reg.toUInt8 = value) :
    (compare ram reg (getMode ram mode s)).view =
      Processor.compare value (s.view.operand mode) (s.view.skip mode) := by
  rw [view_compare, getMode_view mode h, getMode_byte mode h, hreg]

theorem view_storeMode {w : UInt32} {value : UInt8} (hvalue : w.toUInt8 = value) :
    (doStore ram w (getMode ram mode s)).view =
      storeCell value (s.view.address mode) (s.view.skip mode) := by
  rw [view_doStore, getMode_view mode h, getMode_ea mode h, hvalue]

/-- An operation on the operand. -/
theorem view_operandMode {f : State Ram → State Ram} (g : UInt8 → Processor → Processor)
    (hf : ∀ t : State Ram, (f t).view = g t.byte t.view) :
    (f (getMode ram mode s)).view = g (s.view.operand mode) (s.view.skip mode) := by
  rw [hf, getMode_view mode h, getMode_byte mode h]

/-- An operation on the cell at the effective address. -/
theorem view_cellMode {f : State Ram → State Ram} (g : UInt16 → Processor → Processor)
    (hf : ∀ t : State Ram, (f t).view = g t.ea.toUInt16 t.view) :
    (f (getMode ram mode s)).view = g (s.view.address mode) (s.view.skip mode) := by
  rw [hf, getMode_view mode h, getMode_ea mode h]

/-- An operation that needs digits in decimal mode, on the operand. -/
theorem view_decimalMode {f : State Ram → State Ram} {g : UInt8 → Processor → Processor}
    (hf : ∀ t : State Ram, t.InRange → (t.view.p.d = true → IsBcd t.view.a ∧ IsBcd t.byte) →
      (f t).view = g t.byte t.view)
    (hbcd : s.view.p.d = true → IsBcd s.view.a ∧ IsBcd (s.view.operand mode)) :
    (f (getMode ram mode s)).view = g (s.view.operand mode) (s.view.skip mode) := by
  have hview := getMode_view mode h
  have hd : (getMode ram mode s).view.p.d = s.view.p.d := (congrArg (fun t => t.p.d) hview :)
  have hdigits : (getMode ram mode s).view.p.d = true →
      IsBcd (getMode ram mode s).view.a ∧ IsBcd (getMode ram mode s).byte := by
    rw [hd, getMode_a mode h, getMode_byte mode h]
    exact hbcd
  rw [hf _ (getMode_inRange ram mode h) hdigits, hview, getMode_byte mode h]

/-- An operation on a byte of memory. -/
theorem view_modifyMode {f : OnReg Ram} {g : Shift}
    (hf : ∀ v t, State.InRange t → t.apsr = (getMode ram mode s).apsr → Does f g v t) :
    (modify ram f (getMode ram mode s)).view =
      onCell g (s.view.address mode) (s.view.skip mode) := by
  have hrange := getFromEaB_inRange ram (getMode_inRange ram mode h)
  rw [view_modify (hf _ _ hrange rfl), getMode_view mode h, getMode_ea mode h]

end Modes

section Decimal
variable (arch : Arch) {s : State Ram} (h : s.InRange)
  (hbcd : s.view.p.d = true → IsBcd s.view.a ∧ IsBcd s.byte)
include h hbcd

theorem view_adc : (doAdcB arch ram s).view = Processor.adc s.byte s.view := by
  rw [Processor.adc]
  cases hdec : s.view.p.d with
  | false => exact view_doAdcB arch h.a_wide hdec
  | true =>
    obtain ⟨ha, hv⟩ := hbcd hdec
    rw [if_pos rfl, doAdcB, if_pos ((has_eq s flagArm.d).trans hdec)]
    exact view_opAdcDec arch s h.a ha hv

theorem view_sbc : (doSbcB arch ram s).view = Processor.sbc s.byte s.view := by
  rw [Processor.sbc]
  cases hdec : s.view.p.d with
  | false => exact view_doSbcB arch h.a_wide hdec
  | true =>
    obtain ⟨ha, hv⟩ := hbcd hdec
    rw [if_pos rfl, doSbcB, if_pos ((has_eq s flagArm.d).trans hdec)]
    exact view_opSbcDec arch s h.a ha hv

end Decimal

section Registers
variable (arch : Arch) (s : State Ram)

theorem view_opBitImm (h : s.InRange) : (opBitImm arch ram s).view =
    testZero (s.view.operand .imm) (s.view.skip .imm) := by
  have hbit := view_zeroAnd arch (getFromEaB ram (getMode ram .imm s)) (getMode ram .imm s).byte
  have hload : (getFromEaB ram (getMode ram .imm s)).view = (getMode ram .imm s).view := rfl
  rw [hload, getMode_view .imm h, getMode_byte .imm h] at hbit
  exact hbit

/-- Single flags. -/
theorem view_bicF {mask : UInt8} {p : Status} (h : flagArm.status (s.f.toUInt8 &&& ~~~mask) = p) :
    (bicF mask s).view = { s.view with p := p } := by
  rw [← bic_byte] at h
  exact congrArg (fun p => { s.view with p := p }) h

theorem view_orrF {mask : UInt8} {p : Status} (h : flagArm.status (s.f.toUInt8 ||| mask) = p) :
    (orrF mask.toUInt32 s).view = { s.view with p := p } := by
  rw [← orr_byte] at h
  exact congrArg (fun p => { s.view with p := p }) h

end Registers

section Run
variable (arch : Arch)

open Processor in
/-- The handlers of the instructions that work on data; `asl` of a byte of memory has a lemma of its
own. -/
theorem run_data {op : Op} (hdata : op.isData = true) {s : State Ram} (h : s.InRange)
    (hapsr : s.apsr.c = false) (hbcd : s.view.Bcd op) (hop : ∀ m, op ≠ .asl m) :
    (run arch ram op s).view = s.view.exec op := by
  cases op with
  | adc m => exact view_decimalMode m h (fun t => view_adc arch) (hbcd m (.inl rfl))
  | sbc m => exact view_decimalMode m h (fun t => view_sbc arch) (hbcd m (.inr rfl))
  | and m => exact view_operandMode m h (fun v t => loadA (t.a &&& v) t) (view_doAnd arch)
  | eor m => exact view_operandMode m h (fun v t => loadA (t.a ^^^ v) t) view_doEor
  | ora m => exact view_operandMode m h (fun v t => loadA (t.a ||| v) t) view_doOra
  | bit m => exact view_operandMode m h testBits (view_doBit arch)
  | bitImm => exact view_opBitImm arch s h
  | cmp m => exact view_compareMode m h (getMode_a m h)
  | cpx m => exact view_compareMode m h (getMode_x m h)
  | cpy m => exact view_compareMode m h (getMode_y m h)
  | lda m => exact view_operandMode m h loadA view_doLda
  | ldx m => exact view_operandMode m h loadX view_doLdx
  | ldy m => exact view_operandMode m h loadY view_doLdy
  -- a byte of memory, or a register
  | asl m => exact absurd rfl (hop m)
  | aslAcc => exact view_modifyAcc (doAsl_does _ s hapsr) h.a_wide
  | lsr m => exact view_modifyMode m h fun v t _ _ => doLsr_does arch v t
  | lsrAcc => exact view_modifyAcc (doLsr_does arch _ s) h.a_wide
  | rol m => exact view_modifyMode m h fun v t ht _ => doRol_does arch v t ht.f
  | rolAcc => exact view_modifyAcc (doRol_does arch _ s h.f) h.a_wide
  | ror m => exact view_modifyMode m h fun v t _ _ => doRor_does arch v t
  | rorAcc => exact view_modifyAcc (doRor_does arch _ s) h.a_wide
  | dec m => exact view_modifyMode m h fun v t _ _ => doDec_does v t
  | dea => exact view_modifyAcc (doDec_does _ s) h.a_wide
  | dex => exact view_modifyX (doDec_does _ s) h.x_wide
  | dey => exact view_modifyY (doDec_does _ s) h.y_wide
  | inc m => exact view_modifyMode m h fun v t _ _ => doInc_does v t
  | ina => exact view_modifyAcc (doInc_does _ s) h.a_wide
  | inx => exact view_modifyX (doInc_does _ s) h.x_wide
  | iny => exact view_modifyY (doInc_does _ s) h.y_wide
  | sta m => exact view_storeMode m h (getMode_a m h)
  | stx m => exact view_storeMode m h (getMode_x m h)
  | sty m => exact view_storeMode m h (getMode_y m h)
  | stz m => exact view_storeMode m h rfl
  | trb m =>
    exact view_cellMode m h
      (fun ea t => storeCell (t.ram.cell ea &&& ~~~t.a) ea (testZero (t.ram.cell ea) t))
      (view_doTrb arch)
  | tsb m =>
    exact view_cellMode m h
      (fun ea t => storeCell (t.ram.cell ea ||| t.a) ea (testZero (t.ram.cell ea) t))
      (view_doTsb arch)
  | tax => exact view_orFlags { s with x := s.a } s.a
  | tay => exact view_orFlags { s with y := s.a } s.a
  | tsx => exact view_orFlags { s with x := s.sp } s.sp
  | txa => exact view_orFlags { s with a := s.x } s.x
  | txs => rfl
  | tya => exact view_orFlags { s with a := s.y } s.y
  | bcc | bcs | beq | bmi | bne | bpl | bra | bvc | bvs => cases hdata
  | clc | cld | cli | clv | sec | sed | sei => cases hdata
  | brk | jmpAbs | jmpInd | jmpAbsIndX | jsr | rti | rts => cases hdata
  | pha | php | phx | phy | pla | plp | plx | ply => cases hdata
  | bbr | bbs | rmb | smb | nop | stp65c02 | unk65c02 | wai65c02 => cases hdata

/-- The handlers of the other instructions: branches, single flags, jumps and the stack. -/
theorem run_control {op : Op} (hdata : op.isData = false) {s : State Ram} (h : s.InRange) :
    (run arch ram op s).view = s.view.exec op := by
  cases op with
  | bcc => exact view_branch h (congrArg (!·) (has_eq _ flagArm.c))
  | bcs => exact view_branch h (has_eq _ flagArm.c)
  | beq => exact view_branch h (has_eq _ flagArm.z)
  | bmi => exact view_branch h (has_eq _ flagArm.n)
  | bne => exact view_branch h (congrArg (!·) (has_eq _ flagArm.z))
  | bpl => exact view_branch h (congrArg (!·) (has_eq _ flagArm.n))
  | bra => exact view_branch h rfl
  | bvc => exact view_branch h (congrArg (!·) (has_eq _ flagArm.v))
  | bvs => exact view_branch h (has_eq _ flagArm.v)
  | clc => exact view_bicF s (status_bic _).1
  | cld => exact view_bicF s (status_bic _).2.1
  | cli => exact view_bicF s (status_bic _).2.2.1
  | clv => exact view_bicF s (status_bic _).2.2.2
  | sec => exact view_orrF s (status_set _).1
  | sed => exact view_orrF s (status_set _).2.1
  | sei => exact view_orrF s (status_set _).2.2.1
  | brk => exact view_opBrk h
  | jmpAbs => exact view_opJmpAbs h
  | jmpInd => exact view_opJmpInd h
  | jmpAbsIndX => exact view_opJmpAbsIndX h
  | jsr => exact view_opJsr h
  | rti => exact view_opRti h
  | rts => exact view_opRts h
  | pha => exact view_push h s.a
  | php => exact view_pushStatus h
  | phx => exact view_push h s.x
  | phy => exact view_push h s.y
  | pla => exact view_opPla h
  | plp => exact view_popFlags h
  | plx => exact view_opPlx h
  | ply => exact view_opPly h
  | bbr | bbs | rmb | smb | nop | stp65c02 | unk65c02 | wai65c02 => rfl
  | _ => cases hdata

/-- A handler, entered with the flags of the host clear, does what the instruction does. -/
theorem run_ram (op : Op) {s : State Ram} (h : s.InRange) (hapsr : s.apsr.c = false)
    (hbcd : s.view.Bcd op) (hop : ∀ m, op ≠ .asl m) :
    (run arch ram op s).view = s.view.exec op := by
  cases hdata : op.isData with
  | true => exact run_data arch hdata h hapsr hbcd hop
  | false => exact run_control arch hdata h

/-- The modes that compare the pages of an address, which sets the carry of the host. -/
def tests : Mode → Bool
  | .absX | .absY | .indY => true
  | _ => false

theorem addIndexRegTest_carry (index : UInt32) (s : State Ram) :
    (addIndexRegTest index s).apsr.c = true :=
  (subs_zero (s.r0 >>> 8 ^^^ ((s.r0 + index) &&& ~~~0x10000) >>> 8)).2.2

theorem getMode_carry {s : State Ram} (h : s.InRange) (mode : Mode) (hapsr : s.apsr.c = false) :
    (getMode ram mode s).apsr.c = tests mode := by
  have hword : (getFromPcW ram s).apsr.c = false :=
    (congrArg (fun t => t.apsr.c) (getFromPcW_ram h)).trans hapsr
  cases mode with
  | absX | absY | indY => exact addIndexRegTest_carry _ _
  | imm | zpage | zpageX | zpageY | indX | indYSta | indZpage => exact hapsr
  | abs | absXStx | absYSta => exact hword

/-- `DoASL` takes the carry that its mode left in the host, and adds it below the byte. -/
theorem run_asl (mode : Mode) {s : State Ram} (h : s.InRange) (hapsr : s.apsr.c = false) :
    (run arch ram (.asl mode) s).view = { s.view.exec (.asl mode) with
      p := { (s.view.exec (.asl mode)).p with
        z := s.view.operand mode <<< 1 == 0 && !tests mode } } := by
  let g : Shift := fun v p =>
    (v <<< 1, { (Processor.asl v p).2 with z := v <<< 1 == 0 && !tests mode })
  have hdoes : ∀ v t, State.InRange t → t.apsr = (getMode ram mode s).apsr → Does doAsl g v t := by
    intro v t _ ht
    obtain ⟨hvalue, hview⟩ := doAsl_ram v t
    rw [ht, getMode_carry h mode hapsr] at hview
    exact ⟨hvalue, hview, rfl⟩
  rw [run, view_modifyMode mode h hdoes]
  rfl

/-! ## Instructions of a run -/

def aslMode : Op → Option Mode
  | .asl mode => some mode
  | _ => none

/-- Of the opcodes of `op_ASL`, one has a mode that compares pages. -/
theorem handlerOf_asl {opcode : UInt8} {mode : Mode} (hop : handlerOf opcode = .asl mode) :
    tests mode = decide (opcode = 0x1E) := by
  have hall : ∀ opcode : UInt8,
      (aslMode (handlerOf opcode)).all (fun mode => tests mode == decide (opcode = 0x1E)) = true :=
    forall_uint8 (by decide +kernel)
  have hopcode := hall opcode
  rw [hop] at hopcode
  exact beq_iff_eq.mp hopcode

theorem handlerOf_aslAbsX : handlerOf 0x1E = .asl .absX := by decide +kernel

/-- `ASL` of a byte at an absolute address with an index, where the result is zero. -/
def Spoiled (opcode : UInt8) (s : Processor) : Prop := opcode = 0x1E ∧ s.operand .absX <<< 1 = 0

instance (opcode : UInt8) (s : Processor) : Decidable (Spoiled opcode s) :=
  inferInstanceAs (Decidable (_ ∧ _))

/-- What the handler of an opcode does. -/
def execArm (opcode : UInt8) (s : Processor) : Processor :=
  let t := s.exec (handlerOf opcode)
  if Spoiled opcode s then { t with p := { t.p with z := false } } else t

theorem view_fetch {t : State Ram} (h : t.InRange) :
    (fetch ram t).view = { t.view with pc := t.view.pc + 1 } := view_getFromPcB h

theorem fetch_opcode (t : State Ram) : (fetch ram t).opcode = t.view.ram.cell t.view.pc :=
  wide_byte _

theorem jumpNextInstruction_eq (t : State Ram) : jumpNextInstruction arch ram t =
    run arch ram (handlerOf (t.view.ram.cell t.view.pc)) (fetch ram t) := by
  rw [← fetch_opcode]
  rfl

/-- Z of a shifted byte, which only a zero byte and the carry of the host change. -/
theorem asl_z (mode : Mode) (s : Processor) {b : Bool}
    (h : b = true → (s.operand mode <<< 1 == 0) = false) :
    { s.exec (.asl mode) with
      p := { (s.exec (.asl mode)).p with z := s.operand mode <<< 1 == 0 && !b } } =
      s.exec (.asl mode) := by
  have hz : (s.exec (.asl mode)).p.z = (s.operand mode <<< 1 == 0) := rfl
  have hsame : (s.operand mode <<< 1 == 0 && !b) = (s.exec (.asl mode)).p.z := by
    rw [hz]
    cases b with
    | false => rw [Bool.not_false, Bool.and_true]
    | true => rw [h rfl, Bool.false_and]
  rw [hsame]

/-- The opcode is fetched from PC, and is no part of the operand. -/
theorem jumpNextInstruction_ram {t : State Ram} (h : t.InRange)
    (hbcd : Bcd (handlerOf (t.view.ram.cell t.view.pc)) { t.view with pc := t.view.pc + 1 }) :
    (jumpNextInstruction arch ram t).view =
      execArm (t.view.ram.cell t.view.pc) { t.view with pc := t.view.pc + 1 } := by
  have hfetch := fetch_inRange ram h
  have hview := view_fetch h
  rw [jumpNextInstruction_eq]
  generalize t.view.ram.cell t.view.pc = opcode at hbcd ⊢
  rw [← hview] at hbcd ⊢
  by_cases hasl : ∃ mode, handlerOf opcode = .asl mode
  · obtain ⟨mode, hop⟩ := hasl
    rw [execArm, hop, run_asl arch mode hfetch rfl]
    dsimp only
    by_cases hspoiled : Spoiled opcode (fetch ram t).view
    · obtain ⟨rfl, hzero⟩ := hspoiled
      rw [handlerOf_aslAbsX] at hop
      obtain rfl := Op.asl.inj hop
      rw [if_pos ⟨rfl, hzero⟩, tests, Bool.not_true, Bool.and_false]
    · rw [if_neg hspoiled, asl_z]
      intro htests
      rw [handlerOf_asl hop, decide_eq_true_iff] at htests
      subst htests
      rw [handlerOf_aslAbsX] at hop
      obtain rfl := Op.asl.inj hop
      exact beq_eq_false_iff_ne.mpr fun hzero => hspoiled ⟨rfl, hzero⟩
  · have hother : ¬ Spoiled opcode (fetch ram t).view := by
      rintro ⟨rfl, -⟩
      exact hasl ⟨.absX, handlerOf_aslAbsX⟩
    have hop : ∀ m, handlerOf opcode ≠ .asl m := fun m hm => hasl ⟨m, hm⟩
    rw [execArm, if_neg hother, run_ram arch (handlerOf opcode) hfetch rfl hbcd hop]

/-- **The 65c02.** From registers in range, an instruction of this core does what it does on the
65c02, exactly when it is not an `ASL` of a byte at an indexed absolute address that leaves zero;
that one differs in Z alone. -/
theorem instruction_exact {t : State Ram} (h : t.InRange)
    (hdigits : Digits (t.view.ram.cell t.view.pc) { t.view with pc := t.view.pc + 1 }) :
    let opcode := t.view.ram.cell t.view.pc
    let fetched := { t.view with pc := t.view.pc + 1 }
    ((jumpNextInstruction arch ram t).view = fetched.instruction opcode ↔
        ¬ Spoiled opcode fetched) ∧
      (Spoiled opcode fetched →
        (fetched.instruction opcode).p.z = true ∧
          (jumpNextInstruction arch ram t).view = { fetched.instruction opcode with
            p := { (fetched.instruction opcode).p with z := false } }) := by
  intro opcode fetched
  have hrun : (jumpNextInstruction arch ram t).view = execArm opcode fetched :=
    jumpNextInstruction_ram arch h ((digits_iff _ _).mp hdigits)
  have hz : Spoiled opcode fetched → (fetched.exec (handlerOf opcode)).p.z = true := by
    rintro ⟨hopcode, hzero⟩
    rw [hopcode, handlerOf_aslAbsX]
    exact beq_iff_eq.mpr hzero
  rw [hrun, execArm, ← exec_handlerOf]
  refine ⟨⟨?_, fun hspoiled => if_neg hspoiled⟩, fun hspoiled => ⟨hz hspoiled, if_pos hspoiled⟩⟩
  intro hsame hspoiled
  have hflag := hz hspoiled
  rw [if_pos hspoiled] at hsame
  rw [← hsame] at hflag
  cases hflag

/-- `ASL $0300,X` of 80 hex. -/
def shifting : State Ram where
  a := 0
  f := 0
  x := 0
  y := 0
  sp := 0xFF
  pc := 0x200
  ea := 0
  r0 := 0
  apsr := ⟨false, false, false, false⟩
  opcode := 0
  opcycles := 0
  rw := 0
  d := 0
  cycleCount := 0
  cyclesToExecute := 1
  signal := 0
  emulReinitialize := 0
  mem :=
    ⟨fun ea =>
      if ea = 0x200 then 0x1E else if ea = 0x202 then 0x03 else if ea = 0x300 then 0x80 else 0,
    []⟩

theorem instruction_exact_shifting : (jumpNextInstruction .aarch64 ram shifting).view.p.z = false ∧
    (instruction 0x1E { shifting.view with pc := 0x201 }).p.z = true := by
  have hrange : shifting.InRange :=
    ⟨by decide, by decide, by decide, by decide, by decide, by decide, by decide⟩
  have hdigits : Digits (shifting.view.ram.cell shifting.view.pc)
      { shifting.view with pc := shifting.view.pc + 1 } := by
    intro op _ mode _ hd
    cases hd
  obtain ⟨hz, hview⟩ := (instruction_exact .aarch64 hrange hdigits).2 ⟨rfl, by decide +kernel⟩
  refine ⟨?_, hz⟩
  rw [hview]

end Run

end Apple2ix.Cpu.Arm
