import Apple2ix.Cpu.X86Decimal
import Apple2ix.Cpu.X86Loop
import Apple2ix.Foundations.Runs

/-! The B flag of the x86 core, and the status bytes that the interrupt and BRK push. -/
namespace Apple2ix.Cpu.X86
open Cpu Runs
set_option autoImplicit false

universe u
variable {σ : Type u}

/-! ## What an instruction does to B -/

/-- B in F_Reg. -/
def State.b (s : State σ) : Bool := (flagX86.status s.f).b

section Handlers
variable (bus : Bus σ) (s : State σ)

/-! Reading, writing and the stack leave F_Reg alone. -/

@[simp] theorem vmemR_f : (vmemR bus s).f = s.f := rfl
@[simp] theorem getFromPcB_f : (getFromPcB bus s).f = s.f := rfl
@[simp] theorem getFromEaB_f : (getFromEaB bus s).f = s.f := rfl
@[simp] theorem putToEaB_f : (putToEaB bus s).f = s.f := rfl
@[simp] theorem eaFromAx_f : (eaFromAx s).f = s.f := rfl
@[simp] theorem addAl_f (index : UInt8) : (addAl index s).f = s.f := rfl
@[simp] theorem countCycle_f : (countCycle s).f = s.f := rfl
@[simp] theorem setAx_f (w : UInt16) : (s.setAx w).f = s.f := rfl
@[simp] theorem push_f (x : UInt8) : (push bus x s).f = s.f := rfl
@[simp] theorem pop_f : (pop bus s).2.f = s.f := rfl

@[simp] theorem getFromPcW_f : (getFromPcW bus s).f = s.f := by
  simp only [getFromPcW, vmemR_f]

@[simp] theorem getFromEaW_f : (getFromEaW bus s).f = s.f := by
  simp only [getFromEaW, vmemR_f]

@[simp] theorem indZPage_f : (indZPage bus s).f = s.f := by
  simp only [indZPage, getFromEaB_f, eaFromAx_f, addAl_f]

@[simp] theorem pushAx_f : (pushAx bus s).f = s.f := by
  simp only [pushAx, push_f]

@[simp] theorem popAx_f : (popAx bus s).f = s.f := rfl

@[simp] theorem interruptVector_f : (interruptVector bus s).f = s.f := by
  simp only [interruptVector, getFromEaW_f]

theorem addIndex_f (index : UInt8) (boundary : State σ → State σ)
    (h : ∀ t, (boundary t).f = t.f) : (addIndex index boundary s).f = s.f := by
  simp only [addIndex, eaFromAx_f]
  split
  · exact h _
  · rfl

theorem addIndex_countCycle_f (index : UInt8) : (addIndex index countCycle s).f = s.f :=
  addIndex_f s index countCycle countCycle_f

theorem addIndex_id_f (index : UInt8) : (addIndex index id s).f = s.f :=
  addIndex_f s index id fun _ => rfl

theorem getMode_f (mode : Mode) : (getMode bus mode s).f = s.f := by
  cases mode <;>
    simp only [getMode, getImm, getZPage, getZPageX, getZPageY, getAbs, getAbsX, getAbsXStx,
      getAbsY,
      getAbsYSta, getIndZPageX, getIndZPageY, getIndZPageYSta, getIndZPage, addIndex_countCycle_f,
      addIndex_id_f, eaFromAx_f, addAl_f, getFromPcB_f, getFromPcW_f, indZPage_f]

theorem getMode_b (mode : Mode) : (getMode bus mode s).b = s.b := by
  rw [State.b, getMode_f, State.b]

/-- The ends of the operations keep B. -/
theorem b_flagZ (flags : HostFlags) : (flagZ flags s).b = s.b :=
  (congrArg Status.b (status_flagZ s.f flags) :)

theorem b_flagNZ (flags : HostFlags) : (flagNZ flags s).b = s.b :=
  (congrArg Status.b (status_flagNZ s.f flags) :)

theorem b_flagNZC (flags : HostFlags) : (flagNZC flags s).b = s.b :=
  (congrArg Status.b (status_flagNZC s.f flags) :)

theorem b_flagNVZC (flags : HostFlags) : (flagNVZC flags s).b = s.b :=
  (congrArg Status.b (status_flagNVZC s.f flags) :)

theorem b_modify {f : UInt8 → State σ → Result} {flag : HostFlags → State σ → State σ}
    (h : ∀ flags t, (flag flags t).b = t.b) : (modify bus f flag s).b = s.b := h _ _

theorem b_modifyAcc {f : UInt8 → State σ → Result} {flag : HostFlags → State σ → State σ}
    (h : ∀ flags t, (flag flags t).b = t.b) : (modifyAcc f flag s).b = s.b := h _ _

theorem b_decFinish : (decFinish s).b = s.b := by
  have hn := (congrArg Status.b (status_cleared s.f).2.2.1 :)
  have hz : ∀ f, (flagX86.status (f ||| flagX86.z)).b = (flagX86.status f).b := fun f =>
    (congrArg Status.b (status_cleared f).2.2.2 :)
  rw [decFinish]
  split <;> split
  · exact hn
  · exact (hz _).trans hn
  · rfl
  · exact hz _

theorem b_ite {c : Prop} [Decidable c] {t u : State σ} {b : Bool} (ht : t.b = b) (hu : u.b = b) :
    (if c then t else u).b = b := by
  split
  · exact ht
  · exact hu

theorem b_opAdcDec : (opAdcDec bus s).b = s.b := by
  have hclear := (congrArg Status.b (status_cleared s.f).1 :)
  have hc : ∀ f, (flagX86.status (f ||| flagX86.c)).b = (flagX86.status f).b := fun f =>
    (congrArg Status.b (status_setFlag f).1 :)
  exact b_ite ((b_decFinish _).trans ((hc _).trans hclear)) ((b_decFinish _).trans hclear)

theorem b_opSbcDec : (opSbcDec bus s).b = s.b := by
  have hclear := (congrArg Status.b (status_cleared s.f).2.1 :)
  have hc : ∀ f, (flagX86.status (f &&& ~~~flagX86.c)).b = (flagX86.status f).b := fun f =>
    (congrArg Status.b (status_clearFlag f).1 :)
  exact b_ite ((b_decFinish _).trans ((hc _).trans hclear)) ((b_decFinish _).trans hclear)

theorem b_doAdc : (doAdc bus s).b = s.b := by
  rw [doAdc]
  split
  · exact b_opAdcDec bus s
  · exact b_flagNVZC _ _

theorem b_doSbc : (doSbc bus s).b = s.b := by
  rw [doSbc]
  split
  · exact b_opSbcDec bus s
  · exact b_flagNVZC _ _

theorem b_doBit : (doBit bus s).b = s.b := by
  have hmask := (doBit_bits (getFromEaB bus s).al (s.a &&& (getFromEaB bus s).al == 0)
    (signBit (s.a &&& (getFromEaB bus s).al))).1
  have hb := (congrArg Status.b (status_nvz s.f _ hmask) :)
  rw [← UInt8.or_assoc] at hb
  exact hb

theorem b_opRorAcc : (opRorAcc s).b = s.b := by
  have hc : flagX86.status (s.f &&& ~~~flagX86.c ||| s.a &&& flagX86.c) =
      { flagX86.status s.f with c := s.a &&& flagX86.c != 0 } := by
    simp (disch := decide) only [Layout.status, select_in, select_out]
  rw [opRorAcc_eq]
  exact (b_flagNZ _ _).trans (congrArg Status.b hc :)

theorem b_doAnd : (doAnd bus s).b = s.b := b_flagNZ _ _
theorem b_doEor : (doEor bus s).b = s.b := b_flagNZ _ _
theorem b_doOra : (doOra bus s).b = s.b := b_flagNZ _ _
theorem b_doLda : (doLda bus s).b = s.b := b_flagNZ _ _
theorem b_doLdx : (doLdx bus s).b = s.b := b_flagNZ _ _
theorem b_doLdy : (doLdy bus s).b = s.b := b_flagNZ _ _
theorem b_doCmp : (doCmp bus s).b = s.b := b_flagNZC _ _
theorem b_doCpx : (doCpx bus s).b = s.b := b_flagNZC _ _
theorem b_doCpy : (doCpy bus s).b = s.b := b_flagNZC _ _
theorem b_doStore (value : UInt8) : (doStore bus value s).b = s.b := rfl
theorem b_doTrb : (doTrb bus s).b = s.b := b_flagZ _ _
theorem b_doTsb : (doTsb bus s).b = s.b := b_flagZ _ _

theorem b_branchXCycles : (branchXCycles s).b = s.b := by
  rw [branchXCycles]
  split <;> rfl

theorem b_branch (taken : State σ → Bool) : (branch bus taken s).b = s.b := by
  rw [branch]
  split
  · exact b_branchXCycles _
  · rfl

theorem b_popFlags : (popFlags bus s).b = true := (congrArg Status.b (status_setFlag _).2.2.2.2 :)

theorem b_opJmpInd : (opJmpInd bus s).b = s.b := by
  simp only [opJmpInd]
  split
  · simp only [State.b, getFromMemB, vmemR_f, getFromPcW_f]
  · simp only [State.b, getFromMemW, getFromEaW_f, getFromPcW_f]

theorem b_opJmpAbs : (opJmpAbs bus s).b = s.b := by
  simp only [opJmpAbs, getAbs, State.b, eaFromAx_f, getFromPcW_f]

theorem b_opJmpAbsIndX : (opJmpAbsIndX bus s).b = s.b := by
  simp only [opJmpAbsIndX, getFromMemW, State.b, getFromEaW_f, setAx_f, getFromPcW_f]

theorem b_opJsr : (opJsr bus s).b = s.b := by
  simp only [opJsr, getAbs, State.b, pushAx_f, setAx_f, eaFromAx_f, getFromPcW_f]

theorem b_opRts : (opRts bus s).b = s.b := by
  simp only [opRts, State.b, setAx_f, popAx_f]

theorem b_opRti : (opRti bus s).b = true := by
  have hflags : (opRti bus s).b = (popFlags bus s).b := by
    simp only [opRti, State.b, popAx_f]
  exact hflags.trans (b_popFlags bus s)

theorem b_opBrk : (opBrk bus s).b = true := by
  have hi := (congrArg Status.b (status_setFlag (brkFrame bus s).f).2.2.1 :)
  exact hi.trans (congrArg Status.b (status_setFlag _).2.2.2.2 :)

/-- **No instruction clears B.** -/
theorem run_b (op : Op) (h : s.b = true) : (run bus op s).b = true := by
  have hmode : ∀ mode, (getMode bus mode s).b = true := fun mode => (getMode_b bus s mode).trans h
  cases op with
  | adc m => exact (b_doAdc bus _).trans (hmode m)
  | and m => exact (b_doAnd bus _).trans (hmode m)
  | asl m => exact (b_modify bus _ (fun flags t => b_flagNZC t flags)).trans (hmode m)
  | aslAcc => exact (b_modifyAcc _ (fun flags t => b_flagNZC t flags)).trans h
  | bcc | bcs | beq | bmi | bne | bpl | bra | bvc | bvs => exact (b_branch bus s _).trans h
  | bit m => exact (b_doBit bus _).trans (hmode m)
  | bitImm => exact (b_flagZ _ _).trans h
  | brk => exact b_opBrk bus s
  | clc => exact (congrArg Status.b (status_clearFlag s.f).1 :).trans h
  | cld => exact (congrArg Status.b (status_clearFlag s.f).2.1 :).trans h
  | cli => exact (congrArg Status.b (status_clearFlag s.f).2.2.1 :).trans h
  | clv => exact (congrArg Status.b (status_clearFlag s.f).2.2.2 :).trans h
  | cmp m => exact (b_doCmp bus _).trans (hmode m)
  | cpx m => exact (b_doCpx bus _).trans (hmode m)
  | cpy m => exact (b_doCpy bus _).trans (hmode m)
  | dea | ina => exact (b_modifyAcc _ (fun flags t => b_flagNZ t flags)).trans h
  | dec m | inc m => exact (b_modify bus _ (fun flags t => b_flagNZ t flags)).trans (hmode m)
  | dex | dey | inx | iny => exact (b_flagNZ _ _).trans h
  | eor m => exact (b_doEor bus _).trans (hmode m)
  | ora m => exact (b_doOra bus _).trans (hmode m)
  | lda m => exact (b_doLda bus _).trans (hmode m)
  | ldx m => exact (b_doLdx bus _).trans (hmode m)
  | ldy m => exact (b_doLdy bus _).trans (hmode m)
  | jmpInd => exact (b_opJmpInd bus s).trans h
  | lsr m | rol m | ror m =>
    exact (b_modify bus _ (fun flags t => b_flagNZC t flags)).trans (hmode m)
  | lsrAcc | rolAcc => exact (b_modifyAcc _ (fun flags t => b_flagNZC t flags)).trans h
  | pla | plx | ply => exact (b_flagNZ _ _).trans h
  | plp => exact b_popFlags bus s
  | rorAcc => exact (b_opRorAcc s).trans h
  | rti => exact b_opRti bus s
  | rts => exact (b_opRts bus s).trans h
  | sbc m => exact (b_doSbc bus _).trans (hmode m)
  | sec => exact (congrArg Status.b (status_setFlag s.f).1 :).trans h
  | sed => exact (congrArg Status.b (status_setFlag s.f).2.1 :).trans h
  | sei => exact (congrArg Status.b (status_setFlag s.f).2.2.1 :).trans h
  | sta m | stx m | sty m | stz m => exact (b_doStore bus _ _).trans (hmode m)
  | tax | tay | tsx | txa | tya => exact (b_flagNZ _ _).trans h
  | trb m => exact (b_doTrb bus _).trans (hmode m)
  | tsb m => exact (b_doTsb bus _).trans (hmode m)
  | jmpAbs => exact (b_opJmpAbs bus s).trans h
  | jmpAbsIndX => exact (b_opJmpAbsIndX bus s).trans h
  | jsr => exact (b_opJsr bus s).trans h
  | pha | php | phx | phy | txs => exact h
  | bbr | bbs | rmb | smb | nop | stp65c02 | unk65c02 | wai65c02 => exact h

end Handlers

/-! ## What is pushed -/

section Frames
variable (bus : Bus σ) (s : State σ)

/-- B of the byte that an encoded register is. -/
theorem encode_b (f : UInt8) : (flag6502.status (flagX86.encode f)).b = (flagX86.status f).b := by
  rw [encode_status, status_ofStatus (.inl rfl)]

/-- The IRQ entry pushes B as it is. -/
theorem irqFrame_b : (flag6502.status (irqFrame bus s).al).b = s.b := by
  have hx := (congrArg Status.b (status_setFlag (pushAx bus (s.setAx s.pc)).f).2.2.2.1 :)
  refine (encode_b _).trans (hx.trans ?_)
  rw [pushAx_f, setAx_f, State.b]

/-- And sets it afterwards. -/
theorem irqEntry_b : (irqEntry bus s).b = true := by
  have hbit : ∀ f, (flagX86.status (f ||| (flagX86.b ||| flagX86.i))).b = true :=
    forall_uint8 (by decide +kernel)
  simp only [irqEntry, State.b, cpuStatsReset, interruptVector_f, setFlag]
  exact hbit _

theorem exReset_b : (exReset bus s).b = s.b := by
  simp only [exReset, State.b, cpuStatsReset, getFromEaW_f]

/-- BRK sets it first. -/
theorem brkFrame_b : (flag6502.status (brkFrame bus s).al).b = true :=
  (encode_b _).trans (congrArg Status.b (status_setFlag _).2.2.2.2 :)

end Frames

/-! ## Runs -/

section Loop
variable (bus : Bus σ)

/-- B is set in the register that is in use. -/
def Core.HasB (c : Core σ) : Prop :=
  (c.running = true → c.state.b = true) ∧ (flag6502.status c.saved.f).b = true

/-- The state the core goes on with from `continue2`. -/
def Entry.HasB : Entry σ → Prop
  | .next s => s.b = true
  | .irq s => s.b = true
  | .reset s => s.b = true
  | .reinit => True

variable {bus}

theorem continue2_b {buttons : Buttons} {s : State σ} (h : s.b = true) :
    (continue2 buttons s).HasB := by
  simp only [continue2, exIrq]
  split
  · exact h
  · split
    · split
      · exact h
      · exact h
    · split
      · trivial
      · exact h

theorem enter_b {buttons : Buttons} {saved : Saved} {s : State σ}
    (h : (flag6502.status saved.f).b = true) : (enter buttons saved s).HasB := by
  have hb : (restore saved s).b = true := by
    rw [← h, ← status_decode isBits_x86]
    rfl
  rw [enter]
  split
  · exact continue2_b hb
  · exact hb

theorem entry_b {c : Core σ} {event : Event σ} {entry : Entry σ} (h : c.HasB)
    (hpossible : event.Possible c = true) (hentry : event.entry c = some entry) : entry.HasB := by
  cases event with
  | call buttons n =>
    obtain rfl := Option.some.inj hentry
    exact enter_b h.2
  | instruction buttons =>
    obtain rfl := Option.some.inj hentry
    exact continue2_b (h.1 hpossible)
  | interrupt reason => cases hentry
  | uninterrupt reason => cases hentry
  | memory mem => cases hentry

theorem start_b {entry : Entry σ} {t : State σ} (h : entry.HasB) (ht : entry.start bus = some t) :
    t.b = true := by
  cases entry with
  | next s =>
    obtain rfl := Option.some.inj ht
    exact h
  | irq s =>
    obtain rfl := Option.some.inj ht
    exact irqEntry_b bus s
  | reset s =>
    obtain rfl := Option.some.inj ht
    exact (exReset_b bus s).trans h
  | reinit => cases ht

theorem account_b {saved : Saved} {s : State σ} (hsaved : (flag6502.status saved.f).b = true)
    (h : s.b = true) : (account bus saved s).HasB := by
  simp only [account]
  split
  · refine ⟨fun hrun => ?_, (encode_b _).trans h⟩
    cases hrun
  · exact ⟨fun _ => h, hsaved⟩

theorem entryRun_b {entry : Entry σ} {saved : Saved} {s : State σ} (h : entry.HasB)
    (hsaved : (flag6502.status saved.f).b = true) : (entry.run bus saved s).HasB := by
  rw [Entry.run]
  cases hstart : entry.start bus with
  | none =>
    refine ⟨fun hrun => ?_, hsaved⟩
    cases hrun
  | some t =>
    have ht : t.b = true := start_b h hstart
    have hfetch : (fetch bus t).b = true := ht
    exact account_b hsaved (run_b bus _ _ hfetch)

theorem step_b {c d : Core σ} {event : Event σ} (h : c.HasB) (hstep : step bus c event = .ok d) :
    d.HasB := by
  unfold X86.step at hstep
  split at hstep
  case isFalse => cases hstep
  case isTrue hpossible =>
    cases event with
    | call buttons n =>
      obtain rfl := Except.ok.inj hstep
      exact entryRun_b (enter_b h.2) h.2
    | instruction buttons =>
      obtain rfl := Except.ok.inj hstep
      exact entryRun_b (continue2_b (h.1 hpossible)) h.2
    | interrupt reason =>
      obtain rfl := Except.ok.inj hstep
      exact h
    | uninterrupt reason =>
      obtain rfl := Except.ok.inj hstep
      exact h
    | memory mem =>
      obtain rfl := Except.ok.inj hstep
      exact h

/-! ## Telling an interrupt from BRK -/

variable (bus) in
/-- What the event pushes tells the two apart: the status byte of an IRQ has B clear, and that of a
BRK has it set. -/
def Distinguishable (c : Core σ) (event : Event σ) : Prop :=
  ∀ entry, event.entry c = some entry →
    (∀ s, entry = .irq s → (flag6502.status (irqFrame bus s).al).b = false) ∧
      ∀ t, entry.start bus = some t → handlerOf (fetch bus t).opcode = .brk →
        (flag6502.status (brkFrame bus (fetch bus t)).al).b = true

/-- The event enters no IRQ: no signal but a reset is up where the I flag is clear. -/
def IrqFree (c : Core σ) (event : Event σ) : Prop := ∀ s, event.entry c ≠ some (.irq s)

theorem distinguishable_iff {c : Core σ} {event : Event σ} (h : c.HasB)
    (hpossible : event.Possible c = true) : Distinguishable bus c event ↔ IrqFree c event := by
  constructor
  · intro hdist s hirq
    have hclear := (hdist _ hirq).1 s rfl
    have hset : s.b = true := entry_b h hpossible hirq
    rw [irqFrame_b, hset] at hclear
    cases hclear
  · intro hfree entry hentry
    refine ⟨?_, fun t _ _ => brkFrame_b bus (fetch bus t)⟩
    rintro s rfl
    exact absurd hentry (hfree s)

theorem init_b (c : Core σ) (h : c.running = false) : (cpu65Init c).HasB := by
  constructor
  · intro hrun
    exact absurd (h.symm.trans hrun) Bool.noConfusion
  · change
      (flag6502.status (flag6502.c ||| flag6502.x ||| flag6502.i ||| flag6502.v ||| flag6502.b |||
      flag6502.z ||| flag6502.n)).b = true
    decide

theorem possible_of_step {c d : Core σ} {event : Event σ} (hstep : step bus c event = .ok d) :
    event.Possible c = true := by
  unfold X86.step at hstep
  split at hstep
  case isFalse => cases hstep
  case isTrue hpossible => exact hpossible

/-- **Interrupts and BRK.** What a run from `cpu65_init` pushes tells them apart exactly if no IRQ
is entered in it. -/
theorem break_flag (c : Core σ) (hidle : c.running = false) {events : List (Event σ)} {d : Core σ}
    (hrun : runM (step bus) (cpu65Init c) events = .ok d) :
    Along (step bus) (Distinguishable bus) (cpu65Init c) events ↔
      Along (step bus) IrqFree (cpu65Init c) events := by
  have hpoint : ∀ pre event post e, events = pre ++ event :: post →
      runM (step bus) (cpu65Init c) pre = .ok e →
      (Distinguishable bus e event ↔ IrqFree e event) := by
    rintro pre event post e rfl hpre
    obtain ⟨e', hpre', hrest⟩ := runM_prefix hrun
    obtain rfl : e = e' := Except.ok.inj (hpre.symm.trans hpre')
    have hb := runM_invariant Core.HasB (fun _ _ _ h => step_b h) (init_b c hidle) hpre
    cases hstep : step bus e event with
    | ok f => exact distinguishable_iff hb (possible_of_step hstep)
    | error err =>
      rw [runM_cons_error post hstep] at hrest
      cases hrest
  constructor
  · intro h pre event post e heq hpre
    exact (hpoint pre event post e heq hpre).mp (h pre event post e heq hpre)
  · intro h pre event post e heq hpre
    exact (hpoint pre event post e heq hpre).mpr (h pre event post e heq hpre)

end Loop

/-- `CLI` at address 0, and NOPs. -/
def interruptible : Core Ram where
  running := false
  saved := ⟨0, 0, 0, 0, 0, 0⟩
  state :=
    { a := 0
      f := 0
      x := 0
      y := 0
      pc := 0
      ea := 0
      al := 0
      ah := 0
      sp := 0
      opcode := 0
      opcycles := 0
      rw := 0
      d := 0
      cycleCount := 0
      cyclesToExecute := 0
      signal := 0
      emulReinitialize := 0
      mem := ⟨fun ea => if ea = 0 then 0x58 else 0xEA, []⟩ }

/-- After `CLI`, the IRQ of a 6522 pushes B. -/
theorem irq_pushes_break : ∃ events d, runM (step ramBus) (cpu65Init interruptible) events = .ok d ∧
    ¬ Along (step ramBus) (Distinguishable ramBus) (cpu65Init interruptible) events := by
  refine ⟨[.call ⟨0, 0⟩ 100, .interrupt 0x08, .instruction ⟨0, 0⟩], _, rfl, ?_⟩
  intro h
  have hirq :=
    (h [.call ⟨0, 0⟩ 100, .interrupt 0x08] (.instruction ⟨0, 0⟩) [] _ rfl rfl _ rfl).1 _ rfl
  revert hirq
  decide +kernel

theorem break_flag_once :
    Along (step ramBus) (Distinguishable ramBus) (cpu65Init interruptible) [.call ⟨0, 0⟩ 100] := by
  refine (break_flag interruptible rfl (d := _) rfl).mpr ((along_cons rfl).mpr ⟨?_, along_nil _⟩)
  intro s hirq
  cases hirq

end Apple2ix.Cpu.X86
