import Apple2ix.Cpu.X86Break
import Apple2ix.Vm.GuestMemory
import Apple2ix.Vm.PaddleTimers

/-! An interrupt of the x86 core and the return from its handler, on the memory of vm.c. -/
namespace Apple2ix.Cpu.X86
open Cpu Runs
open Vm (Machine Cell bankOf MemoryMapOk)
set_option autoImplicit false

/-! ## Memory -/

/-- What the handlers of vm.c ask outside of it. -/
structure Environment where
  io : Vm.Bus
  card : UInt16 → UInt8

/-- `cpu65_vmem_r`, `cpu65_vmem_w`, the page that `base_stackzp` selects, and the paddle timers. -/
def vmBus (env : Environment) : Bus Machine where
  load := fun vm ea =>
    let access := (Vm.cpu65VmemR (Vm.pageOf ea)).run env.io env.card vm ea
    (access.byte, access.vm)
  store := Vm.guestStore env.io
  stackLoad := fun vm sp => vm.load (vm.base .stackzp) (stackCell sp)
  stackStore := fun vm sp b => vm.store (vm.base .stackzp) (stackCell sp) b
  tick := fun vm n => vm.countDown n.toNat

/-- Where page one of main or auxiliary memory has a cell. -/
def stackOffset (aux : Bool) (sp : UInt8) : ℕ := (if aux then 0x10000 else 0) + 0x100 + sp.toNat

theorem stackOffset_lt (aux : Bool) (sp : UInt8) : stackOffset aux sp < 0x20000 := by
  have hsp := sp.toNat_lt
  unfold stackOffset
  split <;> omega

/-- A cell of page one, in main or auxiliary memory. -/
def stackByte (aux : Bool) (sp : UInt8) : Cell := .inl ⟨stackOffset aux sp, stackOffset_lt aux sp⟩

section Stack
variable {env : Environment} {vm : Machine} {aux : Bool} (h : vm.base .stackzp = bankOf aux)

theorem stackCell_toNat (sp : UInt8) : (stackCell sp).toNat = 0x100 + sp.toNat := by
  rw [stackCell, join_toNat]
  rfl

theorem bankOf_cell (aux : Bool) (sp : UInt8) :
    Vm.cell 0x20000 ((bankOf aux).off + (stackCell sp).toNat) =
      some ⟨stackOffset aux sp, stackOffset_lt aux sp⟩ := by
  have hoff : (bankOf aux).off + (stackCell sp).toNat = stackOffset aux sp := by
    rw [stackCell_toNat]
    cases aux with
    | false => simp [bankOf, Vm.Ptr.appleIi64k, stackOffset]
    | true =>
      simp only [bankOf, Vm.Ptr.appleIi64k, stackOffset, if_true]
      push_cast
      omega
  have hlt := stackOffset_lt aux sp
  rw [hoff, Vm.cell, dif_pos ⟨by omega, by omega⟩]
  simp only [Int.toNat_natCast]

theorem load_bank (vm : Machine) (aux : Bool) (ea : UInt16) :
    vm.load (bankOf aux) ea = Vm.loadCell vm.appleIi64k ((bankOf aux).off + ea.toNat) := by
  cases aux <;> rfl

theorem store_bank (vm : Machine) (aux : Bool) (ea : UInt16) (b : UInt8) :
    vm.store (bankOf aux) ea b =
      { vm with appleIi64k := Vm.storeCell vm.appleIi64k ((bankOf aux).off + ea.toNat) b } := by
  cases aux <;> rfl

/-- A byte of the first array. -/
theorem byte_inl (vm : Machine) (i : Fin 0x20000) : vm.byte (.inl i) = vm.appleIi64k i := rfl

theorem byte_inr (vm : Machine) (mem : Fin 0x20000 → UInt8) (i : Fin 0x4000 ⊕ Fin 0x4000) :
    ({ vm with appleIi64k := mem } : Machine).byte (.inr i) = vm.byte (.inr i) := rfl

include h

theorem stackLoad_byte (sp : UInt8) : (vmBus env).stackLoad vm sp = vm.byte (stackByte aux sp) := by
  have hload : (vmBus env).stackLoad vm sp = vm.load (vm.base .stackzp) (stackCell sp) := rfl
  rw [hload, h, load_bank, Vm.loadCell, bankOf_cell, stackByte, byte_inl]

theorem stackStore_byte (sp b : UInt8) : ((vmBus env).stackStore vm sp b).byte =
    Function.update vm.byte (stackByte aux sp) b := by
  have hstore : (vmBus env).stackStore vm sp b = vm.store (vm.base .stackzp) (stackCell sp) b := rfl
  have hcell : Vm.storeCell vm.appleIi64k ((bankOf aux).off + (stackCell sp).toNat) b =
      Function.update vm.appleIi64k ⟨stackOffset aux sp, stackOffset_lt aux sp⟩ b := by
    rw [Vm.storeCell, bankOf_cell]
  funext c
  rw [hstore, h, store_bank, hcell, stackByte]
  obtain i | i := c
  · simp only [byte_inl, Function.update_apply, Sum.inl.injEq]
  · rw [byte_inr, Function.update_of_ne]
    exact Sum.inr_ne_inl

theorem stackStore_base (sp b : UInt8) :
    ((vmBus env).stackStore vm sp b).base .stackzp = bankOf aux :=
  ((Vm.Changes.refl [] [] vm).store _ _ _).base_eq .stackzp nofun |>.trans h

end Stack

/-- The handlers of the vector's page read the card or the rom. -/
theorem vector_load (env : Environment) (vm : Machine) (ea : UInt16) (h : 0xE0 ≤ Vm.pageOf ea) :
    ((vmBus env).load vm ea).2 = vm := by
  have hread : ∀ page, page < 0x100 → 0xE0 ≤ page → Vm.cpu65VmemR page = .readRamLc := by
    decide +kernel
  change ((Vm.cpu65VmemR (Vm.pageOf ea)).run env.io env.card vm ea).vm = vm
  rw [hread _ (Vm.pageOf_lt ea) h]
  rfl

/-! ## Entry -/

section Entry
universe u
variable {σ : Type u} (bus : Bus σ) (s : State σ)

/-- Memory after the three pushes of `ex_irq`. -/
def pushedFrame : σ :=
  let mem := bus.stackStore s.mem s.sp (hiByte s.pc)
  let mem := bus.stackStore mem (s.sp - 1) (loByte s.pc)
  bus.stackStore mem (s.sp - 1 - 1) (flagX86.encode (s.f ||| flagX86.x))

theorem irqEntry_a : (irqEntry bus s).a = s.a := by
  cases s
  rfl
theorem irqEntry_x : (irqEntry bus s).x = s.x := by
  cases s
  rfl
theorem irqEntry_y : (irqEntry bus s).y = s.y := by
  cases s
  rfl
theorem irqEntry_sp : (irqEntry bus s).sp = s.sp - 1 - 1 - 1 := by
  cases s
  rfl

theorem irqEntry_mem : (irqEntry bus s).mem =
    (bus.load (bus.load (pushedFrame bus s) (0xFFFE + 1)).2 (0xFFFE + 1 - 1)).2 := rfl

/-! ## Return -/

theorem opRti_a : (opRti bus s).a = s.a := by
  cases s
  rfl
theorem opRti_x : (opRti bus s).x = s.x := by
  cases s
  rfl
theorem opRti_y : (opRti bus s).y = s.y := by
  cases s
  rfl
theorem opRti_sp : (opRti bus s).sp = s.sp + 1 + 1 + 1 := by
  cases s
  rfl
theorem opRti_mem : (opRti bus s).mem = s.mem := by
  cases s
  rfl

theorem opRti_pc : (opRti bus s).pc =
    join (bus.stackLoad s.mem (s.sp + 1 + 1 + 1)) (bus.stackLoad s.mem (s.sp + 1 + 1)) := rfl

theorem opRti_f : (opRti bus s).f =
    flagX86.decode (bus.stackLoad s.mem (s.sp + 1)) ||| (flagX86.b ||| flagX86.x) := rfl

end Entry

/-! ## The frame -/

/-- The cells the entry pushes to. -/
def frameCells (aux : Bool) (sp : UInt8) : List Cell :=
  [stackByte aux sp, stackByte aux (sp - 1), stackByte aux (sp - 2)]

theorem stackByte_inj {aux : Bool} {sp sp' : UInt8} (h : stackByte aux sp = stackByte aux sp') :
    sp = sp' := by
  have hoff : stackOffset aux sp = stackOffset aux sp' := Fin.mk.inj (Sum.inl.inj h)
  unfold stackOffset at hoff
  rw [← UInt8.toNat_inj]
  omega

section Wrap
variable (sp : UInt8)

theorem sub_one_one : sp - 1 - 1 = sp - 2 := by
  revert sp
  exact forall_uint8 (by decide +kernel)

theorem sub_three_add : sp - 1 - 1 - 1 + 1 = sp - 2 ∧ sp - 1 - 1 - 1 + 1 + 1 = sp - 1 ∧
    sp - 1 - 1 - 1 + 1 + 1 + 1 = sp := by
  revert sp
  exact forall_uint8 (by decide +kernel)

theorem frame_distinct : sp ≠ sp - 1 ∧ sp ≠ sp - 2 ∧ sp - 1 ≠ sp - 2 := by
  revert sp
  exact forall_uint8 (by decide +kernel)

end Wrap

section Pushed
variable {env : Environment} {s : State Machine} {aux : Bool}
  (h : s.mem.base .stackzp = bankOf aux)
include h

theorem pushedFrame_byte : (pushedFrame (vmBus env) s).byte =
    Function.update (Function.update (Function.update s.mem.byte (stackByte aux s.sp) (hiByte s.pc))
      (stackByte aux (s.sp - 1)) (loByte s.pc)) (stackByte aux (s.sp - 2))
      (flagX86.encode (s.f ||| flagX86.x)) := by
  have hbase := @stackStore_base env _ _ h s.sp (hiByte s.pc)
  have hbase' := @stackStore_base env _ _ hbase (s.sp - 1) (loByte s.pc)
  rw [pushedFrame, stackStore_byte hbase', stackStore_byte hbase, stackStore_byte h, sub_one_one]

/-- The entry leaves the return address and the flags in the frame, and the rest of memory alone. -/
theorem irqEntry_frame :
    let t := irqEntry (vmBus env) s
    t.mem.byte (stackByte aux s.sp) = hiByte s.pc ∧
      t.mem.byte (stackByte aux (s.sp - 1)) = loByte s.pc ∧
      t.mem.byte (stackByte aux (s.sp - 2)) = flagX86.encode (s.f ||| flagX86.x) ∧
      ∀ c, c ∉ frameCells aux s.sp → t.mem.byte c = s.mem.byte c := by
  intro t
  obtain ⟨h01, h02, h12⟩ := frame_distinct s.sp
  have hne : ∀ {a b}, a ≠ b → stackByte aux a ≠ stackByte aux b := fun hab heq =>
    hab (stackByte_inj heq)
  have hmem : t.mem = pushedFrame (vmBus env) s := by
    rw [irqEntry_mem, vector_load _ _ _ (by decide), vector_load _ _ _ (by decide)]
  rw [hmem, pushedFrame_byte h]
  refine ⟨?_, ?_, Function.update_self _ _ _, ?_⟩
  · rw [Function.update_of_ne (hne h02), Function.update_of_ne (hne h01), Function.update_self]
  · rw [Function.update_of_ne (hne h12), Function.update_self]
  · intro c hc
    simp only [frameCells, List.mem_cons, List.not_mem_nil, or_false, not_or] at hc
    rw [Function.update_of_ne hc.2.2, Function.update_of_ne hc.2.1, Function.update_of_ne hc.1]

end Pushed

/-! ## Handlers -/

def Event.outside {σ : Type*} : Event σ → Bool
  | .call _ _ | .instruction _ => false
  | _ => true

/-- From an instruction to the one after it, each about to be fetched. In between the core may enter
another interrupt, or return from `cpu65_run` and be called again. -/
def Turn (t t' : State Machine) : Prop :=
  ∃ (env env' : Environment) (saved : Saved) (others : List (Event Machine)) (core : Core Machine)
    (event : Event Machine) (entry : Entry Machine),
    (∀ other ∈ others, Event.outside other = true) ∧
    runM (step (vmBus env)) (account (vmBus env) saved (jumpNextInstruction (vmBus env) t)) others =
      .ok core ∧
    event.Possible core = true ∧ event.entry core = some entry ∧
    entry.start (vmBus env') = some t'

/-- Memory stays as it is at these cells. -/
def Keeps (cells : List Cell) (vm vm' : Machine) : Prop := ∀ c ∈ cells, vm'.byte c = vm.byte c

/-- A run of a handler from `t` up to its RTI, which is fetched in `u`. No instruction pulls or
overwrites what lies above the handler's part of the stack. -/
inductive HandlerRun (cells : List Cell) : State Machine → State Machine → Prop
  | rti {t : State Machine} (env : Environment)
      (hop : handlerOf (fetch (vmBus env) t).opcode = .rti)
      (hkeep : Keeps cells t.mem (fetch (vmBus env) t).mem) :
      HandlerRun cells t (fetch (vmBus env) t)
  | turn {t t' u : State Machine} (h : Turn t t') (hkeep : Keeps cells t.mem t'.mem)
      (rest : HandlerRun cells t' u) : HandlerRun cells t u

theorem HandlerRun.keeps {cells : List Cell} {t u : State Machine} (h : HandlerRun cells t u) :
    Keeps cells t.mem u.mem := by
  induction h with
  | rti env hop hkeep => exact hkeep
  | turn h hkeep rest ih => exact fun c hc => (ih c hc).trans (hkeep c hc)

/-- The handler restored the registers, SP and the bank of the stack. -/
structure Restored (t u : State Machine) : Prop where
  a : u.a = t.a
  x : u.x = t.x
  y : u.y = t.y
  sp : u.sp = t.sp
  bank : u.mem.base .stackzp = t.mem.base .stackzp

/-- The flags that come back are those that went, but for B and X. -/
theorem status_return (f : UInt8) :
    flagX86.status
        (flagX86.decode (flagX86.encode (f ||| flagX86.x)) ||| (flagX86.b ||| flagX86.x)) =
      { flagX86.status f with b := true, x := true } := by
  rw [decode_encode isBits_x86, (status_setFlag _).2.2.2.2, (status_setFlag f).2.2.2.1]

theorem continue2_irq {buttons : Buttons} {s : State Machine} (hsignal : s.signal ≠ 0)
    (hreset : s.signal &&& resetSig = 0) (hi : s.has flagX86.i = false) :
    continue2 buttons s = .irq { s with al := s.signal, ah := 0 } := by
  have hflag : ({ s with al := s.signal, ah := 0 } : State Machine).has flagX86.i = false := hi
  simp only [continue2, exIrq]
  rw [if_neg hsignal, if_pos hreset, if_neg]
  rw [hflag]
  exact Bool.false_ne_true

/-- **Interrupts are transparent.** After an interrupt, a handler that restores the registers and
the stack, and its RTI, the core goes on where it was. -/
theorem interrupt_transparent {env env' : Environment} {buttons : Buttons} {s t u : State Machine}
    (hmap : MemoryMapOk s.mem) (hsignal : s.signal ≠ 0) (hreset : s.signal &&& resetSig = 0)
    (hi : s.has flagX86.i = false) (ht : (continue2 buttons s).start (vmBus env) = some t)
    (hrun : HandlerRun (frameCells (s.mem.has .ssAltzp) s.sp) t u) (hrestored : Restored t u) :
    let r := run (vmBus env') .rti u
    r.pc = s.pc ∧ r.sp = s.sp ∧ r.a = s.a ∧ r.x = s.x ∧ r.y = s.y ∧
      flagX86.status r.f = { flagX86.status s.f with b := true, x := true } ∧
      (∀ c, c ∉ frameCells (s.mem.has .ssAltzp) s.sp → t.mem.byte c = s.mem.byte c) ∧
      r.mem = u.mem := by
  intro r
  rw [continue2_irq hsignal hreset hi] at ht
  obtain rfl := Option.some.inj ht
  have hbase : s.mem.base .stackzp = bankOf (s.mem.has .ssAltzp) := hmap.baseStackzp
  have hkeep := hrun.keeps
  obtain ⟨hhi, hlo, hstatus, hrest⟩ :=
    @irqEntry_frame env { s with al := s.signal, ah := 0 } _ hbase
  obtain ⟨hsp2, hsp1, hsp0⟩ := sub_three_add s.sp
  have husp : u.sp = s.sp - 1 - 1 - 1 := hrestored.sp.trans (irqEntry_sp _ _)
  have hubase : u.mem.base .stackzp = bankOf (s.mem.has .ssAltzp) := by
    rw [hrestored.bank, irqEntry_mem, vector_load _ _ _ (by decide), vector_load _ _ _ (by decide)]
    exact stackStore_base (stackStore_base (stackStore_base hbase _ _) _ _) _ _
  have hframe : ∀ sp c, c = stackByte (s.mem.has .ssAltzp) sp →
      c ∈ frameCells (s.mem.has .ssAltzp) s.sp →
      (vmBus env').stackLoad u.mem sp = (irqEntry (vmBus env)
        { s with al := s.signal, ah := 0 }).mem.byte c := by
    rintro sp c rfl hc
    rw [stackLoad_byte hubase, hkeep _ hc]
  refine ⟨?_, ?_, ?_, ?_, ?_, ?_, hrest, opRti_mem _ _⟩
  · refine (opRti_pc _ _).trans ?_
    rw [husp, hsp0, hsp1, hframe s.sp _ rfl (by simp [frameCells]),
      hframe (s.sp - 1) _ rfl (by simp [frameCells]), hhi, hlo]
    exact join_bytes s.pc
  · refine (opRti_sp _ _).trans ?_
    rw [husp, hsp0]
  · exact (opRti_a _ _).trans (hrestored.a.trans (irqEntry_a _ _))
  · exact (opRti_x _ _).trans (hrestored.x.trans (irqEntry_x _ _))
  · exact (opRti_y _ _).trans (hrestored.y.trans (irqEntry_y _ _))
  · refine (congrArg flagX86.status (opRti_f _ _)).trans ?_
    rw [husp, hsp2, hframe (s.sp - 2) _ rfl (by simp [frameCells]), hstatus]
    exact status_return s.f

/-! ## A handler -/

/-- `PHA`, `LDA #7`, `PLA` and `RTI`, at address 0, where the vector points. -/
def handler : List UInt8 := [0x48, 0xA9, 0x07, 0x68, 0x40]

def interrupted : State Machine where
  a := 0x12
  f := flagX86.c
  x := 0x34
  y := 0x56
  pc := 0x1234
  ea := 0
  al := 0
  ah := 0
  sp := 0x01
  opcode := 0
  opcycles := 0
  rw := 0
  d := 0
  cycleCount := 0
  cyclesToExecute := 100
  signal := 0x08
  emulReinitialize := 0
  mem := Vm.runFrom { Machine.blank with appleIi64k := fun i => handler.getD i 0 } []

def quiet : Environment := ⟨Vm.Bus.quiet, fun _ => 0⟩

/-- The next instruction, when nothing else happens. -/
def turned (t : State Machine) : Option (State Machine) :=
  let core := account (vmBus quiet) ⟨0, 0, 0, 0, 0, 0⟩ (jumpNextInstruction (vmBus quiet) t)
  if core.running then (continue2 ⟨0, 0⟩ core.state).start (vmBus quiet) else none

theorem turn_of_turned {t t' : State Machine} (h : turned t = some t') : Turn t t' := by
  simp only [turned] at h
  split at h
  · next hrunning =>
    exact ⟨quiet, quiet, ⟨0, 0, 0, 0, 0, 0⟩, [], _, .instruction ⟨0, 0⟩, _, by simp, rfl, hrunning,
      rfl, h⟩
  · cases h

def checkKeeps (cells : List Cell) (vm vm' : Machine) : Bool :=
  cells.all fun c => vm'.byte c == vm.byte c

theorem keeps_of_check {cells : List Cell} {vm vm' : Machine} (h : checkKeeps cells vm vm' = true) :
    Keeps cells vm vm' := by
  intro c hc
  exact beq_iff_eq.mp (List.all_eq_true.mp h c hc)

/-- Whether a handler comes to its `RTI` in so many instructions, with the registers of `s`. -/
def checkHandler (cells : List Cell) (s : State Machine) : ℕ → State Machine → Bool
  | 0, t =>
    let u := fetch (vmBus quiet) t
    decide (handlerOf u.opcode = .rti ∧ u.a = s.a ∧ u.x = s.x ∧ u.y = s.y ∧ u.sp = s.sp ∧
      u.mem.base .stackzp = s.mem.base .stackzp) && checkKeeps cells t.mem u.mem
  | n + 1, t =>
    (turned t).any fun t' => checkKeeps cells t.mem t'.mem && checkHandler cells s n t'

theorem handlerRun_of_check {cells : List Cell} {s t : State Machine} {n : ℕ}
    (h : checkHandler cells s n t = true) : ∃ u, HandlerRun cells t u ∧ Restored s u := by
  induction n generalizing t with
  | zero =>
    simp only [checkHandler, Bool.and_eq_true, decide_eq_true_iff] at h
    obtain ⟨⟨hop, ha, hx, hy, hsp, hbank⟩, hkeep⟩ := h
    exact ⟨_, .rti quiet hop (keeps_of_check hkeep), ha, hx, hy, hsp, hbank⟩
  | succ n ih =>
    rw [checkHandler, Option.any_eq_true] at h
    obtain ⟨t', hturn, hrest⟩ := h
    obtain ⟨hkeep, hrest⟩ := Bool.and_eq_true_iff.mp hrest
    obtain ⟨u, hrun, hrestored⟩ := ih hrest
    exact ⟨u, .turn (turn_of_turned hturn) (keeps_of_check hkeep) hrun, hrestored⟩

theorem interrupt_transparent_handler : ∃ t u,
    (continue2 ⟨0, 0⟩ interrupted).start (vmBus quiet) = some t ∧
    HandlerRun (frameCells (interrupted.mem.has .ssAltzp) interrupted.sp) t u ∧
    (run (vmBus quiet) .rti u).pc = 0x1234 ∧ (run (vmBus quiet) .rti u).a = 0x12 := by
  obtain ⟨t, hstart, hcheck⟩ : ∃ t, (continue2 ⟨0, 0⟩ interrupted).start (vmBus quiet) = some t ∧
      checkHandler (frameCells (interrupted.mem.has .ssAltzp) interrupted.sp) t 3 t = true :=
    ⟨_, rfl, by decide +kernel⟩
  obtain ⟨u, hrun, hrestored⟩ := handlerRun_of_check hcheck
  obtain ⟨hpc, -, ha, -⟩ := @interrupt_transparent quiet quiet ⟨0, 0⟩ interrupted t u
    (Vm.runFrom_ok _ _).map (by decide) (by decide) (by decide) hstart hrun hrestored
  exact ⟨t, u, hstart, hrun, hpc, ha⟩

end Apple2ix.Cpu.X86
