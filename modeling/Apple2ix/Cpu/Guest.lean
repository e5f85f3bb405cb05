import Apple2ix.Cpu.CoresAgree

/-! The machine that a program sees, whichever core runs it: a 65c02 with its interrupt and reset
lines, for which it makes no difference where the calls of `cpu65_run` begin and end. -/
namespace Apple2ix.Cpu
open Processor Runs
set_option autoImplicit false

/-! ## The machine -/

/-- The registers and memory, `cpu65__signal`, and whether the machine is to be switched on
again. -/
structure Guest where
  processor : Processor
  signal : UInt8
  restart : Bool

/-- The registers that `cpu65_run` restores. -/
def Processor.load (r : Registers) (s : Processor) : Processor :=
  { s with a := r.a, x := r.x, y := r.y, sp := r.sp, pc := r.pc, p := flag6502.status r.f }

/-- The instruction at PC, with the cycles that it takes. -/
def Processor.instruct (s : Processor) : Processor :=
  let opcode := s.ram.cell s.pc
  let s := (fetched s).instruction opcode
  { s with cycles := cyclesOf opcode + s.cycles }

namespace Guest

/-- Where the next instruction starts, and the signals there: after a reset, after an interrupt, or
where the last one ended. A reset with a button held starts none, but switches the machine off. -/
def start (buttons : Buttons) (g : Guest) : Option (Processor × UInt8) :=
  if g.restart then some ((g.processor.load initRegisters).restarted, 0)
  else if g.signal = 0 then some ({ g.processor with cycles := 0 }, g.signal)
  else if g.signal &&& resetSig = 0 then
    some (if g.processor.p.i then { g.processor with cycles := 0 } else g.processor.interrupted,
      g.signal)
  else if buttons.held then none
  else some (g.processor.restarted, 0)

def next (buttons : Buttons) (g : Guest) : Guest :=
  match g.start buttons with
  | some (s, signal) => ⟨s.instruct, signal, false⟩
  | none => ⟨g.processor.load initRegisters, 0, true⟩

/-- A call and an instruction of a call are the same to the program. -/
def step (g : Guest) : Event Ram → Guest
  | .call buttons _ | .instruction buttons => g.next buttons
  | .interrupt reason => { g with signal := g.signal ||| reason }
  | .uninterrupt reason => { g with signal := g.signal &&& ~~~reason }
  | .registers r => if g.restart then g else { g with processor := g.processor.load r }
  | .memory mem => { g with processor := { g.processor with ram := mem } }

/-- The next instruction does not add or subtract digits that are none. -/
def Decimal (g : Guest) (event : Event Ram) : Prop :=
  ∀ buttons, (event = .instruction buttons ∨ ∃ n, event = .call buttons n) →
    ∀ s signal, g.start buttons = some (s, signal) →
      Digits (s.ram.cell s.pc) (fetched s)

end Guest

/-! ## The x86 core -/

namespace X86

/-- What the program sees of the core. Registers that are to be initialized are those it will
find. -/
def Core.guest (c : Core Ram) : Guest where
  processor :=
    if c.state.emulReinitialize = 0 then
      if c.running then c.state.view else (restore c.saved c.state).view
    else c.state.view.load initRegisters
  signal := c.state.signal
  restart := c.state.emulReinitialize != 0

variable {s t : State Ram} {c d : Core Ram} {buttons : Buttons}

/-- Where the core starts an instruction, as the program sees it. -/
def Entry.seen (entry : Entry Ram) : Option (Processor × UInt8) :=
  (entry.start ramBus).map fun t => (t.view, t.signal)

theorem seen_next (s : State Ram) (al ah : UInt8) :
    (Entry.next { s with al := al, ah := ah }).seen =
      some ({ s.view with cycles := 0 }, s.signal) :=
  rfl

theorem seen_irq (s : State Ram) : (Entry.irq s).seen = some (s.view.interrupted, s.signal) := by
  have hsignal : (irqEntry ramBus s).signal = s.signal :=
    congrArg Meter.signal (irqEntry_meter ramBus s)
  have hview := view_irqEntry s
  rw [Entry.seen, Entry.start, Option.map_some, hview, hsignal]

theorem seen_reset (s : State Ram) : (Entry.reset s).seen = some (s.view.restarted, 0) := by
  have hsignal : (exReset ramBus s).signal = 0 := congrArg Meter.signal (exReset_meter ramBus s)
  have hview := view_exReset s
  rw [Entry.seen, Entry.start, Option.map_some, hview, hsignal]

theorem seen_continue2 (s : State Ram) :
    (continue2 buttons s).seen = (Guest.mk s.view s.signal false).start buttons := by
  have hview : ∀ al ah : UInt8, ({ s with al := al, ah := ah } : State Ram).view = s.view :=
    fun _ _ => rfl
  have hi : ∀ al ah : UInt8,
      ({ s with al := al, ah := ah } : State Ram).has flagX86.i = s.view.p.i := fun _ _ => rfl
  have hcontinue : continue2 buttons s =
    if s.signal = 0 then .next { s with al := s.signal, ah := 0 }
    else if s.signal &&& resetSig = 0 then exIrq { s with al := s.signal, ah := 0 }
    else if buttons.held then .reinit else .reset { s with al := s.signal, ah := 0 } := rfl
  rw [hcontinue, Guest.start, if_neg Bool.false_ne_true]
  dsimp only
  by_cases hzero : s.signal = 0
  · rw [if_pos hzero, if_pos hzero]
    exact seen_next s s.signal 0
  rw [if_neg hzero, if_neg hzero]
  by_cases hreset : s.signal &&& resetSig = 0
  · rw [if_pos hreset, if_pos hreset, exIrq, hi]
    by_cases hflag : s.view.p.i = true
    · rw [if_pos hflag, if_pos hflag]
      exact seen_next s s.signal 0
    · rw [if_neg hflag, if_neg hflag]
      exact seen_irq { s with al := s.signal, ah := 0 }
  rw [if_neg hreset, if_neg hreset]
  by_cases hheld : buttons.held = true
  · rw [if_pos hheld, if_pos hheld]
    rfl
  · rw [if_neg hheld, if_neg hheld]
    exact seen_reset { s with al := s.signal, ah := 0 }

/-- The registers of a core that is between calls. -/
def Saved.registers (saved : Saved) (sp : UInt8) : Registers :=
  ⟨saved.pc, saved.ea, saved.a, saved.f, saved.x, saved.y, sp⟩

theorem view_restore (saved : Saved) (s : State Ram) :
    (restore saved s).view = s.view.load (saved.registers s.sp) := by
  have hp : (restore saved s).view.p = flag6502.status saved.f := status_decode isBits_x86 saved.f
  exact Processor.ext rfl rfl rfl rfl rfl hp rfl rfl

theorem registers_init (c : Core Ram) : (cpu65Init c).saved.registers 0xFC = initRegisters := rfl

theorem guest_idle (hidle : c.running = false) (hreinit : c.state.emulReinitialize = 0) :
    c.guest = ⟨(restore c.saved c.state).view, c.state.signal, false⟩ := by
  rw [Core.guest, if_pos hreinit, hidle, hreinit]
  rfl

theorem guest_running (hrunning : c.running = true) (hreinit : c.state.emulReinitialize = 0) :
    c.guest = ⟨c.state.view, c.state.signal, false⟩ := by
  rw [Core.guest, if_pos hreinit, hrunning, hreinit]
  rfl

theorem guest_restart (hreinit : c.state.emulReinitialize ≠ 0) :
    c.guest = ⟨c.state.view.load initRegisters, c.state.signal, true⟩ := by
  rw [Core.guest, if_neg hreinit, bne_iff_ne.mpr hreinit]

/-- A call starts where the program stands. -/
theorem seen_enter (hidle : c.running = false) (n : Int32) :
    (enter buttons (prepare c).saved { (prepare c).state with cyclesToExecute := n }).seen =
      c.guest.start buttons := by
  by_cases hreinit : c.state.emulReinitialize = 0
  · have hprepare : prepare c = { c with state := { c.state with cycleCount := 0 } } := by
      rw [prepare, if_pos hreinit]
    let s : State Ram := { c.state with cycleCount := 0, cyclesToExecute := n }
    have hzero : State.emulReinitialize (restore c.saved s) = 0 := hreinit
    rw [hprepare, guest_idle hidle hreinit, enter]
    dsimp only
    rw [if_pos hzero]
    exact seen_continue2 (restore c.saved s)
  · have hprepare : prepare c = { cpu65Init c with
        state := { (cpu65Init c).state with cycleCount := 0 } } := by
      rw [prepare, if_neg hreinit]
    let s : State Ram := { (cpu65Init c).state with cycleCount := 0, cyclesToExecute := n }
    have hnonzero : State.emulReinitialize (restore (cpu65Init c).saved s) ≠ 0 := hreinit
    have hzero : ∀ t : State Ram, ({ t with emulReinitialize := 0 } : State Ram).view = t.view :=
      fun _ => rfl
    have hsp : s.sp = 0xFC := rfl
    rw [hprepare, guest_restart hreinit, Guest.start, if_pos rfl, enter]
    dsimp only
    rw [if_neg hnonzero, seen_reset, hzero, view_restore, hsp, registers_init]
    rfl

/-- Registers that are saved come back. -/
theorem view_restore_save (s : State Ram) : (restore (save s) s).view = s.view := by
  have hp : flagX86.status (flagX86.decode (flagX86.encode s.f)) = flagX86.status s.f := by
    rw [status_decode isBits_x86, encode_status, status_ofStatus (.inl rfl)]
  exact Processor.ext rfl rfl rfl rfl rfl hp rfl rfl

theorem guest_account (saved : Saved) {s : State Ram} (hreinit : s.emulReinitialize = 0) :
    (account ramBus saved s).guest =
      ⟨{ s.view with cycles := cyclesOf s.opcode + s.opcycles }, s.signal, false⟩ := by
  have hmeter := account_meter ramBus saved s
  have hsignal : (account ramBus saved s).state.signal = s.signal := congrArg Meter.signal hmeter
  have hzero : State.emulReinitialize (account ramBus saved s).state = 0 :=
    (congrArg Meter.emulReinitialize hmeter).trans hreinit
  cases hrunning : (account ramBus saved s).running with
  | true => rw [guest_running hrunning hzero, account_view_x86, hsignal]
  | false =>
    have hsaved := congrArg Core.saved (account_saved_x86 hrunning)
    rw [guest_idle hrunning hzero, hsaved, view_restore_save, account_view_x86, hsignal]

theorem jump_opcode (t : State Ram) : ∃ n, (jumpNextInstruction ramBus t).meter =
    { t.meter with opcode := t.mem.cell t.pc, opcycles := n } := by
  have hrun := run_spends ramBus (fetch ramBus t) (handlerOf (fetch ramBus t).opcode)
  rw [fetch_meter] at hrun
  obtain ⟨k, -, hmeter⟩ := hrun
  exact ⟨_, hmeter⟩

/-- The instruction of an entry is that of the program. -/
theorem guest_run {entry : Entry Ram} {saved : Saved} {g : Guest}
    (hseen : entry.seen = g.start buttons)
    (hah : ∀ t, entry.start ramBus = some t → t.ah = 0)
    (hready : ∀ t, entry.start ramBus = some t → t.emulReinitialize = 0)
    (hdecimal : ∀ v signal, g.start buttons = some (v, signal) →
      Digits (v.ram.cell v.pc) (fetched v))
    (hload : s.view.load initRegisters = g.processor.load initRegisters) :
    (entry.run ramBus saved s).guest = g.next buttons := by
  rw [Entry.seen] at hseen
  rw [Entry.run, Guest.next, ← hseen]
  cases hstart : entry.start ramBus with
  | none =>
    rw [Option.map_none]
    have hguest : (⟨false, saved, exitReinit s⟩ : Core Ram).guest =
        ⟨s.view.load initRegisters, 0, true⟩ := rfl
    dsimp only
    rw [hguest, hload]
  | some t =>
    rw [hstart, Option.map_some] at hseen
    rw [Option.map_some]
    have hbcd : Bcd (handlerOf (t.mem.cell t.pc)) { t.view with pc := t.pc + 1 } :=
      (digits_iff _ _).mp (hdecimal t.view t.signal hseen.symm)
    have hview := jumpNextInstruction_ram t (hah t hstart) hbcd
    obtain ⟨n, hmeter⟩ := jump_opcode t
    have hopcode : (jumpNextInstruction ramBus t).opcode = t.mem.cell t.pc :=
      congrArg Meter.opcode hmeter
    have hsignal : (jumpNextInstruction ramBus t).signal = t.signal := congrArg Meter.signal hmeter
    have hreinit : State.emulReinitialize (jumpNextInstruction ramBus t) = 0 :=
      (congrArg Meter.emulReinitialize hmeter).trans (hready t hstart)
    have hcycles : (jumpNextInstruction ramBus t).opcycles =
        (jumpNextInstruction ramBus t).view.cycles := rfl
    dsimp only
    rw [guest_account saved hreinit, hopcode, hsignal, hcycles, hview, exec_handlerOf]
    rfl

/-! ## Runs of the x86 core -/

/-- In a call, the thread does not ask for the reset of `cpu65_init`. -/
def Core.Steady (c : Core Ram) : Prop := c.running = true → c.state.emulReinitialize = 0

theorem steady_idle (hidle : c.running = false) : c.Steady := by
  intro hrunning
  rw [hidle] at hrunning
  cases hrunning

theorem steady_of_moves {m : Meter} (h : m.Moves d.state.meter d.running) : d.Steady := by
  intro hrunning
  obtain ⟨hzero, -⟩ | ⟨-, hstop, -⟩ := h
  · exact hzero
  · rw [hstop] at hrunning
    cases hrunning

theorem Core.Steady.step (h : c.Steady) {event : Cpu.Event Ram}
    (hstep : threadStep ramBus c event = .ok d) : d.Steady := by
  cases hmoves : event.moves with
  | true =>
    cases event with
    | call buttons n => exact steady_of_moves ((host ramBus).call hstep).2
    | instruction buttons =>
      have hrunning := (host ramBus).instruction_running hstep
      exact steady_of_moves ((host ramBus).instruction_moves (h hrunning) hstep)
    | interrupt | uninterrupt | registers | memory => cases hmoves
  | false =>
    obtain ⟨hrunning, -, -, hreinit⟩ := other_meter hmoves hstep
    intro hgoing
    rw [hrunning] at hgoing
    exact hreinit.trans (h hgoing)

/-- What `cpu65_init` overwrites need not be known. -/
theorem load_guest (c : Core Ram) (r : Registers) :
    c.guest.processor.load r = c.state.view.load r := by
  rw [Core.guest]
  dsimp only
  split
  · split <;> rfl
  · rfl

theorem load_prepare (c : Core Ram) (n : Int32) (r : Registers) :
    ({ (prepare c).state with cyclesToExecute := n } : State Ram).view.load r =
      c.state.view.load r := by
  rw [prepare]
  split <;> rfl

theorem guest_call {n : Int32} (hdecimal : c.guest.Decimal (.call buttons n))
    (hstep : threadStep ramBus c (.call buttons n) = .ok d) : d.guest = c.guest.next buttons := by
  obtain ⟨hidle, rfl⟩ := step_call hstep
  rw [prepare_running] at hidle
  refine guest_run (seen_enter hidle n) ?_ ?_ (hdecimal buttons (.inr ⟨n, rfl⟩)) ?_
  · exact fun t ht => @entry_ah (.call buttons n) (prepare c) _ _ rfl ht
  · intro t ht
    have hready := start_ready ramBus (enter_from buttons _ _) ht
    exact hready.emulReinitialize
  · rw [load_guest, load_prepare]

theorem guest_instruction (h : c.Steady) (hdecimal : c.guest.Decimal (.instruction buttons))
    (hstep : threadStep ramBus c (.instruction buttons) = .ok d) :
    d.guest = c.guest.next buttons := by
  obtain ⟨hrunning, rfl⟩ := step_instruction hstep
  have hreinit := h hrunning
  refine guest_run ?_ ?_ ?_ (hdecimal buttons (.inl rfl)) ?_
  · rw [guest_running hrunning hreinit]
    exact seen_continue2 c.state
  · exact fun t ht => continue2_ah ht
  · intro t ht
    have hready := start_ready ramBus (continue2_from buttons c.state) ht
    exact hready.emulReinitialize.trans hreinit
  · rw [load_guest]

/-- The signals are not the core's registers. -/
theorem guest_signal (c : Core Ram) (signal : UInt8) :
    ({ c with state := { c.state with signal := signal } } : Core Ram).guest =
      { c.guest with signal := signal } := by
  rfl

theorem guest_memory (c : Core Ram) (mem : Ram) :
    ({ c with state := { c.state with mem := mem } } : Core Ram).guest =
      { c.guest with processor := { c.guest.processor with ram := mem } } := by
  rw [Core.guest, Core.guest]
  dsimp only
  split
  · split <;> rfl
  · rfl

theorem guest_registers {r : Registers} (hidle : c.running = false) :
    (loadRegisters r c).guest = c.guest.step (.registers r) := by
  have hidle' : (loadRegisters r c).running = false := hidle
  by_cases hreinit : c.state.emulReinitialize = 0
  · have hzero : State.emulReinitialize (loadRegisters r c).state = 0 := hreinit
    have hload : (loadRegisters r c).state.view.load r = c.state.view.load r := rfl
    have hsaved : (loadRegisters r c).saved.registers (loadRegisters r c).state.sp = r := rfl
    rw [guest_idle hidle' hzero, view_restore, hsaved, hload, ← load_guest,
      guest_idle hidle hreinit]
    rfl
  · have hnonzero : State.emulReinitialize (loadRegisters r c).state ≠ 0 := hreinit
    rw [guest_restart hreinit, guest_restart hnonzero]
    rfl

/-- What a step of the core is to the program. -/
theorem guest_step (h : c.Steady) {event : Cpu.Event Ram} (hdecimal : c.guest.Decimal event)
    (hstep : threadStep ramBus c event = .ok d) : d.guest = c.guest.step event := by
  cases event with
  | call buttons n => exact guest_call hdecimal hstep
  | instruction buttons => exact guest_instruction h hdecimal hstep
  | interrupt reason | uninterrupt reason =>
    cases hstep
    exact guest_signal c _
  | memory mem =>
    cases hstep
    exact guest_memory c mem
  | registers r =>
    simp only [threadStep] at hstep
    split at hstep
    · cases hstep
    · next hidle =>
      cases hstep
      exact guest_registers (Bool.eq_false_iff.mpr hidle)

/-- What a run of the core is to the program. -/
theorem guest_runs (h : c.Steady) {events : List (Cpu.Event Ram)}
    (hdecimal : AlongPure Guest.step Guest.Decimal c.guest events)
    (hrun : runM (threadStep ramBus) c events = .ok d) :
    d.guest = events.foldl Guest.step c.guest := by
  induction events generalizing c with
  | nil =>
    cases hrun
    rfl
  | cons event events ih =>
    obtain ⟨hfirst, hrest⟩ := hdecimal
    cases hstep : threadStep ramBus c event with
    | error e =>
      rw [runM_cons_error events hstep] at hrun
      cases hrun
    | ok u =>
      rw [runM_cons_ok events hstep] at hrun
      have hguest := guest_step h hfirst hstep
      rw [← hguest] at hrest
      rw [ih (h.step hstep) hrest hrun, hguest, List.foldl_cons]

end X86

end Apple2ix.Cpu
