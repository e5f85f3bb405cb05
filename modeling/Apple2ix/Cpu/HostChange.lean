import Apple2ix.Cpu.Guest

/-! The ARM core is the same machine to a program, which can be saved on one host between two calls
of `cpu65_run`, and go on on the other. -/
namespace Apple2ix.Cpu
open Processor Runs
set_option autoImplicit false

/-! ## The ARM core -/

namespace Arm

def Saved.registers (saved : Saved) : Registers :=
  ⟨saved.pc, saved.ea, saved.a, saved.f, saved.x, saved.y, saved.sp⟩

/-- What the program sees of the core. -/
def Core.guest (c : Core Ram) : Guest where
  processor :=
    if c.state.emulReinitialize = 0 then
      if c.running then c.state.view else c.state.view.load c.saved.registers
    else c.state.view.load initRegisters
  signal := c.state.signal
  restart := c.state.emulReinitialize != 0

/-- The x86 core with the same registers between calls. -/
def Core.x86 (c : Core Ram) : X86.Core Ram where
  running := c.running
  saved := ⟨c.saved.pc, c.saved.ea, c.saved.a, c.saved.f, c.saved.x, c.saved.y⟩
  state :=
    { a := 0, f := 0, x := 0, y := 0, pc := 0, ea := 0, al := 0, ah := 0, sp := c.saved.sp
      opcode := c.state.opcode, opcycles := c.state.opcycles, rw := 0, d := 0
      cycleCount := c.state.cycleCount, cyclesToExecute := c.state.cyclesToExecute
      signal := c.state.signal, emulReinitialize := c.state.emulReinitialize, mem := c.state.mem }

theorem guest_idle {c : Core Ram} (hidle : c.running = false)
    (hreinit : c.state.emulReinitialize = 0) :
    c.guest = ⟨c.state.view.load c.saved.registers, c.state.signal, false⟩ := by
  rw [Core.guest, if_pos hreinit, hidle, hreinit]
  rfl

theorem agree_x86 {d : Core Ram} (hidle : d.running = false) : Agree d.x86 d := by
  refine ⟨rfl, rfl, rfl, fun hgoing => ?_, fun _ _ => ⟨rfl, rfl, rfl, rfl, rfl, rfl⟩⟩
  rw [hidle] at hgoing
  cases hgoing

end Arm

section Agreement
variable {c c' : X86.Core Ram} {d d' : Arm.Core Ram}

theorem Agree.load (h : Agree c d) (r : Registers) (ea : UInt16) :
    c.state.view.load r = d.state.view.load { r with ea := ea } := by
  have hcycles : c.state.view.cycles = d.state.view.cycles := congrArg Meter.opcycles h.meter
  have hram : c.state.view.ram = d.state.view.ram := h.mem
  exact Processor.ext rfl rfl rfl rfl rfl rfl hcycles hram

theorem AlikeSaved.registers (h : AlikeSaved c d) :
    { c.saved.registers c.state.sp with ea := d.saved.ea } = d.saved.registers := by
  rw [X86.Saved.registers, h.pc, h.a, h.f, h.x, h.y, h.sp, Arm.Saved.registers]

/-- Cores that agree are the same to the program. -/
theorem Agree.guest (h : Agree c d) : c.guest = d.guest := by
  have hreinit : c.state.emulReinitialize = d.state.emulReinitialize :=
    congrArg Meter.emulReinitialize h.meter
  have hsignal : c.state.signal = d.state.signal := congrArg Meter.signal h.meter
  by_cases hzero : d.state.emulReinitialize = 0
  · rw [Arm.Core.guest, if_pos hzero, hzero, ← hsignal]
    cases hrunning : d.running with
    | true =>
      rw [X86.guest_running (h.running.trans hrunning) (hreinit.trans hzero),
        (h.working hrunning).1.view]
      rfl
    | false =>
      have hload := h.load (c.saved.registers c.state.sp) d.saved.ea
      rw [(h.saved hrunning hzero).registers] at hload
      rw [X86.guest_idle (h.running.trans hrunning) (hreinit.trans hzero), X86.view_restore, hload]
      rfl
  · rw [X86.guest_restart (hreinit.trans_ne hzero), Arm.Core.guest, if_neg hzero,
      h.load initRegisters initRegisters.ea, hsignal, bne_iff_ne.mpr hzero]

/-- A portable instruction adds and subtracts digits. -/
theorem AlikeEntry.decimal {e : X86.Entry Ram} {f : Arm.Entry Ram} (h : AlikeEntry e f)
    (hport : ∀ v, f.start Arm.ram = some v → Portable v) {s : Processor} {signal : UInt8}
    (hseen : e.seen = some (s, signal)) : Digits (s.ram.cell s.pc) (fetched s) := by
  have hstart := h.start
  rw [X86.Entry.seen] at hseen
  cases hu : e.start ramBus with
  | none =>
    rw [hu] at hseen
    cases hseen
  | some u =>
    rw [hu] at hseen hstart
    cases hseen
    cases hv : f.start Arm.ram with
    | none =>
      rw [hv] at hstart
      cases hstart
    | some v =>
      rw [hv] at hstart
      have halike : Alike u v := by
        cases hstart with
        | some h => exact h
      rw [halike.view]
      exact (digits_iff _ _).mpr (hport v hv).bcd

theorem Agree.decimal (h : Agree c d) (hsteady : c.Steady) {event : Event Ram}
    (hport : PortableEvent d event) (hstep : X86.threadStep ramBus c event = .ok c') :
    c.guest.Decimal event := by
  intro buttons hevent s signal hstart
  obtain rfl | ⟨n, rfl⟩ := hevent
  · obtain ⟨hrunning, -⟩ := X86.step_instruction hstep
    have halike := (h.working (h.running.symm.trans hrunning)).1
    rw [X86.guest_running hrunning (hsteady hrunning), ← X86.seen_continue2] at hstart
    exact (halike.continue2 buttons).decimal (fun v hv => hport.2 v hv) hstart
  · obtain ⟨hidle, -⟩ := X86.step_call hstep
    rw [X86.prepare_running] at hidle
    rw [← X86.seen_enter hidle n] at hstart
    have hentry := h.entry (h.running.symm.trans hidle) buttons n
    exact hentry.decimal (fun v hv => hport.2 v hv) hstart

/-- What a run of the ARM core is to the program. -/
theorem Agree.guest_runs (arch : Arm.Arch) (h : Agree c d) (hsteady : c.Steady)
    {events : List (Event Ram)} (hport : Along (Arm.threadStep arch Arm.ram) PortableEvent d events)
    (hrun : runM (Arm.threadStep arch Arm.ram) d events = .ok d') :
    AlongPure Guest.step Guest.Decimal d.guest events ∧
      d'.guest = events.foldl Guest.step d.guest := by
  induction events generalizing c d with
  | nil =>
    cases hrun
    exact ⟨trivial, rfl⟩
  | cons event events ih =>
    cases hd : Arm.threadStep arch Arm.ram d event with
    | error e =>
      rw [runM_cons_error events hd] at hrun
      cases hrun
    | ok e =>
      have hboth := h.step arch hport.head
      rw [hd] at hboth
      obtain ⟨u, hu, hagree⟩ := hboth.exists_left
      have hdecimal := h.decimal hsteady hport.head hu
      have hguest := X86.guest_step hsteady hdecimal hu
      rw [h.guest] at hdecimal hguest
      rw [hagree.guest] at hguest
      rw [runM_cons_ok events hd] at hrun
      rw [along_cons hd] at hport
      obtain ⟨hrest, hend⟩ := ih hagree (hsteady.step hu) hport.2 hrun
      rw [hguest] at hrest hend
      exact ⟨⟨hdecimal, hrest⟩, hend⟩

end Agreement

/-! ## What the program does not see -/

/-- That a call begins. -/
def Event.visible : Event Ram → Event Ram
  | .call buttons _ => .instruction buttons
  | event => event

namespace Guest

/-- The machine but for how long its last instruction took. -/
def settled (g : Guest) : Guest := { g with processor := { g.processor with cycles := 0 } }

variable {g g' : Guest} {events events' : List (Event Ram)}

theorem step_visible (g : Guest) (event : Event Ram) : g.step event.visible = g.step event := by
  cases event <;> rfl

theorem decimal_visible (g : Guest) (event : Event Ram) :
    g.Decimal event.visible ↔ g.Decimal event := by
  cases event with
  | call buttons n =>
    constructor
    · rintro h b (hevent | ⟨m, hevent⟩)
      · cases hevent
      · cases hevent
        exact h _ (.inl rfl)
    · rintro h b (hevent | ⟨m, hevent⟩)
      · cases hevent
        exact h _ (.inr ⟨n, rfl⟩)
      · cases hevent
  | instruction | interrupt | uninterrupt | registers | memory => exact Iff.rfl

theorem start_settled (g : Guest) (buttons : Buttons) : g.settled.start buttons = g.start buttons :=
  rfl

theorem decimal_settled (g : Guest) (event : Event Ram) :
    g.settled.Decimal event ↔ g.Decimal event := Iff.rfl

theorem next_settled (g : Guest) (buttons : Buttons) :
    (g.settled.next buttons).settled = (g.next buttons).settled := by
  rw [next, next, start_settled]
  split <;> rfl

theorem step_settled (g : Guest) (event : Event Ram) :
    (g.settled.step event).settled = (g.step event).settled := by
  cases event with
  | call buttons | instruction buttons => exact next_settled g buttons
  | interrupt | uninterrupt | memory => rfl
  | registers r =>
    have hregisters : ∀ g : Guest, g.step (.registers r) =
      if g.restart then g else { g with processor := g.processor.load r } := fun _ => rfl
    have hrestart : g.settled.restart = g.restart := rfl
    rw [hregisters, hregisters, hrestart]
    split <;> rfl

theorem step_congr {event event' : Event Ram} (h : g.settled = g'.settled)
    (hevent : event.visible = event'.visible) :
    (g.step event).settled = (g'.step event').settled := by
  rw [← step_settled, ← step_visible, h, hevent, step_visible, step_settled]

/-- **Slices.** Where the calls begin is nothing to the program. -/
theorem runs_congr (h : g.settled = g'.settled)
    (hevents : events.map Event.visible = events'.map Event.visible) :
    (events.foldl step g).settled = (events'.foldl step g').settled := by
  induction events generalizing g g' events' with
  | nil =>
    rw [List.map_nil, eq_comm, List.map_eq_nil_iff] at hevents
    rw [hevents]
    exact h
  | cons event events ih =>
    cases events' with
    | nil => cases hevents
    | cons event' events' =>
      rw [List.map_cons, List.map_cons, List.cons.injEq] at hevents
      rw [List.foldl_cons, List.foldl_cons]
      exact ih (step_congr h hevents.1) hevents.2

theorem decimals_congr (h : g.settled = g'.settled)
    (hevents : events.map Event.visible = events'.map Event.visible)
    (hdecimal : AlongPure step Decimal g' events') : AlongPure step Decimal g events := by
  induction events generalizing g g' events' with
  | nil => exact trivial
  | cons event events ih =>
    cases events' with
    | nil => cases hevents
    | cons event' events' =>
      rw [List.map_cons, List.map_cons, List.cons.injEq] at hevents
      obtain ⟨hfirst, hrest⟩ := hdecimal
      refine ⟨?_, ih (step_congr h hevents.1) hevents.2 hrest⟩
      rw [← decimal_settled, ← decimal_visible] at hfirst ⊢
      rw [h, hevents.1]
      exact hfirst

end Guest

/-! ## Main results -/

/-- **The core is the 65c02.** Let the core start out of a call. In every run of calls,
instructions, interrupts, resets, loaded registers and changes of memory along which the program
adds and subtracts digits in decimal mode, the program finds after each of them the registers, flags
and memory that the instructions of the 65c02 leave. -/
theorem X86.refines_guest {c d : X86.Core Ram} (hidle : c.running = false)
    {events : List (Cpu.Event Ram)} (hdecimal : AlongPure Guest.step Guest.Decimal c.guest events)
    (hrun : runM (X86.threadStep ramBus) c events = .ok d) :
    d.guest = events.foldl Guest.step c.guest :=
  X86.guest_runs (X86.steady_idle hidle) hdecimal hrun

/-- The instruction of an event, if it runs one, is one of `pushing`. -/
def Guest.checkPushing (g : Guest) : Event Ram → Bool
  | .call buttons _ | .instruction buttons =>
    (g.start buttons).all fun next => isPushing (next.1.ram.cell next.1.pc)
  | _ => true

theorem Guest.decimal_check {g : Guest} {event : Event Ram} (h : g.checkPushing event = true) :
    g.Decimal event := by
  rintro buttons (rfl | ⟨n, rfl⟩) s signal hstart
  all_goals
    rw [Guest.checkPushing, hstart, Option.all_some] at h
    exact (digits_iff _ _).mpr (bcd_pushing h)

/-- A reset, a push, a pull, and a load while an interrupt waits that is masked. -/
theorem X86.refines_guest_pushing : ∃ d, runM (X86.threadStep ramBus) (X86.idle pushing)
      [.call ⟨0, 0⟩ 8, .instruction ⟨0, 0⟩, .interrupt 0x01, .instruction ⟨0, 0⟩] = .ok d ∧
    d.guest = [.call ⟨0, 0⟩ 8, .instruction ⟨0, 0⟩, .interrupt 0x01, .instruction ⟨0, 0⟩].foldl
      Guest.step (X86.idle pushing).guest ∧
    d.state.mem.writes = [(0x01FC, 0xFF)] := by
  obtain ⟨d, hd, hwrites⟩ : ∃ d, runM (X86.threadStep ramBus) (X86.idle pushing)
      [.call ⟨0, 0⟩ 8, .instruction ⟨0, 0⟩, .interrupt 0x01, .instruction ⟨0, 0⟩] = .ok d ∧
      d.state.mem.writes = [(0x01FC, 0xFF)] := ⟨_, rfl, rfl⟩
  refine ⟨d, hd, X86.refines_guest rfl ⟨?_, ?_, ?_, ?_, trivial⟩ hd, hwrites⟩
  all_goals exact Guest.decimal_check (by decide +kernel)

/-- The x86 core between calls, with a program. -/
def X86.started (program : UInt16 → UInt8) : X86.Core Ram :=
  let c := X86.idle program
  { c with state := { c.state with emulReinitialize := 0 } }

/-- **A program on both hosts.** Between two calls, let the registers of the x86 core be saved, and
loaded into an ARM core with the same memory and signals. From there on, the same interrupts,
resets, loaded registers and changes of memory between the same instructions leave the same
registers, flags and memory on both hosts, into whatever calls of `cpu65_run` either of them cuts
the instructions, if the ARM core finds them portable. -/
theorem resumed_elsewhere (arch : Arm.Arch) {c c' : X86.Core Ram} {d d' : Arm.Core Ram}
    {events events' : List (Event Ram)} (hidle : c.running = false) (hidle' : d.running = false)
    (hstay : c.state.emulReinitialize = 0) (hstay' : d.state.emulReinitialize = 0)
    (hmem : d.state.mem = c.state.mem) (hsignal : d.state.signal = c.state.signal)
    (hevents : events.map Event.visible = events'.map Event.visible)
    (hport : Along (Arm.threadStep arch Arm.ram) PortableEvent d
      (.registers (c.saved.registers c.state.sp) :: events'))
    (hrun : runM (X86.threadStep ramBus) c events = .ok c')
    (hrun' : runM (Arm.threadStep arch Arm.ram) d
      (.registers (c.saved.registers c.state.sp) :: events') = .ok d') :
    c'.guest.settled = d'.guest.settled := by
  obtain ⟨hdecimal, hguest'⟩ :=
    (Arm.agree_x86 hidle').guest_runs arch (X86.steady_idle hidle') hport hrun'
  obtain ⟨-, hdecimal⟩ := hdecimal
  rw [List.foldl_cons] at hguest'
  have hstart : c.guest.settled =
      (d.guest.step (.registers (c.saved.registers c.state.sp))).settled := by
    rw [X86.guest_idle hidle hstay, X86.view_restore, Arm.guest_idle hidle' hstay', Guest.step,
      if_neg Bool.false_ne_true, ← hsignal]
    have hview : ∀ r r' : Registers, ({ c.state.view.load r with cycles := 0 } : Processor) =
        { (d.state.view.load r').load r with cycles := 0 } := by
      intro r r'
      exact Processor.ext rfl rfl rfl rfl rfl rfl rfl hmem.symm
    rw [Guest.settled, Guest.settled, hview _ d.saved.registers]
  have hguest := X86.refines_guest hidle (Guest.decimals_congr hstart hevents hdecimal) hrun
  rw [hguest, hguest']
  exact Guest.runs_congr hstart hevents

/-- One call of three instructions, and two calls, of two and of one. -/
theorem resumed_elsewhere_pushing : ∃ c d,
    runM (X86.threadStep ramBus) (X86.started pushing)
      [.call ⟨0, 0⟩ 9, .instruction ⟨0, 0⟩, .instruction ⟨0, 0⟩] = .ok c ∧
    runM (Arm.threadStep .arm32 Arm.ram) (Arm.idle ⟨7, 7, 7, 7, 7, 7, 7⟩ pushing)
      [.registers ⟨0, 0, 0, 0, 0, 0, 0⟩, .call ⟨0, 0⟩ 3, .instruction ⟨0, 0⟩, .call ⟨0, 0⟩ 1] =
        .ok d ∧
    c.guest.settled = d.guest.settled ∧ c.state.a = 5 ∧ c.state.mem.writes = [(0x0100, 5)] := by
  have hport : Along (Arm.threadStep .arm32 Arm.ram) PortableEvent
      (Arm.idle ⟨7, 7, 7, 7, 7, 7, 7⟩ pushing)
      [.registers ⟨0, 0, 0, 0, 0, 0, 0⟩, .call ⟨0, 0⟩ 3, .instruction ⟨0, 0⟩, .call ⟨0, 0⟩ 1] :=
    along_of_check portable_check (by decide +kernel)
  obtain ⟨c, hc, ha, hwrites⟩ : ∃ c, runM (X86.threadStep ramBus) (X86.started pushing)
      [.call ⟨0, 0⟩ 9, .instruction ⟨0, 0⟩, .instruction ⟨0, 0⟩] = .ok c ∧
      c.state.a = 5 ∧ c.state.mem.writes = [(0x0100, 5)] := ⟨_, rfl, rfl, rfl⟩
  obtain ⟨d, hd⟩ : ∃ d, runM (Arm.threadStep .arm32 Arm.ram)
      (Arm.idle ⟨7, 7, 7, 7, 7, 7, 7⟩ pushing)
      [.registers ⟨0, 0, 0, 0, 0, 0, 0⟩, .call ⟨0, 0⟩ 3, .instruction ⟨0, 0⟩, .call ⟨0, 0⟩ 1] =
        .ok d := ⟨_, rfl⟩
  have hevents : [.call ⟨0, 0⟩ 9, .instruction ⟨0, 0⟩, .instruction ⟨0, 0⟩].map Event.visible =
    [.call ⟨0, 0⟩ 3, .instruction ⟨0, 0⟩, .call ⟨0, 0⟩ 1].map Event.visible := rfl
  exact ⟨c, d, hc, hd, resumed_elsewhere .arm32 rfl rfl rfl rfl rfl rfl hevents hport hc hd, ha,
    hwrites⟩

end Apple2ix.Cpu
