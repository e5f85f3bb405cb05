import Apple2ix.Cpu.ArmExec
import Apple2ix.Cpu.CycleBudget
import Apple2ix.Cpu.X86Exec
import Apple2ix.Foundations.Simulations

/-! The two cores side by side: the same program, memory, signals and requests for cycles. -/
namespace Apple2ix.Cpu
open Processor Runs
set_option autoImplicit false

/-! ## States -/

/-- The registers as the 65c02 has them, memory and its writes, and the counters are the same. -/
structure Alike (s : X86.State Ram) (t : Arm.State Ram) : Prop where
  view : s.view = t.view
  meter : s.meter = t.meter
  range : t.InRange

inductive AlikeEntry : X86.Entry Ram → Arm.Entry Ram → Prop
  | next {s : X86.State Ram} {t : Arm.State Ram} (h : Alike s t) : AlikeEntry (.next s) (.next t)
  | irq {s : X86.State Ram} {t : Arm.State Ram} (h : Alike s t) : AlikeEntry (.irq s) (.irq t)
  | reset {s : X86.State Ram} {t : Arm.State Ram} (h : Alike s t) : AlikeEntry (.reset s) (.reset t)
  | reinit : AlikeEntry .reinit .reinit

section Entries
variable {s : X86.State Ram} {t : Arm.State Ram}

theorem Alike.has_i (h : Alike s t) : s.has flagX86.i = t.has flagArm.i := by
  rw [Arm.has_eq]
  exact congrArg (fun v => v.p.i) h.view

theorem Alike.signal (h : Alike s t) : s.signal = t.signal := congrArg Meter.signal h.meter

/-- Neither core looks at its scratch register again. -/
theorem Alike.scratch (h : Alike s t) (al ah : UInt8) (r0 : UInt32) :
    Alike { s with al := al, ah := ah } { t with r0 := r0 } :=
  ⟨h.view, h.meter, Arm.scratch_inRange h.range r0 t.apsr t.opcycles⟩

theorem Alike.continue2 (h : Alike s t) (buttons : Buttons) :
    AlikeEntry (X86.continue2 buttons s) (Arm.continue2 buttons t) := by
  have hsame := h.scratch s.signal 0 t.signal.toUInt32
  have hi := hsame.has_i
  have hx86 : X86.continue2 buttons s =
    if s.signal = 0 then .next { s with al := s.signal, ah := 0 }
    else if s.signal &&& resetSig = 0 then X86.exIrq { s with al := s.signal, ah := 0 }
    else if buttons.held then .reinit else .reset { s with al := s.signal, ah := 0 } := rfl
  have harm : Arm.continue2 buttons t =
    if t.signal = 0 then .next { t with r0 := t.signal.toUInt32 }
    else if t.signal &&& resetSig = 0 then Arm.exIrq { t with r0 := t.signal.toUInt32 }
    else if buttons.held then .reinit else .reset { t with r0 := t.signal.toUInt32 } := rfl
  rw [hx86, harm, h.signal]
  rw [h.signal] at hsame hi
  split_ifs
  · exact .next hsame
  · rw [X86.exIrq, Arm.exIrq, hi]
    split_ifs
    · exact .next hsame
    · exact .irq hsame
  · exact .reinit
  · exact .reset hsame

end Entries

/-! ## Exceptions -/

/-- An interrupt of the 65c02, with the flags that the cores push and set. -/
def Processor.interrupted (s : Processor) : Processor :=
  let s := pushWord s.pc s
  let s := { s with p := { s.p with x := true } }
  let s := push s.statusByte s
  { s with
    p := { s.p with b := true, i := true }
    pc := join (s.ram.cell 0xFFFF) (s.ram.cell 0xFFFE)
    cycles := 7 }

def Processor.restarted (s : Processor) : Processor :=
  { s with pc := join (s.ram.cell 0xFFFD) (s.ram.cell 0xFFFC), cycles := 0 }

namespace X86

theorem status_interrupt (f : UInt8) : flagX86.status (f ||| (flagX86.b ||| flagX86.i)) =
    { flagX86.status f with b := true, i := true } := by
  rw [orr_select]
  simp (disch := decide) only [Layout.status, select_in, select_out]
  rfl

theorem view_irqEntry (s : State Ram) : (irqEntry ramBus s).view = s.view.interrupted := by
  have hcount : ∀ t : State Ram, ({ t with opcycles := t.opcycles + 7 } : State Ram).view =
    { t.view with cycles := t.view.cycles + 7 } := fun _ => rfl
  have hclear : ∀ t : State Ram, (cpuStatsReset { t with ah := 0 }).view =
    { t.view with cycles := 0 } :=
    fun _ => rfl
  have hset : ∀ t : State Ram, (setFlag (flagX86.b ||| flagX86.i) t).view =
    { t.view with p := { t.view.p with b := true, i := true } } := fun t =>
      congrArg (fun p => { t.view with p := p }) (status_interrupt t.f)
  have hframe : ∀ t : State Ram, (setFlag flagX86.x t).view =
    { t.view with p := { t.view.p with x := true } } := fun t =>
      congrArg (fun p => { t.view with p := p }) (status_setFlag t.f).2.2.2.1
  have hah : ∀ t : State Ram, ({ t with ah := 0 } : State Ram).view = t.view := fun _ => rfl
  rw [irqEntry, hcount, hclear, view_interruptVector, hset, irqFrame, view_pushFlags, hah, hframe,
    view_pushAx]
  rfl

theorem view_exReset (s : State Ram) : (exReset ramBus s).view = s.view.restarted := by
  have hnext : (0xFFFC : UInt16) + 1 = 0xFFFD := by decide
  rw [exReset, getFromEaW_ram, hnext]
  rfl

end X86

namespace Arm

theorem status_interrupt (f : UInt8) : flagArm.status (f ||| (flagArm.b ||| flagArm.i)) =
    { flagArm.status f with b := true, i := true } := by
  rw [orr_select]
  simp (disch := decide) only [Layout.status, select_in, select_out]
  rfl

theorem view_irqEntry {s : State Ram} (h : s.InRange) :
    (irqEntry ram s).view = s.view.interrupted := by
  let t : State Ram := { s with r0 := ror s.pc 8 }
  let u := orrF flagArm.x.toUInt32 (pushR0 ram t)
  let v := orrF (flagArm.b ||| flagArm.i).toUInt32 (push ram (encodeFlags u).r0 (encodeFlags u))
  have ht : t.InRange := scratch_inRange h _ s.apsr s.opcycles
  have hu : u.InRange := orrF_inRange (pushR0_inRange ram ht) (byte_lt _)
  have hv : v.InRange := orrF_inRange (status_inRange ram hu) (byte_lt _)
  have hr0 : t.r0 = ror s.view.pc.toUInt32 8 := congrArg (ror · 8) h.pc_wide
  have hhi : t.r0.toUInt8 = hiByte s.view.pc := by rw [hr0, ror8_hi]
  have hlo : (t.r0 >>> 24).toUInt8 = loByte s.view.pc := by rw [hr0, ror8_lo]
  have hseven : ((0 : UInt8).toUInt32 + 7).toUInt8 = 7 := by decide
  have hentry : (irqEntry ram s).view = { (interruptVector ram v).view with
      cycles := ((0 : UInt8).toUInt32 + 7).toUInt8 } := rfl
  have huview :
      u.view = { (pushR0 ram t).view with p := { (pushR0 ram t).view.p with x := true } } :=
    view_orrF _ (status_set _).2.2.2.2
  have hvview : v.view = { Processor.push u.view.statusByte u.view with
      p := { u.view.p with b := true, i := true } } := by
    have hset : v.view = { (push ram (encodeFlags u).r0 (encodeFlags u)).view with
        p := { (push ram (encodeFlags u).r0 (encodeFlags u)).view.p with b := true, i := true } } :=
      view_orrF _ (status_interrupt _)
    rw [hset, view_pushStatus hu]
    rfl
  rw [hentry, view_interruptVector hv, hvview, huview, view_pushR0 ht hhi hlo, hseven]
  rfl

theorem view_exReset {s : State Ram} (h : s.InRange) : (exReset ram s).view = s.view.restarted := by
  have hrange : ({ s with r0 := 0, signal := 0, ea := 0xFFFC } : State Ram).InRange :=
    setEa_inRange (s := { s with r0 := 0, signal := 0 }) ⟨h.a, h.f, h.x, h.y, h.sp, h.pc, h.ea⟩
      (by decide)
  have hnext : (0xFFFC : UInt32).toUInt16 + 1 = 0xFFFD := by decide
  have hreset : ∀ t : State Ram, (cpuStatsReset { t with pc := t.r0 }).view =
    { t.view with pc := t.r0.toUInt16, cycles := 0 } := fun _ => rfl
  rw [exReset, hreset, getFromEaW_ram hrange]
  dsimp only
  rw [hnext, wide_word]
  rfl

end Arm

/-! ## Instructions -/

/-- Where both cores start an instruction, or neither. -/
inductive AlikeStart : Option (X86.State Ram) → Option (Arm.State Ram) → Prop
  | none : AlikeStart none none
  | some {s : X86.State Ram} {t : Arm.State Ram} (h : Alike s t) (hcycles : t.opcycles.toNat ≤ 7) :
    AlikeStart (some s) (some t)

theorem AlikeEntry.start {e : X86.Entry Ram} {f : Arm.Entry Ram} (h : AlikeEntry e f) :
    AlikeStart (e.start ramBus) (f.start Arm.ram) := by
  cases h with
  | @next s t h =>
    have hview : (X86.cpuStatsReset s).view = (Arm.cpuStatsReset t).view :=
      congrArg (fun v : Processor => { v with cycles := 0 }) h.view
    have hmeter : (X86.cpuStatsReset s).meter = (Arm.cpuStatsReset t).meter :=
      congrArg (fun m : Meter => { m with opcycles := 0 }) h.meter
    exact .some ⟨hview, hmeter, Arm.cpuStatsReset_inRange h.range⟩ (Nat.zero_le 7)
  | @irq s t h =>
    have hview : (X86.irqEntry ramBus s).view = (Arm.irqEntry Arm.ram t).view := by
      rw [X86.view_irqEntry, Arm.view_irqEntry h.range, h.view]
    have hmeter : (X86.irqEntry ramBus s).meter = (Arm.irqEntry Arm.ram t).meter := by
      rw [X86.irqEntry_meter, Arm.irqEntry_meter, h.meter]
    have hcycles : (Arm.irqEntry Arm.ram t).meter.opcycles.toNat ≤ 7 := by
      rw [Arm.irqEntry_meter]
      exact Nat.le_refl 7
    exact .some ⟨hview, hmeter, Arm.irqEntry_inRange Arm.ram h.range⟩ hcycles
  | @reset s t h =>
    have hview : (X86.exReset ramBus s).view = (Arm.exReset Arm.ram t).view := by
      rw [X86.view_exReset, Arm.view_exReset h.range, h.view]
    have hmeter : (X86.exReset ramBus s).meter = (Arm.exReset Arm.ram t).meter := by
      rw [X86.exReset_meter, Arm.exReset_meter, h.meter]
    have hcycles : (Arm.exReset Arm.ram t).meter.opcycles.toNat ≤ 7 := by
      rw [Arm.exReset_meter]
      exact Nat.zero_le 7
    exact .some ⟨hview, hmeter, Arm.exReset_inRange Arm.ram h.range⟩ hcycles
  | reinit => exact .none

/-- The operation that the opcode at PC names, and the registers it finds. -/
def fetched (s : Processor) : Processor := { s with pc := s.pc + 1 }

/-- An instruction that both cores carry out as the 65c02 does, in registers of its size: valid
decimal operands, no `ASL` of an indexed byte to zero, no decimal carry out of an addition, and no
branch to below address 0. -/
structure Portable (t : Arm.State Ram) : Prop where
  bcd : Bcd (handlerOf (t.view.ram.cell t.view.pc)) (fetched t.view)
  carry : ¬ Arm.Spoiled (t.view.ram.cell t.view.pc) (fetched t.view)
  range : ¬ Arm.Escapes Arm.ram t

section Instructions
variable (arch : Arm.Arch) {s : X86.State Ram} {t : Arm.State Ram}

/-- The counters after an instruction follow from the registers. -/
theorem meter_of_spends {m m' n n' : Meter} {i j : ℕ} (h : m = n) (hm : m.Spends i m')
    (hn : n.Spends j n') (hcycles : m'.opcycles = n'.opcycles) : m' = n' := by
  obtain ⟨a, -, rfl⟩ := hm
  obtain ⟨b, -, rfl⟩ := hn
  subst h
  exact congrArg (fun k => { m with opcycles := k }) hcycles

theorem Alike.jump (h : Alike s t) (hah : s.ah = 0) (hport : Portable t) :
    Alike (X86.jumpNextInstruction ramBus s) (Arm.jumpNextInstruction arch Arm.ram t) := by
  have harm := Arm.jumpNextInstruction_ram arch h.range hport.bcd
  have hbcd := hport.bcd
  rw [← h.view] at hbcd
  have hx86 := X86.jumpNextInstruction_ram s hah hbcd
  have hview : (X86.jumpNextInstruction ramBus s).view =
      (Arm.jumpNextInstruction arch Arm.ram t).view := by
    have hspoiled := hport.carry
    rw [harm, Arm.execArm]
    rw [fetched] at hspoiled
    rw [if_neg hspoiled, hx86]
    have hpc : s.pc = t.view.pc := congrArg Processor.pc h.view
    have hmem : s.mem = t.view.ram := congrArg Processor.ram h.view
    rw [hpc, hmem, h.view]
  have hopcode : (X86.fetch ramBus s).opcode = (Arm.fetch Arm.ram t).opcode := by
    rw [Arm.fetch_opcode, ← h.view]
    rfl
  have hfetch : (X86.fetch ramBus s).meter = (Arm.fetch Arm.ram t).meter := by
    rw [X86.fetch_meter, Arm.fetch_meter, h.meter, hopcode]
  have hcycles := congrArg Processor.cycles hview
  exact
    ⟨hview,
      meter_of_spends hfetch (X86.run_spends ramBus _ _) (Arm.run_spends arch Arm.ram _ _) hcycles,
    (Arm.jumpNextInstruction_inRange arch Arm.ram h.range).mpr hport.range⟩

end Instructions

/-! ## Calls -/

/-- The registers in `cpu65_run_args_s`. `cpu65_ea` is only ever set before it is used, and the
cores leave it where their last access was. -/
structure AlikeSaved (c : X86.Core Ram) (d : Arm.Core Ram) : Prop where
  pc : c.saved.pc = d.saved.pc
  a : c.saved.a = d.saved.a
  f : c.saved.f = d.saved.f
  x : c.saved.x = d.saved.x
  y : c.saved.y = d.saved.y
  sp : c.state.sp = d.saved.sp

/-- The cores between two instructions of a call, or between calls. -/
structure Agree (c : X86.Core Ram) (d : Arm.Core Ram) : Prop where
  running : c.running = d.running
  meter : c.state.meter = d.state.meter
  mem : c.state.mem = d.state.mem
  working : d.running = true → Alike c.state d.state ∧ 0 < d.state.cyclesToExecute.toInt
  saved : d.running = false → d.state.emulReinitialize = 0 → AlikeSaved c d

section Calls
variable (arch : Arm.Arch) {s : X86.State Ram} {t : Arm.State Ram} {c : X86.Core Ram}
    {d : Arm.Core Ram}

theorem Alike.saved (h : Alike s t) {running : Bool} :
    AlikeSaved ⟨running, X86.save s, s⟩ ⟨running, Arm.save t, t⟩ := by
  have hf : (X86.save s).f = (Arm.save t).f := by
    have hx86 : (X86.save s).f = s.view.statusByte := encode_status flagX86 s.f
    have harm : (Arm.save t).f = t.view.statusByte := encode_status flagArm t.f.toUInt8
    rw [hx86, harm, h.view]
  exact ⟨congrArg Processor.pc h.view, congrArg Processor.a h.view, hf, congrArg Processor.x h.view,
    congrArg Processor.y h.view, congrArg Processor.sp h.view⟩

/-- Restored registers are alike. -/
theorem Alike.restore (hsaved : AlikeSaved c d) (hs : s.sp = c.state.sp)
    (hmeter : s.meter = t.meter)
    (hmem : s.mem = t.mem) : Alike (X86.restore c.saved s) (Arm.restore d.saved t) := by
  have hp : flagX86.status (flagX86.decode c.saved.f) =
      flagArm.status (flagArm.decode d.saved.f).toUInt32.toUInt8 := by
    rw [Arm.wide_byte, status_decode isBits_x86, status_decode isBits_arm, hsaved.f]
  refine ⟨?_, hmeter, Arm.restore_inRange d.saved t⟩
  refine Processor.ext ?_ ?_ ?_ ?_ ?_ hp ?_ hmem
  · exact hsaved.a.trans (Arm.wide_byte _).symm
  · exact hsaved.x.trans (Arm.wide_byte _).symm
  · exact hsaved.y.trans (Arm.wide_byte _).symm
  · exact (hs.trans hsaved.sp).trans (Arm.wide_byte _).symm
  · exact hsaved.pc.trans (Arm.wide_word _).symm
  · exact congrArg Meter.opcycles hmeter

theorem Alike.enter (hsaved : AlikeSaved c d) (hs : s.sp = c.state.sp) (hmeter : s.meter = t.meter)
    (hmem : s.mem = t.mem) (buttons : Buttons) :
    AlikeEntry (X86.enter buttons c.saved s) (Arm.enter buttons d.saved t) := by
  have hrestore := Alike.restore hsaved hs hmeter hmem
  have hreinit : X86.State.emulReinitialize (X86.restore c.saved s) =
        Arm.State.emulReinitialize (Arm.restore d.saved t) :=
    congrArg Meter.emulReinitialize hmeter
  rw [X86.enter, Arm.enter, hreinit]
  split
  · exact hrestore.continue2 buttons
  · have hrange := hrestore.range
    exact .reset
      ⟨hrestore.view, congrArg (fun m : Meter => { m with emulReinitialize := 0 }) hrestore.meter,
      ⟨hrange.a, hrange.f, hrange.x, hrange.y, hrange.sp, hrange.pc, hrange.ea⟩⟩

theorem account_view_x86 (saved : X86.Saved) (s : X86.State Ram) :
    (X86.account ramBus saved s).state.view =
      { s.view with cycles := cyclesOf s.opcode + s.opcycles } := by
  rw [X86.account]
  split <;> rfl

theorem account_view_arm (saved : Arm.Saved) {t : Arm.State Ram} (h : t.opcycles.toNat ≤ 9) :
    (Arm.account Arm.ram saved t).state.view =
      { t.view with cycles := cyclesOf t.opcode + t.opcycles } := by
  have hcycles := congrArg Meter.opcycles (Arm.account_meter Arm.ram saved h)
  have hview : (Arm.account Arm.ram saved t).state.view = { t.view with
      cycles := (Arm.account Arm.ram saved t).state.meter.opcycles } := by
    rw [Arm.account]
    split <;> rfl
  rw [hview, hcycles]

/-- A call that is over leaves its registers in `cpu65_run_args_s`. -/
theorem account_saved_x86 {saved : X86.Saved} {s : X86.State Ram}
    (h : (X86.account ramBus saved s).running = false) : X86.account ramBus saved s =
      ⟨false, X86.save (X86.account ramBus saved s).state, (X86.account ramBus saved s).state⟩ := by
  rw [X86.account] at h ⊢
  split at h
  · next hdone => rw [if_pos hdone]
  · cases h

theorem account_saved_arm {saved : Arm.Saved} {t : Arm.State Ram}
    (h : (Arm.account Arm.ram saved t).running = false) : Arm.account Arm.ram saved t =
      ⟨false, Arm.save (Arm.account Arm.ram saved t).state,
        (Arm.account Arm.ram saved t).state⟩ := by
  rw [Arm.account] at h ⊢
  split at h
  · next hdone => rw [if_pos hdone]
  · cases h

theorem Alike.account (h : Alike s t) (hcycles : t.opcycles.toNat ≤ 9)
    (hleft : 0 ≤ t.cyclesToExecute.toInt) (saved : X86.Saved) (saved' : Arm.Saved) :
    Agree (X86.account ramBus saved s) (Arm.account Arm.ram saved' t) := by
  have hopcycles : s.opcycles = t.opcycles := congrArg Meter.opcycles h.meter
  have hcounted := X86.account_counted ramBus saved (s := s) (hopcycles ▸ hcycles)
  have hcounted' := Arm.account_counted Arm.ram saved' hcycles
  have hmeter : (X86.account ramBus saved s).state.meter =
      (Arm.account Arm.ram saved' t).state.meter := by
    rw [X86.account_meter, Arm.account_meter Arm.ram saved' hcycles, h.meter, hopcycles]
    have hopcode : s.opcode = t.opcode := congrArg Meter.opcode h.meter
    have hcount : s.cycleCount = t.cycleCount := congrArg Meter.cycleCount h.meter
    have hexecute : s.cyclesToExecute = t.cyclesToExecute := congrArg Meter.cyclesToExecute h.meter
    rw [hopcode, hcount, hexecute]
  have hrunning : (X86.account ramBus saved s).running =
      (Arm.account Arm.ram saved' t).running := by
    rw [Bool.eq_iff_iff, hcounted'.running hleft, hcounted.running (h.meter ▸ hleft), hmeter,
      h.meter]
  have hopcode : s.opcode = t.opcode := congrArg Meter.opcode h.meter
  have hview : (X86.account ramBus saved s).state.view =
      (Arm.account Arm.ram saved' t).state.view := by
    rw [account_view_x86, account_view_arm saved' hcycles, h.view, hopcode, hopcycles]
  have halike : Alike (X86.account ramBus saved s).state (Arm.account Arm.ram saved' t).state :=
    ⟨hview, hmeter, Arm.account_inRange Arm.ram saved' h.range⟩
  refine ⟨hrunning, hmeter, congrArg Processor.ram hview, fun hgoing => ⟨halike, ?_⟩,
    fun hstopped _ => ?_⟩
  · have hmore := (hcounted'.running hleft).mp hgoing
    have hsub : (Arm.account Arm.ram saved' t).state.cyclesToExecute =
        t.cyclesToExecute - (Arm.account Arm.ram saved' t).state.meter.cycles :=
          hcounted'.cyclesToExecute
    have hsize := (Arm.account Arm.ram saved' t).state.meter.cycles_toInt
    have hmost := hcounted'.most
    have hmax := t.cyclesToExecute.toInt_lt
    change (_ : ℤ) < t.cyclesToExecute.toInt at hmore
    rw [hsub, sub_toInt, hsize]
    all_goals omega
  · rw [account_saved_arm hstopped, account_saved_x86 (hrunning.trans hstopped)]
    exact halike.saved

/-- The next instruction of both, or both calls end because the thread is to reinitialize. -/
theorem AlikeEntry.run {e : X86.Entry Ram} {f : Arm.Entry Ram} (h : AlikeEntry e f)
    (hmeter : s.meter = t.meter) (hmem : s.mem = t.mem) (hleft : 0 ≤ t.cyclesToExecute.toInt)
    (hah : ∀ u, e.start ramBus = some u → u.ah = 0)
    (hcounters : ∀ v, f.start Arm.ram = some v → v.cyclesToExecute = t.cyclesToExecute)
    (hport : ∀ v, f.start Arm.ram = some v → Portable v) (saved : X86.Saved) (saved' : Arm.Saved) :
    Agree (e.run ramBus saved s) (f.run arch Arm.ram saved' t) := by
  have hstart := h.start
  rw [X86.Entry.run, Arm.Entry.run]
  cases hu : e.start ramBus with
  | none =>
    rw [hu] at hstart
    cases hv : f.start Arm.ram with
    | some v =>
      rw [hv] at hstart
      cases hstart
    | none =>
      have hexit : (X86.exitReinit s).meter = (Arm.exitReinit t).meter :=
        congrArg (fun m : Meter => { m with signal := 0, emulReinitialize := 1 }) hmeter
      refine ⟨rfl, hexit, hmem, Bool.noConfusion, fun _ hzero => ?_⟩
      cases hzero
  | some u =>
    rw [hu] at hstart
    cases hv : f.start Arm.ram with
    | none =>
      rw [hv] at hstart
      cases hstart
    | some v =>
      rw [hv] at hstart
      obtain ⟨halike, hcycles⟩ : Alike u v ∧ v.opcycles.toNat ≤ 7 := by
        cases hstart with
        | some h hcycles => exact ⟨h, hcycles⟩
      have hjump := halike.jump arch (hah u hu) (hport v hv)
      obtain ⟨opcode, hspends⟩ := Arm.jumpNextInstruction_spends arch Arm.ram v
      have hopcycles := spent_le hspends (by
        change v.opcycles.toNat + 2 < 0x100
        omega)
      change _ ≤ v.opcycles.toNat + 2 at hopcycles
      have hexecute : (Arm.jumpNextInstruction arch Arm.ram v).meter.cyclesToExecute =
          t.cyclesToExecute := by
        obtain ⟨k, -, hmeter⟩ := hspends
        rw [hmeter]
        exact hcounters v hv
      refine hjump.account ?_ ?_ saved saved'
      · change (Arm.jumpNextInstruction arch Arm.ram v).meter.opcycles.toNat ≤ 9
        omega
      · change 0 ≤ (Arm.jumpNextInstruction arch Arm.ram v).meter.cyclesToExecute.toInt
        rw [hexecute]
        exact hleft

theorem Agree.prepare (h : Agree c d) (hidle : d.running = false) :
    AlikeSaved (X86.prepare c) (Arm.prepare d) ∧
    (X86.prepare c).state.meter = (Arm.prepare d).state.meter ∧
      (X86.prepare c).state.mem = (Arm.prepare d).state.mem := by
  have hreinit : c.state.emulReinitialize = d.state.emulReinitialize :=
    congrArg Meter.emulReinitialize h.meter
  rw [X86.prepare, Arm.prepare, hreinit]
  split
  · next hzero =>
    have hsaved := h.saved hidle hzero
    exact ⟨⟨hsaved.pc, hsaved.a, hsaved.f, hsaved.x, hsaved.y, hsaved.sp⟩,
      congrArg (fun m : Meter => { m with cycleCount := 0 }) h.meter, h.mem⟩
  · exact ⟨⟨rfl, rfl, rfl, rfl, rfl, rfl⟩,
      congrArg (fun m : Meter => { m with cycleCount := 0, signal := 0 }) h.meter, h.mem⟩

end Calls

/-! ## Runs -/

/-- The state of the ARM core before the instruction of an event that runs one. -/
def nextArm (d : Arm.Core Ram) : Event Ram → Option (Arm.State Ram)
  | .call buttons n => (Arm.Event.call buttons n).next Arm.ram (Arm.prepare d)
  | .instruction buttons => (Arm.Event.instruction buttons).next Arm.ram d
  | _ => none

/-- A call asks for no fewer than no cycles, and the instruction of the event is portable. -/
def PortableEvent (d : Arm.Core Ram) (event : Event Ram) : Prop :=
  (∀ buttons n, event = .call buttons n → 0 ≤ n.toInt) ∧ ∀ t, nextArm d event = some t → Portable t

section Steps
variable (arch : Arm.Arch) {c : X86.Core Ram} {d : Arm.Core Ram}

/-- A call goes to the same place. -/
theorem Agree.entry (h : Agree c d) (hidle : d.running = false) (buttons : Buttons) (n : Int32) :
    AlikeEntry
      (X86.enter buttons (X86.prepare c).saved
        { (X86.prepare c).state with cyclesToExecute := n })
      (Arm.enter buttons (Arm.prepare d).saved
        { (Arm.prepare d).state with cyclesToExecute := n }) := by
  obtain ⟨hsaved, hmeter, hmem⟩ := h.prepare hidle
  let s : X86.State Ram := { (X86.prepare c).state with cyclesToExecute := n }
  let t : Arm.State Ram := { (Arm.prepare d).state with cyclesToExecute := n }
  have hmeter' : s.meter = t.meter :=
    congrArg (fun m : Meter => { m with cyclesToExecute := n }) hmeter
  have hs : s.sp = (X86.prepare c).state.sp := rfl
  exact Alike.enter (s := s) (t := t) hsaved hs hmeter' hmem buttons

theorem Agree.call (h : Agree c d) {buttons : Buttons} {n : Int32}
    (hport : PortableEvent d (.call buttons n)) :
    Results Agree (X86.threadStep ramBus c (.call buttons n))
      (Arm.threadStep arch Arm.ram d (.call buttons n)) := by
  have hx86 : X86.threadStep ramBus c (.call buttons n) = if !(X86.prepare c).running then
      .ok
        ((X86.enter buttons (X86.prepare c).saved
          { (X86.prepare c).state with cyclesToExecute := n }).run
        ramBus (X86.prepare c).saved { (X86.prepare c).state with cyclesToExecute := n })
    else .error () := rfl
  have harm : Arm.threadStep arch Arm.ram d (.call buttons n) = if !(Arm.prepare d).running then
      .ok
        ((Arm.enter buttons (Arm.prepare d).saved
          { (Arm.prepare d).state with cyclesToExecute := n }).run
        arch Arm.ram (Arm.prepare d).saved { (Arm.prepare d).state with cyclesToExecute := n })
    else .error () := rfl
  rw [hx86, harm, X86.prepare_running, Arm.prepare_running, h.running]
  cases hrunning : d.running with
  | true => exact .error ()
  | false =>
    obtain ⟨-, hmeter, hmem⟩ := h.prepare hrunning
    have hmeter' : ({ (X86.prepare c).state with cyclesToExecute := n } : X86.State Ram).meter =
        ({ (Arm.prepare d).state with cyclesToExecute := n } : Arm.State Ram).meter :=
      congrArg (fun m : Meter => { m with cyclesToExecute := n }) hmeter
    have hentry := h.entry hrunning buttons n
    refine .ok (hentry.run arch hmeter' hmem (hport.1 buttons n rfl) ?_ ?_ ?_ _ _)
    · exact fun u hu => @X86.entry_ah (.call buttons n) (X86.prepare c) _ _ rfl hu
    · exact fun v hv => (Arm.start_ready Arm.ram (Arm.enter_from buttons _ _) hv).cyclesToExecute
    · exact fun v hv => hport.2 v hv

theorem Agree.instruction (h : Agree c d) {buttons : Buttons}
    (hport : PortableEvent d (.instruction buttons)) :
    Results Agree (X86.threadStep ramBus c (.instruction buttons))
      (Arm.threadStep arch Arm.ram d (.instruction buttons)) := by
  have hx86 : X86.threadStep ramBus c (.instruction buttons) = if c.running then
      .ok ((X86.continue2 buttons c.state).run ramBus c.saved c.state)
    else .error () := rfl
  have harm : Arm.threadStep arch Arm.ram d (.instruction buttons) = if d.running then
      .ok ((Arm.continue2 buttons d.state).run arch Arm.ram d.saved d.state)
    else .error () := rfl
  rw [hx86, harm, h.running]
  cases hrunning : d.running with
  | false => exact .error ()
  | true =>
    obtain ⟨halike, hleft⟩ := h.working hrunning
    refine .ok ((halike.continue2 buttons).run arch h.meter h.mem hleft.le ?_ ?_ ?_ _ _)
    · exact fun u hu => X86.continue2_ah hu
    · exact fun v hv => (Arm.start_ready Arm.ram (Arm.continue2_from buttons _) hv).cyclesToExecute
    · exact fun v hv => hport.2 v hv

/-- The signals, and memory, change under both. -/
theorem Agree.signal (h : Agree c d) (f : UInt8 → UInt8) :
    Agree { c with state := { c.state with signal := f c.state.signal } }
      { d with state := { d.state with signal := f d.state.signal } } := by
  have hmeter := congrArg (fun m : Meter => { m with signal := f m.signal }) h.meter
  refine ⟨h.running, hmeter, h.mem, fun hgoing => ?_, fun hidle hzero => ?_⟩
  · obtain ⟨halike, hleft⟩ := h.working hgoing
    have hrange := halike.range
    exact
      ⟨⟨halike.view, hmeter,
        ⟨hrange.a, hrange.f, hrange.x, hrange.y, hrange.sp, hrange.pc, hrange.ea⟩⟩,
      hleft⟩
  · have hsaved := h.saved hidle hzero
    exact ⟨hsaved.pc, hsaved.a, hsaved.f, hsaved.x, hsaved.y, hsaved.sp⟩

theorem Agree.memory (h : Agree c d) (mem : Ram) :
    Agree { c with state := { c.state with mem := mem } }
      { d with state := { d.state with mem := mem } } := by
  refine ⟨h.running, h.meter, rfl, fun hgoing => ?_, fun hidle hzero => ?_⟩
  · obtain ⟨halike, hleft⟩ := h.working hgoing
    have hrange := halike.range
    exact ⟨⟨congrArg (fun v : Processor => { v with ram := mem }) halike.view, halike.meter,
      ⟨hrange.a, hrange.f, hrange.x, hrange.y, hrange.sp, hrange.pc, hrange.ea⟩⟩, hleft⟩
  · have hsaved := h.saved hidle hzero
    exact ⟨hsaved.pc, hsaved.a, hsaved.f, hsaved.x, hsaved.y, hsaved.sp⟩

theorem Agree.registers (h : Agree c d) (r : Registers) :
    Results Agree (X86.threadStep ramBus c (.registers r))
      (Arm.threadStep arch Arm.ram d (.registers r)) := by
  have hx86 : X86.threadStep ramBus c (.registers r) =
    if c.running then .error () else .ok (X86.loadRegisters r c) := rfl
  have harm : Arm.threadStep arch Arm.ram d (.registers r) =
    if !d.running then .ok { d with saved := Arm.Registers.saved r } else .error () := rfl
  rw [hx86, harm, h.running]
  cases hrunning : d.running with
  | true => exact .error ()
  | false =>
    exact .ok ⟨h.running.trans hrunning, h.meter, h.mem, Bool.noConfusion,
      fun _ _ => ⟨rfl, rfl, rfl, rfl, rfl, rfl⟩⟩

theorem Agree.step (h : Agree c d) {event : Event Ram} (hport : PortableEvent d event) :
    Results Agree (X86.threadStep ramBus c event) (Arm.threadStep arch Arm.ram d event) := by
  cases event with
  | call buttons n => exact h.call arch hport
  | instruction buttons => exact h.instruction arch hport
  | interrupt reason => exact .ok (h.signal (· ||| reason))
  | uninterrupt reason => exact .ok (h.signal (· &&& ~~~reason))
  | registers r => exact h.registers arch r
  | memory mem => exact .ok (h.memory mem)

end Steps

/-- **The cores agree.** Let both cores start out of a call, with the same memory and counters,
either to reinitialize or with the same registers. In every run of calls, instructions, interrupts,
resets, loaded registers and changes of memory along which the calls ask for no fewer than no cycles
and the instructions are portable, both do the same: they fail together, or stand between the same
instructions, with the same registers, flags and cycles, and the same memory after the same writes
in the same order. -/
theorem cores_agree (arch : Arm.Arch) {c : X86.Core Ram} {d : Arm.Core Ram}
    (hidle : d.running = false)
    (hrunning : c.running = d.running) (hmeter : c.state.meter = d.state.meter)
    (hmem : c.state.mem = d.state.mem)
    (hsaved : d.state.emulReinitialize = 0 → AlikeSaved c d) {events : List (Event Ram)}
    (hport : Along (Arm.threadStep arch Arm.ram) PortableEvent d events) :
    Results Agree (runM (X86.threadStep ramBus) c events)
      (runM (Arm.threadStep arch Arm.ram) d events) := by
  have hstep : ∀ c d event, Agree c d → PortableEvent d event →
      Results Agree (X86.threadStep ramBus c event) (Arm.threadStep arch Arm.ram d event) :=
    fun _ _ _ h hevent => h.step arch hevent
  refine runM_lockstep hstep ?_ hport
  refine ⟨hrunning, hmeter, hmem, fun hgoing => ?_, fun _ => hsaved⟩
  rw [hidle] at hgoing
  cases hgoing

/-- The ARM core before its first call, with a program. -/
def Arm.fresh (program : UInt16 → UInt8) : Arm.Core Ram :=
  let c := Arm.idle ⟨0, 0, 0, 0, 0, 0, 0⟩ program
  { c with state := { c.state with emulReinitialize := 1 } }

theorem bcd_pushing {s : Processor} (h : isPushing (s.ram.cell s.pc) = true) :
    Bcd (handlerOf (s.ram.cell s.pc)) (fetched s) := by
  intro mode hmode
  obtain h | h | h := handlerOf_pushing h
  all_goals
    rw [h] at hmode
    obtain hmode | hmode := hmode <;> cases hmode

/-- The instructions of `pushing` are portable. -/
theorem portable_pushing {t : Arm.State Ram} (h : isPushing (t.view.ram.cell t.view.pc) = true) :
    Portable t := by
  refine ⟨bcd_pushing h, ?_, ?_⟩
  · rintro ⟨hopcode, -⟩
    rw [hopcode] at h
    exact absurd h (by decide)
  · rw [Arm.Escapes, Arm.fetch_opcode]
    obtain h | h | h := handlerOf_pushing h
    all_goals
      rw [h]
      exact not_false

/-- A call asks for no fewer than no cycles, and the instruction of an event is one of `pushing`. -/
def checkEvent (d : Arm.Core Ram) (event : Event Ram) : Bool :=
  (match event with
    | .call _ n => decide (0 ≤ n.toInt)
    | _ => true) &&
  (nextArm d event).all fun t => isPushing (t.view.ram.cell t.view.pc)

theorem portable_check (d : Arm.Core Ram) (event : Event Ram) (h : checkEvent d event = true) :
    PortableEvent d event := by
  obtain ⟨hcall, hnext⟩ := Bool.and_eq_true_iff.mp h
  constructor
  · rintro buttons n rfl
    exact of_decide_eq_true hcall
  · intro t ht
    rw [ht, Option.all_some] at hnext
    exact portable_pushing hnext

/-- A reset, a push, a pull, and a load while an interrupt waits that is masked. -/
theorem cores_agree_pushing : ∃ c d, runM (X86.threadStep ramBus) (X86.idle pushing)
      [.call ⟨0, 0⟩ 8, .instruction ⟨0, 0⟩, .interrupt 0x01, .instruction ⟨0, 0⟩] = .ok c ∧
    runM (Arm.threadStep .aarch64 Arm.ram) (Arm.fresh pushing)
      [.call ⟨0, 0⟩ 8, .instruction ⟨0, 0⟩, .interrupt 0x01, .instruction ⟨0, 0⟩] = .ok d ∧
    Agree c d ∧ c.state.x = 5 ∧ c.state.mem.writes = [(0x01FC, 0xFF)] := by
  have hport : Along (Arm.threadStep .aarch64 Arm.ram) PortableEvent (Arm.fresh pushing)
      [.call ⟨0, 0⟩ 8, .instruction ⟨0, 0⟩, .interrupt 0x01, .instruction ⟨0, 0⟩] :=
    along_of_check portable_check (by decide +kernel)
  obtain ⟨c, hc, hx, hwrites⟩ : ∃ c, runM (X86.threadStep ramBus) (X86.idle pushing)
      [.call ⟨0, 0⟩ 8, .instruction ⟨0, 0⟩, .interrupt 0x01, .instruction ⟨0, 0⟩] = .ok c ∧
      c.state.x = 5 ∧ c.state.mem.writes = [(0x01FC, 0xFF)] := ⟨_, rfl, rfl, rfl⟩
  have hboth := cores_agree .aarch64 (c := X86.idle pushing) rfl rfl rfl rfl
    (fun h => absurd h (by decide)) hport
  obtain ⟨d, hd⟩ : ∃ d, runM (Arm.threadStep .aarch64 Arm.ram) (Arm.fresh pushing)
      [.call ⟨0, 0⟩ 8, .instruction ⟨0, 0⟩, .interrupt 0x01, .instruction ⟨0, 0⟩] = .ok d :=
        ⟨_, rfl⟩
  rw [hc, hd] at hboth
  cases hboth with
  | ok hagree => exact ⟨c, d, hc, hd, hagree, hx, hwrites⟩

end Apple2ix.Cpu
