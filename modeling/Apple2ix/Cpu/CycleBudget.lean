import Apple2ix.Cpu.Hosts
import Apple2ix.Cpu.Meters
import Apple2ix.Foundations.Runs

/-! The cycles of a call of `cpu65_run`: what `continue` counts up and down, on either host. -/
namespace Apple2ix.Cpu
open Runs
set_option autoImplicit false

universe u
variable {σ : Type u}

/-! ## Counters -/

theorem small_toInt (k : UInt8) : k.toUInt32.toInt32.toInt = k.toNat := by
  have hk := k.toNat_lt
  have hword : (k.toUInt32.toInt32.toInt : ℤ) = (k.toNat : ℤ).bmod (2 ^ 32) := by
    rw [← UInt8.toNat_toUInt32]
    exact BitVec.toInt_eq_toNat_bmod _
  rw [hword, Int.bmod_eq_of_le] <;> omega

theorem add_toInt {x y : Int32} (hlow : -2 ^ 31 ≤ x.toInt + y.toInt)
    (hhigh : x.toInt + y.toInt < 2 ^ 31) :
    (x + y).toInt = x.toInt + y.toInt := by
  rw [Int32.toInt_add, Int.bmod_eq_of_le] <;> omega

theorem sub_toInt {x y : Int32} (hlow : -2 ^ 31 ≤ x.toInt - y.toInt)
    (hhigh : x.toInt - y.toInt < 2 ^ 31) :
    (x - y).toInt = x.toInt - y.toInt := by
  rw [Int32.toInt_sub, Int.bmod_eq_of_le] <;> omega

/-- Every opcode takes between two and seven cycles. -/
theorem cyclesOf_bounds (opcode : UInt8) :
    2 ≤ (cyclesOf opcode).toNat ∧ (cyclesOf opcode).toNat ≤ 7 := by
  have hall : ∀ opcode : UInt8,
      (decide (2 ≤ (cyclesOf opcode).toNat) && decide ((cyclesOf opcode).toNat ≤ 7)) = true :=
    forall_uint8 (by decide +kernel)
  simpa using hall opcode

/-- What `continue` adds and subtracts. -/
def Meter.cycles (m : Meter) : Int32 := m.opcycles.toUInt32.toInt32

/-- An instruction has been counted; the call goes on where it has cycles left. -/
structure Meter.Counted (m m' : Meter) (running : Bool) : Prop where
  least : 2 ≤ m'.opcycles.toNat
  most : m'.opcycles.toNat ≤ 16
  cycleCount : m'.cycleCount = m.cycleCount + m'.cycles
  cyclesToExecute : m'.cyclesToExecute = m.cyclesToExecute - m'.cycles
  running : 0 ≤ m.cyclesToExecute.toInt →
    (running = true ↔ (m'.opcycles.toNat : ℤ) < m.cyclesToExecute.toInt)

/-- The next instruction has been counted, or there was none because the thread is to
reinitialize. -/
def Meter.Moves (m m' : Meter) (running : Bool) : Prop :=
  m'.emulReinitialize = 0 ∧ m.Counted m' running ∨
    m'.emulReinitialize = 1 ∧ running = false ∧ m'.cycleCount = m.cycleCount ∧
      m'.cyclesToExecute = m.cyclesToExecute

theorem Meter.Moves.of_counters {m m₀ m' : Meter} {running : Bool} (h : m₀.Moves m' running)
    (hcount : m₀.cycleCount = m.cycleCount) (hleft : m₀.cyclesToExecute = m.cyclesToExecute) :
    m.Moves m' running := by
  obtain ⟨hreinit, hcounted⟩ | ⟨hreinit, hstop, hcycles, hrest⟩ := h
  · refine .inl ⟨hreinit, hcounted.least, hcounted.most, ?_, ?_, ?_⟩
    · rw [← hcount, hcounted.cycleCount]
    · rw [← hleft, hcounted.cyclesToExecute]
    · rw [← hleft]
      exact hcounted.running
  · exact .inr ⟨hreinit, hstop, hcycles.trans hcount, hrest.trans hleft⟩

/-- The counters of a call are the same. -/
def Meter.SameCounters (m m' : Meter) : Prop :=
  m'.cycleCount = m.cycleCount ∧ m'.cyclesToExecute = m.cyclesToExecute ∧
    m'.emulReinitialize = m.emulReinitialize

/-! ## The loop, by its counters -/

/-- Where a core goes from `continue2`, with its counters there. -/
inductive Meter.Entry where
  | next (m : Meter)
  | irq (m : Meter)
  | reset (m : Meter)
  | reinit

/-- The counters that the instruction of an entry starts with. -/
def Meter.Entry.start : Meter.Entry → Option Meter
  | .next m => some { m with opcycles := 0 }
  | .irq m => some { m with opcycles := 7 }
  | .reset m => some { m with opcycles := 0, signal := 0 }
  | .reinit => none

/-- `continue2`, which looks at the buttons and at the flag I. -/
def Meter.continue2 (held i : Bool) (m : Meter) : Meter.Entry :=
  if m.signal = 0 then .next m
  else if m.signal &&& resetSig = 0 then if i then .next m else .irq m
  else if held then .reinit
  else .reset m

/-- The entry point of `cpu65_run`. -/
def Meter.enter (held i : Bool) (m : Meter) : Meter.Entry :=
  if m.emulReinitialize = 0 then m.continue2 held i
  else .reset { m with emulReinitialize := 0 }

/-- An instruction starts with the cycles of `m`, and at most seven of its own. -/
structure Meter.Ready (m m' : Meter) : Prop where
  cycleCount : m'.cycleCount = m.cycleCount
  cyclesToExecute : m'.cyclesToExecute = m.cyclesToExecute
  emulReinitialize : m'.emulReinitialize = m.emulReinitialize
  opcycles : m'.opcycles.toNat ≤ 7

def Meter.Entry.From (entry : Meter.Entry) (m : Meter) : Prop :=
  ∀ m', entry.start = some m' → m.Ready m'

theorem Meter.continue2_from (held i : Bool) (m : Meter) : (m.continue2 held i).From m := by
  intro m' hstart
  unfold Meter.continue2 at hstart
  split_ifs at hstart <;> cases hstart
  · exact ⟨rfl, rfl, rfl, Nat.zero_le 7⟩
  · exact ⟨rfl, rfl, rfl, Nat.zero_le 7⟩
  · exact ⟨rfl, rfl, rfl, Nat.le_refl 7⟩
  · exact ⟨rfl, rfl, rfl, Nat.zero_le 7⟩

theorem Meter.enter_from (held i : Bool) (m : Meter) :
    (m.enter held i).From { m with emulReinitialize := 0 } := by
  intro m' hstart
  unfold Meter.enter at hstart
  split at hstart
  · next h =>
    obtain ⟨hcount, hleft, hreinit, hop⟩ := Meter.continue2_from held i m m' hstart
    exact ⟨hcount, hleft, hreinit.trans h, hop⟩
  · cases hstart
    exact ⟨rfl, rfl, rfl, Nat.zero_le 7⟩

theorem spent_le {m m' : Meter} {n : ℕ} (h : m.Spends n m') (hn : m.opcycles.toNat + n < 0x100) :
    m'.opcycles.toNat ≤ m.opcycles.toNat + n := by
  obtain ⟨k, hk, rfl⟩ := h
  change (m.opcycles + k).toNat ≤ _
  rw [UInt8.toNat_add]
  omega

/-- The sum of a table entry and the other cycles fits in a byte. -/
theorem total_toNat (opcode : UInt8) {opcycles : UInt8} (h : opcycles.toNat ≤ 9) :
    (cyclesOf opcode + opcycles).toNat = (cyclesOf opcode).toNat + opcycles.toNat := by
  have htable := (cyclesOf_bounds opcode).2
  rw [UInt8.toNat_add]
  omega

/-- The loop goes from an entry to `continue`, and counts the instruction; where there is none, the
thread is to reinitialize. -/
inductive Meter.Entry.Runs (entry : Meter.Entry) (m : Meter) : Meter → Bool → Prop
  | counted {start done counted : Meter} {opcode : UInt8} {running : Bool}
      (hstart : entry.start = some start)
      (hspends : ({ start with opcode := opcode } : Meter).Spends 2 done)
      (hcounted : done.opcycles.toNat ≤ 9 → done.Counted counted running)
      (hreinit : counted.emulReinitialize = done.emulReinitialize) : entry.Runs m counted running
  | reinit (hstart : entry.start = none) :
      entry.Runs m { m with signal := 0, emulReinitialize := 1 } false

theorem Meter.Entry.Runs.moves {entry : Meter.Entry} {m m₀ m' : Meter} {running : Bool}
    (h : entry.Runs m m' running) (hfrom : entry.From m₀) (hzero : m₀.emulReinitialize = 0)
    (hcount : m₀.cycleCount = m.cycleCount) (hleft : m₀.cyclesToExecute = m.cyclesToExecute) :
    m.Moves m' running := by
  cases h with
  | @counted start done _ opcode _ hstart hspends hcounted hreinit =>
    have hready := hfrom start hstart
    have hop := hready.opcycles
    have hopcycles := spent_le hspends (by dsimp only; omega)
    have hdone := hcounted (hopcycles.trans (Nat.add_le_add_right hop 2))
    obtain ⟨k, -, rfl⟩ := hspends
    have hmoves : Meter.Moves _ m' running :=
      .inl ⟨(hreinit.trans hready.emulReinitialize).trans hzero, hdone⟩
    exact hmoves.of_counters (hready.cycleCount.trans hcount) (hready.cyclesToExecute.trans hleft)
  | reinit => exact .inr ⟨rfl, rfl, rfl, rfl⟩

/-- A core, the counters it keeps in `cpu65_run_args_s`, and how its steps change them. `prepared`
are the counters before a call, but for the cycles that it asks for. -/
structure Host (σ C : Type u) where
  step : C → Event σ → Except Unit C
  running : C → Bool
  meter : C → Meter
  prepared : C → Meter
  prepared_count : ∀ c, (prepared c).cycleCount = 0
  step_call : ∀ {c d : C} {buttons : Buttons} {n : Int32}, step c (.call buttons n) = .ok d →
    running c = false ∧ ∃ i,
      (({ prepared c with cyclesToExecute := n } : Meter).enter buttons.held i).Runs
        { prepared c with cyclesToExecute := n } (meter d) (running d)
  step_instruction : ∀ {c d : C} {buttons : Buttons}, step c (.instruction buttons) = .ok d →
    running c = true ∧ ∃ i,
      ((meter c).continue2 buttons.held i).Runs (meter c) (meter d) (running d)
  other : ∀ {c d : C} {event : Event σ}, event.moves = false → step c event = .ok d →
    running d = running c ∧ (meter c).SameCounters (meter d)

namespace Host
variable {C : Type u} (host : Host σ C) {c d : C} {buttons : Buttons}

theorem call {n : Int32} (hstep : host.step c (.call buttons n) = .ok d) :
    host.running c = false ∧
      ({ host.meter c with cycleCount := 0, cyclesToExecute := n } : Meter).Moves (host.meter d)
        (host.running d) := by
  obtain ⟨hidle, i, hruns⟩ := host.step_call hstep
  have hmoves := hruns.moves (Meter.enter_from buttons.held i _) rfl rfl rfl
  exact ⟨hidle, hmoves.of_counters (host.prepared_count c) rfl⟩

theorem instruction_running (hstep : host.step c (.instruction buttons) = .ok d) :
    host.running c = true := (host.step_instruction hstep).1

theorem instruction_moves (hreinit : Meter.emulReinitialize (host.meter c) = 0)
    (hstep : host.step c (.instruction buttons) = .ok d) :
    (host.meter c).Moves (host.meter d) (host.running d) := by
  obtain ⟨-, i, hruns⟩ := host.step_instruction hstep
  exact hruns.moves (Meter.continue2_from buttons.held i _) hreinit rfl rfl

end Host

namespace X86

section Counting
variable (bus : Bus σ)

theorem fetch_meter (s : State σ) :
    (fetch bus s).meter = { s.meter with opcode := (fetch bus s).opcode } :=
  rfl

theorem jumpNextInstruction_spends (s : State σ) : ∃ opcode : UInt8,
    ({ s.meter with opcode := opcode } : Meter).Spends 2 (jumpNextInstruction bus s).meter := by
  have hrun := run_spends bus (fetch bus s) (handlerOf (fetch bus s).opcode)
  rw [fetch_meter] at hrun
  exact ⟨_, hrun⟩

theorem account_meter (saved : Saved) (s : State σ) : (account bus saved s).state.meter =
    { s.meter with
      opcycles := cyclesOf s.opcode + s.opcycles
      cycleCount := s.cycleCount + (cyclesOf s.opcode + s.opcycles).toUInt32.toInt32
      cyclesToExecute :=
        s.cyclesToExecute - (cyclesOf s.opcode + s.opcycles).toUInt32.toInt32 } := by
  rw [account]
  split <;> rfl

theorem account_running (saved : Saved) (s : State σ) : (account bus saved s).running = true ↔
    ¬ s.cyclesToExecute ≤ (cyclesOf s.opcode + s.opcycles).toUInt32.toInt32 := by
  rw [account]
  split
  · next h => exact iff_of_false Bool.noConfusion (not_not_intro h)
  · next h => exact iff_of_true rfl h

theorem account_counted (saved : Saved) {s : State σ} (h : s.opcycles.toNat ≤ 9) :
    s.meter.Counted (account bus saved s).state.meter (account bus saved s).running := by
  have htotal := total_toNat s.opcode h
  obtain ⟨hleast, hmost⟩ := cyclesOf_bounds s.opcode
  rw [account_meter]
  refine ⟨?_, ?_, rfl, rfl, fun _ => ?_⟩
  · dsimp only
    omega
  · dsimp only
    omega
  · rw [account_running, Int32.le_iff_toInt_le, small_toInt, not_le]
    rfl

/-- An entry, with the counters alone. -/
def Entry.meter : Entry σ → Meter.Entry
  | .next s => .next s.meter
  | .irq s => .irq s.meter
  | .reset s => .reset s.meter
  | .reinit => .reinit

theorem continue2_meter (buttons : Buttons) (s : State σ) :
    (continue2 buttons s).meter = s.meter.continue2 buttons.held (s.has flagX86.i) := by
  have hi : ∀ al ah : UInt8, ({ s with al := al, ah := ah } : State σ).has flagX86.i =
    s.has flagX86.i := fun _ _ => rfl
  have hsignal : s.meter.signal = s.signal := rfl
  simp only [continue2, exIrq, hi, Meter.continue2, hsignal]
  split_ifs <;> rfl

theorem enter_meter (buttons : Buttons) (saved : Saved) (s : State σ) : ∃ i,
    (enter buttons saved s).meter = s.meter.enter buttons.held i := by
  refine ⟨(restore saved s).has flagX86.i, ?_⟩
  have hreinit : s.meter.emulReinitialize =
    State.emulReinitialize (restore saved s) := rfl
  rw [enter, Meter.enter, hreinit]
  split_ifs
  · rw [continue2_meter]
    rfl
  · rfl

theorem irqEntry_meter (s : State σ) : (irqEntry bus s).meter = { s.meter with opcycles := 7 } := by
  have hclear : ∀ t : State σ, (cpuStatsReset { t with ah := 0 }).meter =
    { t.meter with opcycles := 0 } :=
    fun _ => rfl
  have hpush : ∀ t : State σ, (push bus t.al t).meter = t.meter := fun _ => rfl
  have hset : ∀ (t : State σ) (flag : UInt8), (setFlag flag t).meter = t.meter := fun _ _ => rfl
  have hcount : ∀ t : State σ, ({ t with opcycles := t.opcycles + 7 } : State σ).meter =
    { t.meter with opcycles := t.meter.opcycles + 7 } := fun _ => rfl
  rw [irqEntry, hcount, hclear, interruptVector_meter, hset, hpush, irqFrame_meter]
  rfl

theorem exReset_meter (s : State σ) :
    (exReset bus s).meter = { s.meter with opcycles := 0, signal := 0 } := by
  have hclear : ∀ t : State σ, (cpuStatsReset { t with pc := t.ax, ah := 0 }).meter =
    { t.meter with opcycles := 0 } := fun _ => rfl
  rw [exReset, hclear, getFromEaW_meter]
  rfl

/-- Where an instruction starts, the counters are those of the entry. -/
theorem start_meter (entry : Entry σ) : (entry.start bus).map State.meter = entry.meter.start := by
  cases entry with
  | next s => rfl
  | irq s => exact congrArg some (irqEntry_meter bus s)
  | reset s => exact congrArg some (exReset_meter bus s)
  | reinit => rfl

theorem start_ready {entry : Entry σ} {t : State σ} {m : Meter} (hfrom : entry.meter.From m)
    (hstart : entry.start bus = some t) : m.Ready t.meter := by
  refine hfrom t.meter ?_
  rw [← start_meter bus entry, hstart]
  rfl

theorem run_runs (entry : Entry σ) (saved : Saved) (s : State σ) :
    entry.meter.Runs s.meter (entry.run bus saved s).state.meter
      (entry.run bus saved s).running := by
  have hstart := start_meter bus entry
  rw [Entry.run]
  cases hentry : entry.start bus with
  | none =>
    rw [hentry] at hstart
    exact .reinit hstart.symm
  | some t =>
    rw [hentry] at hstart
    obtain ⟨opcode, hspends⟩ := jumpNextInstruction_spends bus t
    exact .counted hstart.symm hspends (account_counted bus saved) (by rw [account_meter])

end Counting

/-! ## Steps -/

section Steps
variable {bus : Bus σ} {c d : Core σ}

theorem continue2_from (buttons : Buttons) (s : State σ) :
    (continue2 buttons s).meter.From s.meter := by
  rw [continue2_meter]
  exact Meter.continue2_from buttons.held _ s.meter

theorem enter_from (buttons : Buttons) (saved : Saved) (s : State σ) :
    (enter buttons saved s).meter.From { s.meter with emulReinitialize := 0 } := by
  obtain ⟨i, hentry⟩ := enter_meter buttons saved s
  rw [hentry]
  exact Meter.enter_from buttons.held i s.meter

theorem prepare_running (c : Core σ) : (prepare c).running = c.running := by
  rw [prepare]
  split <;> rfl

theorem step_call {buttons : Buttons} {n : Int32} (hstep : step bus c (.call buttons n) = .ok d) :
    c.running = false ∧
      d = (enter buttons c.saved { c.state with cyclesToExecute := n }).run bus c.saved
      { c.state with cyclesToExecute := n } := by
  unfold X86.step at hstep
  split at hstep
  case isFalse => cases hstep
  case isTrue hidle =>
    cases hstep
    exact ⟨(Bool.not_eq_true' _).mp hidle, rfl⟩

theorem step_instruction {buttons : Buttons} (hstep : step bus c (.instruction buttons) = .ok d) :
    c.running = true ∧ d = (continue2 buttons c.state).run bus c.saved c.state := by
  unfold X86.step at hstep
  split at hstep
  case isFalse => cases hstep
  case isTrue hrunning =>
    cases hstep
    exact ⟨hrunning, rfl⟩

theorem other_meter {event : Cpu.Event σ} (hevent : event.moves = false)
    (hstep : threadStep bus c event = .ok d) : d.running = c.running ∧
      c.state.meter.SameCounters d.state.meter := by
  cases event with
  | call | instruction => cases hevent
  | interrupt reason | uninterrupt reason | memory mem =>
    cases hstep
    exact ⟨rfl, rfl, rfl, rfl⟩
  | registers r =>
    simp only [threadStep] at hstep
    split at hstep
    · cases hstep
    · cases hstep
      exact ⟨rfl, rfl, rfl, rfl⟩

end Steps

def host (bus : Bus σ) : Host σ (Core σ) where
  step := threadStep bus
  running := Core.running
  meter := fun c => c.state.meter
  prepared := fun c => (prepare c).state.meter
  prepared_count := fun _ => rfl
  step_call := by
    intro c d buttons n hstep
    obtain ⟨hidle, rfl⟩ := step_call hstep
    rw [prepare_running] at hidle
    obtain ⟨i, hentry⟩ := enter_meter buttons (prepare c).saved
      { (prepare c).state with cyclesToExecute := n }
    have hruns := run_runs bus (enter buttons (prepare c).saved
      { (prepare c).state with cyclesToExecute := n }) (prepare c).saved
      { (prepare c).state with cyclesToExecute := n }
    rw [hentry] at hruns
    exact ⟨hidle, i, hruns⟩
  step_instruction := by
    intro c d buttons hstep
    obtain ⟨hrunning, rfl⟩ := step_instruction hstep
    have hruns := run_runs bus (continue2 buttons c.state) c.saved c.state
    rw [continue2_meter] at hruns
    exact ⟨hrunning, _, hruns⟩
  other := other_meter

end X86

namespace Arm

section Counting
variable (arch : Arch) (bus : WideBus σ)

theorem fetch_meter (s : State σ) :
    (fetch bus s).meter = { s.meter with opcode := (fetch bus s).opcode } :=
  rfl

theorem jumpNextInstruction_spends (s : State σ) : ∃ opcode : UInt8,
    ({ s.meter with opcode := opcode } : Meter).Spends 2
      (jumpNextInstruction arch bus s).meter := by
  have hrun := run_spends arch bus (fetch bus s) (handlerOf (fetch bus s).opcode)
  rw [fetch_meter] at hrun
  exact ⟨_, hrun⟩

theorem cyclesExe_eq {opcode opcycles : UInt8} (h : opcycles.toNat ≤ 9) :
    (cyclesOf opcode).toUInt32 + opcycles.toUInt32 = (cyclesOf opcode + opcycles).toUInt32 := by
  have htable := (cyclesOf_bounds opcode).2
  rw [← UInt32.toNat_inj, UInt32.toNat_add, UInt8.toNat_toUInt32, UInt8.toNat_toUInt32,
    UInt8.toNat_toUInt32, total_toNat opcode h]
  omega

theorem account_meter (saved : Saved) {s : State σ} (h : s.opcycles.toNat ≤ 9) :
    (account bus saved s).state.meter = { s.meter with
      opcycles := cyclesOf s.opcode + s.opcycles
      cycleCount := s.cycleCount + (cyclesOf s.opcode + s.opcycles).toUInt32.toInt32
      cyclesToExecute :=
        s.cyclesToExecute - (cyclesOf s.opcode + s.opcycles).toUInt32.toInt32 } := by
  have hbyte : ((cyclesOf s.opcode).toUInt32 + s.opcycles.toUInt32).toUInt8 =
      cyclesOf s.opcode + s.opcycles := by
    rw [cyclesExe_eq h, wide_byte]
  rw [account, hbyte, cyclesExe_eq h]
  split <;> rfl

theorem account_running (saved : Saved) {s : State σ} (h : s.opcycles.toNat ≤ 9) :
    (account bus saved s).running = true ↔
      0 < s.cyclesToExecute - (cyclesOf s.opcode + s.opcycles).toUInt32.toInt32 := by
  rw [account, cyclesExe_eq h]
  split
  · next hdone =>
    refine iff_of_false Bool.noConfusion ?_
    rw [Int32.lt_iff_toInt_lt]
    obtain hneg | hzero := hdone
    · rw [Int32.lt_iff_toInt_lt] at hneg
      exact not_lt.mpr hneg.le
    · rw [hzero]
      exact lt_irrefl _
  · next hleft =>
    refine iff_of_true rfl ?_
    rw [not_or, Int32.lt_iff_toInt_lt, ← Int32.toInt_inj] at hleft
    rw [Int32.lt_iff_toInt_lt]
    omega

theorem account_counted (saved : Saved) {s : State σ} (h : s.opcycles.toNat ≤ 9) :
    s.meter.Counted (account bus saved s).state.meter (account bus saved s).running := by
  have htotal := total_toNat s.opcode h
  obtain ⟨hleast, hmost⟩ := cyclesOf_bounds s.opcode
  rw [account_meter bus saved h]
  refine ⟨?_, ?_, rfl, rfl, fun hleft => ?_⟩
  · dsimp only
    omega
  · dsimp only
    omega
  · have hlow : -2 ^ 31 ≤ s.cyclesToExecute.toInt -
      ((cyclesOf s.opcode + s.opcycles).toUInt32.toInt32.toInt : ℤ) := by
      rw [small_toInt]
      change 0 ≤ s.cyclesToExecute.toInt at hleft
      omega
    have hhigh : s.cyclesToExecute.toInt -
      ((cyclesOf s.opcode + s.opcycles).toUInt32.toInt32.toInt : ℤ) < 2 ^ 31 := by
      have hmax := s.cyclesToExecute.toInt_lt
      rw [small_toInt]
      omega
    rw [account_running bus saved h, Int32.lt_iff_toInt_lt, sub_toInt hlow hhigh, small_toInt]
    exact Int.sub_pos

theorem account_reinit (saved : Saved) (s : State σ) :
    Meter.emulReinitialize (account bus saved s).state.meter = s.meter.emulReinitialize := by
  rw [account]
  split <;> rfl

def Entry.meter : Entry σ → Meter.Entry
  | .next s => .next s.meter
  | .irq s => .irq s.meter
  | .reset s => .reset s.meter
  | .reinit => .reinit

theorem continue2_meter (buttons : Buttons) (s : State σ) :
    (continue2 buttons s).meter = s.meter.continue2 buttons.held (s.has flagArm.i) := by
  have hi : ∀ r0 : UInt32, ({ s with r0 := r0 } : State σ).has flagArm.i = s.has flagArm.i :=
    fun _ => rfl
  have hsignal : s.meter.signal = s.signal := rfl
  simp only [continue2, exIrq, hi, Meter.continue2, hsignal]
  split_ifs <;> rfl

theorem enter_meter (buttons : Buttons) (saved : Saved) (s : State σ) : ∃ i,
    (enter buttons saved s).meter = s.meter.enter buttons.held i := by
  refine ⟨(restore saved s).has flagArm.i, ?_⟩
  have hreinit : s.meter.emulReinitialize =
    State.emulReinitialize (restore saved s) := rfl
  rw [enter, Meter.enter, hreinit]
  split_ifs
  · rw [continue2_meter]
    rfl
  · rfl

theorem irqEntry_meter (s : State σ) : (irqEntry bus s).meter = { s.meter with opcycles := 7 } := by
  have hseven : ((0 : UInt8).toUInt32 + 7).toUInt8 = 7 := by decide
  have hcount : ∀ t : State σ, ({ t with r0 := t.opcycles.toUInt32 + 7 } : State σ).meter =
    t.meter :=
    fun _ => rfl
  have hstore : ∀ t : State σ, ({ t with opcycles := t.r0.toUInt8 } : State σ).meter =
    { t.meter with opcycles := t.r0.toUInt8 } := fun _ => rfl
  have hclear : ∀ t : State σ, (cpuStatsReset t).meter = { t.meter with opcycles := 0 } :=
    fun _ => rfl
  rw [irqEntry, hstore, hcount, hclear, interruptVector_meter, orrF_meter, push_meter,
    encodeFlags_meter, orrF_meter, pushR0_meter, setR0_meter]
  dsimp only
  rw [← hseven]
  rfl

theorem exReset_meter (s : State σ) :
    (exReset bus s).meter = { s.meter with opcycles := 0, signal := 0 } := by
  have hclear : ∀ t : State σ, (cpuStatsReset { t with pc := t.r0 }).meter =
    { t.meter with opcycles := 0 } := fun _ => rfl
  rw [exReset, hclear, getFromEaW_meter]
  rfl

theorem start_meter (entry : Entry σ) : (entry.start bus).map State.meter = entry.meter.start := by
  cases entry with
  | next s => rfl
  | irq s => exact congrArg some (irqEntry_meter bus s)
  | reset s => exact congrArg some (exReset_meter bus s)
  | reinit => rfl

theorem start_ready {entry : Entry σ} {t : State σ} {m : Meter} (hfrom : entry.meter.From m)
    (hstart : entry.start bus = some t) : m.Ready t.meter := by
  refine hfrom t.meter ?_
  rw [← start_meter bus entry, hstart]
  rfl

theorem run_runs (entry : Entry σ) (saved : Saved) (s : State σ) :
    entry.meter.Runs s.meter (entry.run arch bus saved s).state.meter
      (entry.run arch bus saved s).running := by
  have hstart := start_meter bus entry
  rw [Entry.run]
  cases hentry : entry.start bus with
  | none =>
    rw [hentry] at hstart
    exact .reinit hstart.symm
  | some t =>
    rw [hentry] at hstart
    obtain ⟨opcode, hspends⟩ := jumpNextInstruction_spends arch bus t
    exact .counted hstart.symm hspends (account_counted bus saved) (account_reinit bus saved _)

end Counting

/-! ## Steps -/

section Steps
variable {arch : Arch} {bus : WideBus σ} {c d : Core σ}

theorem continue2_from (buttons : Buttons) (s : State σ) :
    (continue2 buttons s).meter.From s.meter := by
  rw [continue2_meter]
  exact Meter.continue2_from buttons.held _ s.meter

theorem enter_from (buttons : Buttons) (saved : Saved) (s : State σ) :
    (enter buttons saved s).meter.From { s.meter with emulReinitialize := 0 } := by
  obtain ⟨i, hentry⟩ := enter_meter buttons saved s
  rw [hentry]
  exact Meter.enter_from buttons.held i s.meter

theorem prepare_running (c : Core σ) : (prepare c).running = c.running := by
  rw [prepare]
  split <;> rfl

theorem step_call {buttons : Buttons} {n : Int32}
    (hstep : step arch bus c (.call buttons n) = .ok d) :
    c.running = false ∧
      d = (enter buttons c.saved { c.state with cyclesToExecute := n }).run arch bus c.saved
      { c.state with cyclesToExecute := n } := by
  unfold Arm.step at hstep
  split at hstep
  case isFalse => cases hstep
  case isTrue hidle =>
    cases hstep
    exact ⟨(Bool.not_eq_true' _).mp hidle, rfl⟩

theorem step_instruction {buttons : Buttons}
    (hstep : step arch bus c (.instruction buttons) = .ok d) :
    c.running = true ∧ d = (continue2 buttons c.state).run arch bus c.saved c.state := by
  unfold Arm.step at hstep
  split at hstep
  case isFalse => cases hstep
  case isTrue hrunning =>
    cases hstep
    exact ⟨hrunning, rfl⟩

theorem other_meter {event : Cpu.Event σ} (hevent : event.moves = false)
    (hstep : threadStep arch bus c event = .ok d) : d.running = c.running ∧
      c.state.meter.SameCounters d.state.meter := by
  cases event with
  | call | instruction => cases hevent
  | interrupt reason | uninterrupt reason | memory mem =>
    cases hstep
    exact ⟨rfl, rfl, rfl, rfl⟩
  | registers r =>
    simp only [threadStep, step] at hstep
    split at hstep
    · cases hstep
      exact ⟨rfl, rfl, rfl, rfl⟩
    · cases hstep

end Steps

def host (arch : Arch) (bus : WideBus σ) : Host σ (Core σ) where
  step := threadStep arch bus
  running := Core.running
  meter := fun c => c.state.meter
  prepared := fun c => (prepare c).state.meter
  prepared_count := fun _ => rfl
  step_call := by
    intro c d buttons n hstep
    obtain ⟨hidle, rfl⟩ := step_call hstep
    rw [prepare_running] at hidle
    obtain ⟨i, hentry⟩ := enter_meter buttons (prepare c).saved
      { (prepare c).state with cyclesToExecute := n }
    have hruns := run_runs arch bus (enter buttons (prepare c).saved
      { (prepare c).state with cyclesToExecute := n }) (prepare c).saved
      { (prepare c).state with cyclesToExecute := n }
    rw [hentry] at hruns
    exact ⟨hidle, i, hruns⟩
  step_instruction := by
    intro c d buttons hstep
    obtain ⟨hrunning, rfl⟩ := step_instruction hstep
    have hruns := run_runs arch bus (continue2 buttons c.state) c.saved c.state
    rw [continue2_meter] at hruns
    exact ⟨hrunning, _, hruns⟩
  other := other_meter

end Arm

/-! ## Calls -/

def Event.isCall : Event σ → Bool
  | .call _ _ => true
  | _ => false

/-- The events that run an instruction. -/
def moved (events : List (Event σ)) : ℕ := events.countP Event.moves

/-- Where a call for `n` cycles stands after `k` instructions: none of its cycles is lost, it has
some left as long as it runs, and it ends less than one instruction late. -/
structure Meter.InCall (n : ℤ) (k : ℕ) (m : Meter) (running : Bool) : Prop where
  total : m.cycleCount.toInt + m.cyclesToExecute.toInt = n
  counted : 0 ≤ m.cycleCount.toInt
  late : -16 ≤ m.cyclesToExecute.toInt
  instructions : 2 * (k : ℤ) ≤ n + 2
  going : running = true → m.emulReinitialize = 0 ∧ 0 < m.cyclesToExecute.toInt ∧
    2 * (k : ℤ) ≤ m.cycleCount.toInt
  returned : running = false → m.emulReinitialize = 0 → m.cyclesToExecute.toInt ≤ 0

namespace Meter

variable {m m' : Meter} {running : Bool} {n : ℤ} {k : ℕ}

theorem cycles_toInt (m : Meter) : m.cycles.toInt = m.opcycles.toNat := small_toInt m.opcycles

/-- The counters after an instruction, as numbers. -/
theorem Counted.toInt (h : m.Counted m' running) (hleft : 0 ≤ m.cyclesToExecute.toInt)
    (hcount : 0 ≤ m.cycleCount.toInt) (hmax : m.cycleCount.toInt + 16 < 2 ^ 31) :
    m'.cycleCount.toInt = m.cycleCount.toInt + m'.opcycles.toNat ∧
      m'.cyclesToExecute.toInt = m.cyclesToExecute.toInt - m'.opcycles.toNat := by
  have hmost := h.most
  have hleast := h.least
  have hbound := m.cyclesToExecute.toInt_lt
  have hcycles := m'.cycles_toInt
  rw [h.cycleCount, h.cyclesToExecute, add_toInt, sub_toInt, hcycles]
  · exact ⟨rfl, rfl⟩
  all_goals omega

theorem inCall_first {left : Int32} (hn : 0 ≤ left.toInt) (hmax : left.toInt + 16 < 2 ^ 31)
    (hcount : m.cycleCount = 0) (hleft : m.cyclesToExecute = left) (h : m.Moves m' running) :
    m'.InCall left.toInt 1 running := by
  have hzero : m.cycleCount.toInt = 0 := by rw [hcount]; rfl
  rw [← hleft] at hn hmax ⊢
  obtain ⟨hreinit, hcounted⟩ | ⟨hreinit, rfl, hcycles, hrest⟩ := h
  · obtain ⟨hcount', hleft'⟩ := hcounted.toInt hn (by omega) (by omega)
    have hleast := hcounted.least
    have hmost := hcounted.most
    have hrunning := hcounted.running hn
    refine ⟨by omega, by omega, by omega, by omega, fun h => ?_, fun h _ => ?_⟩
    · have hmore := hrunning.mp h
      exact ⟨hreinit, by omega, by omega⟩
    · have hend : ¬ (m'.opcycles.toNat : ℤ) < m.cyclesToExecute.toInt := by
        rw [← hrunning, h]
        exact Bool.noConfusion
      omega
  · rw [← hcycles] at hzero
    refine ⟨?_, ?_, ?_, ?_, Bool.noConfusion, ?_⟩
    · rw [hzero, hrest, zero_add]
    · rw [hzero]
    · rw [hrest]
      omega
    · omega
    · intro _ h0
      rw [hreinit] at h0
      cases h0

theorem InCall.next (h : m.InCall n k true) (hmax : n + 16 < 2 ^ 31) (hmoves : m.Moves m' running) :
    m'.InCall n (k + 1) running := by
  obtain ⟨hreinit, hleft, hleast⟩ := h.going rfl
  have htotal := h.total
  have hcount := h.counted
  obtain ⟨hreinit', hcounted⟩ | ⟨hreinit', rfl, hcycles, hrest⟩ := hmoves
  · obtain ⟨hcount', hleft'⟩ := hcounted.toInt hleft.le hcount (by omega)
    have hleast' := hcounted.least
    have hmost := hcounted.most
    have hrunning := hcounted.running hleft.le
    refine ⟨by omega, by omega, by omega, ?_, fun h => ?_, fun h _ => ?_⟩
    · push_cast
      omega
    · have hmore := hrunning.mp h
      push_cast
      exact ⟨hreinit', by omega, by omega⟩
    · have hend : ¬ (m'.opcycles.toNat : ℤ) < m.cyclesToExecute.toInt := by
        rw [← hrunning, h]
        exact Bool.noConfusion
      omega
  · refine ⟨?_, ?_, ?_, ?_, Bool.noConfusion, ?_⟩
    · rw [hcycles, hrest]
      exact htotal
    · rw [hcycles]
      exact hcount
    · rw [hrest]
      omega
    · push_cast
      omega
    · intro _ h0
      rw [hreinit'] at h0
      cases h0

theorem InCall.same (h : m.InCall n k running) (hsame : m.SameCounters m') :
    m'.InCall n k running := by
  obtain ⟨hcount, hleft, hreinit⟩ := hsame
  refine ⟨?_, ?_, ?_, h.instructions, ?_, ?_⟩
  · rw [hcount, hleft]
    exact h.total
  · rw [hcount]
    exact h.counted
  · rw [hleft]
    exact h.late
  · rw [hcount, hleft, hreinit]
    exact h.going
  · rw [hleft, hreinit]
    exact h.returned

end Meter

namespace Host
variable {C : Type u} (host : Host σ C)

/-- A step of a call keeps its books. -/
theorem step_inCall {c d : C} {event : Event σ} {n : ℤ} {k : ℕ} (hmax : n + 16 < 2 ^ 31)
    (hcall : event.isCall = false) (h : (host.meter c).InCall n k (host.running c))
    (hstep : host.step c event = .ok d) :
    (host.meter d).InCall n (k + moved [event]) (host.running d) := by
  cases event with
  | call => cases hcall
  | instruction buttons =>
    rw [host.instruction_running hstep] at h
    exact h.next hmax (host.instruction_moves (h.going rfl).1 hstep)
  | interrupt | uninterrupt | registers | memory =>
    obtain ⟨hrunning, hsame⟩ := host.other rfl hstep
    rw [hrunning]
    exact h.same hsame

theorem run_inCall {c d : C} {events : List (Event σ)} {n : ℤ} {k : ℕ} (hmax : n + 16 < 2 ^ 31)
    (hcalls : ∀ event ∈ events, event.isCall = false)
    (h : (host.meter c).InCall n k (host.running c)) (hrun : runM host.step c events = .ok d) :
    (host.meter d).InCall n (k + moved events) (host.running d) := by
  induction events generalizing c k with
  | nil =>
    cases hrun
    exact h
  | cons event events ih =>
    cases hstep : host.step c event with
    | error e =>
      rw [runM_cons_error events hstep] at hrun
      cases hrun
    | ok t =>
      rw [runM_cons_ok events hstep] at hrun
      have hfirst := host.step_inCall hmax (hcalls event List.mem_cons_self) h hstep
      have hrest := ih (fun e he => hcalls e (List.mem_cons_of_mem event he)) hfirst hrun
      have hcount : k + moved [event] + moved events = k + moved (event :: events) := by
        simp only [moved, List.countP_cons, List.countP_nil]
        omega
      rw [hcount] at hrest
      exact hrest

theorem call_inCall {c d : C} {buttons : Buttons} {n : Int32} {events : List (Event σ)}
    (hn : 0 ≤ n.toInt) (hmax : n.toInt + 16 < 2 ^ 31)
    (hcalls : ∀ event ∈ events, event.isCall = false)
    (hrun : runM host.step c (.call buttons n :: events) = .ok d) :
    (host.meter d).InCall n.toInt (1 + moved events) (host.running d) := by
  cases hstep : host.step c (.call buttons n) with
  | error e =>
    rw [runM_cons_error events hstep] at hrun
    cases hrun
  | ok t =>
    rw [runM_cons_ok events hstep] at hrun
    exact host.run_inCall hmax hcalls (Meter.inCall_first hn hmax rfl rfl (host.call hstep).2) hrun

end Host

/-- **The cycles of a call.** On either host, with any memory, a call of `cpu65_run` for `n` cycles
counts each cycle once, whatever happens between its instructions: what it has counted and what it
has left make `n`; it runs exactly as long as something is left, unless the thread is to
reinitialize; it ends less than one instruction late; and it runs at most one instruction for every
two cycles, and one more. -/
theorem call_budget (bus : Bus σ) (arch : Arm.Arch) (wideBus : Arm.WideBus σ) {buttons : Buttons}
    {n : Int32} {events : List (Event σ)} (hn : 0 ≤ n.toInt) (hmax : n.toInt + 16 < 2 ^ 31)
    (hcalls : ∀ event ∈ events, event.isCall = false) :
    (∀ c d, runM (X86.threadStep bus) c (.call buttons n :: events) = .ok d →
        d.state.meter.InCall n.toInt (1 + moved events) d.running) ∧
      ∀ c d, runM (Arm.threadStep arch wideBus) c (.call buttons n :: events) = .ok d →
        d.state.meter.InCall n.toInt (1 + moved events) d.running :=
  ⟨fun _ _ hrun => (X86.host bus).call_inCall hn hmax hcalls hrun,
    fun _ _ hrun => (Arm.host arch wideBus).call_inCall hn hmax hcalls hrun⟩

/-- The x86 core before its first call, with a program. -/
def X86.idle (program : UInt16 → UInt8) : X86.Core Ram where
  running := false
  saved := ⟨0, 0, 0, 0, 0, 0⟩
  state :=
    { a := 0
      f := 0
      x := 0
      y := 0
      pc := 0
      ea := 0
      al := 0
      ah := 0
      sp := 0
      opcode := 0
      opcycles := 0
      rw := 0
      d := 0
      cycleCount := 0
      cyclesToExecute := 0
      signal := 0
      emulReinitialize := 1
      mem := ⟨program, []⟩ }

theorem call_budget_pushing : ∃ d, runM (X86.threadStep ramBus) (X86.idle pushing)
      [.call ⟨0, 0⟩ 8, .interrupt 0x01, .instruction ⟨0, 0⟩, .instruction ⟨0, 0⟩] = .ok d ∧
    d.running = false ∧ d.state.a = 0xFF ∧ d.state.x = 5 ∧ d.state.meter.InCall 8 3 d.running := by
  have hcalls : ∀ event ∈ [Event.interrupt 0x01, .instruction ⟨0, 0⟩, .instruction ⟨0, 0⟩],
      (event : Event Ram).isCall = false := by
    simp [Event.isCall]
  obtain ⟨d, hd, hstopped, ha, hx⟩ : ∃ d, runM (X86.threadStep ramBus) (X86.idle pushing)
    [.call ⟨0, 0⟩ 8, .interrupt 0x01, .instruction ⟨0, 0⟩, .instruction ⟨0, 0⟩] = .ok d ∧
    d.running = false ∧ d.state.a = 0xFF ∧ d.state.x = 5 := ⟨_, rfl, rfl, rfl, rfl⟩
  exact ⟨d, hd, hstopped, ha, hx,
    (call_budget ramBus .aarch64 (Arm.wide ramBus) (by decide) (by decide) hcalls).1 _ d hd⟩

end Apple2ix.Cpu
