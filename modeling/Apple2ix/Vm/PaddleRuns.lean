import Apple2ix.Vm.PaddleTimers

/-! Runs of instructions and accesses with the paddle timers. Beside the machine, a run keeps for
each timer how long ago it was last loaded and for how long: what the reads of C064 and C065 ought
to tell. -/
namespace Apple2ix.Vm
open Cpu Runs
set_option autoImplicit false

/-! ## Runs -/

/-- An access of the guest, where the values a strobe would load are `int`s, or the end of an
instruction. -/
inductive Event
  | access (op : Op) (joy : ∀ i, IsInt32 (op.bus.joyTimer i))
  | instruction (opcode opcycles : UInt8)

def Event.Strobes : Event → Prop
  | access op _ => op.Strobes
  | instruction _ _ => False

/-- The cycles since the strobe that last loaded a timer, and the duration it loaded. -/
structure Pulse where
  elapsed : ℕ
  duration : ℤ

/-- The timer has run down. -/
def Pulse.Over (p : Pulse) : Prop := p.duration ≤ p.elapsed

instance : DecidablePred Pulse.Over := fun p => inferInstanceAs (Decidable (p.duration ≤ p.elapsed))

structure Timed where
  vm : Machine
  pulse : Paddle → Pulse

def timedStep (core : Core) (s : Timed) : Event → Timed
  | .access op _ =>
    { vm := step s.vm op
      pulse := fun i =>
        if op.Strobes ∧ s.vm.timer i ≤ 0 then ⟨0, op.bus.joyTimer i⟩ else s.pulse i }
  | .instruction opcode opcycles =>
    { vm := s.vm.countDown (core.cycles opcode opcycles)
      pulse := fun i =>
        ⟨(s.pulse i).elapsed + core.cycles opcode opcycles, (s.pulse i).duration⟩ }

def timedRun (core : Core) (s : Timed) (events : List Event) : Timed :=
  events.foldl (timedStep core) s

/-- The start: neither timer was ever loaded. -/
def powerOn (vm : Machine) : Timed :=
  { vm := { initializeIieSwitches vm with gcCyclesTimer0 := 0, gcCyclesTimer1 := 0 }
    pulse := fun _ => ⟨0, 0⟩ }

/-- The instruction leaves both timers in the range of an `int32_t`. -/
def NoWrap (core : Core) (s : Timed) : Event → Prop
  | .access _ _ => True
  | .instruction opcode opcycles =>
    ∀ i, -2147483648 ≤ s.vm.timer i - core.cycles opcode opcycles

/-! ## The law of the paddles -/

/-- The byte that a read of C064 or C065 returns. -/
def readPaddle (bus : Bus) (vm : Machine) (i : Paddle) : UInt8 :=
  (readSoftswitch bus vm (0xC000 ||| i.softswitch.toUInt16)).byte

/-- A paddle reads as running exactly while fewer cycles have passed than it was loaded with; what
is over stays so until the next access to C070 - C07F, which loads the timer again. -/
structure PaddleLaw (core : Core) (s : Timed) : Prop where
  reads : ∀ i bus, readPaddle bus s.vm i = if (s.pulse i).Over then 0 else 0xFF
  stays : ∀ i e, ¬ e.Strobes → (s.pulse i).Over → ((timedStep core s e).pulse i).Over
  restarts : ∀ i op joy, op.Strobes → (s.pulse i).Over →
    (timedStep core s (.access op joy)).pulse i = ⟨0, op.bus.joyTimer i⟩ ∧
      (timedStep core s (.access op joy)).vm.timer i = op.bus.joyTimer i

theorem readPaddle_eq (bus : Bus) (vm : Machine) (i : Paddle) :
    readPaddle bus vm i = if vm.timer i ≤ 0 then 0 else 0xFF := by
  unfold readPaddle readSoftswitch
  rw [softswitch_low]
  cases i
  · change (readGc0 vm).byte = if vm.gcCyclesTimer0 ≤ 0 then 0 else 0xFF
    unfold readGc0
    split <;> rfl
  · change (readGc1 vm).byte = if vm.gcCyclesTimer1 ≤ 0 then 0 else 0xFF
    unfold readGc1
    split <;> rfl

/-- The timer holds what is left of its pulse, or no positive number once the pulse is over. -/
structure Tracks (timer : ℤ) (pulse : Pulse) : Prop where
  range : IsInt32 timer
  ended : pulse.Over → timer ≤ 0
  left : ¬ pulse.Over → timer = pulse.duration - pulse.elapsed

section Tracking
variable {core : Core} {s : Timed} {timer : ℤ} {pulse : Pulse}

theorem Tracks.over_iff (h : Tracks timer pulse) : timer ≤ 0 ↔ pulse.Over := by
  constructor
  · intro hdown
    by_contra hover
    have hleft := h.left hover
    unfold Pulse.Over at hover
    omega
  · exact h.ended

/-- A timer that was just loaded. -/
theorem Tracks.loaded {n : ℤ} (h : IsInt32 n) : Tracks n ⟨0, n⟩ := by
  refine ⟨h, fun hover => ?_, fun _ => ?_⟩
  · unfold Pulse.Over at hover
    simpa using hover
  · change n = n - ((0 : ℕ) : ℤ)
    rw [Nat.cast_zero, Int.sub_zero]

/-- A timer that has run down may be cleared. -/
theorem Tracks.cleared (h : Tracks timer pulse) (hdown : timer ≤ 0) : Tracks 0 pulse := by
  refine ⟨⟨by decide, by decide⟩, fun _ => le_refl _, fun hover => ?_⟩
  exact absurd (h.over_iff.mp hdown) hover

/-- **Counting down keeps track** where it does not wrap around. -/
theorem Tracks.countDown (h : Tracks timer pulse) (n : ℕ) (hwrap : -2147483648 ≤ timer - n) :
    Tracks (toInt32 (timer - n)) ⟨pulse.elapsed + n, pulse.duration⟩ := by
  have hrange := h.range.2
  have hint : IsInt32 (timer - n) := ⟨hwrap, by omega⟩
  rw [toInt32_eq hint]
  refine ⟨hint, fun hover => ?_, fun hover => ?_⟩
  · by_cases hbefore : pulse.Over
    · have := h.ended hbefore
      omega
    · have hleft := h.left hbefore
      unfold Pulse.Over at hover
      push_cast at hover
      omega
  · have hbefore : ¬ pulse.Over := by
      unfold Pulse.Over at hover ⊢
      push_cast at hover
      omega
    have hleft := h.left hbefore
    push_cast
    omega

/-- One step keeps track of both timers. -/
theorem timedStep_tracks (h : ∀ i, Tracks (s.vm.timer i) (s.pulse i)) (e : Event)
    (hwrap : NoWrap core s e) (i : Paddle) :
    Tracks ((timedStep core s e).vm.timer i) ((timedStep core s e).pulse i) := by
  cases e with
  | access op joy =>
    obtain ⟨hstrobe, hother⟩ := step_timer s.vm i op
    change Tracks ((step s.vm op).timer i)
      (if op.Strobes ∧ s.vm.timer i ≤ 0 then ⟨0, op.bus.joyTimer i⟩ else s.pulse i)
    by_cases hop : op.Strobes
    · rw [hstrobe hop]
      by_cases hdown : s.vm.timer i ≤ 0
      · rw [if_pos hdown, if_pos ⟨hop, hdown⟩]
        exact Tracks.loaded (joy i)
      · rw [if_neg hdown, if_neg fun hboth => hdown hboth.2]
        exact h i
    · rw [if_neg fun hboth => hop hboth.1]
      rcases hother hop with hsame | ⟨hdown, hzero⟩
      · rw [hsame]
        exact h i
      · rw [hzero]
        exact (h i).cleared hdown
  | instruction opcode opcycles =>
    change Tracks ((s.vm.countDown _).timer i) _
    rw [countDown_timer]
    exact (h i).countDown _ (hwrap i)

theorem timedRun_tracks (h : ∀ i, Tracks (s.vm.timer i) (s.pulse i)) (events : List Event)
    (hwrap : AlongPure (timedStep core) (NoWrap core) s events) (i : Paddle) :
    Tracks ((timedRun core s events).vm.timer i) ((timedRun core s events).pulse i) := by
  induction events generalizing s with
  | nil => exact h i
  | cons e events ih => exact ih (fun i => timedStep_tracks h e hwrap.1 i) hwrap.2

/-- Timers that keep track of their pulses obey the law. -/
theorem paddleLaw_of_tracks (core : Core) (h : ∀ i, Tracks (s.vm.timer i) (s.pulse i)) :
    PaddleLaw core s := by
  refine ⟨fun i bus => ?_, fun i e hquiet hover => ?_, fun i op joy hop hover => ?_⟩
  · rw [readPaddle_eq]
    simp only [(h i).over_iff]
  · cases e with
    | access op joy =>
      change Pulse.Over (if op.Strobes ∧ _ then _ else s.pulse i)
      rw [if_neg fun hboth => hquiet hboth.1]
      exact hover
    | instruction opcode opcycles =>
      change (s.pulse i).duration ≤ ((s.pulse i).elapsed + _ : ℕ)
      unfold Pulse.Over at hover
      push_cast
      omega
  · have hdown := (h i).ended hover
    refine ⟨if_pos ⟨hop, hdown⟩, ?_⟩
    have hstep := (step_timer s.vm i op).1 hop
    rw [if_pos hdown] at hstep
    exact hstep

end Tracking

/-- **The law of the paddles holds after every run** on either core in which no instruction counts a
timer below the least `int32_t`. -/
theorem paddle_law (core : Core) (vm : Machine) (events : List Event)
    (hwrap : AlongPure (timedStep core) (NoWrap core) (powerOn vm) events) :
    PaddleLaw core (timedRun core (powerOn vm) events) := by
  refine paddleLaw_of_tracks core (timedRun_tracks (fun i => ?_) events hwrap)
  have hstart : (powerOn vm).vm.timer i = 0 := by cases i <;> rfl
  rw [hstart]
  exact ⟨⟨by decide, by decide⟩, fun _ => le_refl _, fun hover => absurd (le_refl _) hover⟩

/-! ## A timer that wraps around -/

/-- A strobe of C070 with both paddles in the middle, and a NOP. -/
def middle : Bus := { Bus.quiet with joyTimer0 := 1553, joyTimer1 := 1618 }

theorem middle_int32 (i : Paddle) : IsInt32 (middle.joyTimer i) := by
  cases i <;> exact ⟨by decide, by decide⟩

def strobe : Event := .access (.read middle 0x70) middle_int32
def nop : Event := .instruction 0xEA 0

theorem paddle_law_nop :
    PaddleLaw .arm (timedRun .arm (powerOn Machine.blank) [strobe, nop]) := by
  refine paddle_law .arm Machine.blank [strobe, nop] ⟨trivial, fun i => ?_, trivial⟩
  cases i <;> decide

/-- NOPs count a timer down by two cycles each. -/
theorem timedRun_nops (core : Core) (s : Timed) (i : Paddle) (h : IsInt32 (s.vm.timer i)) (n : ℕ) :
    (timedRun core s (List.replicate n nop)).vm.timer i = toInt32 (s.vm.timer i - (2 * n : ℕ)) ∧
      (timedRun core s (List.replicate n nop)).pulse i =
        ⟨(s.pulse i).elapsed + 2 * n, (s.pulse i).duration⟩ := by
  have hcycles : core.cycles 0xEA 0 = 2 := by cases core <;> decide
  induction n with
  | zero =>
    have hzero : s.vm.timer i - (2 * 0 : ℕ) = s.vm.timer i := by omega
    rw [hzero, toInt32_eq h]
    exact ⟨rfl, rfl⟩
  | succ n ih =>
    obtain ⟨htimer, hpulse⟩ := ih
    have hlast : timedRun core s (List.replicate (n + 1) nop) =
        timedStep core (timedRun core s (List.replicate n nop)) nop := by
      rw [List.replicate_succ', timedRun, List.foldl_append]
      rfl
    rw [hlast]
    constructor
    · change
        ((timedRun core s (List.replicate n nop)).vm.countDown (core.cycles 0xEA 0)).timer i = _
      rw [countDown_timer, htimer, hcycles, toInt32, toInt32, Int.bmod_sub_bmod, toInt32]
      congr 1
      push_cast
      omega
    · change Pulse.mk (((timedRun core s (List.replicate n nop)).pulse i).elapsed +
        core.cycles 0xEA 0) ((timedRun core s (List.replicate n nop)).pulse i).duration = _
      rw [hpulse, hcycles]
      rfl

/-- After the strobe and `n` NOPs the timer of the first paddle reads as running again. -/
theorem strobed_nops {n : ℕ} (hover : 1553 ≤ 2 * n) (hwrapped : 0 < toInt32 (1553 - (2 * n : ℕ))) :
    ¬ PaddleLaw .x86 (timedRun .x86 (powerOn Machine.blank) (strobe :: List.replicate n nop)) := by
  intro hlaw
  have hread := hlaw.reads .gc0 Bus.quiet
  have hrun : timedRun .x86 (powerOn Machine.blank) (strobe :: List.replicate n nop) =
      timedRun .x86 (timedStep .x86 (powerOn Machine.blank) strobe) (List.replicate n nop) := rfl
  have hstart : (timedStep .x86 (powerOn Machine.blank) strobe).vm.timer .gc0 = 1553 :=
    (step_timer (powerOn Machine.blank).vm .gc0 (.read middle 0x70)).1 (by decide)
  have hpulse : (timedStep .x86 (powerOn Machine.blank) strobe).pulse .gc0 = ⟨0, 1553⟩ := rfl
  obtain ⟨htimer, hpulse'⟩ :=
    timedRun_nops .x86 (timedStep .x86 (powerOn Machine.blank) strobe) .gc0
    (by rw [hstart]; exact ⟨by decide, by decide⟩) n
  rw [hstart] at htimer
  rw [hpulse] at hpulse'
  have hdone : (Pulse.mk (0 + 2 * n) 1553).Over := by
    change (1553 : ℤ) ≤ ((0 + 2 * n : ℕ) : ℤ)
    omega
  rw [hrun, readPaddle_eq, htimer, hpulse', if_pos hdone, if_neg (by omega)] at hread
  exact absurd hread (by decide)

/-- The strobe, and as many NOPs as it takes to bring the timer below the least `int32_t`. -/
theorem paddle_law_wraps : ¬ PaddleLaw .x86
    (timedRun .x86 (powerOn Machine.blank) (strobe :: List.replicate 1073742601 nop)) :=
  strobed_nops (by decide) (by decide)

end Apple2ix.Vm
