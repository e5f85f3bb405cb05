import Apple2ix.Cpu.CycleBudget
import Apple2ix.Timing.Requests

/-! The count of all cycles: how `timing_checkpointCycles` brings `cycles_count_total` up to date
with `cpu65_cycle_count`, which `cpu_thread` clears before every call of `cpu65_run`. The iterations
are those of a thread that is not being debugged, and an `unsigned long` has `w` bits. -/
namespace Apple2ix.Timing.Cycles
open Cpu Runs Requests
set_option autoImplicit false

universe u
variable {σ C : Type u} {w : ℕ}

/-- The core and the counts. `executing` is from `cpu65_run` to the checkpoint of
`video_scannerUpdate`. `spent`, of which the program keeps no count, are the cycles of the
instructions since the call of `reinitialize`. -/
structure Thread (w : ℕ) (C : Type u) where
  core : C
  executing : Bool
  cyclesCheckpointCount : Int32
  cyclesCountTotal : BitVec w
  uLastCumulativeCycles : BitVec w
  spent : ℕ

/-- `assert(d >= 0)`, `"OOPS!!! Mockingboard failed assert!"`, or a step out of order. -/
inductive Fault
  | negative
  | oops
  | order
  deriving DecidableEq, Repr

/-- One iteration up to `cpu65_run` and its first instruction; what happens to the core after that;
`timing_checkpointCycles` and `MB_UpdateCycles`, which the handlers of memory call; and the end of
the iteration. -/
inductive Step (σ : Type u) where
  | iterate (buttons : Buttons) (cyclesToExecute : Int32)
  | core (event : Event σ)
  | checkpoint
  | updateCycles
  | finish

section Thread
variable (host : Host σ C)

/-- `timing_checkpointCycles`. -/
def checkpointCycles (t : Thread w C) : Except Fault (Thread w C) :=
  let cycleCount := (host.meter t.core).cycleCount
  let d := cycleCount - t.cyclesCheckpointCount
  if 0 ≤ d then
    .ok { t with
      cyclesCountTotal := t.cyclesCountTotal + BitVec.ofInt w d.toInt
      cyclesCheckpointCount := cycleCount }
  else .error .negative

/-- `MB_UpdateCycles`, up to the timers. -/
def updateCycles (t : Thread w C) : Except Fault (Thread w C) := do
  let t ← checkpointCycles host t
  let uCycles := t.cyclesCountTotal - t.uLastCumulativeCycles
  if uCycles.toNat < 0x10000 then .ok { t with uLastCumulativeCycles := t.cyclesCountTotal }
  else .error .oops

/-- The cycles of the instruction that led to a core. -/
def cost (c : C) : ℕ :=
  if Meter.emulReinitialize (host.meter c) = 0 then (host.meter c).opcycles.toNat else 0

/-- The call of `reinitialize`, where it is asked for. -/
def reinitialized (t : Thread w C) : Thread w C :=
  if Meter.emulReinitialize (host.meter t.core) = 0 then t
  else { t with cyclesCountTotal := 0, spent := 0 }

/-- An event of the core. -/
def move (t : Thread w C) (event : Event σ) : Except Fault (Thread w C) :=
  match host.step t.core event with
  | .ok c => .ok { t with
      core := c
      spent := if event.moves then t.spent + cost host c else t.spent }
  | .error _ => .error .order

def step (t : Thread w C) : Step σ → Except Fault (Thread w C)
  | .iterate buttons n =>
    if t.executing then .error .order
    else
      let t := reinitialized host t
      move host { t with
        executing := true
        uLastCumulativeCycles := t.cyclesCountTotal
        cyclesCheckpointCount := 0 } (.call buttons n)
  | .core event => if event.isCall then .error .order else move host t event
  | .checkpoint => checkpointCycles host t
  | .updateCycles => updateCycles host t
  | .finish =>
    if t.executing ∧ host.running t.core = false then do
      let t ← checkpointCycles host t
      .ok { t with executing := false }
    else .error .order

end Thread

/-- Before the first iteration. -/
def start (w : ℕ) (c : C) : Thread w C where
  core := c
  executing := false
  cyclesCheckpointCount := 0
  cyclesCountTotal := 0
  uLastCumulativeCycles := 0
  spent := 0

/-- A request of `cpu_thread`: at a scale of the CPU speed up to the fastest one, and for no more
samples than the speaker may ask for, where the device has so many in a second. -/
def Requested (sampleRateHz : ℚ) : Step σ → Prop
  | .iterate _ n => ∃ target isFullspeed samples, 0 ≤ target ∧ target ≤ fastestTarget ∧
      |samples| ≤ soundcoreErrorMax ∧
      n.toInt = cyclesToExecute target sampleRateHz isFullspeed samples
  | _ => True

/-- No fewer than no cycles and, with the last instruction, no more than the Mockingboard can take
at once. -/
def Bounded : Step σ → Prop
  | .iterate _ n => 0 ≤ n.toInt ∧ n.toInt + 16 < 0x10000
  | _ => True

/-- With enough samples in a second, the feedback for them is bounded. -/
theorem Requested.bounded {rate : ℚ} (hrate : 13254 ≤ rate) {s : Step σ} (h : Requested rate s) :
    Bounded s := by
  cases s with
  | iterate buttons n =>
    obtain ⟨target, isFullspeed, samples, htarget, hfast, hsamples, hn⟩ := h
    have hmost : fastestTarget < ((307 : ℤ) + 1) * rate := by
      rw [fastestTarget]
      push_cast
      linarith
    have hle := cyclesToExecute_le isFullspeed 307 htarget hfast
      (lt_of_lt_of_le (by norm_num) hrate) hmost hsamples
    have hnonneg := cyclesToExecute_nonneg target rate isFullspeed samples
    rw [← hn] at hle hnonneg
    exact ⟨hnonneg, by omega⟩
  | _ => trivial

/-! ## The counts -/

section Counts
variable {host : Host σ C}

/-- The cycles that `cycles_count_total` lacks. -/
def pending (host : Host σ C) (t : Thread w C) : ℤ :=
  (host.meter t.core).cycleCount.toInt - t.cyclesCheckpointCount.toInt

/-- The total and what it lacks are the cycles spent, and the Mockingboard has missed no more of
them than the call has run. -/
structure Kept (host : Host σ C) (t : Thread w C) : Prop where
  checkpoint : 0 ≤ t.cyclesCheckpointCount.toInt
  pending : 0 ≤ pending host t
  total : t.cyclesCountTotal + BitVec.ofNat w (Cycles.pending host t).toNat = BitVec.ofNat w t.spent
  card : (t.cyclesCountTotal - t.uLastCumulativeCycles).toNat ≤ t.cyclesCheckpointCount.toInt.toNat
  idle : t.executing = false → host.running t.core = false ∧ Cycles.pending host t = 0
  call : ∃ n k, n + 16 < 0x10000 ∧ (t.executing = true →
    (host.meter t.core).InCall n k (host.running t.core))
  count : (host.meter t.core).cycleCount.toInt < 0x10000

theorem ofInt_ofNat {d : ℤ} (h : 0 ≤ d) : BitVec.ofInt w d = BitVec.ofNat w d.toNat := by
  have hnat : d = (d.toNat : ℤ) := (Int.toNat_of_nonneg h).symm
  rw [hnat, BitVec.ofInt_natCast, Int.toNat_natCast]

/-- The thread after a checkpoint. -/
def checkpointed (host : Host σ C) (t : Thread w C) : Thread w C :=
  { t with
    cyclesCountTotal := t.cyclesCountTotal + BitVec.ofNat w (pending host t).toNat
    cyclesCheckpointCount := (host.meter t.core).cycleCount }

theorem pending_checkpointed (t : Thread w C) : pending host (checkpointed host t) = 0 := sub_self _

theorem checkpointCycles_eq {t : Thread w C} (h : Kept host t) :
    checkpointCycles host t = .ok (checkpointed host t) := by
  have hpending := h.pending
  have hcheckpoint := h.checkpoint
  have hcount := h.count
  have hdiff : ((host.meter t.core).cycleCount - t.cyclesCheckpointCount).toInt =
      pending host t := by
    rw [sub_toInt, pending]
    · change -2 ^ 31 ≤ pending host t
      omega
    · omega
  have hpos : 0 ≤ (host.meter t.core).cycleCount - t.cyclesCheckpointCount := by
    rw [Int32.le_iff_toInt_le, hdiff]
    exact hpending
  rw [checkpointCycles, if_pos hpos, hdiff, ofInt_ofNat hpending]
  rfl

/-- What a checkpoint adds, the Mockingboard has still to take. -/
theorem sub_toNat_le {total last : BitVec w} {p : ℕ} :
    (total + BitVec.ofNat w p - last).toNat ≤ (total - last).toNat + p := by
  have hcomm : total + BitVec.ofNat w p - last = total - last + BitVec.ofNat w p := by
    rw [BitVec.sub_eq_add_neg, BitVec.sub_eq_add_neg, BitVec.add_assoc, BitVec.add_assoc,
      BitVec.add_comm (BitVec.ofNat w p)]
  rw [hcomm, BitVec.toNat_add, BitVec.toNat_ofNat]
  exact (Nat.mod_le _ _).trans (Nat.add_le_add_left (Nat.mod_le _ _) _)

theorem Kept.checkpointed {t : Thread w C} (h : Kept host t) : Kept host (checkpointed host t) := by
  have hpending := h.pending
  have hcheckpoint := h.checkpoint
  have hcycles : (host.meter t.core).cycleCount.toInt =
    Cycles.pending host t + t.cyclesCheckpointCount.toInt := (sub_add_cancel _ _).symm
  refine ⟨?_, (pending_checkpointed t).ge, ?_, ?_, ?_, h.call, h.count⟩
  · change 0 ≤ (host.meter t.core).cycleCount.toInt
    omega
  · rw [pending_checkpointed]
    exact (BitVec.add_zero _).trans h.total
  · have hcard := h.card
    change
      (t.cyclesCountTotal + BitVec.ofNat w (Cycles.pending host t).toNat -
        t.uLastCumulativeCycles).toNat ≤
      (host.meter t.core).cycleCount.toInt.toNat
    refine sub_toNat_le.trans ?_
    omega
  · intro hidle
    exact ⟨(h.idle hidle).1, pending_checkpointed t⟩

/-- Without a lacking cycle the total is exact. -/
theorem Kept.exact {t : Thread w C} (h : Kept host t) (hnone : Cycles.pending host t = 0) :
    t.cyclesCountTotal = BitVec.ofNat w t.spent := by
  rw [← h.total, hnone]
  exact (BitVec.add_zero _).symm

theorem Kept.updateCycles {t : Thread w C} (h : Kept host t) :
    ∃ u, updateCycles host t = .ok u ∧ Kept host u := by
  have hdone := h.checkpointed
  have hcount := h.count
  have hcard := hdone.card
  have hless : ((Cycles.checkpointed host t).cyclesCountTotal -
      (Cycles.checkpointed host t).uLastCumulativeCycles).toNat < 0x10000 := by
    change _ ≤ (host.meter t.core).cycleCount.toInt.toNat at hcard
    omega
  refine ⟨{ Cycles.checkpointed host t with
    uLastCumulativeCycles := (Cycles.checkpointed host t).cyclesCountTotal }, ?_, ?_⟩
  · rw [Cycles.updateCycles, checkpointCycles_eq h]
    exact if_pos hless
  · refine ⟨hdone.checkpoint, hdone.pending, hdone.total, ?_, hdone.idle, hdone.call, hdone.count⟩
    dsimp only
    rw [BitVec.sub_self]
    exact Nat.zero_le _

/-! ## Steps -/

/-- The counter grows by the cost of the instruction. -/
theorem cycleCount_cost {c : C} {m : Meter} {running : Bool} (h : m.Moves (host.meter c) running)
    (hleft : 0 ≤ m.cyclesToExecute.toInt) (hcount : 0 ≤ m.cycleCount.toInt)
    (hmax : m.cycleCount.toInt + 16 < 2 ^ 31) :
    (host.meter c).cycleCount.toInt = m.cycleCount.toInt + cost host c := by
  obtain ⟨hreinit, hcounted⟩ | ⟨hreinit, -, hcycles, -⟩ := h
  · rw [cost, if_pos hreinit]
    exact (hcounted.toInt hleft hcount hmax).1
  · have hnonzero : Meter.emulReinitialize (host.meter c) ≠ 0 := by
      rw [hreinit]
      decide
    rw [cost, if_neg hnonzero, hcycles]
    exact (add_zero _).symm

theorem total_cost {total : BitVec w} {p p' : ℤ} {spent k : ℕ} (hp : 0 ≤ p) (hp' : p' = p + k)
    (h : total + BitVec.ofNat w p.toNat = BitVec.ofNat w spent) :
    total + BitVec.ofNat w p'.toNat = BitVec.ofNat w (spent + k) := by
  have hsum : p'.toNat = p.toNat + k := by omega
  rw [hsum, BitVec.ofNat_add, ← BitVec.add_assoc, h, ← BitVec.ofNat_add]

theorem inCall_count {n : ℤ} {k : ℕ} {m : Meter} {running : Bool} (h : m.InCall n k running)
    (hn : n + 16 < 0x10000) : m.cycleCount.toInt < 0x10000 := by
  have htotal := h.total
  have hlate := h.late
  omega

/-- An instruction of a call. -/
theorem Kept.instruction {t : Thread w C} {c : C} {buttons : Buttons} (h : Kept host t)
    (hstep : host.step t.core (.instruction buttons) = .ok c) :
    Kept host { t with core := c, spent := t.spent + cost host c } := by
  have hrunning := host.instruction_running hstep
  obtain ⟨n, k, hn, hcall⟩ := h.call
  have hexecuting : t.executing = true := by
    rw [← Bool.not_eq_false]
    intro hidle
    rw [(h.idle hidle).1] at hrunning
    cases hrunning
  have hin := hcall hexecuting
  rw [hrunning] at hin
  obtain ⟨hreinit, hleft, -⟩ := hin.going rfl
  have hmoves := host.instruction_moves hreinit hstep
  have hnext := hin.next (by omega) hmoves
  have hcount := h.count
  have hpending := h.pending
  have hcost := cycleCount_cost hmoves hleft.le hin.counted (by omega)
  have hlacks : Cycles.pending host { t with core := c, spent := t.spent + cost host c } =
      Cycles.pending host t + cost host c := by
    rw [Cycles.pending, Cycles.pending]
    dsimp only
    omega
  refine ⟨h.checkpoint, ?_, total_cost hpending hlacks h.total, h.card, ?_,
    ⟨n, k + 1, hn, fun _ => hnext⟩, inCall_count hnext hn⟩
  · omega
  · intro hidle
    rw [hexecuting] at hidle
    cases hidle

/-- What happens to the core besides. -/
theorem Kept.other {t : Thread w C} {c : C} {event : Event σ} (h : Kept host t)
    (hevent : event.moves = false) (hstep : host.step t.core event = .ok c) :
    Kept host { t with core := c } := by
  obtain ⟨hrunning, hcount, hleft, hreinit⟩ := host.other hevent hstep
  have hlacks : Cycles.pending host { t with core := c } = Cycles.pending host t := by
    rw [Cycles.pending, Cycles.pending, hcount]
  obtain ⟨n, k, hn, hcall⟩ := h.call
  refine ⟨h.checkpoint, ?_, ?_, h.card, ?_, ⟨n, k, hn, fun hexecuting => ?_⟩, ?_⟩
  · rw [hlacks]
    exact h.pending
  · rw [hlacks]
    exact h.total
  · rw [hlacks, hrunning]
    exact h.idle
  · rw [hrunning]
    exact (hcall hexecuting).same ⟨hcount, hleft, hreinit⟩
  · rw [hcount]
    exact h.count

theorem Kept.move {t u : Thread w C} {event : Event σ} (h : Kept host t)
    (hcall : event.isCall = false)
    (hmove : move host t event = .ok u) : Kept host u := by
  simp only [Cycles.move] at hmove
  split at hmove
  case h_2 => cases hmove
  case h_1 c hstep =>
    cases hmove
    cases event with
    | call => cases hcall
    | instruction buttons => exact h.instruction hstep
    | interrupt | uninterrupt | registers | memory => exact h.other rfl hstep

/-- The first instruction of an iteration. -/
theorem Kept.iterate {t u : Thread w C} {buttons : Buttons} {n : Int32} (h : Kept host t)
    (hidle : t.executing = false) (hn : 0 ≤ n.toInt) (hmax : n.toInt + 16 < 0x10000)
    (hmove : Cycles.move host { reinitialized host t with
      executing := true
      uLastCumulativeCycles := (reinitialized host t).cyclesCountTotal
      cyclesCheckpointCount := 0 } (.call buttons n) = .ok u) : Kept host u := by
  have htotal : (reinitialized host t).cyclesCountTotal =
      BitVec.ofNat w (reinitialized host t).spent := by
    rw [reinitialized]
    split
    · exact h.exact (h.idle hidle).2
    · rfl
  simp only [Cycles.move] at hmove
  split at hmove
  case h_2 => cases hmove
  case h_1 c hstep =>
    cases hmove
    obtain ⟨-, hmoves⟩ := host.call hstep
    have hfirst := Meter.inCall_first hn (by omega) rfl rfl hmoves
    have hzero : (0 : Int32).toInt + 16 < 2 ^ 31 := by decide
    have hcost := cycleCount_cost hmoves hn (Int.le_refl 0) hzero
    have hlacks : Cycles.pending host { reinitialized host t with
        core := c
        executing := true
        uLastCumulativeCycles := (reinitialized host t).cyclesCountTotal
        cyclesCheckpointCount := 0
        spent := (reinitialized host t).spent + cost host c } = 0 + cost host c := by
      rw [Cycles.pending, hcost]
      rfl
    refine ⟨Int.le_refl 0, ?_, total_cost (Int.le_refl 0) hlacks ?_, ?_, Bool.noConfusion,
      ⟨n.toInt, 1, hmax, fun _ => hfirst⟩, inCall_count hfirst hmax⟩
    · refine le_of_le_of_eq ?_ hlacks.symm
      omega
    · exact (BitVec.add_zero _).trans htotal
    · dsimp only
      rw [BitVec.sub_self]
      exact Nat.le_refl 0

theorem move_error {t : Thread w C} {event : Event σ} {e : Fault}
    (h : Cycles.move host t event = .error e) :
    e = .order := by
  simp only [Cycles.move] at h
  split at h
  · cases h
  · exact (Except.error.inj h).symm

/-- A step is out of order, or keeps the counts. -/
theorem Kept.step {t : Thread w C} {s : Step σ} (h : Kept host t) (hreq : Bounded s) :
    step host t s = .error .order ∨ ∃ u, step host t s = .ok u ∧ Kept host u := by
  cases s with
  | iterate buttons n =>
    by_cases hexecuting : t.executing = true
    · exact .inl (if_pos hexecuting)
    · rw [Cycles.step, if_neg hexecuting]
      rw [Bool.not_eq_true] at hexecuting
      cases hmove : Cycles.move host _ (.call buttons n) with
      | ok u => exact .inr ⟨u, rfl, h.iterate hexecuting hreq.1 hreq.2 hmove⟩
      | error e => exact .inl (congrArg Except.error (move_error hmove))
  | core event =>
    by_cases hcall : event.isCall = true
    · exact .inl (if_pos hcall)
    · rw [Cycles.step, if_neg hcall]
      rw [Bool.not_eq_true] at hcall
      cases hmove : Cycles.move host t event with
      | ok u => exact .inr ⟨u, rfl, h.move hcall hmove⟩
      | error e => exact .inl (congrArg Except.error (move_error hmove))
  | checkpoint => exact .inr ⟨_, checkpointCycles_eq h, h.checkpointed⟩
  | updateCycles => exact .inr h.updateCycles
  | finish =>
    by_cases hreturned : t.executing = true ∧ host.running t.core = false
    · have hdone := h.checkpointed
      refine .inr ⟨{ Cycles.checkpointed host t with executing := false }, ?_, ?_⟩
      · rw [Cycles.step, if_pos hreturned, checkpointCycles_eq h]
        rfl
      · obtain ⟨n, k, hn, -⟩ := hdone.call
        exact ⟨hdone.checkpoint, hdone.pending, hdone.total, hdone.card,
          fun _ => ⟨hreturned.2, pending_checkpointed t⟩, ⟨n, k, hn, Bool.noConfusion⟩, hdone.count⟩
    · exact .inl (if_neg hreturned)

theorem kept_start {c : C} (hidle : host.running c = false)
    (hcount : (host.meter c).cycleCount = 0) :
    Kept host (start w c) := by
  have hpending : Cycles.pending host (start w c) = 0 := by
    rw [Cycles.pending]
    change (host.meter c).cycleCount.toInt - 0 = 0
    rw [hcount]
    rfl
  have hcard : ((0 : BitVec w) - 0).toNat ≤ (0 : Int32).toInt.toNat := by
    rw [BitVec.sub_self]
    exact Nat.zero_le _
  refine ⟨Int.le_refl 0, hpending.ge, ?_, hcard, fun _ => ⟨hidle, hpending⟩,
    ⟨0, 0, by decide, Bool.noConfusion⟩, ?_⟩
  · rw [hpending]
    rfl
  · change (host.meter c).cycleCount.toInt < 0x10000
    rw [hcount]
    decide

/-- A run ends out of order, or in a thread whose counts are kept. -/
theorem Kept.run {t : Thread w C} {steps : List (Step σ)} (h : Kept host t)
    (hreq : ∀ s ∈ steps, Bounded s) :
    runM (Cycles.step host) t steps = .error .order ∨
      ∃ u, runM (Cycles.step host) t steps = .ok u ∧ Kept host u := by
  induction steps generalizing t with
  | nil => exact .inr ⟨t, rfl, h⟩
  | cons s steps ih =>
    obtain hstep | ⟨u, hstep, hu⟩ := h.step (hreq s List.mem_cons_self)
    · exact .inl (runM_cons_error steps hstep)
    · rw [runM_cons_ok steps hstep]
      exact ih hu fun s' hs' => hreq s' (List.mem_cons_of_mem s hs')

/-- What a run of the thread shows: no check of the counts has failed, and the total is the number
of cycles spent, less those of the call that no checkpoint has seen. -/
def Exact (w : ℕ) (host : Host σ C) (steps : List (Step σ)) (c : C) : Prop :=
  runM (Cycles.step host) (start w c) steps = .error .order ∨
    ∃ t, runM (Cycles.step host) (start w c) steps = .ok t ∧ 0 ≤ Cycles.pending host t ∧
      t.cyclesCountTotal + BitVec.ofNat w (Cycles.pending host t).toNat = BitVec.ofNat w t.spent ∧
      (t.executing = false → t.cyclesCountTotal = BitVec.ofNat w t.spent)

theorem exact_start {steps : List (Step σ)} (hreq : ∀ s ∈ steps, Bounded s) {c : C}
    (hidle : host.running c = false) (hcount : (host.meter c).cycleCount = 0) :
    Exact w host steps c := by
  obtain horder | ⟨t, ht, hkept⟩ := (kept_start hidle hcount).run hreq
  · exact .inl horder
  · exact .inr ⟨t, ht, hkept.pending, hkept.total, fun hdone => hkept.exact (hkept.idle hdone).2⟩

end Counts

/-- **The clock.** On either host and with an `unsigned long` of any width, in every run of the
thread that asks for cycles as `cpu_thread` does for a device of at least 13254 samples in a second,
whatever instructions run and wherever the handlers call for a checkpoint or the Mockingboard for
its cycles: `assert(d >= 0)` holds, the Mockingboard is never given 65536 cycles at once, and
`cycles_count_total` has every cycle spent since the call of `reinitialize` once, but for those
since the last checkpoint; between iterations it has all of them. -/
theorem cycle_clock (w : ℕ) (bus : Bus σ) (arch : Arm.Arch) (wideBus : Arm.WideBus σ) {rate : ℚ}
    (hrate : 13254 ≤ rate) {steps : List (Step σ)} (hreq : ∀ s ∈ steps, Requested rate s) :
    (∀ c : X86.Core σ, c.running = false → c.state.cycleCount = 0 →
        Exact w (X86.host bus) steps c) ∧
      ∀ c : Arm.Core σ, c.running = false → c.state.cycleCount = 0 →
        Exact w (Arm.host arch wideBus) steps c := by
  have hbounded : ∀ s ∈ steps, Bounded s := fun s hs => (hreq s hs).bounded hrate
  exact ⟨fun _ hidle hcount => exact_start hbounded hidle hcount,
    fun _ hidle hcount => exact_start hbounded hidle hcount⟩

/-- The steps of an iteration for which the speaker asks for 22 samples less. -/
def fewer : List (Step Ram) :=
  [.iterate ⟨0, 0⟩ 8, .updateCycles, .core (.instruction ⟨0, 0⟩), .checkpoint,
    .core (.instruction ⟨0, 0⟩), .finish]

theorem fewer_requested : ∀ s ∈ fewer, Requested 22050 s := by
  have hmillisecond : ⌊(1020484 : ℚ) / 1000⌋ = 1020 := by
    rw [Int.floor_eq_iff]
    norm_num
  have hsample : ⌊(1020484 : ℚ) / 22050⌋ = 46 := by
    rw [Int.floor_eq_iff]
    norm_num
  simp only [fewer, List.mem_cons, List.not_mem_nil, or_false, forall_eq_or_imp, forall_eq]
  refine ⟨⟨1020484, false, -22, by norm_num, by norm_num [fastestTarget], by decide, ?_⟩, trivial,
    trivial, trivial, trivial, trivial⟩
  rw [cyclesToExecute, cyclesPerSample, hmillisecond, hsample]
  decide

theorem cycle_clock_pushing : ∃ t, runM (step (X86.host ramBus)) (start 32 (X86.idle pushing))
      fewer = .ok t ∧ t.core.state.x = 5 ∧ t.cyclesCountTotal = 9 := by
  obtain ⟨t, ht, hdone, hx, hspent⟩ : ∃ t, runM (step (X86.host ramBus))
      (start 32 (X86.idle pushing)) fewer = .ok t ∧
      t.executing = false ∧ t.core.state.x = 5 ∧ t.spent = 9 := ⟨_, rfl, rfl, rfl, rfl⟩
  have hrate : (13254 : ℚ) ≤ 22050 := by norm_num
  obtain horder | ⟨u, hu, -, -, hexact⟩ := (cycle_clock 32 ramBus .aarch64 (Arm.wide ramBus) hrate
    fewer_requested).1 (X86.idle pushing) rfl rfl
  · rw [ht] at horder
    cases horder
  · rw [ht] at hu
    cases hu
    refine ⟨t, ht, hx, ?_⟩
    rw [hexact hdone, hspent]
    rfl

end Apple2ix.Timing.Cycles
