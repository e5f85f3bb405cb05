import Apple2ix.Foundations.Walks
import Apple2ix.Meta.Debugger

/-! `debugger_shouldBreak`, which the CPU thread calls after each instruction while the debugger
steps, and the runs of the commands `next` and `finish`. -/
namespace Apple2ix.Meta
open Vm Walks
set_option autoImplicit false

/-! ## Breakpoints and watchpoints -/

/-- What the debugger reads of `run_args`. -/
structure RunArgs where
  cpu65Pc : UInt16
  cpu65Ea : UInt16
  cpu65D : UInt8
  cpu65Opcode : UInt8
  cpu65Rw : UInt8

structure Points where
  opBreakpoints : UInt8 → Bool
  breakpoints : List ℤ
  watchpoints : List ℤ

/-- The lines of `at_haltpt`. -/
inductive HaltLine
  | instruction (pc : UInt16) (bank : ℕ) (op : UInt8)
  | breakpoint (addrs : ℤ) (bank : ℕ)
  | wrote (addrs : ℤ) (d : UInt8)
  | read (addrs : ℤ)
  deriving DecidableEq, Repr

structure Halt where
  count : ℕ
  lines : List HaltLine
  cpu65Rw : UInt8

def Halt.add (line : HaltLine) (h : Halt) : Halt :=
  { h with count := h.count + 1, lines := h.lines ++ [line] }

def checkBreakpoint (args : RunArgs) (bank : ℕ) (h : Halt) (addrs : ℤ) : Halt :=
  if (args.cpu65Pc.toNat : ℤ) = addrs then h.add (.breakpoint addrs bank) else h

/-- A watchpoint trips once. -/
def checkWatchpoint (args : RunArgs) (h : Halt) (addrs : ℤ) : Halt :=
  if (args.cpu65Ea.toNat : ℤ) = addrs then
    let h :=
      if h.cpu65Rw &&& 0x2 != 0 then h.add (.wrote addrs args.cpu65D) else h.add (.read addrs)
    { h with cpu65Rw := 0 }
  else h

def atHaltpt (points : Points) (vm : Machine) (args : RunArgs) : Halt :=
  let bank := cGetCurrentRambank vm args.cpu65Pc.toNat
  let h : Halt := { count := 0, lines := [], cpu65Rw := args.cpu65Rw }
  let h := if points.opBreakpoints args.cpu65Opcode then
      h.add (.instruction args.cpu65Pc bank args.cpu65Opcode)
    else h
  let h := points.breakpoints.foldl (checkBreakpoint args bank) h
  if h.cpu65Rw != 0 then points.watchpoints.foldl (checkWatchpoint args) h else h

/-! ## Stepping -/

inductive SteppingType
  | stepping
  | nexting
  | finishing
  | untiling
  | typing
  | loading
  | going
  deriving DecidableEq, Repr

/-- `stepping_struct_s`, but for the timeout, which belongs to the other thread. -/
structure SteppingStruct where
  stepType : SteppingType
  stepCount : UInt16 := 0
  stepFrame : UInt16 := 0
  stepPc : UInt16 := 0
  shouldBreak : Bool := false
  stepText : Option (List UInt8) := none
  stepDeterministically : Bool := false

/-- `step_frame` after an instruction. -/
def stepFrameAfter (op : UInt8) (frame : UInt16) : UInt16 :=
  let frame := if op = 0x20 then frame + 1 else frame -- JSR
  if op = 0x60 then frame - 1 else frame -- RTS

/-- The `switch` of `debugger_shouldBreak`, and `break_stepping`. -/
def SteppingStruct.step (op : UInt8) (pc : UInt16) (s : SteppingStruct) : SteppingStruct × Bool :=
  match s.stepType with
  | .stepping =>
    let s := { s with stepCount := s.stepCount - 1 }
    (if s.stepCount = 0 then { s with shouldBreak := true } else s, false)
  | .nexting =>
    let s := if s.stepCount > 0 then { s with stepCount := s.stepCount - 1 } else s
    let s := { s with stepFrame := stepFrameAfter op s.stepFrame }
    (if s.stepFrame = 0 ∧ s.stepCount = 0 then { s with shouldBreak := true } else s, false)
  | .untiling => (if s.stepPc = pc then { s with shouldBreak := true } else s, false)
  | .finishing =>
    let s := { s with stepFrame := stepFrameAfter op s.stepFrame }
    (if s.stepFrame = 0 then { s with shouldBreak := true } else s, false)
  | .going | .typing => (s, s.stepDeterministically && (s.stepText.getD []).head?.any (· != 0))
  | .loading => (s, false)

/-- `debugger_shouldBreak`: the stepping state, what `at_haltpt` did, and the answer. -/
def debuggerShouldBreak (points : Points) (vm : Machine) (args : RunArgs) (s : SteppingStruct) :
    SteppingStruct × Halt × Bool :=
  let h := atHaltpt points vm args
  let (s, breakStepping) :=
    if h.count ≠ 0 then ({ s with shouldBreak := true }, false)
    else s.step args.cpu65Opcode args.cpu65Pc
  (s, h, breakStepping || s.shouldBreak)

/-! ## Runs -/

/-- The machine and `run_args` after an instruction. -/
structure Executed where
  vm : Machine
  args : RunArgs

/-- The instruction, counted from one, after which a run stops; `m` are done. -/
def stopsAfter (points : Points) (s : SteppingStruct) : List Executed → ℕ → Option ℕ
  | [], _ => none
  | e :: rest, m =>
    let (s, _, stop) := debuggerShouldBreak points e.vm e.args s
    if stop then some (m + 1) else stopsAfter points s rest (m + 1)

/-- Where a run stops that is stepped with `s`. -/
def stops (points : Points) (s : SteppingStruct) (run : List Executed) : Option ℕ :=
  stopsAfter points s run 0

/-- What `NEXTING` and `FINISHING` begin with. The lexer makes the first, for one instruction, of a
typed `next`, and the second of `finish`, but `STEPPING` of a typed `next n`. -/
def nextCommand (n : UInt16) : SteppingStruct := { stepType := .nexting, stepCount := n }
def finishCommand : SteppingStruct := { stepType := .finishing, stepFrame := 1 }

/-- No break- or watchpoint fires. -/
def Quiet (points : Points) (run : List Executed) : Prop :=
  ∀ e ∈ run, (atHaltpt points e.vm e.args).count = 0

def jsrs (run : List Executed) : ℕ := run.countP fun e => e.args.cpu65Opcode = 0x20
def rtss (run : List Executed) : ℕ := run.countP fun e => e.args.cpu65Opcode = 0x60

/-! ## Runs without halts -/

section Quiet
variable {points : Points}

theorem debuggerShouldBreak_quiet {vm : Machine} {args : RunArgs} (s : SteppingStruct)
    (h : (atHaltpt points vm args).count = 0) : debuggerShouldBreak points vm args s =
      ((s.step args.cpu65Opcode args.cpu65Pc).1, atHaltpt points vm args,
        (s.step args.cpu65Opcode args.cpu65Pc).2 ||
          (s.step args.cpu65Opcode args.cpu65Pc).1.shouldBreak) := by
  unfold debuggerShouldBreak
  dsimp only
  rw [if_neg (not_not.mpr h)]

/-- A run stops after the first instruction at which the test on what was executed succeeds, if each
step makes the test, and keeps the stepping state of what was executed where it fails. -/
theorem stops_eq (after : List Executed → SteppingStruct) (test : List Executed → Bool)
    (hstep : ∀ done e, ((after done).step e.args.cpu65Opcode e.args.cpu65Pc).2 = false ∧
      ((after done).step e.args.cpu65Opcode e.args.cpu65Pc).1 =
        { after (done ++ [e]) with shouldBreak := test (done ++ [e]) })
    (hkeep : ∀ done, (after done).shouldBreak = false) {run : List Executed}
    (h : Quiet points run) :
    stops points (after []) run = first run.length fun j => test (run.take j) := by
  have hrest : ∀ rest done, done ++ rest = run → stopsAfter points (after done) rest done.length =
      (List.range' (done.length + 1) rest.length).find? fun j => test (run.take j) := by
    intro rest
    induction rest with
    | nil => exact fun _ _ => rfl
    | cons e rest ih =>
      intro done hrun
      have hquiet := h e (hrun ▸ List.mem_append_right done List.mem_cons_self)
      have hmore : (done ++ [e]) ++ rest = run := by rw [List.append_assoc]; exact hrun
      have htake : run.take (done.length + 1) = done ++ [e] := by
        rw [← hmore]
        exact List.take_left' (List.length_append.trans rfl)
      obtain ⟨hanswer, hstate⟩ := hstep done e
      rw [stopsAfter, debuggerShouldBreak_quiet _ hquiet, hanswer, hstate, Bool.false_or,
        List.length_cons, List.range'_succ, List.find?_cons, htake]
      cases htest : test (done ++ [e]) with
      | true => rfl
      | false =>
        have hsame : { after (done ++ [e]) with shouldBreak := false } = after (done ++ [e]) := by
          rw [← hkeep (done ++ [e])]
        have hlater := ih (done ++ [e]) hmore
        rw [List.length_append, List.length_singleton] at hlater
        simp only [Bool.false_eq_true, if_false, hsame, hlater]
  exact hrest run [] rfl

end Quiet

/-! ## The frame counter -/

def frameAfter (frame : UInt16) (run : List Executed) : UInt16 :=
  run.foldl (fun frame e => stepFrameAfter e.args.cpu65Opcode frame) frame

/-- JSRs less RTSs. -/
def depth (run : List Executed) : ℤ := jsrs run - rtss run

theorem jsrs_concat (run : List Executed) (e : Executed) :
    jsrs (run ++ [e]) = jsrs run + if e.args.cpu65Opcode = 0x20 then 1 else 0 := by
  rw [jsrs, List.countP_append, List.countP_singleton, jsrs]
  simp only [decide_eq_true_eq]

theorem rtss_concat (run : List Executed) (e : Executed) :
    rtss (run ++ [e]) = rtss run + if e.args.cpu65Opcode = 0x60 then 1 else 0 := by
  rw [rtss, List.countP_append, List.countP_singleton, rtss]
  simp only [decide_eq_true_eq]

theorem frameAfter_concat (frame : UInt16) (run : List Executed) (e : Executed) :
    frameAfter frame (run ++ [e]) = stepFrameAfter e.args.cpu65Opcode (frameAfter frame run) := by
  rw [frameAfter, List.foldl_append, List.foldl_cons, List.foldl_nil, frameAfter]

/-- The counter holds the depth, but for what wraps around. -/
theorem frameAfter_depth (frame : UInt16) (run : List Executed) :
    (0x10000 : ℤ) ∣ (frameAfter frame run).toNat - (frame.toNat + depth run) := by
  induction run using List.reverseRecOn with
  | nil =>
    refine ⟨0, ?_⟩
    simp [frameAfter, depth, jsrs, rtss]
  | append_singleton run e ih =>
    have hframe := (frameAfter frame run).toNat_lt
    rw [frameAfter_concat, depth, jsrs_concat, rtss_concat]
    rw [depth] at ih
    unfold stepFrameAfter
    dsimp only
    by_cases hjsr : e.args.cpu65Opcode = 0x20
    · have hrts : ¬ e.args.cpu65Opcode = 0x60 := by rw [hjsr]; decide
      rw [if_pos hjsr, if_pos hjsr, if_neg hrts, if_neg hrts, UInt16.toNat_add]
      change (0x10000 : ℤ) ∣ (((frameAfter frame run).toNat + 1) % 2 ^ 16 : ℕ) - _
      omega
    · rw [if_neg hjsr, if_neg hjsr]
      by_cases hrts : e.args.cpu65Opcode = 0x60
      · rw [if_pos hrts, if_pos hrts, UInt16.toNat_sub]
        change (0x10000 : ℤ) ∣ ((2 ^ 16 - 1 + (frameAfter frame run).toNat) % 2 ^ 16 : ℕ) - _
        omega
      · rw [if_neg hrts, if_neg hrts]
        omega

theorem frameAfter_eq_zero (frame : UInt16) (run : List Executed) :
    frameAfter frame run = 0 ↔ (0x10000 : ℤ) ∣ frame.toNat + depth run := by
  have hdepth := frameAfter_depth frame run
  have hlt := (frameAfter frame run).toNat_lt
  rw [← UInt16.toNat_inj]
  change (frameAfter frame run).toNat = 0 ↔ _
  omega

/-- An instruction changes the depth by at most one. -/
theorem depth_take_succ (run : List Executed) (j : ℕ) :
    depth (run.take (j + 1)) ≤ depth (run.take j) + 1 ∧
      depth (run.take j) - 1 ≤ depth (run.take (j + 1)) := by
  by_cases hj : j < run.length
  · rw [List.take_succ_eq_append_getElem hj, depth, depth, jsrs_concat, rtss_concat]
    split_ifs <;> omega
  · rw [List.take_of_length_le (by omega), List.take_of_length_le (by omega)]
    omega

theorem depth_take_bound (run : List Executed) (j : ℕ) :
    -(j : ℤ) ≤ depth (run.take j) ∧ depth (run.take j) ≤ j := by
  induction j with
  | zero => exact ⟨le_refl _, le_refl _⟩
  | succ j ih =>
    have hstep := depth_take_succ run j
    omega

/-! ## Next and finish -/

/-- The stepping state of `next n`, where it goes on. -/
def nextAfter (n : UInt16) (done : List Executed) : SteppingStruct :=
  { nextCommand n with
    stepCount := UInt16.ofNat (n.toNat - done.length)
    stepFrame := frameAfter 0 done }

def finishAfter (done : List Executed) : SteppingStruct :=
  { finishCommand with stepFrame := frameAfter 1 done }

/-- The countdown of `next n`. -/
theorem countdown (n : UInt16) (k : ℕ) :
    (if UInt16.ofNat (n.toNat - k) > 0 then UInt16.ofNat (n.toNat - k) - 1
      else UInt16.ofNat (n.toNat - k)) = UInt16.ofNat (n.toNat - (k + 1)) ∧
    (UInt16.ofNat (n.toNat - k) = 0 ↔ n.toNat ≤ k) := by
  have hn := n.toNat_lt
  have hvalue : ∀ k, (UInt16.ofNat (n.toNat - k)).toNat = n.toNat - k := by
    intro k
    rw [UInt16.toNat_ofNat']
    exact Nat.mod_eq_of_lt (by omega)
  have hzero : UInt16.ofNat (n.toNat - k) = 0 ↔ n.toNat ≤ k := by
    rw [← UInt16.toNat_inj, hvalue]
    exact Nat.sub_eq_zero_iff_le
  refine ⟨?_, hzero⟩
  by_cases hk : n.toNat ≤ k
  · rw [hzero.mpr hk, if_neg (by decide), Nat.sub_eq_zero_of_le (by omega)]
    rfl
  · have hpos : UInt16.ofNat (n.toNat - k) > 0 := by
      rw [gt_iff_lt, UInt16.lt_iff_toNat_lt, hvalue]
      change 0 < _
      omega
    rw [if_pos hpos, ← UInt16.toNat_inj, UInt16.toNat_sub, hvalue, hvalue]
    change (2 ^ 16 - 1 + (n.toNat - k)) % 2 ^ 16 = _
    omega

theorem nextAfter_step (n : UInt16) (done : List Executed) (e : Executed) :
    ((nextAfter n done).step e.args.cpu65Opcode e.args.cpu65Pc).2 = false ∧
      ((nextAfter n done).step e.args.cpu65Opcode e.args.cpu65Pc).1 =
        { nextAfter n (done ++ [e]) with
          shouldBreak := n.toNat ≤ (done ++ [e]).length ∧ frameAfter 0 (done ++ [e]) = 0 } := by
  obtain ⟨hcount, -⟩ := countdown n done.length
  obtain ⟨-, hzero⟩ := countdown n (done.length + 1)
  have hstate : ((nextAfter n done).step e.args.cpu65Opcode e.args.cpu65Pc).1 =
      if frameAfter 0 (done ++ [e]) = 0 ∧ UInt16.ofNat (n.toNat - (done.length + 1)) = 0 then
        { nextAfter n (done ++ [e]) with shouldBreak := true }
      else nextAfter n (done ++ [e]) := by
    have hlength : (done ++ [e]).length = done.length + 1 := List.length_append.trans rfl
    rw [nextAfter, nextAfter, hlength, frameAfter_concat, ← hcount]
    unfold SteppingStruct.step
    dsimp only [nextCommand]
    by_cases hpos : UInt16.ofNat (n.toNat - done.length) > 0
    · simp only [if_pos hpos]
    · simp only [if_neg hpos]
  refine ⟨rfl, ?_⟩
  rw [hstate]
  by_cases hstop : n.toNat ≤ done.length + 1 ∧ frameAfter 0 (done ++ [e]) = 0
  · rw [if_pos ⟨hstop.2, hzero.mpr hstop.1⟩, List.length_append, List.length_singleton,
      decide_eq_true hstop]
  · rw [if_neg fun h => hstop ⟨hzero.mp h.2, h.1⟩, List.length_append, List.length_singleton,
      decide_eq_false hstop]
    rfl

theorem finishAfter_step (done : List Executed) (e : Executed) :
    ((finishAfter done).step e.args.cpu65Opcode e.args.cpu65Pc).2 = false ∧
      ((finishAfter done).step e.args.cpu65Opcode e.args.cpu65Pc).1 =
        { finishAfter (done ++ [e]) with shouldBreak := frameAfter 1 (done ++ [e]) = 0 } := by
  have hstate : ((finishAfter done).step e.args.cpu65Opcode e.args.cpu65Pc).1 =
      if frameAfter 1 (done ++ [e]) = 0 then { finishAfter (done ++ [e]) with shouldBreak := true }
      else finishAfter (done ++ [e]) := by
    rw [finishAfter, finishAfter, frameAfter_concat]
    rfl
  refine ⟨rfl, ?_⟩
  rw [hstate]
  by_cases hstop : frameAfter 1 (done ++ [e]) = 0
  · rw [if_pos hstop, decide_eq_true hstop]
  · rw [if_neg hstop, decide_eq_false hstop]
    rfl

section Commands
variable {points : Points} {run : List Executed}

theorem stops_next (h : Quiet points run) (n : UInt16) :
    stops points (nextCommand n) run =
      first run.length fun j => n.toNat ≤ j ∧ (0x10000 : ℤ) ∣ depth (run.take j) - 0 := by
  have hstart : nextAfter n [] = nextCommand n := by
    simp [nextAfter, frameAfter, nextCommand]
  have hstops := stops_eq (nextAfter n) (fun done => n.toNat ≤ done.length ∧ frameAfter 0 done = 0)
    (nextAfter_step n) (fun _ => rfl) h
  rw [hstart] at hstops
  rw [hstops, first_eq_iff]
  intro j _ hj _
  rw [decide_eq_decide, frameAfter_eq_zero, List.length_take, min_eq_left hj, sub_zero]
  change _ ∧ _ ∣ ((0 : ℕ) : ℤ) + _ ↔ _
  rw [Nat.cast_zero, zero_add]

theorem stops_finish (h : Quiet points run) : stops points finishCommand run =
    first run.length fun j => 1 ≤ j ∧ (0x10000 : ℤ) ∣ depth (run.take j) - (-1) := by
  have hstops := stops_eq finishAfter (fun done => frameAfter 1 done = 0) finishAfter_step
    (fun _ => rfl) h
  rw [show finishAfter [] = finishCommand from rfl] at hstops
  rw [hstops, first_eq_iff]
  intro j hj _ _
  rw [decide_eq_decide, frameAfter_eq_zero, sub_neg_eq_add, add_comm]
  exact ⟨fun hdvd => ⟨hj, hdvd⟩, fun h => h.2⟩

end Commands

/-! ## Where they should stop -/

/-- Nexting stops after the first instruction, from the `n`-th on, after which no more JSRs than
RTSs were executed. -/
def NextStops (points : Points) (n : UInt16) (run : List Executed) : Prop :=
  stops points (nextCommand n) run =
    first run.length fun j => n.toNat ≤ j ∧ jsrs (run.take j) ≤ rtss (run.take j)

/-- `finish` stops after the first instruction after which one more RTS than JSRs was executed. -/
def FinishStops (points : Points) (run : List Executed) : Prop :=
  stops points finishCommand run =
    first run.length fun j => rtss (run.take j) = jsrs (run.take j) + 1

/-- The `n` instructions return from no frame that they did not enter, and no 65536 frames are
entered before the run is back. -/
def NextInRange (n : UInt16) (run : List Executed) : Prop :=
  (n.toNat ≤ run.length → rtss (run.take n.toNat) ≤ jsrs (run.take n.toNat)) ∧
    ∀ m, n.toNat ≤ m → m ≤ run.length →
      (∀ k, n.toNat ≤ k → k ≤ m → rtss (run.take k) < jsrs (run.take k)) →
        jsrs (run.take m) ≠ rtss (run.take m) + 0x10000

/-- No 65535 frames are entered before the run returns from its own. -/
def FinishInRange (run : List Executed) : Prop :=
  ∀ m, 1 ≤ m → m ≤ run.length → (∀ k, 1 ≤ k → k ≤ m → rtss (run.take k) ≤ jsrs (run.take k)) →
    jsrs (run.take m) ≠ rtss (run.take m) + 0xFFFF

section Commands
variable {points : Points} {run : List Executed}

theorem nextStops_iff (h : Quiet points run) {n : UInt16} (hn : 1 ≤ n.toNat) :
    NextStops points n run ↔ NextInRange n run := by
  have hlt := n.toNat_lt
  have hbound := depth_take_bound run n.toNat
  have hfirst : (first run.length fun j => n.toNat ≤ j ∧ jsrs (run.take j) ≤ rtss (run.take j)) =
      first run.length fun j => n.toNat ≤ j ∧ depth (run.take j) ≤ 0 := by
    congr 1
    funext j
    rw [decide_eq_decide, depth]
    omega
  rw [NextStops, hfirst, stops_next h n, first_wrapped_iff (fun j => (depth_take_succ run j).1)
    (fun j => (depth_take_succ run j).2) hn (by omega) (by omega), NextInRange]
  refine and_congr (imp_congr_right fun _ => ?_) (forall_congr' fun m => imp_congr_right fun _ =>
    imp_congr_right fun _ => imp_congr (forall_congr' fun k => imp_congr_right fun _ =>
      imp_congr_right fun _ => ?_) ?_)
  · rw [depth]
    omega
  · rw [depth]
    omega
  · rw [depth]
    omega

theorem finishStops_iff (h : Quiet points run) : FinishStops points run ↔ FinishInRange run := by
  have hbound := depth_take_bound run 1
  have hfirst : (first run.length fun j => rtss (run.take j) = jsrs (run.take j) + 1) =
      first run.length fun j => 1 ≤ j ∧ depth (run.take j) ≤ -1 := by
    rw [first_passage (fun j => (depth_take_succ run j).2) (by rw [List.take_zero]; decide)]
    congr 1
    funext j
    rw [decide_eq_decide, depth]
    omega
  rw [FinishStops, hfirst, stops_finish h, first_wrapped_iff (fun j => (depth_take_succ run j).1)
    (fun j => (depth_take_succ run j).2) (le_refl 1) (by omega) (by omega), FinishInRange,
    and_iff_right fun _ => by omega]
  refine forall_congr' fun m => imp_congr_right fun _ => imp_congr_right fun _ =>
    imp_congr (forall_congr' fun k => imp_congr_right fun _ => imp_congr_right fun _ => ?_) ?_
  · rw [depth]
    omega
  · rw [depth]
    omega

/-- **Step over and finish** stop where they should exactly on these runs. -/
theorem stepping_stops (h : Quiet points run) (n : UInt16) (hn : 1 ≤ n.toNat) :
    (NextStops points n run ↔ NextInRange n run) ∧ (FinishStops points run ↔ FinishInRange run) :=
  ⟨nextStops_iff h hn, finishStops_iff h⟩

end Commands

/-! ## A return first -/

/-- No points are set. -/
def noPoints : Points := ⟨fun _ => false, [], []⟩

def executed (op : UInt8) : Executed := ⟨Machine.blank, ⟨0x300, 0, 0, op, 0⟩⟩

theorem quiet_noPoints (ops : List UInt8) : Quiet noPoints (ops.map executed) := by
  intro e he
  obtain ⟨op, -, rfl⟩ := List.mem_map.mp he
  rfl

/-- A subroutine that is stepped over. -/
theorem stepping_stops_subroutine :
    (NextStops noPoints 1 ([0x20, 0xEA, 0x60].map executed) ↔
        NextInRange 1 ([0x20, 0xEA, 0x60].map executed)) ∧
      (FinishStops noPoints ([0x20, 0xEA, 0x60].map executed) ↔
        FinishInRange ([0x20, 0xEA, 0x60].map executed)) :=
  stepping_stops (quiet_noPoints _) 1 (le_refl 1)

/-- `next` on an RTS should stop after it, and goes on. -/
theorem next_return :
    ¬ ∀ (points : Points) (run : List Executed), Quiet points run → ∀ n : UInt16, 1 ≤ n.toNat →
      NextStops points n run ∧ FinishStops points run := by
  intro hall
  have hnext := (hall noPoints ([0x60, 0xEA].map executed) (quiet_noPoints _) 1 (le_refl 1)).1
  have hrange := (nextStops_iff (quiet_noPoints _) (le_refl 1)).mp hnext
  have hreturn := hrange.1 (by decide)
  revert hreturn
  decide

end Apple2ix.Meta
