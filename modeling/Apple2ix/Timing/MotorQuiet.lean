import Apple2ix.Foundations.Runs
import Apple2ix.Timing.Speed
import Apple2ix.Timing.Timespec

/-! Automatic switching of the speed in `cpu_thread`: to full speed while the disk motor is on, and
back when it is off, each once the last access of the motor is old enough. -/
namespace Apple2ix.Timing
open Runs
set_option autoImplicit false

/-! ## The thread -/

/-- A reading of `CLOCK_MONOTONIC`. -/
structure Clock (abi : Abi) where
  time : Timespec
  normal : time.Normal abi
  nonneg : 0 ≤ time.tv_sec

def Clock.nanoseconds {abi : Abi} (clock : Clock abi) : ℤ := clock.time.nanoseconds

/-- `(struct timespec){ 0 }`. -/
def Clock.zero (abi : Abi) : Clock abi where
  time := ⟨0, 0⟩
  normal := ⟨by cases abi <;> decide, le_refl 0, by decide⟩
  nonneg := le_refl 0

/-- `DISK_MOTOR_QUIET_NSECS`, a comparison. -/
def diskMotorQuietNsecs : ℤ := if 2 < nanosecondsPerSecond then 1 else 0

/-- What the thread reads of the rest: `speaker_isActive`, `video_isDirty`, and whether the drive in
use has a `file_name`. -/
structure Around where
  speakerIsActive : Bool
  videoIsDirty : Bool
  fileName : Bool

/-- The speed, and `motor_time` and `motor_off` of the disk. A motor that is off counts the bytes
that are read of it, but is only asked whether it is off. -/
structure Thread (abi : Abi) where
  speeds : Speeds
  motorTime : Clock abi
  motorOff : Bool

inductive Fault
  | overflow
  deriving DecidableEq, Repr

/-- An access of the motor, the two tests of one iteration, and whatever else sets the speed: the
preferences, the keys, the speaker, a state that is loaded. -/
inductive Event (abi : Abi)
  | motorControl (ea : UInt16) (now : Clock abi)
  | speedUp (tj : Clock abi) (around : Around)
  | slowDown (tj : Clock abi) (around : Around)
  | set (speeds : Speeds)

section Thread
variable {abi : Abi}

/-- `disk_motor_time.tv_sec || disk_motor_time.tv_nsec > DISK_MOTOR_QUIET_NSECS`. -/
def motorIsQuiet (motorTime tj : Clock abi) : Except Fault Bool :=
  match timespecDiff abi motorTime.time tj.time with
  | none => .error .overflow
  | some (diskMotorTime, negative) =>
    let sec := if negative then 1 else diskMotorTime.tv_sec
    .ok (sec ≠ 0 || diskMotorQuietNsecs < diskMotorTime.tv_nsec)

/-- `_disk6_motorControl`. -/
def Thread.motorControl (thread : Thread abi) (ea : UInt16) (now : Clock abi) : Thread abi :=
  { thread with motorTime := now, motorOff := ea &&& 1 = 0 }

/-- The test behind an execution at a normal speed. -/
def Thread.speedUp (thread : Thread abi) (tj : Clock abi) (around : Around) :
    Except Fault (Thread abi) :=
  if thread.speeds.shouldAutoAdjustSpeed && !thread.speeds.isFullspeed then
    match motorIsQuiet thread.motorTime tj with
    | .error fault => .error fault
    | .ok quiet =>
      if !around.speakerIsActive && !around.videoIsDirty && around.fileName && !thread.motorOff &&
          quiet then
        .ok { thread with speeds := thread.speeds.initializeScale (.finite cpuScaleFastest) }
      else .ok thread
  else .ok thread

/-- The test behind an execution at full speed. -/
def Thread.slowDown (thread : Thread abi) (tj : Clock abi) (around : Around) :
    Except Fault (Thread abi) :=
  if thread.speeds.shouldAutoAdjustSpeed && thread.speeds.isFullspeed then
    match motorIsQuiet thread.motorTime tj with
    | .error fault => .error fault
    | .ok quiet =>
      if around.speakerIsActive || around.videoIsDirty || thread.motorOff && quiet then
        if thread.speeds.speed.atMost cpuScaleFastestPivot then
          .ok { thread with speeds := thread.speeds.timingInitialize }
        else .ok thread
      else .ok thread
  else .ok thread

def Thread.step (thread : Thread abi) : Event abi → Except Fault (Thread abi)
  | .motorControl ea now => .ok (thread.motorControl ea now)
  | .speedUp tj around => thread.speedUp tj around
  | .slowDown tj around => thread.slowDown tj around
  | .set speeds => .ok { thread with speeds := speeds }

/-- The thread behind `disk6_init`. -/
def Thread.start (speeds : Speeds) : Thread abi := ⟨speeds, .zero abi, true⟩

/-! ## What is meant -/

/-- The last access of the motor, and since when it has been off, if it is. -/
structure Motor (abi : Abi) where
  lastAccess : Clock abi
  offSince : Option (Clock abi)

def Motor.start : Motor abi := ⟨.zero abi, some (.zero abi)⟩

def Motor.note (motor : Motor abi) : Event abi → Motor abi
  | .motorControl ea now =>
    ⟨now, if ea &&& 1 = 0 then some (motor.offSince.getD now) else none⟩
  | _ => motor

/-- The motor after a list of events. -/
def Motor.after (events : List (Event abi)) : Motor abi := events.foldl Motor.note .start

/-- More than half a second earlier. -/
def Old (since tj : Clock abi) : Prop :=
  since.nanoseconds + nanosecondsPerSecond / 2 < tj.nanoseconds

/-- Not later, and by at most a nanosecond earlier. -/
def Fresh (since tj : Clock abi) : Prop :=
  since.nanoseconds ≤ tj.nanoseconds ∧ tj.nanoseconds ≤ since.nanoseconds + 1

/-- The speed goes up only when the last access of the motor is old, and down for a motor that is
off only when it has been off for long. -/
def Waits (motor : Motor abi) (thread thread' : Thread abi) : Event abi → Prop
  | .speedUp tj _ => thread.speeds.isFullspeed = false → thread'.speeds.isFullspeed = true →
      Old motor.lastAccess tj
  | .slowDown tj around => thread.speeds.isFullspeed = true → thread'.speeds.isFullspeed = false →
      around.speakerIsActive = false → around.videoIsDirty = false →
      ∃ since, motor.offSince = some since ∧ Old since tj
  | _ => True

/-- No test that nothing else decides falls into the half second behind an access, except within its
first nanosecond, or before it. -/
def Clear (motor : Motor abi) (thread : Thread abi) : Event abi → Prop
  | .speedUp tj around =>
    thread.speeds.shouldAutoAdjustSpeed = true → thread.speeds.isFullspeed = false →
      around.speakerIsActive = false → around.videoIsDirty = false → around.fileName = true →
      motor.offSince = none → Fresh motor.lastAccess tj ∨ Old motor.lastAccess tj
  | .slowDown tj around =>
    thread.speeds.shouldAutoAdjustSpeed = true → thread.speeds.isFullspeed = true →
      around.speakerIsActive = false → around.videoIsDirty = false →
      ∀ since, motor.offSince = some since → Fresh motor.lastAccess tj ∨ Old since tj
  | _ => True

/-! ## The tests -/

/-- The difference of two readings has a value, and is compared with a nanosecond. -/
theorem motorIsQuiet_eq (motorTime tj : Clock abi) :
    ∃ quiet, motorIsQuiet motorTime tj = .ok quiet ∧ (quiet = true ↔ ¬ Fresh motorTime tj) := by
  have hm0 := motorTime.nonneg
  have ht0 := tj.nonneg
  have hm := motorTime.normal.sec
  have ht := tj.normal.sec
  have hsec : |motorTime.time.tv_sec - tj.time.tv_sec| < abi.modulus / 2 := by
    simp only [Abi.InLong] at hm ht
    rw [abs_lt]
    constructor <;> omega
  obtain ⟨t, negative, hdiff, hnormal, hvalue, hnegative⟩ :=
    (isDiff_iff motorTime.normal tj.normal).mpr hsec
  have hnsec0 := hnormal.nonneg
  have hnsec1 := hnormal.lt
  have hone : diskMotorQuietNsecs = 1 := rfl
  rw [motorIsQuiet, hdiff]
  refine ⟨_, rfl, ?_⟩
  rw [Bool.or_eq_true, decide_eq_true_eq, decide_eq_true_eq, hone, Fresh, Clock.nanoseconds,
    Clock.nanoseconds]
  simp only [Timespec.nanoseconds, nanosecondsPerSecond] at *
  cases negative with
  | true =>
    have hlt := hnegative.mp rfl
    rw [if_pos rfl]
    omega
  | false =>
    have hle := mt hnegative.mpr Bool.false_ne_true
    rw [abs_of_nonpos (by omega)] at hvalue
    rw [if_neg Bool.false_ne_true]
    omega

/-- What the thread keeps of the motor. -/
structure Tracks (motor : Motor abi) (thread : Thread abi) : Prop where
  time : thread.motorTime = motor.lastAccess
  off : thread.motorOff = motor.offSince.isSome

variable {motor : Motor abi} {thread thread' : Thread abi} {event : Event abi}

theorem tracks_start (speeds : Speeds) :
    Tracks (Motor.start : Motor abi) (.start speeds) := ⟨rfl, rfl⟩

/-- What a test for full speed does. -/
theorem speedUp_cases (h : Tracks motor thread) (tj : Clock abi) (around : Around) :
    ∃ thread', thread.speedUp tj around = .ok thread' ∧ thread'.motorTime = thread.motorTime ∧
      thread'.motorOff = thread.motorOff ∧
      (thread.speeds.isFullspeed = false → (thread'.speeds.isFullspeed = true ↔
        thread.speeds.shouldAutoAdjustSpeed = true ∧ around.speakerIsActive = false ∧
          around.videoIsDirty = false ∧ around.fileName = true ∧ motor.offSince = none ∧
          ¬ Fresh motor.lastAccess tj)) := by
  obtain ⟨quiet, hquiet, hfresh⟩ := motorIsQuiet_eq thread.motorTime tj
  rw [h.time] at hfresh
  have hfull : (thread.speeds.initializeScale (.finite cpuScaleFastest)).isFullspeed = true :=
    decide_eq_true (by norm_num [cpuScaleFastest, cpuScaleFastestPivot])
  have hoff : thread.motorOff = false ↔ motor.offSince = none := by
    rw [h.off, Option.isSome_eq_false_iff, Option.isNone_iff_eq_none]
  unfold Thread.speedUp
  cases hauto : thread.speeds.shouldAutoAdjustSpeed with
  | false =>
    refine ⟨thread, rfl, rfl, rfl, fun hslow => ?_⟩
    exact iff_of_false (by rw [hslow]; exact Bool.false_ne_true) fun hh => absurd hh.1 nofun
  | true =>
  cases hspeed : thread.speeds.isFullspeed with
  | true => exact ⟨thread, rfl, rfl, rfl, nofun⟩
  | false =>
    simp only [Bool.not_false, Bool.and_self, if_true, hquiet]
    split
    · rename_i hall
      simp only [Bool.and_eq_true, Bool.not_eq_true'] at hall
      obtain ⟨⟨⟨⟨hspeaker, hvideo⟩, hfile⟩, hmotor⟩, hq⟩ := hall
      exact ⟨_, rfl, rfl, rfl, fun _ => iff_of_true hfull
        ⟨trivial, hspeaker, hvideo, hfile, hoff.mp hmotor, hfresh.mp hq⟩⟩
    · rename_i hnot
      refine ⟨thread, rfl, rfl, rfl, fun _ => iff_of_false (by rw [hspeed]; exact nofun) ?_⟩
      rintro ⟨-, hspeaker, hvideo, hfile, hmotor, hold⟩
      apply hnot
      rw [hspeaker, hvideo, hfile, hoff.mpr hmotor, hfresh.mpr hold]
      rfl

/-- What a test for the normal speed does. -/
theorem slowDown_cases (h : Tracks motor thread) (tj : Clock abi) (around : Around) :
    ∃ thread', thread.slowDown tj around = .ok thread' ∧ thread'.motorTime = thread.motorTime ∧
      thread'.motorOff = thread.motorOff ∧
      (thread.speeds.isFullspeed = true → around.speakerIsActive = false →
        around.videoIsDirty = false → (thread'.speeds.isFullspeed = false ↔
          thread.speeds.shouldAutoAdjustSpeed = true ∧ motor.offSince ≠ none ∧
            ¬ Fresh motor.lastAccess tj)) := by
  obtain ⟨quiet, hquiet, hfresh⟩ := motorIsQuiet_eq thread.motorTime tj
  rw [h.time] at hfresh
  have hoff : thread.motorOff = true ↔ motor.offSince ≠ none := by
    rw [h.off, Option.isSome_iff_ne_none]
  unfold Thread.slowDown
  cases hauto : thread.speeds.shouldAutoAdjustSpeed with
  | false =>
    refine ⟨thread, rfl, rfl, rfl, fun hfull _ _ => ?_⟩
    exact iff_of_false (by rw [hfull]; exact nofun) fun hh => absurd hh.1 nofun
  | true =>
  have hspeed : thread.speeds.speed.atMost cpuScaleFastestPivot = true := by
    rw [Speeds.shouldAutoAdjustSpeed, Bool.and_eq_true] at hauto
    exact hauto.2
  have hslow : thread.speeds.timingInitialize.isFullspeed = false := Floating.above_atMost hspeed
  cases hfull : thread.speeds.isFullspeed with
  | false => exact ⟨thread, rfl, rfl, rfl, nofun⟩
  | true =>
    simp only [Bool.and_self, if_true, hquiet, hspeed]
    split
    · rename_i hany
      refine ⟨_, rfl, rfl, rfl, fun _ hspeaker hvideo => ?_⟩
      rw [hspeaker, hvideo, Bool.false_or, Bool.false_or, Bool.and_eq_true] at hany
      exact iff_of_true hslow ⟨trivial, hoff.mp hany.1, hfresh.mp hany.2⟩
    · rename_i hnot
      refine ⟨thread, rfl, rfl, rfl, fun _ hspeaker hvideo => ?_⟩
      refine iff_of_false (by rw [hfull]; exact nofun) ?_
      rintro ⟨-, hmotor, hold⟩
      apply hnot
      rw [hoff.mpr hmotor, hfresh.mpr hold, Bool.and_self, Bool.or_true]

/-- A step goes through, and the thread keeps track of the motor. -/
theorem step_tracks (h : Tracks motor thread) (event : Event abi) :
    ∃ thread', thread.step event = .ok thread' ∧ Tracks (motor.note event) thread' := by
  cases event with
  | motorControl ea now =>
    refine ⟨_, rfl, rfl, ?_⟩
    simp only [Thread.motorControl, Motor.note]
    split
    · rename_i hoff
      exact decide_eq_true hoff
    · rename_i hon
      exact decide_eq_false hon
  | speedUp tj around =>
    obtain ⟨thread', hstep, htime, hoff, -⟩ := speedUp_cases h tj around
    exact ⟨thread', hstep, htime.trans h.time, hoff.trans h.off⟩
  | slowDown tj around =>
    obtain ⟨thread', hstep, htime, hoff, -⟩ := slowDown_cases h tj around
    exact ⟨thread', hstep, htime.trans h.time, hoff.trans h.off⟩
  | set speeds => exact ⟨_, rfl, h.time, h.off⟩

/-- A step waits for the motor exactly when it is clear of the time behind an access. -/
theorem waits_iff (h : Tracks motor thread) (hstep : thread.step event = .ok thread') :
    Waits motor thread thread' event ↔ Clear motor thread event := by
  cases event with
  | motorControl ea now => exact Iff.rfl
  | set speeds => exact Iff.rfl
  | speedUp tj around =>
    obtain ⟨t, ht, -, -, hup⟩ := speedUp_cases h tj around
    obtain rfl : thread' = t := Except.ok.inj (hstep.symm.trans ht)
    constructor
    · intro hwaits hauto hslow hspeaker hvideo hfile hmotor
      by_cases hfresh : Fresh motor.lastAccess tj
      · exact Or.inl hfresh
      · exact Or.inr (hwaits hslow
          ((hup hslow).mpr ⟨hauto, hspeaker, hvideo, hfile, hmotor, hfresh⟩))
    · intro hclear hslow hfull
      obtain ⟨hauto, hspeaker, hvideo, hfile, hmotor, hnot⟩ := (hup hslow).mp hfull
      exact (hclear hauto hslow hspeaker hvideo hfile hmotor).resolve_left hnot
  | slowDown tj around =>
    obtain ⟨t, ht, -, -, hdown⟩ := slowDown_cases h tj around
    obtain rfl : thread' = t := Except.ok.inj (hstep.symm.trans ht)
    constructor
    · intro hwaits hauto hfull hspeaker hvideo since hsince
      by_cases hfresh : Fresh motor.lastAccess tj
      · exact Or.inl hfresh
      · have hslow := (hdown hfull hspeaker hvideo).mpr
          ⟨hauto, by rw [hsince]; exact nofun, hfresh⟩
        obtain ⟨since', hsince', hold⟩ := hwaits hfull hslow hspeaker hvideo
        obtain rfl : since' = since := Option.some.inj (hsince'.symm.trans hsince)
        exact Or.inr hold
    · intro hclear hfull hslow hspeaker hvideo
      obtain ⟨hauto, hmotor, hnot⟩ := (hdown hfull hspeaker hvideo).mp hslow
      obtain ⟨since, hsince⟩ := Option.ne_none_iff_exists'.mp hmotor
      exact ⟨since, hsince, (hclear hauto hfull hspeaker hvideo since hsince).resolve_left hnot⟩

/-! ## Runs -/

theorem run_tracks (h : Tracks motor thread) (events : List (Event abi)) :
    ∃ thread', runM Thread.step thread events = .ok thread' ∧
      Tracks (events.foldl Motor.note motor) thread' := by
  induction events generalizing motor thread with
  | nil => exact ⟨thread, rfl, h⟩
  | cons event events ih =>
    obtain ⟨next, hnext, htracks⟩ := step_tracks h event
    obtain ⟨thread', hrun, hlast⟩ := ih htracks
    exact ⟨thread', by rw [runM_cons_ok _ hnext, hrun], hlast⟩

/-- Every step of a run stands in a relation with the events before it, and the states around it. -/
def EachStep (thread : Thread abi) (events : List (Event abi))
    (relation : Motor abi → Thread abi → Thread abi → Event abi → Prop) : Prop :=
  ∀ before event after found left, events = before ++ event :: after →
    runM Thread.step thread before = .ok found → found.step event = .ok left →
    relation (.after before) found left event

end Thread

/-- **Switching of the speed.** Every run of motor accesses and iterations goes through, and its
steps wait for the motor exactly when they are clear of the time behind an access. -/
theorem switching_waits (abi : Abi) (speeds : Speeds) (events : List (Event abi)) :
    (∃ thread, runM Thread.step (.start speeds) events = .ok thread) ∧
      (EachStep (.start speeds) events Waits ↔
        EachStep (.start speeds) events fun motor found _ event => Clear motor found event) := by
  refine ⟨?_, ?_⟩
  · obtain ⟨thread, hrun, -⟩ := run_tracks (tracks_start speeds) events
    exact ⟨thread, hrun⟩
  have hiff : ∀ (before : List (Event abi)) event found left,
      runM Thread.step (.start speeds) before = .ok found → found.step event = .ok left →
        (Waits (.after before) found left event ↔ Clear (.after before) found event) := by
    intro before event found left hbefore hstep
    obtain ⟨thread, hrun, htracks⟩ := run_tracks (tracks_start speeds) before
    obtain rfl : thread = found := Except.ok.inj (hrun.symm.trans hbefore)
    exact waits_iff htracks hstep
  constructor
  · intro h before event after found left heq hbefore hstep
    exact (hiff before event found left hbefore hstep).mp
      (h before event after found left heq hbefore hstep)
  · intro h before event after found left heq hbefore hstep
    exact (hiff before event found left hbefore hstep).mpr
      (h before event after found left heq hbefore hstep)

/-- The point of time `n` nanoseconds behind the start. -/
def early (n : ℕ) : Clock .lp64 where
  time := ⟨0, n % 1000000000⟩
  normal := ⟨(Clock.zero .lp64).normal.sec, by change 0 ≤ (n : ℤ) % 1000000000; omega,
    by change (n : ℤ) % 1000000000 < 1000000000; omega⟩
  nonneg := le_refl 0

/-- The speed of a machine as it starts. -/
def normalSpeed : Speeds :=
  ⟨true, false, false, .finite 1, .finite 1, .finite clk6502⟩

/-- A disk in the drive, and nothing on the speaker or the screen. -/
def loading : Around := ⟨false, false, true⟩

/-- The motor goes on, and the thread to full speed a microsecond later. -/
theorem switches_at_once : ¬ ∀ events : List (Event .lp64),
    EachStep (.start normalSpeed) events Waits := by
  intro h
  obtain ⟨found, hfound, htracks⟩ :=
    run_tracks (tracks_start normalSpeed) [Event.motorControl 0xC0E9 (early 0)]
  obtain ⟨left, hleft, -⟩ := step_tracks htracks (.speedUp (early 1000) loading)
  have hwaits := h [.motorControl 0xC0E9 (early 0), .speedUp (early 1000) loading]
    [.motorControl 0xC0E9 (early 0)] _ [] found left rfl hfound hleft
  obtain rfl : (Thread.start normalSpeed).motorControl 0xC0E9 (early 0) = found :=
    Except.ok.inj hfound
  have hauto : normalSpeed.shouldAutoAdjustSpeed = true := by
    have hle : (1 : ℚ) ≤ cpuScaleFastestPivot := by norm_num [cpuScaleFastestPivot]
    exact decide_eq_true hle
  have hclear : Fresh (early 0) (early 1000) ∨ Old (early 0) (early 1000) :=
    (waits_iff htracks hleft).mp hwaits hauto rfl rfl rfl rfl (by decide)
  revert hclear
  unfold Fresh Old
  decide

end Apple2ix.Timing
