import Mathlib.Algebra.Order.Group.Unbundled.Int
import Mathlib.Tactic.Linarith

/-! Points and spans of time in timing.c: `timespec_diff` and `timespec_add`. -/
namespace Apple2ix.Timing
set_option autoImplicit false

/-! ## Integers of the host -/

/-- The width of `long` and `time_t`. -/
inductive Abi
  | lp64
  | ilp32
  deriving DecidableEq, Repr

def Abi.modulus : Abi → ℤ
  | .lp64 => 2 ^ 64
  | .ilp32 => 2 ^ 32

namespace Abi
variable (abi : Abi)

/-- The values of `long`. -/
def InLong (n : ℤ) : Prop := -(abi.modulus / 2) ≤ n ∧ n < abi.modulus / 2

instance (n : ℤ) : Decidable (abi.InLong n) := inferInstanceAs (Decidable (_ ∧ _))

/-- Conversion to `unsigned long`, and to `long`. -/
def toULong (n : ℤ) : ℤ := n % abi.modulus

def toLong (n : ℤ) : ℤ := (n + abi.modulus / 2) % abi.modulus - abi.modulus / 2

/-- Signed arithmetic, which has no value where the result does not fit. -/
def signed (n : ℤ) : Option ℤ := if abi.InLong n then some n else none

end Abi

/-! ## The functions -/

/-- `struct timespec`. -/
structure Timespec where
  tv_sec : ℤ
  tv_nsec : ℤ
  deriving DecidableEq, Repr

def nanosecondsPerSecond : ℤ := 1000000000

/-- `start > end`. -/
def Timespec.Later (start stop : Timespec) : Prop :=
  stop.tv_sec < start.tv_sec ∨ start.tv_sec = stop.tv_sec ∧ stop.tv_nsec < start.tv_nsec

instance (start stop : Timespec) : Decidable (start.Later stop) :=
  inferInstanceAs (Decidable (_ ∨ _))

section Functions
variable (abi : Abi)

/-- `timespec_diff` behind the swap. -/
def timespecSub (start stop : Timespec) : Option Timespec := do
  if stop.tv_nsec < start.tv_nsec then
    let sec ← abi.signed (stop.tv_sec - start.tv_sec)
    let sec ← abi.signed (sec - 1)
    let nsec ← abi.signed (1000000000 + stop.tv_nsec)
    let nsec ← abi.signed (nsec - start.tv_nsec)
    some ⟨sec, nsec⟩
  else
    let sec ← abi.signed (stop.tv_sec - start.tv_sec)
    let nsec ← abi.signed (stop.tv_nsec - start.tv_nsec)
    some ⟨sec, nsec⟩

/-- `timespec_diff`: the difference, and `*negative`. -/
def timespecDiff (start stop : Timespec) : Option (Timespec × Bool) := do
  -- if start > end, swizzle...
  if start.Later stop then
    let t ← timespecSub abi stop start
    some (t, true)
  else
    let t ← timespecSub abi start stop
    some (t, false)

def timespecAdd (start : Timespec) (nsecs : ℤ) : Timespec :=
  let nsec := abi.toLong (start.tv_nsec + nsecs)
  if nanosecondsPerSecond < abi.toULong nsec then
    { tv_sec := abi.toLong (start.tv_sec + abi.toULong nsec / nanosecondsPerSecond)
      tv_nsec := abi.toLong (abi.toULong nsec % nanosecondsPerSecond) }
  else { start with tv_nsec := nsec }

end Functions

/-! ## What they denote -/

def Timespec.nanoseconds (t : Timespec) : ℤ := t.tv_sec * nanosecondsPerSecond + t.tv_nsec

/-- Below one second of nanoseconds. -/
structure Timespec.Normal (abi : Abi) (t : Timespec) : Prop where
  sec : abi.InLong t.tv_sec
  nonneg : 0 ≤ t.tv_nsec
  lt : t.tv_nsec < nanosecondsPerSecond

section Diff
variable {abi : Abi} {a b : Timespec}

theorem Abi.signed_some {n : ℤ} (h : abi.InLong n) : abi.signed n = some n := if_pos h

theorem Abi.signed_none {n : ℤ} (h : ¬ abi.InLong n) : abi.signed n = none := if_neg h

/-- Numbers of nanoseconds fit, and the carry of a second. -/
theorem inLong_nsec (abi : Abi) {n : ℤ} (hlow : -1000000000 ≤ n) (hhigh : n ≤ 2000000000) :
    abi.InLong n := by
  cases abi <;> (simp only [Abi.InLong, Abi.modulus]; omega)

theorem later_iff (ha : a.Normal abi) (hb : b.Normal abi) :
    a.Later b ↔ b.nanoseconds < a.nanoseconds := by
  have := ha.nonneg
  have := ha.lt
  have := hb.nonneg
  have := hb.lt
  simp only [Timespec.Later, Timespec.nanoseconds, nanosecondsPerSecond] at *
  omega

/-- The difference of two points in order. -/
theorem timespecSub_some (ha : a.Normal abi) (hb : b.Normal abi) (horder : ¬ a.Later b)
    (hsec : abi.InLong (b.tv_sec - a.tv_sec)) : ∃ t, timespecSub abi a b = some t ∧ t.Normal abi ∧
      t.nanoseconds = b.nanoseconds - a.nanoseconds := by
  have ha0 := ha.nonneg
  have ha1 := ha.lt
  have hb0 := hb.nonneg
  have hb1 := hb.lt
  simp only [nanosecondsPerSecond] at ha1 hb1
  rw [timespecSub]
  by_cases hborrow : b.tv_nsec < a.tv_nsec
  · have hless : abi.InLong (b.tv_sec - a.tv_sec - 1) := by
      simp only [Abi.InLong, Timespec.Later] at hsec horder ⊢
      cases abi <;> (simp only [Abi.modulus] at *; omega)
    have hcarry : abi.InLong (1000000000 + b.tv_nsec) := inLong_nsec abi (by omega) (by omega)
    have hnsec : abi.InLong (1000000000 + b.tv_nsec - a.tv_nsec) :=
      inLong_nsec abi (by omega) (by omega)
    rw [if_pos hborrow, Abi.signed_some hsec, Option.bind_eq_bind, Option.bind_some,
      Abi.signed_some hless, Option.bind_some, Abi.signed_some hcarry, Option.bind_some,
      Abi.signed_some hnsec]
    refine ⟨_, rfl, ⟨hless, ?_, ?_⟩, ?_⟩
    · change 0 ≤ 1000000000 + b.tv_nsec - a.tv_nsec
      omega
    · change 1000000000 + b.tv_nsec - a.tv_nsec < 1000000000
      omega
    · simp only [Timespec.nanoseconds, nanosecondsPerSecond]
      omega
  · have hnsec : abi.InLong (b.tv_nsec - a.tv_nsec) := inLong_nsec abi (by omega) (by omega)
    rw [if_neg hborrow, Abi.signed_some hsec, Option.bind_eq_bind, Option.bind_some,
      Abi.signed_some hnsec]
    refine ⟨_, rfl, ⟨hsec, ?_, ?_⟩, ?_⟩
    · change 0 ≤ b.tv_nsec - a.tv_nsec
      omega
    · change b.tv_nsec - a.tv_nsec < 1000000000
      omega
    · simp only [Timespec.nanoseconds, nanosecondsPerSecond]
      omega

/-- It is none where the seconds do not fit. -/
theorem timespecSub_none (hsec : ¬ abi.InLong (b.tv_sec - a.tv_sec)) :
    timespecSub abi a b = none := by
  rw [timespecSub, Abi.signed_none hsec]
  split <;> rfl

/-- A difference that is normal, with the distance and the order of the points. -/
def IsDiff (abi : Abi) (a b : Timespec) : Prop :=
  ∃ t negative, timespecDiff abi a b = some (t, negative) ∧ t.Normal abi ∧
    t.nanoseconds = |a.nanoseconds - b.nanoseconds| ∧
    (negative = true ↔ b.nanoseconds < a.nanoseconds)

theorem inLong_abs (n : ℤ) : abi.InLong |n| ↔ |n| < abi.modulus / 2 := by
  have habs := abs_nonneg n
  rw [Abi.InLong, and_iff_right_iff_imp]
  intro _
  cases abi <;> (simp only [Abi.modulus]; omega)

/-- **Differences** are right as long as the seconds between the points fit. -/
theorem isDiff_iff (ha : a.Normal abi) (hb : b.Normal abi) :
    IsDiff abi a b ↔ |a.tv_sec - b.tv_sec| < abi.modulus / 2 := by
  have hlater := later_iff ha hb
  have ha1 := ha.lt
  have hb1 := hb.lt
  have ha0 := ha.nonneg
  have hb0 := hb.nonneg
  simp only [nanosecondsPerSecond] at ha1 hb1
  rw [← inLong_abs, IsDiff, timespecDiff]
  by_cases h : a.Later b
  · have horder : ¬ b.Later a := by
      rw [later_iff hb ha]
      have := hlater.mp h
      omega
    have hsecs : |a.tv_sec - b.tv_sec| = a.tv_sec - b.tv_sec := by
      rw [Timespec.Later] at h
      exact abs_of_nonneg (by omega)
    rw [if_pos h, hsecs]
    by_cases hsec : abi.InLong (a.tv_sec - b.tv_sec)
    · obtain ⟨t, ht, hnormal, hvalue⟩ := timespecSub_some hb ha horder hsec
      rw [ht]
      refine iff_of_true ⟨t, true, rfl, hnormal, ?_, iff_of_true rfl (hlater.mp h)⟩ hsec
      have := hlater.mp h
      rw [hvalue, abs_of_nonneg (by omega)]
    · rw [timespecSub_none hsec]
      exact iff_of_false nofun hsec
  · have hsecs : |a.tv_sec - b.tv_sec| = b.tv_sec - a.tv_sec := by
      rw [Timespec.Later] at h
      rw [abs_sub_comm]
      exact abs_of_nonneg (by omega)
    rw [if_neg h, hsecs]
    by_cases hsec : abi.InLong (b.tv_sec - a.tv_sec)
    · obtain ⟨t, ht, hnormal, hvalue⟩ := timespecSub_some ha hb h hsec
      have hle : ¬ b.nanoseconds < a.nanoseconds := fun hlt => h (hlater.mpr hlt)
      rw [ht]
      refine iff_of_true ⟨t, false, rfl, hnormal, ?_, iff_of_false Bool.false_ne_true hle⟩ hsec
      rw [hvalue, abs_sub_comm, abs_of_nonneg (by omega)]
    · rw [timespecSub_none hsec]
      exact iff_of_false nofun hsec

end Diff

/-! ## Sums -/

section Add
variable {abi : Abi} {a : Timespec} {n : ℤ}

theorem toULong_toLong (abi : Abi) (n : ℤ) : abi.toULong (abi.toLong n) = abi.toULong n := by
  simp only [Abi.toULong, Abi.toLong]
  cases abi <;> (simp only [Abi.modulus]; omega)

theorem toULong_small (abi : Abi) (hn : 0 ≤ n) (h : n < abi.modulus) : abi.toULong n = n :=
  Int.emod_eq_of_lt hn h

theorem toLong_inLong (abi : Abi) (h : abi.InLong n) : abi.toLong n = n := by
  simp only [Abi.InLong, Abi.toLong] at *
  cases abi <;> (simp only [Abi.modulus] at *; omega)

/-- Up to one second of nanoseconds, itself included, nothing is carried. -/
theorem timespecAdd_small (h0 : 0 ≤ a.tv_nsec) (hn : 0 ≤ n) (hle : a.tv_nsec + n ≤ 1000000000) :
    timespecAdd abi a n = ⟨a.tv_sec, a.tv_nsec + n⟩ := by
  have hlong := inLong_nsec abi (n := a.tv_nsec + n) (by omega) (by omega)
  have hfits : a.tv_nsec + n < abi.modulus := by
    cases abi <;> (simp only [Abi.modulus]; omega)
  have hno : ¬ nanosecondsPerSecond < a.tv_nsec + n := by
    rw [nanosecondsPerSecond]
    omega
  rw [timespecAdd, toULong_toLong, toULong_small abi (by omega) hfits, if_neg hno,
    toLong_inLong abi hlong]

theorem timespecAdd_carry (hlt : 1000000000 < a.tv_nsec + n) (hfits : a.tv_nsec + n < abi.modulus)
    (hsec : abi.InLong (a.tv_sec + (a.tv_nsec + n) / 1000000000)) : timespecAdd abi a n =
      ⟨a.tv_sec + (a.tv_nsec + n) / 1000000000, (a.tv_nsec + n) % 1000000000⟩ := by
  have hrest := inLong_nsec abi (n := (a.tv_nsec + n) % 1000000000) (by omega) (by omega)
  rw [timespecAdd, toULong_toLong, toULong_small abi (by omega) hfits, nanosecondsPerSecond,
    if_pos hlt, toLong_inLong abi hsec, toLong_inLong abi hrest]

/-- A normal sum with the value of the operands. -/
def IsSum (abi : Abi) (a : Timespec) (n : ℤ) : Prop :=
  (timespecAdd abi a n).Normal abi ∧ (timespecAdd abi a n).nanoseconds = a.nanoseconds + n

/-- No second is reached exactly, and nothing is too large. -/
structure Adds (abi : Abi) (a : Timespec) (n : ℤ) : Prop where
  inexact : a.tv_nsec + n ≠ 1000000000
  nsec : a.tv_nsec + n < abi.modulus
  sec : abi.InLong (a.tv_sec + (a.tv_nsec + n) / 1000000000)

theorem isSum_of_adds (ha : a.Normal abi) (hn : 0 ≤ n) (h : Adds abi a n) : IsSum abi a n := by
  have h0 := ha.nonneg
  have hne := h.inexact
  rw [IsSum]
  by_cases hle : a.tv_nsec + n ≤ 1000000000
  · rw [timespecAdd_small h0 hn hle]
    refine ⟨⟨ha.sec, ?_, ?_⟩, ?_⟩
    · change 0 ≤ a.tv_nsec + n
      omega
    · change a.tv_nsec + n < 1000000000
      omega
    · simp only [Timespec.nanoseconds]
      omega
  · rw [timespecAdd_carry (by omega) h.nsec h.sec]
    refine ⟨⟨h.sec, ?_, ?_⟩, ?_⟩
    · exact Int.emod_nonneg _ (by decide)
    · exact Int.emod_lt_of_pos _ (by decide)
    · simp only [Timespec.nanoseconds, nanosecondsPerSecond]
      omega

/-- **Sums** are right unless one more nanosecond makes a second, or something does not fit. -/
theorem isSum_iff (ha : a.Normal abi) (hn : 0 ≤ n) (hlong : n < abi.modulus) :
    IsSum abi a n ↔ Adds abi a n := by
  refine ⟨?_, isSum_of_adds ha hn⟩
  obtain ⟨⟨hlow, hhigh⟩, h0, h1⟩ := ha
  rw [IsSum, timespecAdd]
  simp only [toULong_toLong]
  split
  all_goals
    rintro ⟨⟨hsec, hnonneg, hlt⟩, hvalue⟩
    simp only [Abi.InLong, Abi.toULong, Abi.toLong, Timespec.nanoseconds, nanosecondsPerSecond] at *
    have hall : a.tv_nsec + n ≠ 1000000000 ∧ a.tv_nsec + n < abi.modulus ∧
        -(abi.modulus / 2) ≤ a.tv_sec + (a.tv_nsec + n) / 1000000000 ∧
          a.tv_sec + (a.tv_nsec + n) / 1000000000 < abi.modulus / 2 := by
      cases abi <;> (simp only [Abi.modulus] at *; omega)
    exact ⟨hall.1, hall.2.1, hall.2.2⟩

/-- The way back from a sum to its first operand. -/
theorem diff_add (ha : a.Normal abi) (hn : 0 ≤ n) (h : Adds abi a n) :
    ∃ t, timespecDiff abi a (timespecAdd abi a n) = some (t, false) ∧ t.nanoseconds = n := by
  obtain ⟨hnormal, hvalue⟩ := isSum_of_adds ha hn h
  have hsecs : |a.tv_sec - (timespecAdd abi a n).tv_sec| < abi.modulus / 2 := by
    have h0 := ha.nonneg
    have hfits := h.nsec
    rw [abs_lt]
    by_cases hle : a.tv_nsec + n ≤ 1000000000
    · rw [timespecAdd_small h0 hn hle]
      cases abi <;> (simp only [Abi.modulus] at *; omega)
    · rw [timespecAdd_carry (by omega) h.nsec h.sec]
      cases abi <;> (simp only [Abi.modulus] at *; omega)
  obtain ⟨t, negative, ht, -, habs, hnegative⟩ := (isDiff_iff ha hnormal).mpr hsecs
  have hnot : ¬ negative = true := by
    rw [hnegative, hvalue]
    omega
  rw [Bool.not_eq_true] at hnot
  refine ⟨t, by rw [ht, hnot], ?_⟩
  rw [habs, hvalue, abs_sub_comm, abs_of_nonneg (by omega)]
  omega

/-! ## Both -/

/-- Sums and differences are normal and denote what they should, and undo each other. -/
structure TimeArithmetic (abi : Abi) (a b : Timespec) (n : ℤ) : Prop where
  sum : IsSum abi a n
  diff : IsDiff abi a b
  back : ∃ t negative, timespecDiff abi a (timespecAdd abi a n) = some (t, negative) ∧
    t.nanoseconds = n

/-- **Main.** The time arithmetic is right unless a sum of nanoseconds is exactly one second, or a
sum or a difference does not fit. -/
theorem time_arithmetic {b : Timespec} (ha : a.Normal abi) (hb : b.Normal abi) (hn : 0 ≤ n)
    (hlong : n < abi.modulus) : TimeArithmetic abi a b n ↔
      Adds abi a n ∧ |a.tv_sec - b.tv_sec| < abi.modulus / 2 := by
  rw [← isSum_iff ha hn hlong, ← isDiff_iff ha hb]
  constructor
  · exact fun h => ⟨h.sum, h.diff⟩
  · rintro ⟨hsum, hdiff⟩
    obtain ⟨t, ht, hvalue⟩ := diff_add ha hn ((isSum_iff ha hn hlong).mp hsum)
    exact ⟨hsum, hdiff, t, false, ht, hvalue⟩

theorem time_arithmetic_millisecond :
    TimeArithmetic .lp64 ⟨5, 999500000⟩ ⟨7, 250000000⟩ 1000000 := by
  refine (time_arithmetic ⟨by decide, by decide, by decide⟩ ⟨by decide, by decide, by decide⟩
    (by decide) (by decide)).mpr ⟨⟨by decide, by decide, by decide⟩, by decide⟩

/-- One nanosecond after 999999999 is not normal. -/
theorem time_arithmetic_second : ¬ TimeArithmetic .lp64 ⟨0, 999999999⟩ ⟨0, 0⟩ 1 := by
  intro h
  have hlt := h.sum.1.lt
  revert hlt
  decide

end Add

end Apple2ix.Timing
