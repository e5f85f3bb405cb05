import Mathlib.Data.Nat.Bitwise
import Mathlib.Tactic.Ring
import Apple2ix.Audio.MockingboardTimers
import Apple2ix.Foundations.Potential

/-! Timer 1 of a 6522 in batches: what `MB_UpdateCycles` makes of cycles that are split between
calls, against what it makes of them one at a time. -/
namespace Apple2ix.Mockingboard
open Runs
set_option autoImplicit false

/-! ## A running timer -/

/-- `bTimer1Underflow`: bit 15 of the counter is set by the batch. -/
def underflows (counter nClocks : UInt16) : Bool :=
  counter &&& 0x8000 = 0 && (counter - nClocks) &&& 0x8000 ≠ 0

/-- How often timer 1 was raised, its counter, and the interrupt flags of its 6522. -/
structure Timer1 where
  raised : ℕ
  counter : UInt16
  ifr : UInt8
  deriving DecidableEq, Repr

/-- The interrupt flags with the one of timer 1, and bit 7 to fit. -/
def raisedFlags (ier ifr : UInt8) : UInt8 :=
  let ifr := (ifr ||| ixrTimer1) &&& 0x7F
  if ifr &&& ier &&& 0x7F ≠ 0 then ifr ||| 0x80 else ifr

/-- A batch of cycles, of a timer in free-running mode that is the one that runs. -/
def Timer1.advance (latch : UInt16) (ier : UInt8) (timer : Timer1) (n : ℕ) : Timer1 :=
  if underflows timer.counter (UInt16.ofNat n) then
    ⟨timer.raised + 1, latch, raisedFlags ier timer.ifr⟩
  else { timer with counter := timer.counter - UInt16.ofNat n }

/-- A call that ends before the counter passes zero, or just when it does. -/
def Aligned (counter : UInt16) (n : ℕ) : Prop :=
  n ≤ counter.toNat ∨ n = counter.toNat + 1 ∧ counter.toNat < 0x8000

/-- Calls that are aligned one after the other: the counter counts down, and starts over from the
latch. -/
def Batches (latch : UInt16) : UInt16 → List ℕ → Prop
  | _, [] => True
  | counter, n :: ns =>
    n ≤ counter.toNat ∧ Batches latch (counter - UInt16.ofNat n) ns ∨
      n = counter.toNat + 1 ∧ counter.toNat < 0x8000 ∧ Batches latch latch ns

section Timer
variable {latch : UInt16} {ier : UInt8} {timer : Timer1} {n : ℕ}

theorem bit15 (w : UInt16) : w &&& 0x8000 = 0 ↔ w.toNat < 0x8000 := by
  have hbit : w.toNat.testBit 15 = decide (w.toNat / 2 ^ 15 % 2 = 1) :=
    Nat.testBit_eq_decide_div_mod_eq
  have hand : (w &&& 0x8000).toNat = (w.toNat.testBit 15).toNat * 2 ^ 15 := by
    rw [UInt16.toNat_and]
    exact Nat.and_two_pow w.toNat 15
  have hlt := w.toNat_lt
  rw [← UInt16.toNat_inj, hand, hbit]
  by_cases h : w.toNat / 2 ^ 15 % 2 = 1
  · rw [decide_eq_true h]
    refine iff_of_false (by decide) ?_
    omega
  · rw [decide_eq_false h]
    refine iff_of_true (by decide) ?_
    omega

theorem toNat_sub_ofNat (c : UInt16) (n : ℕ) :
    (c - UInt16.ofNat n).toNat = (c.toNat + (0x10000 - n % 0x10000)) % 0x10000 := by
  rw [UInt16.toNat_sub, UInt16.toNat_ofNat']
  congr 1
  have : n % 2 ^ 16 < 2 ^ 16 := Nat.mod_lt _ (by decide)
  omega

theorem underflows_iff (c : UInt16) (n : ℕ) : underflows c (UInt16.ofNat n) = true ↔
    c.toNat < 0x8000 ∧ c.toNat < n % 0x10000 ∧ n % 0x10000 ≤ c.toNat + 0x8000 := by
  rw [underflows, Bool.and_eq_true, decide_eq_true_eq, decide_eq_true_eq, ne_eq, bit15, bit15,
    toNat_sub_ofNat]
  omega

/-- What a timer has come through: a period for each time it was raised, less what is left. -/
def Timer1.progress (latch : UInt16) (timer : Timer1) : ℤ :=
  timer.raised * (latch.toNat + 1) - timer.counter.toNat

/-- A batch never comes further than its cycles, and comes that far only if it is aligned. -/
theorem progress_advance (timer : Timer1) (n : ℕ) :
    (timer.advance latch ier n).progress latch ≤ timer.progress latch + n ∧
      ((timer.advance latch ier n).progress latch = timer.progress latch + n ↔
        Aligned timer.counter n) := by
  have hc := timer.counter.toNat_lt
  unfold Timer1.advance Timer1.progress Aligned
  by_cases h : underflows timer.counter (UInt16.ofNat n) = true
  · rw [if_pos h]
    rw [underflows_iff] at h
    have hperiod : ((timer.raised + 1 : ℕ) : ℤ) * (latch.toNat + 1) =
        timer.raised * (latch.toNat + 1) + latch.toNat + 1 := by
      push_cast
      ring
    simp only [hperiod]
    omega
  · rw [if_neg h]
    rw [underflows_iff] at h
    simp only [toNat_sub_ofNat]
    omega

theorem alongPure_aligned (latch : UInt16) (ier : UInt8) (timer : Timer1) (ns : List ℕ) :
    AlongPure (Timer1.advance latch ier) (fun timer n => Aligned timer.counter n) timer ns ↔
      Batches latch timer.counter ns := by
  induction ns generalizing timer with
  | nil => exact Iff.rfl
  | cons n ns ih =>
    rw [AlongPure, ih, Batches, Aligned, Timer1.advance]
    have hc := timer.counter.toNat_lt
    by_cases h : underflows timer.counter (UInt16.ofNat n) = true
    · rw [if_pos h]
      rw [underflows_iff] at h
      constructor
      · rintro ⟨hle | ⟨hn, hlt⟩, hrest⟩
        · omega
        · exact Or.inr ⟨hn, hlt, hrest⟩
      · rintro (⟨hle, hrest⟩ | ⟨hn, hlt, hrest⟩)
        · omega
        · exact ⟨Or.inr ⟨hn, hlt⟩, hrest⟩
    · rw [if_neg h]
      rw [underflows_iff] at h
      constructor
      · rintro ⟨hle | ⟨hn, hlt⟩, hrest⟩
        · exact Or.inl ⟨hle, hrest⟩
        · omega
      · rintro (⟨hle, hrest⟩ | ⟨hn, hlt, hrest⟩)
        · exact ⟨Or.inl hle, hrest⟩
        · omega

theorem aligned_one (counter : UInt16) : Aligned counter 1 := by
  unfold Aligned
  omega

/-- A batch that ends before the counter passes zero does what its cycles do. -/
theorem advance_before (hn : n ≤ timer.counter.toNat) :
    (List.replicate n 1).foldl (Timer1.advance latch ier) timer =
      { timer with counter := timer.counter - UInt16.ofNat n } := by
  induction n with
  | zero =>
    have hzero : timer.counter - UInt16.ofNat 0 = timer.counter := UInt16.sub_zero _
    rw [List.replicate_zero, List.foldl_nil, hzero]
  | succ n ih =>
    rw [List.replicate_succ', List.foldl_append, ih (by omega), List.foldl_cons, List.foldl_nil,
      Timer1.advance]
    have hc := timer.counter.toNat_lt
    have hnot : ¬ underflows (timer.counter - UInt16.ofNat n) (UInt16.ofNat 1) = true := by
      rw [underflows_iff, toNat_sub_ofNat]
      omega
    rw [if_neg hnot]
    congr 1
    rw [UInt16.ofNat_add, UInt16.sub_eq_add_neg, UInt16.sub_eq_add_neg, UInt16.sub_eq_add_neg,
      UInt16.neg_add, UInt16.add_assoc, UInt16.sub_eq_add_neg]

/-- **Aligned batches.** An aligned batch does what its cycles do one at a time. -/
theorem advance_aligned (h : Aligned timer.counter n) :
    timer.advance latch ier n = (List.replicate n 1).foldl (Timer1.advance latch ier) timer := by
  have hc := timer.counter.toNat_lt
  obtain hle | ⟨rfl, hlt⟩ := h
  · have hnot : ¬ underflows timer.counter (UInt16.ofNat n) = true := by
      rw [underflows_iff]
      omega
    rw [advance_before hle, Timer1.advance, if_neg hnot]
  · have hall : underflows timer.counter (UInt16.ofNat (timer.counter.toNat + 1)) = true := by
      rw [underflows_iff]
      omega
    have hlast : underflows (timer.counter - UInt16.ofNat timer.counter.toNat) (UInt16.ofNat 1) =
        true := by
      rw [underflows_iff, toNat_sub_ofNat]
      omega
    rw [List.replicate_succ', List.foldl_append, advance_before le_rfl, List.foldl_cons,
      List.foldl_nil, Timer1.advance, if_pos hall, Timer1.advance, if_pos hlast]

theorem advance_all_aligned {ns : List ℕ}
    (h : AlongPure (Timer1.advance latch ier) (fun timer n => Aligned timer.counter n) timer ns) :
    ns.foldl (Timer1.advance latch ier) timer =
      (List.replicate ns.sum 1).foldl (Timer1.advance latch ier) timer := by
  induction ns generalizing timer with
  | nil => rfl
  | cons n ns ih =>
    rw [List.foldl_cons, ih h.2, List.sum_cons, List.replicate_add, List.foldl_append,
      ← advance_aligned h.1]

theorem sum_cast (ns : List ℕ) : (ns.map Nat.cast).sum = (ns.sum : ℤ) := by
  induction ns with
  | nil => rfl
  | cons n ns ih => rw [List.map_cons, List.sum_cons, List.sum_cons, ih, Nat.cast_add]

theorem sum_ones (n : ℕ) : (List.replicate n 1).sum = n := by
  induction n with
  | zero => rfl
  | succ n ih => rw [List.replicate_succ, List.sum_cons, ih, Nat.add_comm]

theorem progress_run (latch : UInt16) (ier : UInt8) (timer : Timer1) (ns : List ℕ) :
    (ns.foldl (Timer1.advance latch ier) timer).progress latch = timer.progress latch + ns.sum ↔
      AlongPure (Timer1.advance latch ier) (fun timer n => Aligned timer.counter n) timer ns := by
  rw [← sum_cast]
  refine (foldl_potential (Timer1.progress latch) Nat.cast
    (fun timer n => (progress_advance timer n).1) timer ns).2.trans ?_
  exact alongPure_congr (fun timer n => (progress_advance timer n).2) timer ns

theorem aligned_ones (latch : UInt16) (ier : UInt8) (timer : Timer1) (n : ℕ) :
    AlongPure (Timer1.advance latch ier) (fun timer n => Aligned timer.counter n) timer
      (List.replicate n 1) := by
  induction n generalizing timer with
  | zero => trivial
  | succ n ih => exact ⟨aligned_one timer.counter, ih _⟩

/-- **Batches of a running timer.** They come to the same as their cycles exactly when they are
aligned. -/
theorem batches_iff (latch : UInt16) (ier : UInt8) (timer : Timer1) (ns : List ℕ) :
    ns.foldl (Timer1.advance latch ier) timer =
        (List.replicate ns.sum 1).foldl (Timer1.advance latch ier) timer ↔
      Batches latch timer.counter ns := by
  rw [← alongPure_aligned latch ier]
  constructor
  · intro heq
    have hones := (progress_run latch ier timer (List.replicate ns.sum 1)).mpr
      (aligned_ones latch ier timer ns.sum)
    refine (progress_run latch ier timer ns).mp ?_
    rw [heq, hones, sum_ones]
  · exact advance_all_aligned

end Timer

/-! ## The calls -/

/-- Timer 1 of unit `i` is the one that runs. -/
def Timed (card : Card) (i : ℕ) : Prop :=
  card.soundcardType ≠ .empty ∧ card.nMBTimerDevice = some i ∧ card.bMBTimerIrqActive = true

instance (card : Card) (i : ℕ) : Decidable (Timed card i) := inferInstanceAs (Decidable (_ ∧ _))

/-- The condition under which a pass of `MB_UpdateCycles` raises timer 1 of unit `i`. -/
def raises (nClocks : UInt16) (card : Card) (i : ℕ) : Bool :=
  underflows (card.regs i).timer1Counter nClocks && card.nMBTimerDevice = some i &&
    card.bMBTimerIrqActive

/-- How often a call of `MB_UpdateCycles` raises timer 1 of unit `i`. -/
def raisedBy (host : Host) (card : Card) (cycles i : ℕ) : ℕ :=
  if card.soundcardType = .empty then 0
  else
    let nClocks := UInt16.ofNat cycles - UInt16.ofNat card.uLastCumulativeCycles
    let card := { card with uLastCumulativeCycles := cycles }
    if nClocks = 0 then 0
    else (raises nClocks ((List.range i).foldl (tick host nClocks) card) i).toNat

/-- The call that finds `n` cycles passed since the one before it. -/
def updateBy (host : Host) (card : Card) (n : ℕ) : Card :=
  mbUpdateCycles host card (card.uLastCumulativeCycles + n)

/-- What calls that find so many cycles passed make of timer 1 of unit `i`. -/
def timer1After (host : Host) (i : ℕ) : ℕ → Card → List ℕ → Timer1
  | raised, card, [] => ⟨raised, (card.regs i).timer1Counter, (card.regs i).ifr⟩
  | raised, card, n :: ns =>
    timer1After host i (raised + raisedBy host card (card.uLastCumulativeCycles + n) i)
      (updateBy host card n) ns

/-- The counters of a pass, before anything is raised. -/
def counted (nClocks : UInt16) (card : Card) (i : ℕ) : Card :=
  card.setRegs i { card.regs i with
    timer1Counter := (card.regs i).timer1Counter - nClocks
    timer2Counter := (card.regs i).timer2Counter - nClocks }

/-- The interrupt of timer 1. -/
def flag (card : Card) (i : ℕ) : Card :=
  updateIFR (card.setRegs i { card.regs i with ifr := (card.regs i).ifr ||| ixrTimer1 }) i

/-- What becomes of a timer 1 that was raised: it is stopped, or starts over from its latch. -/
def rearm (card : Card) (i : ℕ) : Card :=
  if (card.regs i).acr &&& runmode = 0 then stopTimer card i
  else startTimer (card.setRegs i { card.regs i with timer1Counter := (card.regs i).timer1Latch }) i

/-- What a pass leaves alone about unit `i`. -/
structure Kept (i : ℕ) (card card' : Card) : Prop where
  type : card'.soundcardType = card.soundcardType
  number : ∀ j, (card'.mb j).nAY8910Number = (card.mb j).nAY8910Number
  latch : (card'.regs i).timer1Latch = (card.regs i).timer1Latch
  acr : (card'.regs i).acr = (card.regs i).acr
  ier : (card'.regs i).ier = (card.regs i).ier
  timed : Timed card' i ↔ Timed card i

section Calls
variable {host : Host} {card card' card'' : Card} {nClocks : UInt16} {i j : ℕ}

theorem Kept.refl (card : Card) : Kept i card card :=
  ⟨rfl, fun _ => rfl, rfl, rfl, rfl, Iff.rfl⟩

theorem Kept.trans (h : Kept i card card') (h' : Kept i card' card'') : Kept i card card'' :=
  ⟨h'.type.trans h.type, fun j => (h'.number j).trans (h.number j), h'.latch.trans h.latch,
    h'.acr.trans h.acr, h'.ier.trans h.ier, h'.timed.trans h.timed⟩

theorem regs_counted (nClocks : UInt16) (card : Card) (i : ℕ) : (counted nClocks card i).regs i =
    { card.regs i with
      timer1Counter := (card.regs i).timer1Counter - nClocks
      timer2Counter := (card.regs i).timer2Counter - nClocks } := by
  rw [counted, regs_setRegs, if_pos rfl]

/-- What a pass does. -/
theorem tick_cases (host : Host) (nClocks : UInt16) (card : Card) (i : ℕ) :
    raises nClocks card i = true ∧
        tick host nClocks card i = (rearm (flag (counted nClocks card i) i) i).mbUpdate host ∨
      raises nClocks card i = false ∧ (tick host nClocks card i = counted nClocks card i ∨
        (card.regs i).acr &&& runmode = 0 ∧
          tick host nClocks card i = maskIFR (counted nClocks card i) i (~~~ixrTimer1)) := by
  have hregs := regs_counted nClocks card i
  have hacr : ((counted nClocks card i).regs i).acr = (card.regs i).acr := by
    rw [hregs]
  have hraises : raises nClocks card i = ((card.regs i).timer1Counter &&& 0x8000 = 0 &&
      ((counted nClocks card i).regs i).timer1Counter &&& 0x8000 ≠ 0 &&
      (counted nClocks card i).nMBTimerDevice = some i &&
      (counted nClocks card i).bMBTimerIrqActive : Bool) := by
    rw [hregs]
    rfl
  have htick : tick host nClocks card i =
      if raises nClocks card i = true then
        (rearm (flag (counted nClocks card i) i) i).mbUpdate host
      else if ((card.regs i).timer1Counter &&& 0x8000 = 0 &&
          ((counted nClocks card i).regs i).timer1Counter &&& 0x8000 ≠ 0 &&
          !(counted nClocks card i).bMBTimerIrqActive &&
          ((counted nClocks card i).regs i).ifr &&& ixrTimer1 ≠ 0 &&
          ((counted nClocks card i).regs i).acr &&& runmode = 0 : Bool) = true then
        maskIFR (counted nClocks card i) i (~~~ixrTimer1)
      else counted nClocks card i := by
    rw [hraises]
    rfl
  rw [htick]
  cases h : raises nClocks card i with
  | true => exact Or.inl ⟨rfl, if_pos rfl⟩
  | false =>
    refine Or.inr ⟨rfl, ?_⟩
    rw [if_neg Bool.false_ne_true]
    split
    · rename_i halt
      rw [Bool.and_eq_true, decide_eq_true_eq, hacr] at halt
      exact Or.inr ⟨halt.2, rfl⟩
    · exact Or.inl rfl

/-! ## What a pass leaves alone -/

theorem Kept.setRegs (card : Card) (j : ℕ) {r : SY6522} (hlatch : j = i →
    r.timer1Latch = (card.regs i).timer1Latch ∧ r.acr = (card.regs i).acr ∧
      r.ier = (card.regs i).ier) : Kept i card (card.setRegs j r) := by
  have hregs := regs_setRegs card j r i
  refine ⟨rfl, fun k => ?_, ?_, ?_, ?_, Iff.rfl⟩
  · rw [Card.setRegs, mb_setUnit]
    split
    · rename_i hk
      rw [hk]
    · rfl
  all_goals
    rw [hregs]
    split
    · rename_i hij
      obtain ⟨hl, ha, hi⟩ := hlatch hij.symm
      assumption
    · rfl

theorem Kept.updateIFR (card : Card) (j : ℕ) : Kept i card (updateIFR card j) := by
  have h : Kept i card (card.setRegs j (card.regs j).flagged) := by
    refine Kept.setRegs card j ?_
    rintro rfl
    exact ⟨rfl, rfl, rfl⟩
  exact ⟨h.type, h.number, h.latch, h.acr, h.ier, h.timed⟩

theorem Kept.counted (nClocks : UInt16) (card : Card) (j : ℕ) :
    Kept i card (counted nClocks card j) := by
  refine Kept.setRegs card j ?_
  rintro rfl
  exact ⟨rfl, rfl, rfl⟩

theorem Kept.flag (card : Card) (j : ℕ) : Kept i card (flag card j) := by
  refine Kept.trans (Kept.setRegs card j ?_) (Kept.updateIFR _ j)
  rintro rfl
  exact ⟨rfl, rfl, rfl⟩

theorem Kept.mask (card : Card) (j : ℕ) (mask : UInt8) : Kept i card (maskIFR card j mask) := by
  refine Kept.trans (Kept.setRegs card j ?_) (Kept.updateIFR _ j)
  rintro rfl
  exact ⟨rfl, rfl, rfl⟩

/-- A timer that starts over stays the one that runs. -/
theorem Kept.startTimer (hnumber : (card.mb j).nAY8910Number = j)
    (hdevice : card.nMBTimerDevice = some j) (hactive : card.bMBTimerIrqActive = true) :
    Kept i card (startTimer card j) := by
  have hregs := regs_startTimer card j
  have hsame : (Mockingboard.startTimer card j).nMBTimerDevice = card.nMBTimerDevice ∧
      (Mockingboard.startTimer card j).bMBTimerIrqActive = card.bMBTimerIrqActive ∧
      (Mockingboard.startTimer card j).soundcardType = card.soundcardType ∧
      ∀ k, ((Mockingboard.startTimer card j).mb k).nAY8910Number = (card.mb k).nAY8910Number := by
    unfold Mockingboard.startTimer
    simp only []
    split
    · exact ⟨rfl, rfl, rfl, fun _ => rfl⟩
    split
    · exact ⟨rfl, rfl, rfl, fun _ => rfl⟩
    · refine ⟨?_, hactive.symm, rfl, number_setUnit card rfl⟩
      rw [hdevice, hnumber]
  obtain ⟨hdevice', hactive', htype, hnumbers⟩ := hsame
  refine ⟨htype, hnumbers, ?_, ?_, ?_, ?_⟩
  · rw [hregs]
  · rw [hregs]
  · rw [hregs]
  · rw [Timed, Timed, hdevice', hactive', htype]

theorem Kept.stopTimer (hnot : ¬ Timed card i) : Kept i card (stopTimer card j) := by
  have hregs := regs_stopTimer card j
  refine ⟨rfl, number_setUnit card rfl, ?_, ?_, ?_, iff_of_false ?_ hnot⟩
  · rw [hregs]
  · rw [hregs]
  · rw [hregs]
  · rintro ⟨-, hdevice, -⟩
    cases hdevice

theorem Kept.rearm (hnumber : (card.mb j).nAY8910Number = j)
    (hdevice : card.nMBTimerDevice = some j) (hactive : card.bMBTimerIrqActive = true)
    (hfree : (card.regs i).acr &&& runmode ≠ 0) : Kept i card (rearm card j) := by
  unfold Mockingboard.rearm
  split
  · rename_i hshot
    refine Kept.stopTimer ?_
    rintro ⟨-, hi, -⟩
    have hij : j = i := Option.some.inj (hdevice.symm.trans hi)
    rw [hij] at hshot
    exact hfree hshot
  · have hset : Kept i card
        (card.setRegs j { card.regs j with timer1Counter := (card.regs j).timer1Latch }) := by
      refine Kept.setRegs card j ?_
      rintro rfl
      exact ⟨rfl, rfl, rfl⟩
    refine hset.trans (Kept.startTimer ?_ hdevice hactive)
    exact (hset.number j).trans hnumber

theorem Kept.tick (hnumber : (card.mb j).nAY8910Number = j)
    (hfree : (card.regs i).acr &&& runmode ≠ 0) : Kept i card (tick host nClocks card j) := by
  obtain ⟨hraises, h⟩ | ⟨-, h | ⟨-, h⟩⟩ := tick_cases host nClocks card j
  · rw [h]
    rw [raises, Bool.and_eq_true, Bool.and_eq_true, decide_eq_true_eq] at hraises
    obtain ⟨⟨-, hdevice⟩, hactive⟩ := hraises
    have hflag : Kept i card (Mockingboard.flag (Mockingboard.counted nClocks card j) j) :=
      (Kept.counted nClocks card j).trans (Kept.flag _ j)
    have hrearm := hflag.trans (Kept.rearm ((hflag.number j).trans hnumber) hdevice hactive
      (by rw [hflag.acr]; exact hfree))
    exact ⟨hrearm.type, hrearm.number, hrearm.latch, hrearm.acr, hrearm.ier, hrearm.timed⟩
  · rw [h]
    exact Kept.counted nClocks card j
  · rw [h]
    exact (Kept.counted nClocks card j).trans (Kept.mask _ j _)

/-! ## What a pass does to its own unit -/

theorem regs_updateIFR (card : Card) (j i : ℕ) :
    (updateIFR card j).regs i = if i = j then (card.regs j).flagged else card.regs i :=
  regs_setRegs card j _ i

theorem regs_flag (card : Card) (i : ℕ) : (flag card i).regs i =
    { card.regs i with ifr := raisedFlags (card.regs i).ier (card.regs i).ifr } := by
  rw [flag, regs_updateIFR, if_pos rfl, regs_setRegs, if_pos rfl]
  rfl

theorem regs_rearm (hfree : (card.regs i).acr &&& runmode ≠ 0) :
    (rearm card i).regs i = { card.regs i with timer1Counter := (card.regs i).timer1Latch } := by
  rw [rearm, if_neg hfree, regs_startTimer, regs_setRegs, if_pos rfl]

/-- A pass over another unit. -/
theorem regs_tick_other (hij : i ≠ j) : (tick host nClocks card j).regs i = card.regs i := by
  have hcounted : (counted nClocks card j).regs i = card.regs i := by
    rw [counted, regs_setRegs, if_neg hij]
  obtain ⟨-, h⟩ | ⟨-, h | ⟨-, h⟩⟩ := tick_cases host nClocks card j
  · have hflag : (flag (counted nClocks card j) j).regs i = card.regs i := by
      rw [flag, regs_updateIFR, if_neg hij, regs_setRegs, if_neg hij, hcounted]
    have hrearm : (rearm (flag (counted nClocks card j) j) j).regs i = card.regs i := by
      unfold rearm
      split
      · rw [regs_stopTimer, hflag]
      · rw [regs_startTimer, regs_setRegs, if_neg hij, hflag]
    rw [h]
    exact hrearm
  · rw [h, hcounted]
  · rw [h, maskIFR, regs_updateIFR, if_neg hij, regs_setRegs, if_neg hij, hcounted]

/-- A pass over a unit in free-running mode. -/
theorem tick_own (host : Host) (nClocks : UInt16) (hfree : (card.regs i).acr &&& runmode ≠ 0) :
    ((tick host nClocks card i).regs i).timer1Counter =
        (if raises nClocks card i = true then (card.regs i).timer1Latch
        else (card.regs i).timer1Counter - nClocks) ∧
      ((tick host nClocks card i).regs i).ifr =
        if raises nClocks card i = true then raisedFlags (card.regs i).ier (card.regs i).ifr
        else (card.regs i).ifr := by
  have hcounted := regs_counted nClocks card i
  obtain ⟨hraises, h⟩ | ⟨hraises, h | ⟨hshot, -⟩⟩ := tick_cases host nClocks card i
  · have hflag := regs_flag (counted nClocks card i) i
    rw [hcounted] at hflag
    have hrearm : (rearm (flag (counted nClocks card i) i) i).regs i = _ :=
      regs_rearm (by rw [hflag]; exact hfree)
    rw [hflag] at hrearm
    have hregs : (tick host nClocks card i).regs i =
        (rearm (flag (counted nClocks card i) i) i).regs i := congrArg (fun c => c.regs i) h
    rw [hregs, hrearm, if_pos hraises, if_pos hraises]
    exact ⟨rfl, rfl⟩
  · have hnot : ¬ raises nClocks card i = true := Bool.eq_false_iff.mp hraises
    rw [h, hcounted, if_neg hnot, if_neg hnot]
    exact ⟨rfl, rfl⟩
  · exact absurd hshot hfree

/-! ## A call -/

/-- The numbers that `MB_Initialize` gives to the units. -/
def Numbered (card : Card) : Prop := ∀ j < numSY6522, (card.mb j).nAY8910Number = j

theorem Kept.numbered (h : Kept i card card') (hnumbered : Numbered card) : Numbered card' :=
  fun j hj => (h.number j).trans (hnumbered j hj)

theorem passes_other (host : Host) (nClocks : UInt16) (js : List ℕ) (hnumbered : Numbered card)
    (hfree : (card.regs i).acr &&& runmode ≠ 0) (hjs : ∀ j ∈ js, j < numSY6522 ∧ i ≠ j) :
    Kept i card (js.foldl (tick host nClocks) card) ∧
      (js.foldl (tick host nClocks) card).regs i = card.regs i := by
  induction js generalizing card with
  | nil => exact ⟨Kept.refl card, rfl⟩
  | cons j js ih =>
    obtain ⟨hj, hij⟩ := hjs j (List.mem_cons_self ..)
    have hkept : Kept i card (tick host nClocks card j) := Kept.tick (hnumbered j hj) hfree
    obtain ⟨hrest, hregs⟩ := ih (hkept.numbered hnumbered) (by rw [hkept.acr]; exact hfree)
      fun k hk => hjs k (List.mem_cons_of_mem j hk)
    exact ⟨hkept.trans hrest, hregs.trans (regs_tick_other hij)⟩

theorem passes_split {i : ℕ} (hi : i < numSY6522) :
    List.range numSY6522 = List.range i ++ i :: List.range' (i + 1) (numSY6522 - (i + 1)) := by
  revert i
  decide

/-- The passes of one call. -/
theorem passes (host : Host) (nClocks : UInt16) (hi : i < numSY6522) (hnumbered : Numbered card)
    (hfree : (card.regs i).acr &&& runmode ≠ 0) :
    ∃ found, found = (List.range i).foldl (tick host nClocks) card ∧ Kept i card found ∧
      found.regs i = card.regs i ∧
      Kept i card ((List.range numSY6522).foldl (tick host nClocks) card) ∧
      ((List.range numSY6522).foldl (tick host nClocks) card).regs i =
        (tick host nClocks found i).regs i := by
  have hbefore : ∀ j ∈ List.range i, j < numSY6522 ∧ i ≠ j := by
    intro j hj
    have := List.mem_range.mp hj
    exact ⟨by omega, by omega⟩
  have hafter : ∀ j ∈ List.range' (i + 1) (numSY6522 - (i + 1)), j < numSY6522 ∧ i ≠ j := by
    intro j hj
    have := List.mem_range'_1.mp hj
    exact ⟨by omega, by omega⟩
  obtain ⟨hfound, hregs⟩ := passes_other host nClocks _ hnumbered hfree hbefore
  refine ⟨_, rfl, hfound, hregs, ?_⟩
  have hown : Kept i card (tick host nClocks ((List.range i).foldl (tick host nClocks) card) i) :=
    hfound.trans (Kept.tick (hfound.numbered hnumbered i hi) (by rw [hfound.acr]; exact hfree))
  obtain ⟨hrest, hregs'⟩ := passes_other host nClocks _ (hown.numbered hnumbered)
    (by rw [hown.acr]; exact hfree) hafter
  rw [passes_split hi, List.foldl_append, List.foldl_cons]
  exact ⟨hown.trans hrest, hregs'⟩

/-- The cycles of a call, as a counter of 16 bits takes them. -/
theorem clocks_of (cycles n : ℕ) :
    UInt16.ofNat (cycles + n) - UInt16.ofNat cycles = UInt16.ofNat n := by
  rw [UInt16.ofNat_add, UInt16.add_comm, UInt16.add_sub_cancel]

/-- A counter that does not run only counts down, and not at all where there is no card. -/
def idle (card : Card) (i n : ℕ) : UInt16 :=
  if card.soundcardType = .empty then (card.regs i).timer1Counter
  else (card.regs i).timer1Counter - UInt16.ofNat n

/-- One call, for a unit in free-running mode. -/
theorem updateBy_unit (host : Host) (n raised : ℕ) (hi : i < numSY6522) (hnumbered : Numbered card)
    (hfree : (card.regs i).acr &&& runmode ≠ 0) :
    Kept i card (updateBy host card n) ∧
      (⟨raised + raisedBy host card (card.uLastCumulativeCycles + n) i,
        ((updateBy host card n).regs i).timer1Counter, ((updateBy host card n).regs i).ifr⟩ :
          Timer1) =
        if Timed card i then
          Timer1.advance (card.regs i).timer1Latch (card.regs i).ier
            ⟨raised, (card.regs i).timer1Counter, (card.regs i).ifr⟩ n
        else ⟨raised, idle card i n, (card.regs i).ifr⟩ := by
  unfold updateBy mbUpdateCycles raisedBy idle
  simp only [clocks_of]
  by_cases htype : card.soundcardType = .empty
  · have hnot : ¬ Timed card i := fun h => h.1 htype
    rw [if_pos htype, if_pos htype, if_pos htype, if_neg hnot]
    exact ⟨Kept.refl card, rfl⟩
  rw [if_neg htype, if_neg htype, if_neg htype]
  by_cases hzero : UInt16.ofNat n = 0
  · rw [if_pos hzero, if_pos hzero, Timer1.advance, hzero, UInt16.sub_zero]
    have hnot : ¬ underflows (card.regs i).timer1Counter 0 = true := by
      rw [underflows, UInt16.sub_zero, Bool.and_eq_true, decide_eq_true_eq, decide_eq_true_eq]
      exact fun h => h.2 h.1
    rw [if_neg hnot]
    refine ⟨⟨rfl, fun _ => rfl, rfl, rfl, rfl, Iff.rfl⟩, ?_⟩
    split
    · rfl
    · rfl
  rw [if_neg hzero, if_neg hzero]
  have hcalled : Numbered { card with
      uLastCumulativeCycles := card.uLastCumulativeCycles + n } := hnumbered
  obtain ⟨found, hfound, hbefore, hregs, hkept, hown⟩ :=
    passes host (UInt16.ofNat n) hi hcalled hfree
  refine ⟨⟨hkept.type, hkept.number, hkept.latch, hkept.acr, hkept.ier, hkept.timed⟩, ?_⟩
  have hregs' : found.regs i = card.regs i := hregs
  have htimed : Timed found i ↔ Timed card i := hbefore.timed
  have hfoundFree : (found.regs i).acr &&& runmode ≠ 0 := by
    rw [hregs']
    exact hfree
  obtain ⟨hcounter, hifr⟩ := tick_own host (UInt16.ofNat n) hfoundFree
  rw [← hfound, hown, hcounter, hifr, hregs', raises, hregs', Timer1.advance]
  have hraises : (found.nMBTimerDevice = some i ∧ found.bMBTimerIrqActive = true) ↔
      Timed card i := by
    rw [← htimed, Timed, hbefore.type]
    exact ⟨fun h => ⟨htype, h⟩, And.right⟩
  by_cases h : Timed card i
  · obtain ⟨hdevice, hactive⟩ := hraises.mpr h
    rw [if_pos h, hdevice, hactive]
    cases hunder : underflows (card.regs i).timer1Counter (UInt16.ofNat n) with
    | true => simp
    | false => simp
  · have hnot : (underflows (card.regs i).timer1Counter (UInt16.ofNat n) &&
        found.nMBTimerDevice = some i && found.bMBTimerIrqActive : Bool) = false := by
      rw [Bool.eq_false_iff, ne_eq, Bool.and_eq_true, Bool.and_eq_true, decide_eq_true_eq]
      exact fun hall => h (hraises.mp ⟨hall.1.2, hall.2⟩)
    rw [if_neg h, hnot]
    rfl

/-! ## Runs -/

theorem timer1After_timed (host : Host) (hi : i < numSY6522) (hnumbered : Numbered card)
    (hfree : (card.regs i).acr &&& runmode ≠ 0) (h : Timed card i) (raised : ℕ) (ns : List ℕ) :
    timer1After host i raised card ns =
      ns.foldl (Timer1.advance (card.regs i).timer1Latch (card.regs i).ier)
        ⟨raised, (card.regs i).timer1Counter, (card.regs i).ifr⟩ := by
  induction ns generalizing card raised with
  | nil => rfl
  | cons n ns ih =>
    obtain ⟨hkept, hcall⟩ := updateBy_unit host n raised hi hnumbered hfree
    rw [if_pos h] at hcall
    rw [timer1After, ih (hkept.numbered hnumbered) (by rw [hkept.acr]; exact hfree)
      (hkept.timed.mpr h), hcall, hkept.latch, hkept.ier, List.foldl_cons]

theorem idle_add (h : card'.soundcardType = card.soundcardType) {n : ℕ}
    (hcounter : (card'.regs i).timer1Counter = idle card i n) (m : ℕ) :
    idle card' i m = idle card i (n + m) := by
  unfold idle at hcounter ⊢
  rw [h, hcounter]
  split
  · rfl
  · rw [UInt16.ofNat_add, UInt16.sub_eq_add_neg, UInt16.sub_eq_add_neg, UInt16.sub_eq_add_neg,
      UInt16.neg_add, UInt16.add_assoc, UInt16.sub_eq_add_neg]

theorem timer1After_idle (host : Host) (hi : i < numSY6522) (hnumbered : Numbered card)
    (hfree : (card.regs i).acr &&& runmode ≠ 0) (h : ¬ Timed card i) (raised : ℕ) (ns : List ℕ) :
    timer1After host i raised card ns = ⟨raised, idle card i ns.sum, (card.regs i).ifr⟩ := by
  induction ns generalizing card raised with
  | nil =>
    have hnone : (card.regs i).timer1Counter - UInt16.ofNat 0 = (card.regs i).timer1Counter :=
      UInt16.sub_zero _
    rw [timer1After, List.sum_nil, idle, hnone, ite_self]
  | cons n ns ih =>
    obtain ⟨hkept, hcall⟩ := updateBy_unit host n raised hi hnumbered hfree
    rw [if_neg h] at hcall
    injection hcall with hraised hcounter hifr
    rw [timer1After, ih (hkept.numbered hnumbered) (by rw [hkept.acr]; exact hfree)
      (fun ht => h (hkept.timed.mp ht)), hraised, hifr, List.sum_cons,
      idle_add hkept.type hcounter]

end Calls

/-- **Batches of cycles.** For a 6522 in free-running mode, cycles that are split between calls
raise timer 1 as often, and leave its counter and the interrupt flags as they do one at a time,
exactly when its timer does not run or no call goes further than the cycle in which it is raised. -/
theorem update_batches (host : Host) {card : Card} {i : ℕ} (hi : i < numSY6522)
    (hnumbered : Numbered card) (hfree : (card.regs i).acr &&& runmode ≠ 0) (ns : List ℕ) :
    timer1After host i 0 card ns = timer1After host i 0 card (List.replicate ns.sum 1) ↔
      (Timed card i → Batches (card.regs i).timer1Latch (card.regs i).timer1Counter ns) := by
  by_cases h : Timed card i
  · rw [timer1After_timed host hi hnumbered hfree h, timer1After_timed host hi hnumbered hfree h,
      batches_iff]
    exact (imp_iff_right h).symm
  · rw [timer1After_idle host hi hnumbered hfree h, timer1After_idle host hi hnumbered hfree h,
      sum_ones]
    exact iff_of_true rfl fun ht => absurd ht h

/-- A card whose first 6522 counts from 3, again and again from 5. -/
def countingCard : Card :=
  let card := mbInitialize quietHost (.static .mockingboardC silence 0)
  startTimer (card.setRegs 0
    { card.regs 0 with acr := runmode, ier := ixrTimer1, timer1Counter := 3, timer1Latch := 5 }) 0

theorem countingCard_numbered : Numbered countingCard := by
  unfold Numbered
  decide

theorem update_batches_counting :
    timer1After quietHost 0 0 countingCard [2, 2, 5] =
      timer1After quietHost 0 0 countingCard (List.replicate 9 1) :=
  (update_batches quietHost (by decide) countingCard_numbered (by decide) [2, 2, 5]).mpr
    fun _ => Or.inl ⟨by decide, Or.inr ⟨by decide, by decide, Or.inl ⟨by decide, trivial⟩⟩⟩

/-- A call of six cycles loses the two of them behind the one in which the timer is raised. -/
theorem batch_loses_cycles : ¬ ∀ (card : Card) (i : ℕ) (ns : List ℕ), i < numSY6522 →
    Numbered card → (card.regs i).acr &&& runmode ≠ 0 → Timed card i →
      timer1After quietHost i 0 card ns =
        timer1After quietHost i 0 card (List.replicate ns.sum 1) :=
  fun h => absurd (h countingCard 0 [6] (by decide) countingCard_numbered (by decide) (by decide))
    (by decide)

end Apple2ix.Mockingboard
