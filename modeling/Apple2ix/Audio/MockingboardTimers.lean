import Apple2ix.Audio.MockingboardAsserts

/-! The running timer of the Mockingboards: at most one timer 1 runs at a time, and its device has a
status of its own. -/
namespace Apple2ix.Mockingboard
open Runs Loader
set_option autoImplicit false

/-- What holds of the timer and of the numbers of the devices, in every state of a card of one
type. -/
structure TimerInv (k : CardType) (card : Card) : Prop where
  type : card.soundcardType = k
  number : ∀ i < numSY6522, (card.mb i).nAY8910Number = i
  noHs : ∀ i < numSY6522, (card.regs i).oraNoHs = 0
  active : card.bMBTimerIrqActive = true ↔ card.nMBTimerDevice ≠ none
  status : ∀ i, card.nMBTimerDevice = some i → i < numSY6522 ∧ (card.mb i).nTimerStatus ≠ 0

/-- All that it depends on. -/
def timerView (card : Card) : (ℕ → ℕ × UInt8 × UInt8) × Bool × Option ℕ × CardType :=
  (fun i => ((card.mb i).nAY8910Number, (card.regs i).oraNoHs, (card.mb i).nTimerStatus),
    card.bMBTimerIrqActive, card.nMBTimerDevice, card.soundcardType)

section Timer
variable {k : CardType} {host : Host} {card card' : Card} {n : ℕ}

theorem TimerInv.of_view (h : TimerInv k card) (hv : timerView card' = timerView card) :
    TimerInv k card' := by
  have hunit : ∀ i, ((card'.mb i).nAY8910Number, (card'.regs i).oraNoHs,
      (card'.mb i).nTimerStatus) = ((card.mb i).nAY8910Number, (card.regs i).oraNoHs,
      (card.mb i).nTimerStatus) := fun i => congrArg (fun v => v.1 i) hv
  have hactive : card'.bMBTimerIrqActive = card.bMBTimerIrqActive := congrArg (fun v => v.2.1) hv
  have hdevice : card'.nMBTimerDevice = card.nMBTimerDevice := congrArg (fun v => v.2.2.1) hv
  have htype : card'.soundcardType = card.soundcardType := congrArg (fun v => v.2.2.2) hv
  simp only [Prod.mk.injEq] at hunit
  refine ⟨htype.trans h.type, ?_, ?_, ?_, ?_⟩
  · intro i hi
    rw [(hunit i).1]
    exact h.number i hi
  · intro i hi
    rw [(hunit i).2.1]
    exact h.noHs i hi
  · rw [hactive, hdevice]
    exact h.active
  · intro i hi
    rw [hdevice] at hi
    rw [(hunit i).2.2]
    exact h.status i hi

theorem number_setUnit (card : Card) {n : ℕ} {u : Unit6522}
    (h : u.nAY8910Number = (card.mb n).nAY8910Number) (i : ℕ) :
    ((card.setUnit n u).mb i).nAY8910Number = (card.mb i).nAY8910Number := by
  rw [mb_setUnit]
  by_cases hi : i = n
  · rw [if_pos hi, h, hi]
  · rw [if_neg hi]

theorem timerView_setUnit (card : Card) {n : ℕ} {u : Unit6522}
    (hn : u.nAY8910Number = (card.mb n).nAY8910Number)
    (hh : u.sy6522.oraNoHs = (card.regs n).oraNoHs)
    (hs : u.nTimerStatus = (card.mb n).nTimerStatus) :
    timerView (card.setUnit n u) = timerView card := by
  refine Prod.ext ?_ rfl
  funext i
  simp only [timerView, mb_setUnit, regs_setUnit]
  by_cases h : i = n
  · subst h
    rw [if_pos rfl, if_pos rfl, hn, hh, hs]
  · rw [if_neg h, if_neg h]

theorem timerView_setRegs (card : Card) {n : ℕ} {r : SY6522}
    (h : r.oraNoHs = (card.regs n).oraNoHs) : timerView (card.setRegs n r) = timerView card :=
  timerView_setUnit card rfl h rfl

theorem timerView_updateIFR (card : Card) (n : ℕ) :
    timerView (updateIFR card n) = timerView card :=
  timerView_setRegs card rfl

theorem TimerInv.setRegs (h : TimerInv k card) {r : SY6522}
    (hr : r.oraNoHs = (card.regs n).oraNoHs) :
    TimerInv k (card.setRegs n r) := h.of_view (timerView_setRegs card hr)

theorem TimerInv.updateIFR (h : TimerInv k card) (n : ℕ) : TimerInv k (updateIFR card n) :=
  h.of_view (timerView_updateIFR card n)

/-- With another status a device keeps its number and its registers. -/
theorem unit_status (h : TimerInv k card) (status : UInt8) {i : ℕ} (hi : i < numSY6522) :
    (((card.setUnit n { card.mb n with nTimerStatus := status }).mb i).nAY8910Number = i) ∧
      ((card.setUnit n { card.mb n with nTimerStatus := status }).regs i).oraNoHs = 0 := by
  rw [mb_setUnit, regs_setUnit]
  by_cases hin : i = n
  · subst hin
    rw [if_pos rfl, if_pos rfl]
    exact ⟨h.number i hi, h.noHs i hi⟩
  · rw [if_neg hin, if_neg hin]
    exact ⟨h.number i hi, h.noHs i hi⟩

theorem TimerInv.startTimer (h : TimerInv k card) (hn : n < numSY6522) :
    TimerInv k (startTimer card n) := by
  unfold Mockingboard.startTimer
  simp only []
  split
  · exact h
  · split
    · exact h
    · refine ⟨h.type, ?_, ?_, ?_, ?_⟩
      · exact fun i hi => (unit_status h 1 hi).1
      · exact fun i hi => (unit_status h 1 hi).2
      · exact ⟨fun _ => nofun, fun _ => rfl⟩
      · intro i hi
        have hin : i = n := (Option.some.inj hi).symm.trans (h.number n hn)
        have hstatus : ((card.setUnit n { card.mb n with nTimerStatus := 1 }).mb i).nTimerStatus =
            1 := by
          rw [mb_setUnit, if_pos hin]
        rw [hin]
        rw [hin] at hstatus
        exact ⟨hn, ne_of_eq_of_ne hstatus (by decide)⟩

theorem TimerInv.stopTimer (h : TimerInv k card) (n : ℕ) : TimerInv k (stopTimer card n) := by
  refine ⟨h.type, ?_, ?_, ?_, ?_⟩
  · exact fun i hi => (unit_status h 0 hi).1
  · exact fun i hi => (unit_status h 0 hi).2
  · exact ⟨nofun, fun hne => absurd rfl hne⟩
  · exact nofun

/-- No access breaks what holds of the timer. -/
theorem timer_kept (k : CardType) : AccessInvariant (TimerInv k) where
  of_core h hc := by
    refine h.of_view (Prod.ext ?_ (congrArg (fun v => (v.2.1, v.2.2.1, v.2.2.2.1)) hc))
    funext i
    exact congrArg (fun v => ((v.1 i).2.2.2.2, (v.1 i).2.2.1, (v.1 i).2.2.2.1)) hc
  update hr h := (h.setRegs hr).updateIFR _
  startTimer hn h := h.startTimer hn
  stopTimer n h := h.stopTimer n

/-! ## A reset -/

theorem status_stopTimer (card : Card) (n i : ℕ) :
    ((stopTimer card n).mb i).nTimerStatus = if i = n then 0 else (card.mb i).nTimerStatus := by
  have h : (stopTimer card n).mb i = (card.setUnit n { card.mb n with nTimerStatus := 0 }).mb i :=
    rfl
  rw [h, mb_setUnit]
  by_cases hi : i = n
  · rw [if_pos hi, if_pos hi]
  · rw [if_neg hi, if_neg hi]

theorem status_setUnit (card : Card) {n : ℕ} {u : Unit6522}
    (h : u.nTimerStatus = (card.mb n).nTimerStatus) (i : ℕ) :
    ((card.setUnit n u).mb i).nTimerStatus = (card.mb i).nTimerStatus := by
  rw [mb_setUnit]
  by_cases hi : i = n
  · rw [if_pos hi, h, hi]
  · rw [if_neg hi]

/-- A device that is reset has no timer, and the others keep their status. -/
theorem TimerInv.resetSY6522 (h : TimerInv k card) (hn : n < numSY6522) :
    TimerInv k (resetSY6522 card n) ∧ ∀ i, ((resetSY6522 card n).mb i).nTimerStatus =
      if i = n then 0 else (card.mb i).nTimerStatus := by
  have hzero : TimerInv k (card.setRegs n .zero) := h.setRegs (h.noHs n hn).symm
  have hstatus : ∀ i, ((card.setRegs n .zero).mb i).nTimerStatus = (card.mb i).nTimerStatus :=
    status_setUnit card rfl
  unfold Mockingboard.resetSY6522
  simp only []
  split
  · have hstop := hzero.stopTimer n
    refine ⟨hstop.of_view (timerView_setUnit _ rfl rfl rfl), fun i => ?_⟩
    refine (status_setUnit _ ?_ i).trans ?_
    · rfl
    · rw [status_stopTimer, hstatus]
  · rename_i hs
    refine ⟨hzero.of_view (timerView_setUnit _ rfl rfl rfl), fun i => ?_⟩
    refine (status_setUnit _ ?_ i).trans ?_
    · rfl
    · by_cases hi : i = n
      · rw [if_pos hi, hi]
        exact not_not.mp hs
      · rw [if_neg hi, hstatus]

theorem TimerInv.resetPasses (h : TimerInv k card) (host : Host) (is : List ℕ)
    (his : ∀ i ∈ is, i < numSY6522) :
    TimerInv k (is.foldl (resetPass host) card) ∧ ∀ i, i ∈ is ∨ (card.mb i).nTimerStatus = 0 →
      ((is.foldl (resetPass host) card).mb i).nTimerStatus = 0 := by
  induction is generalizing card with
  | nil => exact ⟨h, fun i hi => hi.resolve_left (List.not_mem_nil)⟩
  | cons n is ih =>
    obtain ⟨hone, hstatus⟩ := h.resetSY6522 (his n (List.mem_cons_self ..))
    have hpass : TimerInv k (resetPass host card n) := hone.of_view rfl
    obtain ⟨hall, hzero⟩ := ih hpass fun i hi => his i (List.mem_cons_of_mem _ hi)
    refine ⟨hall, fun i hi => hzero i ?_⟩
    have hi' : ((resetPass host card n).mb i).nTimerStatus =
        if i = n then 0 else (card.mb i).nTimerStatus := hstatus i
    rw [hi']
    by_cases hin : i = n
    · exact .inr (if_pos hin)
    · rw [if_neg hin]
      exact hi.imp_left fun hm => (List.mem_cons.mp hm).resolve_left hin

/-- After a reset no timer runs. -/
theorem TimerInv.mbReset (h : TimerInv k card) (host : Host) :
    TimerInv k (mbReset host card) ∧ (host.audioIsAvailable = true →
      (mbReset host card).bMBTimerIrqActive = false ∧ (mbReset host card).nMBTimerDevice =
        none) := by
  unfold Mockingboard.mbReset
  cases host.audioIsAvailable with
  | false => exact ⟨h, fun ht => absurd ht Bool.false_ne_true⟩
  | true =>
    obtain ⟨hinv, hstatus⟩ := h.resetPasses host (List.range numSY6522)
      fun i hi => List.mem_range.mp hi
    generalize (List.range numSY6522).foldl (resetPass host) card = c at hinv hstatus
    have hnone : c.nMBTimerDevice = none := by
      cases hd : c.nMBTimerDevice with
      | none => rfl
      | some i =>
        obtain ⟨hi, hs⟩ := hinv.status i hd
        exact absurd (hstatus i (.inl (List.mem_range.mpr hi))) hs
    have hidle : c.bMBTimerIrqActive = false := by
      cases ha : c.bMBTimerIrqActive with
      | false => rfl
      | true => exact absurd hnone (hinv.active.mp ha)
    have hafter : (resetState c |> mbReinitialize host).bMBTimerIrqActive = false := hidle
    refine ⟨⟨hinv.type, hinv.number, hinv.noHs, ?_, nofun⟩, fun _ => ⟨hidle, rfl⟩⟩
    exact ⟨fun ht => absurd (hafter.symm.trans ht) Bool.false_ne_true, fun hne => absurd rfl hne⟩

/-! ## A load -/

theorem keeps_noHs : Keeps SY6522.oraNoHs sy6522Load := by
  apply Keeps.andThen
  · apply keeps_all
    simp only [List.forall_mem_cons]
    refine ⟨?_, ?_, ?_, ?_, ?_, ?_, ?_, ?_, ?_, ?_, ?_, ?_⟩
    all_goals first
      | exact keeps_byteField fun _ _ => rfl
      | exact keeps_wordField fun _ _ => rfl
      | simp
  · apply Keeps.andThen
    · exact keeps_byteField fun _ _ => rfl
    · exact keeps_byteField fun _ _ => rfl

theorem preserves_byteField {σ : Type*} {I : σ → Prop} {put : σ → UInt8 → σ}
    (h : ∀ s v, I s → I (put s v)) : Preserves I (byteField put) := by
  apply preserves_field
  intro bytes s t hs ht
  cases ht
  exact h s _ hs

theorem timer_unitLoad (hn : n < numSY6522) : Preserves (TimerInv k) (unitLoad n) := by
  apply Preserves.andThen
  · apply Preserves.on
    intro c input r rest loaded hc hr
    exact hc.setRegs (keeps_noHs _ _ _ _ _ hr)
  · apply Preserves.andThen
    · apply Preserves.on
      intro c input ay rest loaded hc _
      exact hc.of_view rfl
    · apply Preserves.andThen
      · apply Preserves.on
        intro c input ssi263 rest loaded hc _
        exact hc.of_view (timerView_setUnit c rfl rfl rfl)
      · apply Preserves.andThen
        · apply preserves_byteField
          intro c v hc
          exact hc.of_view (timerView_setUnit c rfl rfl rfl)
        · apply preserves_step
          intro c hc
          exact hc.startTimer hn

theorem TimerInv.beforeLoad (h : TimerInv k card) (host : Host) (cycles : ℕ) :
    TimerInv k (mbBeforeLoad host card cycles) := (h.mbReset host).1.of_view rfl

theorem TimerInv.mbLoadState (h : TimerInv k card) {cycles : ℕ} {input rest : List UInt8}
    {loaded : Bool} (hl : mbLoadState host card cycles input = .ok (card', rest, loaded)) :
    TimerInv k card' := by
  have hall : Preserves (TimerInv k) (all ((List.range numSY6522).map unitLoad)) := by
    apply preserves_all
    intro load hload
    obtain ⟨i, hi, rfl⟩ := List.mem_map.mp hload
    exact timer_unitLoad (List.mem_range.mp hi)
  unfold Mockingboard.mbLoadState at hl
  cases hu : all ((List.range numSY6522).map unitLoad) (mbBeforeLoad host card cycles) input with
  | error e => simp [hu] at hl
  | ok x =>
    obtain ⟨one, left, got⟩ := x
    simp only [hu, Except.ok.injEq, Prod.mk.injEq] at hl
    obtain ⟨rfl, -, -⟩ := hl
    have hone := hall _ _ _ _ _ (h.beforeLoad host cycles) hu
    split
    · exact hone.of_view rfl
    · exact hone

/-! ## Steps and runs -/

theorem TimerInv.step (h : TimerInv k card) {a : Step} (hs : step host card a = .ok card') :
    TimerInv k card' := by
  cases a with
  | reset =>
    cases hs
    exact (h.mbReset host).1
  | loadState cycles input =>
    simp only [Mockingboard.step] at hs
    cases hl : Mockingboard.mbLoadState host card cycles input with
    | error e => simp [hl] at hs
    | ok x =>
      obtain ⟨one, rest, loaded⟩ := x
      simp only [hl, Except.ok.injEq] at hs
      subst hs
      exact h.mbLoadState hl
  | _ => exact (timer_kept k).step h (by simp) (by simp) hs

theorem timer_start (host : Host) (soundcardType : CardType) (sound : Sound) (signal : UInt8) :
    TimerInv soundcardType (mbInitialize host (.static soundcardType sound signal)) := by
  apply And.left
  apply TimerInv.mbReset
  exact ⟨rfl, fun _ _ => rfl, fun _ _ => rfl, ⟨nofun, fun hne => absurd rfl hne⟩, nofun⟩

/-- The states that the cards come to from `MB_Initialize`. -/
def Reachable (host : Host) (soundcardType : CardType) (card : Card) : Prop :=
  ∃ sound signal as,
    runM (step host) (mbInitialize host (.static soundcardType sound signal)) as = .ok card

theorem Reachable.timer {soundcardType : CardType} (h : Reachable host soundcardType card) :
    TimerInv soundcardType card := by
  obtain ⟨sound, signal, as, hrun⟩ := h
  exact runM_invariant (TimerInv soundcardType) (fun c a c' hc => hc.step)
    (timer_start host soundcardType sound signal) hrun

end Timer

end Apple2ix.Mockingboard
