import Apple2ix.Audio.MockingboardState

/-! Accesses of the Mockingboards and the cycles that pass: they change the interrupts only by
`UpdateIFR`, and the timer only by `StartTimer` and `StopTimer`, so a property that these keep holds
after any of them. -/
namespace Apple2ix.Mockingboard
open Runs
set_option autoImplicit false

/-! ## What an access does not change by itself -/

/-- The part of a device that the interrupts, its timer and its number are in. -/
def held (pMB : Unit6522) : UInt8 × UInt8 × UInt8 × UInt8 × ℕ :=
  (pMB.sy6522.ifr, pMB.sy6522.ier, pMB.sy6522.oraNoHs, pMB.nTimerStatus, pMB.nAY8910Number)

/-- The same of the cards, with the signal and the timer that runs. -/
def core (card : Card) :
    (ℕ → UInt8 × UInt8 × UInt8 × UInt8 × ℕ) × Bool × Option ℕ × CardType × UInt8 :=
  (fun i => held (card.mb i), card.bMBTimerIrqActive, card.nMBTimerDevice, card.soundcardType,
    card.cpu65Signal)

theorem mb_setUnit (card : Card) (n : ℕ) (u : Unit6522) (i : ℕ) :
    (card.setUnit n u).mb i = if i = n then u else card.mb i := by
  unfold Card.setUnit
  by_cases h : i = n
  · subst h
    simp
  · simp [h]

theorem regs_setUnit (card : Card) (n : ℕ) (u : Unit6522) (i : ℕ) :
    (card.setUnit n u).regs i = if i = n then u.sy6522 else card.regs i := by
  unfold Card.regs
  rw [mb_setUnit]
  by_cases h : i = n
  · rw [if_pos h, if_pos h]
  · rw [if_neg h, if_neg h]

theorem regs_setRegs (card : Card) (n : ℕ) (r : SY6522) (i : ℕ) :
    (card.setRegs n r).regs i = if i = n then r else card.regs i :=
  regs_setUnit card n _ i

theorem core_setUnit (card : Card) {n : ℕ} {u : Unit6522} (h : held u = held (card.mb n)) :
    core (card.setUnit n u) = core card := by
  refine Prod.ext ?_ rfl
  funext i
  simp only [core, mb_setUnit]
  by_cases hi : i = n
  · rw [if_pos hi, hi, h]
  · rw [if_neg hi]

/-- The addresses of the card pages belong to the devices that there are. -/
theorem device_lt {ea : ℕ} (h : cardPage ea = true) :
    cardOf ea * numDevsPerMB + 1 < numSY6522 := by
  unfold cardPage at h
  rw [Bool.and_eq_true, decide_eq_true_eq, decide_eq_true_eq] at h
  simp only [cardOf, numDevsPerMB, numSY6522, slot4]
  omega

/-! ## The accesses -/

/-- A property of the cards that depends on their `core` only, and that `UpdateIFR` after a change
of the flags or the mask of a device, `StartTimer` and `StopTimer` keep. -/
structure AccessInvariant (I : Card → Prop) : Prop where
  of_core : ∀ {card card' : Card}, I card → core card' = core card → I card'
  update : ∀ {card : Card} {n : ℕ} {r : SY6522}, r.oraNoHs = (card.regs n).oraNoHs → I card →
    I (updateIFR (card.setRegs n r) n)
  startTimer : ∀ {card : Card} {n : ℕ}, n < numSY6522 → I card → I (startTimer card n)
  stopTimer : ∀ {card : Card} (n : ℕ), I card → I (stopTimer card n)

namespace AccessInvariant
variable {I : Card → Prop} {host : Host} {card card' : Card} {n cycles : ℕ}

theorem setUnit (k : AccessInvariant I) (h : I card) {u : Unit6522}
    (hu : held u = held (card.mb n)) :
    I (card.setUnit n u) :=
  k.of_core h (core_setUnit card hu)

theorem setRegs (k : AccessInvariant I) (h : I card) {r : SY6522}
    (hr : (r.ifr, r.ier, r.oraNoHs) = ((card.regs n).ifr, (card.regs n).ier,
      (card.regs n).oraNoHs)) : I (card.setRegs n r) := by
  simp only [Prod.mk.injEq] at hr
  obtain ⟨hifr, hier, hora⟩ := hr
  refine k.setUnit h ?_
  unfold held
  rw [hifr, hier, hora]
  rfl

theorem mask (k : AccessInvariant I) (h : I card) (n : ℕ) (mask : UInt8) :
    I (maskIFR card n mask) :=
  k.update rfl h

theorem ay8910Write (k : AccessInvariant I) (h : I card) {nValue : UInt8} {nAYDevice : ℕ}
    (hw : ay8910Write host card n nValue nAYDevice cycles = .ok card') : I card' := by
  unfold Mockingboard.ay8910Write at hw
  simp only [] at hw
  split at hw
  · cases hw
    exact k.of_core h rfl
  · split at hw
    · cases hw
      exact k.of_core h rfl
    · cases hw
      exact k.of_core h rfl
    · cases hw
      exact k.of_core h rfl
    · split at hw
      · cases hw
        refine k.setUnit ?_ ?_
        · exact k.of_core h rfl
        · rfl
      · cases hw
        exact k.of_core h rfl
    · cases hw

theorem selected (h : I card) {selected : Bool} {access : Card → Except Fault Card}
    (ha : ∀ c c', I c → access c = .ok c' → I c')
    (hw : whenSelected selected access card = .ok card') : I card' := by
  cases selected with
  | true => exact ha card card' h hw
  | false =>
    cases hw
    exact h

theorem sy6522Write (k : AccessInvariant I) (h : I card) (hn : n < numSY6522) {nReg : Reg}
    {nValue : UInt8}
    (hw : sy6522Write host card n nReg nValue cycles = .ok card') : I card' := by
  have ha : I (activate card) := k.of_core h rfl
  unfold Mockingboard.sy6522Write at hw
  cases nReg with
  | orb =>
    simp only [] at hw
    have hb : I ((activate card).setRegs n { (activate card).regs n with
        orb := nValue &&& ((activate card).regs n).ddrb }) := k.setRegs ha rfl
    split at hw
    · cases hw
    · split at hw
      · obtain ⟨one, h1, h2⟩ := bind_eq_ok.mp hw
        have hone : I one := selected hb (fun c c' hc => k.ay8910Write hc) h1
        exact selected hone (fun c c' hc => k.ay8910Write hc) h2
      · exact k.ay8910Write hb hw
  | timer1hCounter =>
    cases hw
    apply k.startTimer hn
    exact k.setRegs (k.mask ha n _) rfl
  | timer1hLatch =>
    cases hw
    apply k.mask
    exact k.setRegs ha rfl
  | timer2h =>
    cases hw
    exact k.setRegs (k.mask ha n _) rfl
  | ifr =>
    cases hw
    exact k.mask ha n _
  | ier =>
    simp only [] at hw
    split at hw
    · have hmasked : I (updateIFR ((activate card).setRegs n { (activate card).regs n with
          ier := ((activate card).regs n).ier &&& (nValue ^^^ 0x7F) }) n) := k.update rfl ha
      split at hw
      · cases hw
        exact hmasked
      · split at hw
        · cases hw
          exact hmasked
        · cases hw
          exact k.stopTimer n hmasked
    · cases hw
      apply k.startTimer hn
      exact k.update rfl ha
  | serialShift =>
    cases hw
    exact ha
  | oraNoHs =>
    cases hw
    exact ha
  | _ =>
    cases hw
    exact k.setRegs ha rfl

theorem sy6522Read (k : AccessInvariant I) (h : I card) (n : ℕ) (nReg : Reg) :
    I (sy6522Read card n nReg).2 := by
  have ha : I (activate card) := k.of_core h rfl
  cases nReg with
  | timer1lCounter => exact k.mask ha n _
  | timer2l => exact k.mask ha n _
  | _ => exact ha

/-! ## Cycles -/

theorem tick (k : AccessInvariant I) (h : I card) (host : Host) (nClocks : UInt16) {i : ℕ}
    (hi : i < numSY6522) : I (tick host nClocks card i) := by
  have hmbUpdate : ∀ c : Card, I c → I (c.mbUpdate host) := fun c hc => k.of_core hc rfl
  have hc : I (card.setRegs i { card.regs i with
      timer1Counter := (card.regs i).timer1Counter - nClocks
      timer2Counter := (card.regs i).timer2Counter - nClocks }) := k.setRegs h rfl
  unfold Mockingboard.tick
  simp only []
  split
  · apply hmbUpdate
    split
    · apply k.stopTimer
      exact k.update rfl hc
    · apply k.startTimer hi
      refine k.setRegs ?_ ?_
      · exact k.update rfl hc
      · rfl
  · split
    · exact k.mask hc i _
    · exact hc

theorem updateCycles (k : AccessInvariant I) (h : I card) (host : Host) (cycles : ℕ) :
    I (mbUpdateCycles host card cycles) := by
  unfold mbUpdateCycles
  split
  · exact h
  · have hlast : I { card with uLastCumulativeCycles := cycles } := k.of_core h rfl
    simp only []
    split
    · exact hlast
    · refine List.foldlRecOn _ _ hlast ?_
      intro c hc i hi
      exact k.tick hc host _ (List.mem_range.mp hi)

theorem endOfVideoFrame (k : AccessInvariant I) (h : I card) (host : Host) :
    I (mbEndOfVideoFrame host card) := by
  unfold mbEndOfVideoFrame
  split
  · exact h
  · split
    · exact h
    · exact k.of_core h rfl

/-! ## The card pages -/

theorem mbRead (k : AccessInvariant I) (h : I card) {ea : ℕ} {x : UInt8 × Card}
    (hr : mbRead host card ea cycles = .ok x) : I x.2 := by
  have hu := k.updateCycles h host cycles
  have hread : ∀ (selected : Prop) [Decidable selected] (c : Card) (n : ℕ) (nReg : Reg),
      I c → I (if selected then Mockingboard.sy6522Read c n nReg else (0, c)).2 := by
    intro selected _ c n nReg hc
    split
    · exact k.sy6522Read hc n nReg
    · exact hc
  unfold Mockingboard.mbRead at hr
  simp only [] at hr
  split at hr
  · split at hr
    · cases hr
      exact hu
    · obtain ⟨_, -, hr⟩ := bind_eq_ok.mp hr
      cases hr
      exact hread _ _ _ _ (hread _ _ _ _ hu)
  · split at hr
    · cases hr
      exact k.sy6522Read hu _ _
    · split at hr
      · cases hr
        exact k.sy6522Read hu _ _
      · obtain ⟨_, -, hr⟩ := bind_eq_ok.mp hr
        cases hr
        exact hu

theorem mbWrite (k : AccessInvariant I) (h : I card) {ea : ℕ} {b : UInt8}
    (hpage : cardPage ea = true)
    (hw : mbWrite host card ea b cycles = .ok card') : I card' := by
  have hu := k.updateCycles h host cycles
  have hone := device_lt hpage
  have hzero : cardOf ea * numDevsPerMB < numSY6522 := by omega
  unfold Mockingboard.mbWrite at hw
  simp only [] at hw
  split at hw
  · split at hw
    · cases hw
      exact hu
    · obtain ⟨one, h1, hw⟩ := bind_eq_ok.mp hw
      obtain ⟨two, h2, hw⟩ := bind_eq_ok.mp hw
      obtain ⟨_, -, hw⟩ := bind_eq_ok.mp hw
      cases hw
      have h1 : I one := selected hu (fun c c' hc => k.sy6522Write hc hzero) h1
      exact selected h1 (fun c c' hc => k.sy6522Write hc hone) h2
  · split at hw
    · exact k.sy6522Write hu hzero hw
    · split at hw
      · exact k.sy6522Write hu hone hw
      · obtain ⟨_, -, hw⟩ := bind_eq_ok.mp hw
        cases hw
        exact hu

/-- Every step but a reset and a load keeps the property. -/
theorem step (k : AccessInvariant I) (h : I card) {a : Step} (hreset : a ≠ .reset)
    (hload : ∀ cycles input, a ≠ .loadState cycles input)
    (hs : step host card a = .ok card') : I card' := by
  cases a with
  | read ea cycles =>
    simp only [Mockingboard.step] at hs
    split at hs
    · cases hr : Mockingboard.mbRead host card ea cycles with
      | error e => simp [hr] at hs
      | ok x =>
        simp only [hr, Except.ok.injEq] at hs
        rw [← hs]
        exact k.mbRead h hr
    · cases hs
  | write ea b cycles =>
    simp only [Mockingboard.step] at hs
    split at hs
    · rename_i hpage
      exact k.mbWrite h hpage hs
    · cases hs
  | updateCycles cycles =>
    cases hs
    exact k.updateCycles h host cycles
  | startOfCpuExecute cycles =>
    cases hs
    exact k.of_core h rfl
  | endOfVideoFrame =>
    cases hs
    exact k.endOfVideoFrame h host
  | reset => exact absurd rfl hreset
  | loadState cycles input => exact absurd rfl (hload cycles input)

end AccessInvariant

end Apple2ix.Mockingboard
