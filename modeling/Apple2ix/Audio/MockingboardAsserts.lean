import Apple2ix.Audio.MockingboardInterrupts

/-! The assertions of the Mockingboards that the guest can fail: the speech chips have no emulation,
but the guest can still address them. -/
namespace Apple2ix.Mockingboard
open Runs
set_option autoImplicit false

/-! ## What the assertions depend on -/

/-- Whether the card is a Phasor, and the registers that address the Votrax. -/
def guards (card : Card) : Bool × (ℕ → UInt8 × UInt8) :=
  (card.bPhasorEnable, fun i => ((card.regs i).ddrb, (card.regs i).pcr))

section Guards
variable {host : Host} {card card' : Card} {n : ℕ}

theorem guards_setUnit (card : Card) {n : ℕ} {u : Unit6522}
    (hddrb : u.sy6522.ddrb = (card.regs n).ddrb) (hpcr : u.sy6522.pcr = (card.regs n).pcr) :
    guards (card.setUnit n u) = guards card := by
  refine Prod.ext rfl ?_
  funext i
  simp only [guards, regs_setUnit]
  by_cases h : i = n
  · subst h
    rw [if_pos rfl, hddrb, hpcr]
  · rw [if_neg h]

theorem guards_setRegs (card : Card) {n : ℕ} {r : SY6522} (hddrb : r.ddrb = (card.regs n).ddrb)
    (hpcr : r.pcr = (card.regs n).pcr) : guards (card.setRegs n r) = guards card :=
  guards_setUnit card hddrb hpcr

theorem guards_updateIFR (card : Card) (n : ℕ) : guards (updateIFR card n) = guards card :=
  guards_setRegs card rfl rfl

theorem guards_startTimer (card : Card) (n : ℕ) : guards (startTimer card n) = guards card := by
  unfold startTimer
  simp only []
  split
  · rfl
  · split
    · rfl
    · exact guards_setUnit card rfl rfl

theorem guards_stopTimer (card : Card) (n : ℕ) : guards (stopTimer card n) = guards card :=
  guards_setUnit card rfl rfl

theorem guards_mask (card : Card) (n : ℕ) (mask : UInt8) :
    guards (maskIFR card n mask) = guards card := by
  unfold maskIFR
  rw [guards_updateIFR]
  exact guards_setRegs card rfl rfl

theorem guards_tick (host : Host) (nClocks : UInt16) (card : Card) (i : ℕ) :
    guards (tick host nClocks card i) = guards card := by
  have hmbUpdate : ∀ c : Card, guards (c.mbUpdate host) = guards c := fun _ => rfl
  have hflag : ∀ (c : Card) (ifr : UInt8),
      guards (updateIFR (c.setRegs i { c.regs i with ifr := ifr }) i) = guards c :=
    fun c ifr => (guards_updateIFR _ i).trans (guards_setRegs c rfl rfl)
  unfold tick
  simp only []
  split
  · rw [hmbUpdate]
    split
    · rw [guards_stopTimer, hflag]
      exact guards_setRegs card rfl rfl
    · rw [guards_startTimer]
      refine (guards_setRegs _ ?_ ?_).trans ?_
      · rfl
      · rfl
      · rw [hflag]
        exact guards_setRegs card rfl rfl
  · split
    · rw [guards_mask]
      exact guards_setRegs card rfl rfl
    · exact guards_setRegs card rfl rfl

theorem guards_updateCycles (host : Host) (card : Card) (cycles : ℕ) :
    guards (mbUpdateCycles host card cycles) = guards card := by
  unfold mbUpdateCycles
  split
  · rfl
  · simp only []
    split
    · rfl
    · refine List.foldlRecOn (motive := fun c => guards c = guards card) _ _ rfl ?_
      intro c hc i _
      exact (guards_tick host _ c i).trans hc

theorem phasor_updateCycles (host : Host) (h : card.bPhasorEnable = false) (cycles : ℕ) :
    (mbUpdateCycles host card cycles).bPhasorEnable = false :=
  (congrArg Prod.fst (guards_updateCycles host card cycles)).trans h

theorem speaks_updateCycles (host : Host) (cycles : ℕ) :
    ((mbUpdateCycles host card cycles).regs n).speaks = (card.regs n).speaks := by
  have h : (((mbUpdateCycles host card cycles).regs n).ddrb,
      ((mbUpdateCycles host card cycles).regs n).pcr) = ((card.regs n).ddrb, (card.regs n).pcr) :=
    congrArg (fun g => g.2 n) (guards_updateCycles host card cycles)
  rw [Prod.mk.injEq] at h
  unfold SY6522.speaks
  rw [h.1, h.2]

end Guards

/-! ## Accesses -/

section Access
variable {host : Host} {card card' : Card} {n : ℕ}

/-- The inputs of an AY8910 always select one of its functions. -/
theorem ayFunc_some (nValue : UInt8) : ∃ f, ayFunc nValue = some f := by
  unfold ayFunc
  have hbc1 : nValue.toNat % 2 = 0 ∨ nValue.toNat % 2 = 1 := by omega
  by_cases hbdir : nValue &&& 2 ≠ 0
  · obtain h | h := hbc1
    · exact ⟨.write, by simp [hbdir, h]⟩
    · exact ⟨.latch, by simp [hbdir, h]⟩
  · obtain h | h := hbc1
    · exact ⟨.inactive, by simp [hbdir, h]⟩
    · exact ⟨.read, by simp [hbdir, h]⟩

theorem ay8910Write_ok (host : Host) (card : Card) (n : ℕ) (nValue : UInt8)
    (nAYDevice cycles : ℕ) : ∃ card', ay8910Write host card n nValue nAYDevice cycles = .ok card' ∧
      card'.bPhasorEnable = card.bPhasorEnable := by
  unfold ay8910Write
  simp only []
  split
  · exact ⟨_, rfl, rfl⟩
  · obtain ⟨f, hf⟩ := ayFunc_some nValue
    rw [hf]
    cases f with
    | inactive => exact ⟨_, rfl, rfl⟩
    | read => exact ⟨_, rfl, rfl⟩
    | write => exact ⟨_, rfl, rfl⟩
    | latch =>
      simp only []
      split
      · exact ⟨_, rfl, rfl⟩
      · exact ⟨_, rfl, rfl⟩

/-- Only speech data is refused. -/
theorem sy6522Write_speech (nValue : UInt8) (cycles : ℕ) (h : (card.regs n).speaks = true) :
    sy6522Write host card n .orb nValue cycles = .error .assertion := by
  have hs : ((activate card).regs n).speaks = true := h
  unfold sy6522Write
  simp only []
  rw [if_pos hs]
  rfl

theorem sy6522Write_ok (nReg : Reg) (nValue : UInt8) (cycles : ℕ)
    (hp : card.bPhasorEnable = false) (h : ¬ (nReg = .orb ∧ (card.regs n).speaks = true)) :
    ∃ card', sy6522Write host card n nReg nValue cycles = .ok card' ∧
      card'.bPhasorEnable = false := by
  have hstart : ∀ c : Card, c.bPhasorEnable = false → (startTimer c n).bPhasorEnable = false :=
    fun c hc => (congrArg Prod.fst (guards_startTimer c n)).trans hc
  unfold sy6522Write
  cases nReg with
  | orb =>
    have hs : ¬ ((activate card).regs n).speaks = true := fun hs => h ⟨rfl, hs⟩
    have hp' : ¬ ((activate card).setRegs n { (activate card).regs n with
        orb := nValue &&& ((activate card).regs n).ddrb }).bPhasorEnable = true := by
      have he : ((activate card).setRegs n { (activate card).regs n with
        orb := nValue &&& ((activate card).regs n).ddrb }).bPhasorEnable = card.bPhasorEnable := rfl
      rw [he, hp]
      exact Bool.false_ne_true
    simp only []
    rw [if_neg hs, if_neg hp']
    obtain ⟨card', hw, hc⟩ := ay8910Write_ok host ((activate card).setRegs n
      { (activate card).regs n with orb := nValue &&& ((activate card).regs n).ddrb }) n
      (nValue &&& ((activate card).regs n).ddrb) 0 cycles
    exact ⟨card', hw, hc.trans hp⟩
  | timer1hCounter => exact ⟨_, rfl, hstart _ hp⟩
  | ier =>
    simp only []
    split
    · split
      · exact ⟨_, rfl, hp⟩
      · split
        · exact ⟨_, rfl, hp⟩
        · exact ⟨_, rfl, hp⟩
    · exact ⟨_, rfl, hstart _ hp⟩
  | _ => exact ⟨_, rfl, hp⟩

theorem phasor_sy6522Read (card : Card) (n : ℕ) (nReg : Reg) :
    (sy6522Read card n nReg).2.bPhasorEnable = card.bPhasorEnable := by
  cases nReg with
  | _ => rfl

/-- The 6522 whose output register B the address is. -/
def orbDevice (ea : ℕ) : Option ℕ :=
  if ea % 0x100 = 0x00 then some (cardOf ea * numDevsPerMB)
  else if ea % 0x100 = 0x80 then some (cardOf ea * numDevsPerMB + 1)
  else none

/-- The access addresses a speech chip: by its own registers, or by the output register of a 6522
that is set up for the Votrax. -/
def Speech (card : Card) : Step → Prop
  | .read ea _ => inSpeech (ea % 0x100) = true
  | .write ea _ _ => inSpeech (ea % 0x100) = true ∨
      ∃ n, orbDevice ea = some n ∧ (card.regs n).speaks = true
  | _ => False

/-- What the guest can bring about: accesses of the card pages, and the passing of time. -/
def Step.Guest : Step → Prop
  | .read ea _ => cardPage ea = true
  | .write ea _ _ => cardPage ea = true
  | .updateCycles _ => True
  | .startOfCpuExecute _ => True
  | .endOfVideoFrame => True
  | _ => False

theorem orb_iff (k : ℕ) : Reg.ofAddress k = .orb ↔ k = 0 := by
  constructor
  · intro h
    unfold Reg.ofAddress at h
    split at h
    case h_1 => rfl
    all_goals cases h
  · rintro rfl
    rfl

theorem mbRead_speech (ea cycles : ℕ) (hp : card.bPhasorEnable = false)
    (h : inSpeech (ea % 0x100) = true) : mbRead host card ea cycles = .error .assertion := by
  have hp' := phasor_updateCycles host hp cycles
  have hrange : 0x40 ≤ ea % 0x100 ∧ ea % 0x100 ≤ 0x45 := by simpa [inSpeech] using h
  have hlow : ¬ ea % 0x100 ≤ 0x0F := by omega
  have hhigh : ¬ (0x80 ≤ ea % 0x100 && ea % 0x100 ≤ 0x8F) = true := by
    simp
    omega
  unfold mbRead
  simp only []
  rw [hp', if_neg Bool.false_ne_true, if_neg hlow, if_neg hhigh, h]
  rfl

theorem mbRead_ok (host : Host) (ea cycles : ℕ) (hp : card.bPhasorEnable = false)
    (h : ¬ inSpeech (ea % 0x100) = true) :
    ∃ x, mbRead host card ea cycles = .ok x ∧ x.2.bPhasorEnable = false := by
  have hp' := phasor_updateCycles host hp cycles
  have hread : ∀ n nReg,
      (sy6522Read (mbUpdateCycles host card cycles) n nReg).2.bPhasorEnable = false :=
    fun n nReg => (phasor_sy6522Read _ n nReg).trans hp'
  rw [Bool.not_eq_true] at h
  unfold mbRead
  simp only []
  rw [hp', if_neg Bool.false_ne_true]
  split
  · exact ⟨_, rfl, hread _ _⟩
  · split
    · exact ⟨_, rfl, hread _ _⟩
    · rw [h]
      exact ⟨_, rfl, hp'⟩

theorem mbWrite_speech (ea : ℕ) (b : UInt8) (cycles : ℕ) (hp : card.bPhasorEnable = false)
    (h : Speech card (.write ea b cycles)) : mbWrite host card ea b cycles = .error .assertion := by
  have hp' := phasor_updateCycles host hp cycles
  unfold mbWrite
  simp only []
  rw [hp', if_neg Bool.false_ne_true]
  obtain hs | ⟨n, hn, hs⟩ := h
  · have hrange : 0x40 ≤ ea % 0x100 ∧ ea % 0x100 ≤ 0x45 := by simpa [inSpeech] using hs
    have hlow : ¬ ea % 0x100 ≤ 0x0F := by omega
    have hhigh : ¬ (0x80 ≤ ea % 0x100 && ea % 0x100 ≤ 0x8F) = true := by
      simp
      omega
    rw [if_neg hlow, if_neg hhigh, hs]
    rfl
  · rw [← speaks_updateCycles host cycles] at hs
    unfold orbDevice at hn
    split at hn
    · obtain rfl := Option.some.inj hn
      have hlow : ea % 0x100 ≤ 0x0F := by omega
      have horb : Reg.ofAddress (ea % 0x10) = .orb := (orb_iff _).mpr (by omega)
      rw [if_pos hlow, horb]
      exact sy6522Write_speech b cycles hs
    · split at hn
      · obtain rfl := Option.some.inj hn
        have hlow : ¬ ea % 0x100 ≤ 0x0F := by omega
        have hhigh : (0x80 ≤ ea % 0x100 && ea % 0x100 ≤ 0x8F) = true := by
          simp
          omega
        have horb : Reg.ofAddress (ea % 0x10) = .orb := (orb_iff _).mpr (by omega)
        rw [if_neg hlow, if_pos hhigh, horb]
        exact sy6522Write_speech b cycles hs
      · cases hn

theorem mbWrite_ok (ea : ℕ) (b : UInt8) (cycles : ℕ) (hp : card.bPhasorEnable = false)
    (h : ¬ Speech card (.write ea b cycles)) :
    ∃ card', mbWrite host card ea b cycles = .ok card' ∧ card'.bPhasorEnable = false := by
  have hp' := phasor_updateCycles host hp cycles
  obtain ⟨hspeech, horb⟩ := not_or.mp h
  unfold mbWrite
  simp only []
  rw [hp', if_neg Bool.false_ne_true]
  split
  case isTrue hlow =>
    apply sy6522Write_ok _ b cycles hp'
    rintro ⟨hr, hs⟩
    rw [orb_iff] at hr
    rw [speaks_updateCycles] at hs
    have hn : orbDevice ea = some (cardOf ea * numDevsPerMB) := if_pos (by omega)
    exact horb ⟨_, hn, hs⟩
  case isFalse hlow =>
    split
    case isTrue hhigh =>
      rw [Bool.and_eq_true, decide_eq_true_eq, decide_eq_true_eq] at hhigh
      apply sy6522Write_ok _ b cycles hp'
      rintro ⟨hr, hs⟩
      rw [orb_iff] at hr
      rw [speaks_updateCycles] at hs
      have hn : orbDevice ea = some (cardOf ea * numDevsPerMB + 1) :=
        (if_neg (by omega)).trans (if_pos (by omega))
      exact horb ⟨_, hn, hs⟩
    case isFalse hhigh =>
      rw [Bool.not_eq_true] at hspeech
      rw [hspeech]
      exact ⟨_, rfl, hp'⟩

end Access

/-! ## Steps and runs -/

section Steps
variable {host : Host} {card card' : Card} {a : Step}

theorem guest_speech (hp : card.bPhasorEnable = false) (hg : a.Guest) (h : Speech card a) :
    step host card a = .error .assertion := by
  cases a with
  | read ea cycles =>
    have hpage : cardPage ea = true := hg
    simp only [step]
    rw [if_pos hpage, mbRead_speech ea cycles hp h]
  | write ea b cycles =>
    have hpage : cardPage ea = true := hg
    simp only [step]
    rw [if_pos hpage, mbWrite_speech ea b cycles hp h]
  | updateCycles cycles => exact h.elim
  | startOfCpuExecute cycles => exact h.elim
  | endOfVideoFrame => exact h.elim
  | reset => exact h.elim
  | loadState cycles input => exact h.elim

theorem guest_ok (host : Host) (hp : card.bPhasorEnable = false) (hg : a.Guest)
    (h : ¬ Speech card a) :
    ∃ card', step host card a = .ok card' ∧ card'.bPhasorEnable = false := by
  cases a with
  | read ea cycles =>
    have hpage : cardPage ea = true := hg
    obtain ⟨x, hr, hx⟩ := mbRead_ok host ea cycles hp h
    simp only [step]
    rw [if_pos hpage, hr]
    exact ⟨x.2, rfl, hx⟩
  | write ea b cycles =>
    have hpage : cardPage ea = true := hg
    simp only [step]
    rw [if_pos hpage]
    exact mbWrite_ok ea b cycles hp h
  | updateCycles cycles => exact ⟨_, rfl, phasor_updateCycles host hp cycles⟩
  | startOfCpuExecute cycles => exact ⟨_, rfl, hp⟩
  | endOfVideoFrame =>
    refine ⟨_, rfl, ?_⟩
    unfold mbEndOfVideoFrame
    split
    · exact hp
    · split
      · exact hp
      · exact hp
  | reset => exact hg.elim
  | loadState cycles input => exact hg.elim

/-- A run of the guest fails an assertion exactly when it addresses a speech chip. -/
theorem guest_run (hp : card.bPhasorEnable = false) (as : List Step) (hg : ∀ a ∈ as, a.Guest) :
    runM (step host) card as ≠ .error .assertion ↔
      Along (step host) (fun card a => ¬ Speech card a) card as := by
  induction as generalizing card with
  | nil => exact iff_of_true (fun h => nomatch h) (along_nil card)
  | cons a as ih =>
    have ha : a.Guest := hg a (List.mem_cons_self ..)
    by_cases hs : Speech card a
    · rw [runM_cons_error as (guest_speech hp ha hs)]
      exact iff_of_false (fun h => h rfl) fun h => h.head hs
    · obtain ⟨card', hstep, hp'⟩ := guest_ok host hp ha hs
      rw [runM_cons_ok as hstep, along_cons hstep,
        ih hp' fun b hb => hg b (List.mem_cons_of_mem _ hb)]
      exact ⟨fun h => ⟨hs, h⟩, And.right⟩

theorem phasor_start (host : Host) (sound : Sound) (signal : UInt8) :
    (mbInitialize host (.static .mockingboardC sound signal)).bPhasorEnable = false := by
  have hpass : ∀ (c : Card) (i : ℕ), (resetPass host c i).bPhasorEnable = c.bPhasorEnable := by
    intro c i
    have hafter : (resetPass host c i).bPhasorEnable = (resetSY6522 c i).bPhasorEnable := rfl
    rw [hafter]
    unfold resetSY6522 Card.setCurrentRegister
    simp only []
    split
    · rfl
    · rfl
  have hafter : ∀ c : Card, (resetState c |> mbReinitialize host).bPhasorEnable =
      c.bPhasorEnable := fun _ => rfl
  unfold mbInitialize mbReset
  split
  · rfl
  · rw [hafter]
    refine List.foldlRecOn (motive := fun c : Card => c.bPhasorEnable = false) _ _ rfl ?_
    intro c hc i _
    exact (hpass c i).trans hc

end Steps

/-- **No assertion by the guest.** With the Mockingboards enabled, a run of accesses to their pages
fails no assertion exactly when no access addresses a speech chip. -/
theorem guest_assertions (host : Host) (sound : Sound) (signal : UInt8) (as : List Step)
    (hg : ∀ a ∈ as, a.Guest) :
    runM (step host) (mbInitialize host (.static .mockingboardC sound signal)) as ≠
        .error .assertion ↔
      Along (step host) (fun card a => ¬ Speech card a)
        (mbInitialize host (.static .mockingboardC sound signal)) as :=
  guest_run (phasor_start host sound signal) as hg

theorem guest_assertions_small :
    runM (step quietHost) (mbInitialize quietHost (.static .mockingboardC silence 0))
      timerRunsOut ≠ .error .assertion := by
  refine (guest_assertions quietHost silence 0 timerRunsOut ?_).mpr ?_
  · simp [timerRunsOut, Step.Guest, cardPage]
  · intro before a after card heq _
    have ha : a ∈ timerRunsOut := by
      rw [heq]
      exact List.mem_append_right _ (List.mem_cons_self ..)
    simp only [timerRunsOut, List.mem_cons, List.not_mem_nil, or_false] at ha
    obtain rfl | rfl | rfl | rfl := ha
    all_goals simp [Speech, inSpeech, orbDevice]

/-- A read of the first register of a speech chip. -/
theorem speech_read_fails :
    runM (step quietHost) (mbInitialize quietHost (.static .mockingboardC silence 0))
      [.read 0xC440 0] = .error .assertion := rfl

end Apple2ix.Mockingboard
