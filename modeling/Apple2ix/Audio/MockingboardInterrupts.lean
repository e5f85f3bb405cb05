import Mathlib.Data.List.GetD
import Apple2ix.Foundations.Bytes
import Apple2ix.Audio.MockingboardAccess

/-! The interrupt of the Mockingboards: whether the CPU sees it is worked out anew whenever a flag
or a mask of a 6522 changes, except by a reset and by the load of a state. -/
namespace Apple2ix.Mockingboard
open Runs Loader
set_option autoImplicit false

/-! ## The line -/

/-- Bit 7 of the interrupt flags is set exactly when another one is set and enabled. -/
def Flagged (ifr ier : UInt8) : Prop := ifr &&& 0x80 ≠ 0 ↔ ifr &&& ier &&& 0x7F ≠ 0

/-- `IS_6522` is pending to the CPU. -/
def Pending (card : Card) : Prop := card.cpu65Signal &&& is6522 ≠ 0

/-- What is asked of the interrupt: bit 7 of each 6522 fits its other flags, and the CPU is
interrupted exactly when it is set in some 6522. -/
structure LineInv (card : Card) : Prop where
  flagged : ∀ i < numSY6522, Flagged (card.regs i).ifr (card.regs i).ier
  pending : Pending card ↔ ∃ i < numSY6522, (card.regs i).ifr &&& 0x80 ≠ 0

/-- All that the interrupt depends on: flags, masks and the signal. -/
def line (card : Card) : (ℕ → UInt8 × UInt8) × UInt8 :=
  (fun i => ((card.regs i).ifr, (card.regs i).ier), card.cpu65Signal)

section Line
variable {card card' : Card} {n i : ℕ}

theorem ifr_eq (h : line card' = line card) (i : ℕ) : (card'.regs i).ifr = (card.regs i).ifr :=
  congrArg (fun l => (l.1 i).1) h

theorem ier_eq (h : line card' = line card) (i : ℕ) : (card'.regs i).ier = (card.regs i).ier :=
  congrArg (fun l => (l.1 i).2) h

theorem signal_eq (h : line card' = line card) : card'.cpu65Signal = card.cpu65Signal :=
  congrArg Prod.snd h

theorem LineInv.of_line (h : LineInv card) (hl : line card' = line card) : LineInv card' := by
  refine ⟨fun i hi => ?_, ?_⟩
  · rw [ifr_eq hl, ier_eq hl]
    exact h.flagged i hi
  have hp : Pending card' ↔ Pending card := by
    unfold Pending
    rw [signal_eq hl]
  rw [hp, h.pending]
  simp only [ifr_eq hl]

theorem line_setUnit (card : Card) {n : ℕ} {u : Unit6522} (hifr : u.sy6522.ifr = (card.regs n).ifr)
    (hier : u.sy6522.ier = (card.regs n).ier) : line (card.setUnit n u) = line card := by
  refine Prod.ext ?_ rfl
  funext i
  simp only [line, regs_setUnit]
  by_cases h : i = n
  · subst h
    rw [if_pos rfl, hifr, hier]
  · rw [if_neg h]

end Line

/-! ## `UpdateIFR` -/

theorem or_and (a b c : UInt8) : (a ||| b) &&& c = a &&& c ||| b &&& c := by
  apply UInt8.toBitVec_inj.mp
  simp only [UInt8.toBitVec_and, UInt8.toBitVec_or]
  ext i hi
  simp only [BitVec.getElem_and, BitVec.getElem_or, Bool.and_or_distrib_right]

theorem low_bit7 (a : UInt8) : a &&& 0x7F &&& 0x80 = 0 := by
  rw [UInt8.and_assoc, show (0x7F &&& 0x80 : UInt8) = 0 by decide, UInt8.and_zero]

theorem bit7_low (a : UInt8) : 0x80 &&& a &&& 0x7F = 0 := by
  rw [UInt8.and_comm 0x80 a, UInt8.and_assoc, show (0x80 &&& 0x7F : UInt8) = 0 by decide,
    UInt8.and_zero]

theorem flagged_flagged (r : SY6522) : Flagged r.flagged.ifr r.flagged.ier := by
  unfold Flagged SY6522.flagged
  simp only []
  by_cases h : r.ifr &&& 0x7F &&& r.ier &&& 0x7F ≠ 0
  · rw [if_pos h, or_and, low_bit7, or_and, or_and, bit7_low]
    simpa using h
  · rw [if_neg h, low_bit7]
    simpa using h

theorem signal_or (s : UInt8) : (s ||| is6522) &&& is6522 ≠ 0 :=
  forall_uint8 (P := fun s => (s ||| is6522) &&& is6522 ≠ 0) (by decide) s

theorem signal_and_not (s : UInt8) : s &&& ~~~is6522 &&& is6522 = 0 := by
  rw [UInt8.and_assoc, show (~~~is6522 &&& is6522 : UInt8) = 0 by decide, UInt8.and_zero]

section Update
variable {host : Host} {card card' : Card} {n : ℕ}

/-- Whatever was done to the flags of one 6522, `UpdateIFR` for it restores the interrupt. -/
theorem updateIFR_inv (h : ∀ i < numSY6522, i ≠ n → Flagged (card.regs i).ifr (card.regs i).ier) :
    LineInv (updateIFR card n) := by
  have hregs : ∀ i, (updateIFR card n).regs i =
      if i = n then (card.regs n).flagged else card.regs i :=
    fun i => regs_setRegs card n _ i
  refine ⟨?_, ?_⟩
  · intro i hi
    rw [hregs]
    by_cases hin : i = n
    · rw [if_pos hin]
      exact flagged_flagged _
    · rw [if_neg hin]
      exact h i hi hin
  · have hany : ((List.range numSY6522).any fun i =>
          (((card.setRegs n (card.regs n).flagged).regs i).ifr &&& 0x80 ≠ 0 : Bool)) = true ↔
        ∃ i < numSY6522, ((updateIFR card n).regs i).ifr &&& 0x80 ≠ 0 := by
      simp only [List.any_eq_true, List.mem_range, decide_eq_true_eq]
      rfl
    rw [← hany]
    unfold Pending updateIFR
    simp only []
    by_cases hb : ((List.range numSY6522).any fun i =>
        (((card.setRegs n (card.regs n).flagged).regs i).ifr &&& 0x80 ≠ 0 : Bool)) = true
    · rw [if_pos hb]
      exact iff_of_true (signal_or _) hb
    · rw [if_neg hb]
      exact iff_of_false (not_not_intro (signal_and_not _)) hb

theorem LineInv.update (h : LineInv card) (r : SY6522) :
    LineInv (updateIFR (card.setRegs n r) n) := by
  apply updateIFR_inv
  intro i hi hin
  rw [regs_setRegs, if_neg hin]
  exact h.flagged i hi

/-! ## The operations -/

theorem line_startTimer (card : Card) (n : ℕ) : line (startTimer card n) = line card := by
  unfold startTimer
  simp only []
  split
  · rfl
  · split
    · rfl
    · exact line_setUnit card rfl rfl

theorem line_stopTimer (card : Card) (n : ℕ) : line (stopTimer card n) = line card :=
  line_setUnit card rfl rfl

/-- No access breaks what holds of the interrupt. -/
theorem line_kept : AccessInvariant LineInv where
  of_core h hc := by
    refine h.of_line (Prod.ext ?_ ?_)
    · funext i
      exact congrArg (fun v => ((v.1 i).1, (v.1 i).2.1)) hc
    · exact congrArg (fun v => v.2.2.2.2) hc
  update _ h := h.update _
  startTimer _ h := h.of_line (line_startTimer _ _)
  stopTimer n h := h.of_line (line_stopTimer _ n)

end Update

/-! ## A reset -/

section Reset
variable {host : Host} {card : Card}

theorem regs_setUnit_same (card : Card) {n : ℕ} {u : Unit6522} (h : u.sy6522 = card.regs n) :
    (card.setUnit n u).regs = card.regs := by
  funext i
  rw [regs_setUnit]
  by_cases hi : i = n
  · rw [if_pos hi, h, hi]
  · rw [if_neg hi]

theorem regs_stopTimer (card : Card) (n : ℕ) : (stopTimer card n).regs = card.regs :=
  regs_setUnit_same card rfl

theorem regs_startTimer (card : Card) (n : ℕ) : (startTimer card n).regs = card.regs := by
  unfold startTimer
  simp only []
  split
  · rfl
  · split
    · rfl
    · exact regs_setUnit_same card rfl

theorem regs_resetSY6522 (card : Card) (n i : ℕ) :
    (resetSY6522 card n).regs i = if i = n then .zero else card.regs i := by
  unfold resetSY6522
  simp only []
  refine (congrFun (regs_setUnit_same _ ?_) i).trans ?_
  · rfl
  · rw [← regs_setRegs]
    split
    · rw [regs_stopTimer]
    · rfl

theorem signal_resetSY6522 (card : Card) (n : ℕ) :
    (resetSY6522 card n).cpu65Signal = card.cpu65Signal := by
  unfold resetSY6522
  simp only []
  split
  · rfl
  · rfl

theorem reset_passes (host : Host) (is : List ℕ) (card : Card) :
    (∀ i, (is.foldl (resetPass host) card).regs i = if i ∈ is then .zero else card.regs i) ∧
      (is.foldl (resetPass host) card).cpu65Signal = card.cpu65Signal := by
  induction is generalizing card with
  | nil => simp
  | cons n is ih =>
    obtain ⟨hregs, hsignal⟩ := ih (resetPass host card n)
    refine ⟨?_, ?_⟩
    · intro i
      have hpass : (resetPass host card n).regs i = if i = n then .zero else card.regs i :=
        regs_resetSY6522 card n i
      rw [List.foldl_cons, hregs, hpass]
      by_cases hi : i ∈ is
      · rw [if_pos hi, if_pos (List.mem_cons_of_mem _ hi)]
      · simp only [hi, if_false, List.mem_cons, or_false]
    · rw [List.foldl_cons, hsignal]
      exact signal_resetSY6522 card n

/-- The registers that a reset leaves. -/
def afterReset (host : Host) (card : Card) (i : ℕ) : SY6522 :=
  if host.audioIsAvailable then .zero else card.regs i

theorem regs_mbReset (host : Host) (card : Card) {i : ℕ} (hi : i < numSY6522) :
    (mbReset host card).regs i = afterReset host card i := by
  have hafter : ∀ c : Card, (resetState c |> mbReinitialize host).regs i = c.regs i := fun _ => rfl
  unfold mbReset afterReset
  cases host.audioIsAvailable with
  | false => rfl
  | true =>
    simp only [Bool.not_true, Bool.false_eq_true, if_false, if_true]
    rw [hafter, (reset_passes host (List.range numSY6522) card).1 i,
      if_pos (List.mem_range.mpr hi)]

theorem signal_mbReset (host : Host) (card : Card) :
    (mbReset host card).cpu65Signal = card.cpu65Signal := by
  have hafter : ∀ c : Card, (resetState c |> mbReinitialize host).cpu65Signal = c.cpu65Signal :=
    fun _ => rfl
  unfold mbReset
  cases host.audioIsAvailable with
  | false => rfl
  | true =>
    simp only [Bool.not_true, Bool.false_eq_true, if_false]
    rw [hafter, (reset_passes host (List.range numSY6522) card).2]

end Reset

/-! ## A load -/

/-- The number of changes that a device holds whose state starts at `start`. -/
def fileChanges (input : List UInt8) (start : ℕ) : ℕ :=
  (data32Of ((input.drop (start + 121)).take 4)).toNat

/-- Where the state of a device starts in the file. -/
def unitStart (input : List UInt8) : ℕ → ℕ
  | 0 => 0
  | n + 1 => unitStart input n + (132 + 10 * fileChanges input (unitStart input n))

/-- The flags that the file holds for a device; if it is too short, those that there are. -/
def fileIfr (input : List UInt8) (n : ℕ) (there : UInt8) : UInt8 :=
  input.getD (unitStart input n + 15) there

def fileIer (input : List UInt8) (n : ℕ) (there : UInt8) : UInt8 :=
  input.getD (unitStart input n + 16) there

section Load
variable {host : Host} {card card' : Card} {input rest : List UInt8} {loaded : Bool} {n : ℕ}

theorem takes_byteField {σ : Type*} (put : σ → UInt8 → σ) : Takes (byteField put) fun _ => 1 :=
  takes_field 1 _

theorem takes_wordField (put : SY6522 → List UInt8 → SY6522) : Takes (wordField put) fun _ => 2 :=
  takes_field 2 _

theorem takes_sy6522Before : Takes sy6522Before fun _ => 15 :=
  (takes_byteField _).andThen <| (takes_byteField _).andThen <| (takes_byteField _).andThen <|
    (takes_byteField _).andThen <| (takes_wordField _).andThen <| (takes_wordField _).andThen <|
    (takes_wordField _).andThen <| (takes_wordField _).andThen <| (takes_byteField _).andThen <|
    (takes_byteField _).andThen <| (takes_byteField _).andThen <| takes_step id

theorem keeps_byteField {σ α : Type*} {part : σ → α} {put : σ → UInt8 → σ}
    (h : ∀ s v, part (put s v) = part s) : Keeps part (byteField put) := by
  apply keeps_field
  intro bytes s t ht
  cases ht
  exact h s _

theorem keeps_wordField {α : Type*} {part : SY6522 → α} {put : SY6522 → List UInt8 → SY6522}
    (h : ∀ s v, part (put s v) = part s) : Keeps part (wordField put) := by
  apply keeps_field
  intro bytes s t ht
  cases ht
  exact h s _

theorem keeps_sy6522Before : Keeps (fun r : SY6522 => (r.ifr, r.ier)) sy6522Before := by
  apply keeps_all
  simp only [List.forall_mem_cons]
  refine ⟨?_, ?_, ?_, ?_, ?_, ?_, ?_, ?_, ?_, ?_, ?_, ?_⟩
  all_goals first
    | exact keeps_byteField fun _ _ => rfl
    | exact keeps_wordField fun _ _ => rfl
    | simp

theorem takes_sy6522Load : Takes sy6522Load fun _ => 17 :=
  takes_sy6522Before.andThen ((takes_byteField _).andThen (takes_byteField _))

theorem getD_drop_take (input : List UInt8) {n : ℕ} (hn : n < input.length) (d : UInt8) :
    ((input.drop n).take 1).getD 0 0 = input.getD n d := by
  have h : (input.drop n).take 1 = [input[n]] := by
    rw [List.drop_eq_getElem_cons hn, List.take_succ_cons, List.take_zero]
  rw [h, List.getD_eq_getElem _ _ hn]
  rfl

/-- The interrupt registers are the bytes of the file at their places. -/
theorem sy6522Load_flags {r r' : SY6522} (h : sy6522Load r input = .ok (r', rest, loaded)) :
    r'.ifr = input.getD 15 r.ifr ∧ r'.ier = input.getD 16 r.ier := by
  have hifr : input.length ≤ 15 → input.getD 15 r.ifr = r.ifr := List.getD_eq_default input r.ifr
  have hier : input.length ≤ 16 → input.getD 16 r.ier = r.ier := List.getD_eq_default input r.ier
  obtain ⟨one, left, hb, hs⟩ | ⟨rfl, hb⟩ := andThen_cases h
  · have htaken : Taken 15 input left true := takes_sy6522Before r input one left true hb
    obtain ⟨hone, hone'⟩ : one.ifr = r.ifr ∧ one.ier = r.ier :=
      Prod.ext_iff.mp (keeps_sy6522Before r input one left true hb)
    obtain rfl := htaken.rest_eq
    obtain ⟨two, left, hi, he⟩ | ⟨rfl, hi⟩ := andThen_cases hs
    · obtain ⟨-, hlen, rfl, ha⟩ | ⟨hf, -⟩ := field_cases hi
      · rw [List.length_drop] at hlen
        cases ha
        obtain ⟨-, hlen', -, ha⟩ | ⟨-, hlen', -, rfl⟩ := field_cases he
        · rw [List.drop_drop, List.length_drop] at hlen'
          cases ha
          refine ⟨getD_drop_take input (by omega) _, ?_⟩
          rw [List.drop_drop]
          exact getD_drop_take input (by omega) _
        · rw [List.drop_drop, List.length_drop] at hlen'
          refine ⟨getD_drop_take input (by omega) _, ?_⟩
          rw [hier (by omega)]
          exact hone'
      · cases hf
    · obtain ⟨hf, -⟩ | ⟨-, hlen, -, rfl⟩ := field_cases hi
      · cases hf
      · rw [List.length_drop] at hlen
        rw [hifr (by omega), hier (by omega)]
        exact ⟨hone, hone'⟩
  · have htaken : Taken 15 input rest false := takes_sy6522Before r input r' rest false hb
    obtain ⟨hone, hone'⟩ : r'.ifr = r.ifr ∧ r'.ier = r.ier :=
      Prod.ext_iff.mp (keeps_sy6522Before r input r' rest false hb)
    obtain ⟨hf, -⟩ | ⟨-, hlen⟩ := htaken
    · cases hf
    · rw [hifr (by omega), hier (by omega)]
      exact ⟨hone, hone'⟩

theorem takes_changeLoad (i : ℕ) : Takes (changeLoad i) fun _ => 10 :=
  (takes_field 4 _).andThen <| (takes_field 4 _).andThen <| (takes_byteField _).andThen <|
    (takes_byteField _).andThen <| takes_step id

/-- The changes, with their number before them. -/
theorem takes_changes :
    Takes (changeCountLoad.andThen
        (among fun ay => all ((List.range ay.ayChangeCount).map changeLoad)))
      fun input => 4 + 10 * (data32Of (input.take 4)).toNat := by
  intro ay input ay' rest loaded h
  obtain ⟨one, left, hc, hs⟩ | ⟨rfl, hc⟩ := andThen_cases h
  · have htaken := takes_field 4 _ ay input one left true hc
    obtain ⟨-, -, -, ha⟩ | ⟨hf, -⟩ := field_cases hc
    · split at ha
      · cases ha
        have hall := takes_all_map (List.range (data32Of (input.take 4)).toNat) takes_changeLoad
          _ left ay' rest loaded hs
        rw [List.length_range, Nat.mul_comm] at hall
        exact htaken.add hall
      · cases ha
    · cases hf
  · exact (takes_field 4 _ ay input ay' rest false hc).short (Nat.le_add_right _ _)

theorem takes_ay8910Load :
    Takes ay8910Load fun input => 108 + 10 * (data32Of ((input.drop 104).take 4)).toNat := by
  have hwords := takes_all_map (List.range ayWords) fun i => takes_field (ε := Fault) 4
    fun serialized (ay : CAY8910) =>
      .ok { ay with words := Function.update ay.words i (data32Of serialized) }
  have hregs := takes_all_map (List.range ayRegisters) fun i => takes_byteField
    fun (ay : CAY8910) v =>
      { ay with soundAyRegisters := Function.update ay.soundAyRegisters i v }
  intro ay input ay' rest loaded h
  have htaken := hwords.andThen (hregs.andThen takes_changes) ay input ay' rest loaded h
  simp only [List.length_range, ayWords, ayRegisters, List.drop_drop, Nat.reduceMul,
    Nat.reduceAdd] at htaken
  rw [← Nat.add_assoc, ← Nat.add_assoc] at htaken
  exact htaken

theorem takes_ssi263Load : Takes ssi263Load fun _ => 6 :=
  (takes_byteField _).andThen <| (takes_byteField _).andThen <| (takes_byteField _).andThen <|
    (takes_byteField _).andThen <| (takes_byteField _).andThen <| (takes_byteField _).andThen <|
    takes_step id

theorem takes_unitRest (n : ℕ) : Takes (unitRest n) fun input =>
    108 + 10 * (data32Of ((input.drop 104).take 4)).toNat + (6 + (1 + 0)) :=
  takes_ay8910Load.on.andThen
    (takes_ssi263Load.on.andThen ((takes_byteField _).andThen (takes_step _)))

theorem takes_unitLoad (n : ℕ) :
    Takes (unitLoad n) fun input => 132 + 10 * fileChanges input 0 := by
  have h : Takes (unitLoad n) fun input => 17 +
      (108 + 10 * (data32Of (((input.drop 17).drop 104).take 4)).toNat + (6 + (1 + 0))) :=
    takes_sy6522Load.on.andThen (takes_unitRest n)
  intro card input card' rest loaded hl
  have htaken := h card input card' rest loaded hl
  have hsum : 132 + 10 * fileChanges input 0 =
      17 + (108 + 10 * (data32Of ((input.drop 121).take 4)).toNat + (6 + (1 + 0))) := by
    rw [fileChanges, Nat.zero_add]
    omega
  simp only [List.drop_drop, Nat.reduceAdd, ← hsum] at htaken ⊢
  exact htaken

/-- What is loaded of a device after its 6522 does not touch the interrupts. -/
theorem keeps_unitRest (n : ℕ) : Keeps line (unitRest n) := by
  apply Keeps.andThen
  · exact Keeps.on fun _ _ => rfl
  · apply Keeps.andThen
    · apply Keeps.on
      intro card ssi263
      exact line_setUnit card rfl rfl
    · apply Keeps.andThen
      · apply keeps_byteField
        intro card v
        exact line_setUnit card rfl rfl
      · exact keeps_step fun card => line_startTimer card n

theorem unitLoad_cases (h : unitLoad n card input = .ok (card', rest, loaded)) :
    ∃ r left got, sy6522Load (card.regs n) input = .ok (r, left, got) ∧
      line card' = line (card.setRegs n r) := by
  obtain ⟨one, left, hon, hs⟩ | ⟨-, hon⟩ := andThen_cases h
  · obtain ⟨r, hr, rfl⟩ := on_cases hon
    exact ⟨r, left, true, hr, keeps_unitRest n _ _ _ _ _ hs⟩
  · obtain ⟨r, hr, rfl⟩ := on_cases hon
    exact ⟨r, rest, false, hr, rfl⟩

theorem unitLoad_flags (h : unitLoad n card input = .ok (card', rest, loaded)) (i : ℕ) :
    (card'.regs i).ifr = (if i = n then input.getD 15 (card.regs i).ifr else (card.regs i).ifr) ∧
      (card'.regs i).ier =
        (if i = n then input.getD 16 (card.regs i).ier else (card.regs i).ier) := by
  obtain ⟨r, left, got, hr, hl⟩ := unitLoad_cases h
  obtain ⟨hifr, hier⟩ := sy6522Load_flags hr
  rw [ifr_eq hl, ier_eq hl, regs_setRegs]
  by_cases hi : i = n
  · subst hi
    rw [if_pos rfl, if_pos rfl, if_pos rfl]
    exact ⟨hifr, hier⟩
  · rw [if_neg hi, if_neg hi, if_neg hi]
    exact ⟨rfl, rfl⟩

theorem unitLoad_signal (h : unitLoad n card input = .ok (card', rest, loaded)) :
    card'.cpu65Signal = card.cpu65Signal := by
  obtain ⟨r, left, got, -, hl⟩ := unitLoad_cases h
  exact congrArg Prod.snd hl

theorem fileByte_drop (input : List UInt8) (start k : ℕ) (d : UInt8) :
    (input.drop start).getD k d = input.getD (start + k) d := by
  simp only [List.getD_eq_getElem?_getD, List.getElem?_drop]

theorem unitStart_mono (input : List UInt8) {n i : ℕ} (h : n ≤ i) :
    unitStart input n ≤ unitStart input i := by
  induction h with
  | refl => exact Nat.le_refl _
  | step h ih => exact ih.trans (Nat.le_add_right _ _)

/-- The devices from `n` on are loaded from where they start in the file. -/
theorem units_flags (m : ℕ) (h : all ((List.range' n m).map unitLoad) card
      (input.drop (unitStart input n)) = .ok (card', rest, loaded)) :
    card'.cpu65Signal = card.cpu65Signal ∧
      ∀ i, (card'.regs i).ifr =
          (if n ≤ i ∧ i < n + m then fileIfr input i (card.regs i).ifr else (card.regs i).ifr) ∧
        (card'.regs i).ier =
          (if n ≤ i ∧ i < n + m then fileIer input i (card.regs i).ier else (card.regs i).ier) := by
  induction m generalizing n card with
  | zero =>
    cases h
    refine ⟨rfl, fun i => ?_⟩
    have hi : ¬ (n ≤ i ∧ i < n + 0) := by omega
    rw [if_neg hi, if_neg hi]
    exact ⟨rfl, rfl⟩
  | succ m ih =>
    rw [List.range'_succ, List.map_cons] at h
    obtain ⟨one, left, hu, hs⟩ | ⟨rfl, hu⟩ := andThen_cases h
    · have htaken := takes_unitLoad n card _ one left true hu
      have hleft : left = input.drop (unitStart input (n + 1)) := by
        rw [htaken.rest_eq, List.drop_drop]
        simp only [unitStart, fileChanges, List.drop_drop, Nat.zero_add]
      rw [hleft] at hs
      obtain ⟨hsignal, hflags⟩ := ih hs
      refine ⟨hsignal.trans (unitLoad_signal hu), fun i => ?_⟩
      obtain ⟨hifr, hier⟩ := unitLoad_flags hu i
      rw [fileByte_drop] at hifr hier
      rw [(hflags i).1, (hflags i).2, hifr, hier]
      by_cases hin : i = n
      · subst hin
        have hno : ¬ (i + 1 ≤ i ∧ i < i + 1 + m) := by omega
        have hyes : i ≤ i ∧ i < i + (m + 1) := by omega
        rw [if_neg hno, if_pos rfl, if_pos hyes, if_neg hno, if_pos rfl, if_pos hyes]
        exact ⟨rfl, rfl⟩
      · rw [if_neg hin, if_neg hin]
        have hsame : (n + 1 ≤ i ∧ i < n + 1 + m) ↔ (n ≤ i ∧ i < n + (m + 1)) := by omega
        simp only [hsame]
        exact ⟨trivial, trivial⟩
    · have htaken := takes_unitLoad n card _ card' rest false hu
      refine ⟨unitLoad_signal hu, fun i => ?_⟩
      obtain ⟨hifr, hier⟩ := unitLoad_flags hu i
      rw [fileByte_drop] at hifr hier
      rw [hifr, hier]
      have hlen : input.length < unitStart input (n + 1) := by
        obtain ⟨hf, -⟩ | ⟨-, hlen⟩ := htaken
        · cases hf
        · simp only [unitStart, fileChanges, List.drop_drop, Nat.zero_add,
            List.length_drop] at hlen ⊢
          omega
      by_cases hin : i = n
      · subst hin
        have hyes : i ≤ i ∧ i < i + (m + 1) := by omega
        rw [if_pos rfl, if_pos rfl, if_pos hyes, if_pos hyes]
        exact ⟨rfl, rfl⟩
      · rw [if_neg hin, if_neg hin]
        by_cases hi : n ≤ i ∧ i < n + (m + 1)
        · have hmono := unitStart_mono input (show n + 1 ≤ i by omega)
          rw [if_pos hi, if_pos hi, fileIfr, fileIer, List.getD_eq_default _ _ (by omega),
            List.getD_eq_default _ _ (by omega)]
          exact ⟨rfl, rfl⟩
        · rw [if_neg hi, if_neg hi]
          exact ⟨rfl, rfl⟩

end Load

/-! ## Steps and runs -/

/-- The flags of a device after a load, and its mask. -/
def heldIfr (host : Host) (card : Card) (input : List UInt8) (i : ℕ) : UInt8 :=
  fileIfr input i (afterReset host card i).ifr

def heldIer (host : Host) (card : Card) (input : List UInt8) (i : ℕ) : UInt8 :=
  fileIer input i (afterReset host card i).ier

/-- The step is not a reset while the interrupt is pending, nor the load of a file whose flags do
not fit each other or whether the interrupt is pending now. -/
def Clean (host : Host) (card : Card) : Step → Prop
  | .reset => host.audioIsAvailable = true → ¬ Pending card
  | .loadState _ input =>
    (∀ i < numSY6522, Flagged (heldIfr host card input i) (heldIer host card input i)) ∧
      (Pending card ↔ ∃ i < numSY6522, heldIfr host card input i &&& 0x80 ≠ 0)
  | _ => True

section Steps
variable {host : Host} {card card' : Card}

theorem lineInv_iff {ifr ier : ℕ → UInt8}
    (h : ∀ i < numSY6522, (card'.regs i).ifr = ifr i ∧ (card'.regs i).ier = ier i)
    (hsignal : card'.cpu65Signal = card.cpu65Signal) :
    LineInv card' ↔ (∀ i < numSY6522, Flagged (ifr i) (ier i)) ∧
      (Pending card ↔ ∃ i < numSY6522, ifr i &&& 0x80 ≠ 0) := by
  have hp : Pending card' ↔ Pending card := by
    unfold Pending
    rw [hsignal]
  have hex : (∃ i < numSY6522, (card'.regs i).ifr &&& 0x80 ≠ 0) ↔
      ∃ i < numSY6522, ifr i &&& 0x80 ≠ 0 := by
    constructor
    · rintro ⟨i, hi, hb⟩
      rw [(h i hi).1] at hb
      exact ⟨i, hi, hb⟩
    · rintro ⟨i, hi, hb⟩
      refine ⟨i, hi, ?_⟩
      rw [(h i hi).1]
      exact hb
  constructor
  · intro hl
    refine ⟨fun i hi => ?_, ?_⟩
    · have hf := hl.flagged i hi
      rw [(h i hi).1, (h i hi).2] at hf
      exact hf
    · rw [← hp, ← hex]
      exact hl.pending
  · rintro ⟨hf, hpend⟩
    refine ⟨fun i hi => ?_, ?_⟩
    · rw [(h i hi).1, (h i hi).2]
      exact hf i hi
    · rw [hp, hex]
      exact hpend

/-- With all registers cleared nothing may be pending. -/
theorem lineInv_cleared (h : ∀ i < numSY6522, card'.regs i = .zero)
    (hsignal : card'.cpu65Signal = card.cpu65Signal) : LineInv card' ↔ ¬ Pending card := by
  have hzero : ∀ i < numSY6522, (card'.regs i).ifr = 0 ∧ (card'.regs i).ier = 0 := by
    intro i hi
    rw [h i hi]
    exact ⟨rfl, rfl⟩
  rw [lineInv_iff hzero hsignal]
  constructor
  · rintro ⟨-, hp⟩ hpend
    obtain ⟨i, -, hb⟩ := hp.mp hpend
    exact hb rfl
  · intro hpend
    refine ⟨fun i _ => Iff.rfl, fun hp => absurd hp hpend, ?_⟩
    rintro ⟨i, -, hb⟩
    exact absurd rfl hb

theorem line_reset (h : LineInv card) :
    LineInv (mbReset host card) ↔ Clean host card .reset := by
  cases ha : host.audioIsAvailable with
  | false =>
    have hsame : mbReset host card = card := by
      unfold mbReset
      rw [ha]
      rfl
    rw [hsame]
    exact iff_of_true h fun ht => by simp [ha] at ht
  | true =>
    have hregs : ∀ i < numSY6522, (mbReset host card).regs i = .zero := by
      intro i hi
      rw [regs_mbReset host card hi, afterReset, ha, if_pos rfl]
    rw [lineInv_cleared hregs (signal_mbReset host card)]
    exact ⟨fun hp _ => hp, fun hp => hp ha⟩

theorem mbLoadState_flags {cycles : ℕ} {input rest : List UInt8} {loaded : Bool}
    (h : mbLoadState host card cycles input = .ok (card', rest, loaded)) :
    card'.cpu65Signal = card.cpu65Signal ∧ ∀ i < numSY6522,
      (card'.regs i).ifr = heldIfr host card input i ∧
        (card'.regs i).ier = heldIer host card input i := by
  unfold mbLoadState at h
  cases hl : all ((List.range numSY6522).map unitLoad) (mbBeforeLoad host card cycles) input with
  | error e => simp [hl] at h
  | ok x =>
    obtain ⟨one, left, got⟩ := x
    simp only [hl, Except.ok.injEq, Prod.mk.injEq] at h
    obtain ⟨rfl, rfl, rfl⟩ := h
    rw [List.range_eq_range'] at hl
    obtain ⟨hsignal, hflags⟩ := units_flags (n := 0) numSY6522 hl
    have hafter : line (if got then mbReinitialize host one else one) = line one := by
      split
      · rfl
      · rfl
    refine ⟨(signal_eq hafter).trans (hsignal.trans (signal_mbReset host card)), ?_⟩
    intro i hi
    have hin : 0 ≤ i ∧ i < 0 + numSY6522 := by omega
    obtain ⟨hifr, hier⟩ := hflags i
    have hregs : (mbBeforeLoad host card cycles).regs i = afterReset host card i :=
      regs_mbReset host card hi
    rw [if_pos hin, hregs] at hifr hier
    rw [ifr_eq hafter, ier_eq hafter]
    exact ⟨hifr, hier⟩

/-- Only a reset and a load can break what holds of the interrupt, and only when they are not
clean. -/
theorem line_step {a : Step} (h : LineInv card) (hs : step host card a = .ok card') :
    LineInv card' ↔ Clean host card a := by
  cases a with
  | reset =>
    cases hs
    exact line_reset h
  | loadState cycles input =>
    simp only [step] at hs
    cases hl : mbLoadState host card cycles input with
    | error e => simp [hl] at hs
    | ok x =>
      obtain ⟨one, rest, loaded⟩ := x
      simp only [hl, Except.ok.injEq] at hs
      subst hs
      obtain ⟨hsignal, hflags⟩ := mbLoadState_flags hl
      exact lineInv_iff hflags hsignal
  | _ => exact iff_of_true (line_kept.step h (by simp) (by simp) hs) trivial

theorem line_start (host : Host) (soundcardType : CardType) (sound : Sound) (signal : UInt8) :
    LineInv (mbInitialize host (.static soundcardType sound signal)) ↔ signal &&& is6522 = 0 := by
  have hregs : ∀ i < numSY6522,
      (mbInitialize host (.static soundcardType sound signal)).regs i = .zero := by
    intro i hi
    unfold mbInitialize
    rw [regs_mbReset host _ hi, afterReset]
    split
    · rfl
    · rfl
  have hsignal : (mbInitialize host (.static soundcardType sound signal)).cpu65Signal =
      (Card.static soundcardType sound signal).cpu65Signal := signal_mbReset host _
  rw [lineInv_cleared hregs hsignal]
  exact not_not

end Steps

/-- **Interrupts.** From `MB_Initialize`, the flags of the 6522s and the interrupt fit each other in
all states that a run comes through exactly when the interrupt was not pending at first and all
resets and loads are clean. -/
theorem interrupt_line (host : Host) (soundcardType : CardType) (sound : Sound) (signal : UInt8)
    (as : List Step) (card' : Card)
    (h : runM (step host) (mbInitialize host (.static soundcardType sound signal)) as = .ok card') :
    (∀ pre post card, as = pre ++ post →
      runM (step host) (mbInitialize host (.static soundcardType sound signal)) pre = .ok card →
      LineInv card) ↔
    signal &&& is6522 = 0 ∧
      Along (step host) (Clean host) (mbInitialize host (.static soundcardType sound signal))
        as := by
  by_cases hs : signal &&& is6522 = 0
  · have hinit := (line_start host soundcardType sound signal).mpr hs
    rw [along_iff_invariant LineInv (fun card a card'' => line_step) hinit h]
    exact ⟨fun ha => ⟨hs, ha⟩, And.right⟩
  · refine iff_of_false ?_ fun hboth => hs hboth.1
    intro hall
    have hinit := hall [] as _ rfl rfl
    exact hs ((line_start host soundcardType sound signal).mp hinit)

/-- A host that makes no sound. -/
def quietHost : Host where
  audioIsAvailable := true
  ayReset := id
  initClock := id
  mbUpdate := Card.sound
  floatingBus := fun _ => 0

def silence : Sound where
  ay := fun _ => ⟨fun _ => 0, fun _ => 0, fun _ => ⟨0, 0, 0, 0⟩, 0⟩
  uLastCumulativeCycles := 0
  bMBRegAccessedFlag := false
  bMBActive := false
  nMBInActiveCycleCount := 0

/-- Timer 1 of the first 6522 is started with its interrupt enabled, and runs out. -/
def timerRunsOut : List Step :=
  [.write 0xC40E 0xC0 0, .write 0xC404 0 0, .write 0xC405 0 0, .updateCycles 1]

theorem interrupt_line_small :
    ∃ card', runM (step quietHost) (mbInitialize quietHost (.static .mockingboardC silence 0))
      timerRunsOut = .ok card' ∧ LineInv card' := by
  refine ⟨_, rfl, ?_⟩
  refine (interrupt_line quietHost .mockingboardC silence 0 timerRunsOut _ rfl).mpr ⟨rfl, ?_⟩
    timerRunsOut [] _ (List.append_nil _).symm rfl
  intro before a after t heq _
  have ha : a ∈ timerRunsOut := by
    rw [heq]
    exact List.mem_append_right _ (List.mem_cons_self ..)
  simp only [timerRunsOut, List.mem_cons, List.not_mem_nil, or_false] at ha
  obtain rfl | rfl | rfl | rfl := ha
  · trivial
  · trivial
  · trivial
  · trivial

/-- The interrupt is pending although no 6522 asks for it. -/
def pendingAlone (card : Card) : Bool :=
  card.cpu65Signal &&& is6522 ≠ 0 &&
    (List.range numSY6522).all fun i => (card.regs i).ifr &&& 0x80 = 0

theorem not_lineInv {card : Card} (h : pendingAlone card = true) : ¬ LineInv card := by
  intro hl
  unfold pendingAlone at h
  rw [Bool.and_eq_true, decide_eq_true_eq, List.all_eq_true] at h
  obtain ⟨i, hi, hb⟩ := hl.pending.mp h.1
  have hnone := h.2 i (List.mem_range.mpr hi)
  rw [decide_eq_true_eq] at hnone
  exact hb hnone

/-- A saved state in which nothing was ever done. -/
def clearedState : List UInt8 := List.replicate 528 0

/-- The run ends, with the interrupt pending although no 6522 asks for it. -/
def endsPendingAlone (run : Except Fault Card) : Bool :=
  match run with
  | .ok card => pendingAlone card
  | .error _ => false

/-- The timer has run out, and a state is loaded in which it has not. -/
theorem load_leaves_interrupt :
    ∃ card', runM (step quietHost) (mbInitialize quietHost (.static .mockingboardC silence 0))
      (timerRunsOut ++ [.loadState 1 clearedState]) = .ok card' ∧ ¬ LineInv card' := by
  have h : endsPendingAlone (runM (step quietHost)
      (mbInitialize quietHost (.static .mockingboardC silence 0))
      (timerRunsOut ++ [.loadState 1 clearedState])) = true := by decide +kernel
  cases hr : runM (step quietHost) (mbInitialize quietHost (.static .mockingboardC silence 0))
      (timerRunsOut ++ [.loadState 1 clearedState]) with
  | error e =>
    rw [hr] at h
    cases h
  | ok card =>
    rw [hr] at h
    exact ⟨card, rfl, not_lineInv h⟩

end Apple2ix.Mockingboard
