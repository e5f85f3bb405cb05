import Mathlib.Tactic.IntervalCases
import Apple2ix.Audio.MockingboardTimers

/-! What is saved of the Mockingboards and loaded again: the registers come back, and the running
timer is taken for that of the last device with an interrupt for it. -/
namespace Apple2ix.Mockingboard
open Runs Loader
set_option autoImplicit false

/-! ## Numbers -/

theorem data32Of_data32 (data : UInt32) : data32Of (data32 data) = data := by
  apply UInt32.toBitVec_inj.mp
  apply BitVec.eq_of_getLsbD_eq
  intro i hi
  interval_cases i <;> simp [data32Of, data32, -UInt32.toUInt32_toUInt8]

theorem setWord_wordBytes (w v : UInt16) : setWord w (wordBytes v) = v := by
  apply UInt16.toBitVec_inj.mp
  apply BitVec.eq_of_getLsbD_eq
  intro i hi
  interval_cases i <;>
    simp [setWord, wordBytes, setLow, setHigh, -UInt16.toUInt16_toUInt8]

theorem ofs_le (w : UInt16) : w.toUInt32 ≤ 65535 := by
  have h := w.toNat_lt
  rw [UInt32.le_iff_toNat_le, UInt16.toNat_toUInt32]
  have hmax : (65535 : UInt32).toNat = 65535 := rfl
  omega

theorem count_lt {n : ℕ} (h : n ≤ ayChangeMax) :
    (UInt32.ofNat n).toNat = n ∧ UInt32.ofNat n < 0x80000000 := by
  unfold ayChangeMax at h
  have hn : (UInt32.ofNat n).toNat = n := by
    rw [UInt32.toNat_ofNat']
    omega
  refine ⟨hn, ?_⟩
  rw [UInt32.lt_iff_toNat_lt, hn]
  have hmax : (0x80000000 : UInt32).toNat = 0x80000000 := rfl
  omega

/-! ## Fields -/

theorem reads_byteField {σ : Type*} (put : σ → UInt8 → σ) (s : σ) (v : UInt8) :
    Reads (byteField put) s [v] (put s v) :=
  fun _ => rfl

/-- All registers of a 6522 come back but for one, which is not saved. -/
theorem reads_sy6522 (r saved : SY6522) :
    Reads sy6522Load r (sy6522Chunks saved).flatten { saved with oraNoHs := r.oraNoHs } := by
  intro rest
  have h : sy6522Load r ((sy6522Chunks saved).flatten ++ rest) =
      .ok ({ saved with
        timer1Counter := setWord r.timer1Counter (wordBytes saved.timer1Counter)
        timer1Latch := setWord r.timer1Latch (wordBytes saved.timer1Latch)
        timer2Counter := setWord r.timer2Counter (wordBytes saved.timer2Counter)
        timer2Latch := setWord r.timer2Latch (wordBytes saved.timer2Latch)
        oraNoHs := r.oraNoHs }, rest, true) := rfl
  rw [h]
  simp only [setWord_wordBytes]

theorem reads_ssi263 (s saved : SSI263A) :
    Reads ssi263Load s (ssi263Chunks saved).flatten saved :=
  fun _ => rfl

/-! ## AY8910 -/

/-- What is saved of an AY8910 with no more changes than there may be. -/
def ay8910Bytes (ay : CAY8910) : List UInt8 :=
  (List.range ayWords).flatMap (fun i => data32 (ay.words i)) ++
    ((List.range ayRegisters).flatMap (fun i => [ay.soundAyRegisters i]) ++
      (data32 (UInt32.ofNat ay.ayChangeCount) ++
        (List.range ay.ayChangeCount).flatMap fun i => (changeChunks (ay.ayChange i)).flatten))

theorem reads_changeLoad {i : ℕ} (hi : i < ayChangeMax) (ay : CAY8910) (change : AyChange) :
    ∃ ay', Reads (changeLoad i) ay (changeChunks change).flatten ay' := by
  have hofs : data32Of (data32 change.ofs.toUInt32) ≤ 65535 := by
    rw [data32Of_data32]
    exact ofs_le _
  exact ⟨_, Reads.all_cons (reads_field rfl (if_pos hi)) <|
    Reads.all_cons (reads_field rfl (if_pos hofs)) <|
    (reads_byteField _ _ change.reg).all_cons <|
    (reads_byteField _ _ change.val).all_cons reads_all_nil⟩

theorem reads_ay8910 (ay saved : CAY8910) (h : saved.ayChangeCount ≤ ayChangeMax) :
    ∃ ay', Reads ay8910Load ay (ay8910Bytes saved) ay' := by
  obtain ⟨hcount, hlt⟩ := count_lt h
  have hword : ∀ (i : ℕ) (ay : CAY8910), ∃ ay', Reads (field 4 fun serialized (ay : CAY8910) =>
      (.ok { ay with words := Function.update ay.words i (data32Of serialized) } :
        Except Fault CAY8910)) ay (data32 (saved.words i)) ay' :=
    fun i ay => ⟨_, reads_field rfl rfl⟩
  obtain ⟨one, hwords⟩ := reads_all_map (List.range ayWords) (fun i _ => hword i) ay
  obtain ⟨two, hregs⟩ := reads_all_map (List.range ayRegisters) (fun i _ (ay : CAY8910) =>
    ⟨_, reads_byteField (fun (ay : CAY8910) v =>
      { ay with soundAyRegisters := Function.update ay.soundAyRegisters i v }) ay
      (saved.soundAyRegisters i)⟩) one
  have hnum : data32Of (data32 (UInt32.ofNat saved.ayChangeCount)) < 0x80000000 := by
    rw [data32Of_data32]
    exact hlt
  have hload : Reads changeCountLoad two (data32 (UInt32.ofNat saved.ayChangeCount))
      { two with ayChangeCount := saved.ayChangeCount } := by
    refine reads_field rfl ?_
    rw [if_pos hnum, data32Of_data32, hcount]
  obtain ⟨three, hchanges⟩ := reads_all_map (List.range saved.ayChangeCount) (fun i hi ay =>
    reads_changeLoad (lt_of_lt_of_le (List.mem_range.mp hi) h) ay (saved.ayChange i))
    { two with ayChangeCount := saved.ayChangeCount }
  exact ⟨three, hwords.andThen (hregs.andThen (hload.andThen (Reads.among hchanges)))⟩

/-! ## Devices -/

/-- The timer of a device is started by a load: it is the first device of its card, and the
interrupt of the timer is enabled. -/
def StartsTimer (card : Card) (i : ℕ) : Prop := i % 2 = 0 ∧ (card.regs i).ier &&& ixrTimer1 ≠ 0

instance (card : Card) (i : ℕ) : Decidable (StartsTimer card i) :=
  inferInstanceAs (Decidable (_ ∧ _))

section Start
variable {card : Card} {n : ℕ}

theorem current_setUnit (card : Card) {n : ℕ} {u : Unit6522}
    (h : u.nAYCurrentRegister = (card.mb n).nAYCurrentRegister) (i : ℕ) :
    ((card.setUnit n u).mb i).nAYCurrentRegister = (card.mb i).nAYCurrentRegister := by
  rw [mb_setUnit]
  by_cases hi : i = n
  · rw [if_pos hi, h, hi]
  · rw [if_neg hi]

theorem current_startTimer (card : Card) (n i : ℕ) :
    ((startTimer card n).mb i).nAYCurrentRegister = (card.mb i).nAYCurrentRegister := by
  unfold startTimer
  simp only []
  split
  · rfl
  · split
    · rfl
    · refine current_setUnit card ?_ i
      rfl

theorem device_startTimer (hn : (card.mb n).nAY8910Number = n) :
    (startTimer card n).nMBTimerDevice =
      if StartsTimer card n then some n else card.nMBTimerDevice := by
  unfold startTimer StartsTimer Card.regs
  simp only [hn]
  by_cases heven : n % 2 = 0
  · by_cases hier : (card.mb n).sy6522.ier &&& ixrTimer1 = 0
    · simp [heven, hier]
    · simp [heven, hier]
  · simp [heven]

end Start

/-- What is saved of a device. -/
def unitBytes (saved : Card) (n : ℕ) : List UInt8 :=
  (sy6522Chunks (saved.regs n)).flatten ++ (ay8910Bytes (saved.sound.ay n) ++
    ((ssi263Chunks (saved.mb n).speechChip).flatten ++ ([(saved.mb n).nAYCurrentRegister] ++ [])))

/-- What a load of a saved device has restored before the timer is started. -/
def withUnit (card saved : Card) (n : ℕ) (ay : CAY8910) : Card :=
  ((((card.setRegs n { saved.regs n with oraNoHs := (card.regs n).oraNoHs }).setAy n ay
    ).setSpeechChip n (saved.mb n).speechChip
    ).setCurrentRegister n (saved.mb n).nAYCurrentRegister)

theorem reads_unitLoad (card saved : Card) (n : ℕ)
    (h : (saved.sound.ay n).ayChangeCount ≤ ayChangeMax) :
    ∃ ay, Reads (unitLoad n) card (unitBytes saved n)
      (startTimer (withUnit card saved n ay) n) := by
  obtain ⟨ay, hay⟩ := reads_ay8910 (card.sound.ay n) (saved.sound.ay n) h
  refine ⟨ay, ?_⟩
  unfold unitLoad unitRest unitBytes
  refine Reads.andThen (Reads.on (reads_sy6522 (card.regs n) (saved.regs n))) ?_
  refine Reads.andThen (Reads.on hay) ?_
  refine Reads.andThen (Reads.on (reads_ssi263 _ (saved.mb n).speechChip)) ?_
  refine Reads.andThen (reads_byteField _ _ (saved.mb n).nAYCurrentRegister) ?_
  exact reads_step fun card => startTimer card n

theorem regs_withUnit (card saved : Card) (n : ℕ) (ay : CAY8910) (i : ℕ) :
    (withUnit card saved n ay).regs i =
      if i = n then { saved.regs n with oraNoHs := (card.regs n).oraNoHs } else card.regs i := by
  have hspeech : ∀ (c : Card) s, (c.setSpeechChip n s).regs = c.regs :=
    fun c s => regs_setUnit_same c rfl
  have hcurrent : ∀ (c : Card) v, (c.setCurrentRegister n v).regs = c.regs :=
    fun c v => regs_setUnit_same c rfl
  unfold withUnit
  rw [hcurrent, hspeech]
  exact regs_setRegs card n _ i

theorem current_withUnit (card saved : Card) (n : ℕ) (ay : CAY8910) (i : ℕ) :
    ((withUnit card saved n ay).mb i).nAYCurrentRegister =
      if i = n then (saved.mb n).nAYCurrentRegister else (card.mb i).nAYCurrentRegister := by
  unfold withUnit Card.setCurrentRegister
  rw [mb_setUnit]
  by_cases hi : i = n
  · rw [if_pos hi, if_pos hi]
  · rw [if_neg hi, if_neg hi]
    refine (current_setUnit _ ?_ i).trans ?_
    · rfl
    · refine current_setUnit card ?_ i
      rfl

theorem number_withUnit (card saved : Card) (n : ℕ) (ay : CAY8910) :
    ((withUnit card saved n ay).mb n).nAY8910Number = (card.mb n).nAY8910Number := by
  unfold withUnit Card.setCurrentRegister Card.setSpeechChip Card.setRegs
  simp only [mb_setUnit, if_true, Card.setAy, Card.setSound]

/-- The devices of a list are loaded one after another. -/
theorem reads_units {card : Card} {k : CardType} (hc : TimerInv k card) (saved : Card) (is : List ℕ)
    (his : ∀ i ∈ is, i < numSY6522)
    (hcount : ∀ i ∈ is, (saved.sound.ay i).ayChangeCount ≤ ayChangeMax) :
    ∃ t, Reads (all (is.map unitLoad)) card (is.flatMap (unitBytes saved)) t ∧
      (∀ i < numSY6522, t.regs i =
        if i ∈ is then { saved.regs i with oraNoHs := 0 } else card.regs i) ∧
      (∀ i, (t.mb i).nAYCurrentRegister =
        if i ∈ is then (saved.mb i).nAYCurrentRegister else (card.mb i).nAYCurrentRegister) ∧
      t.nMBTimerDevice =
        is.foldl (fun d i => if StartsTimer saved i then some i else d) card.nMBTimerDevice ∧
      TimerInv k t := by
  induction is generalizing card with
  | nil =>
    refine ⟨card, reads_all_nil, ?_, ?_, rfl, hc⟩
    · simp
    · simp
  | cons n is ih =>
    have hn := his n (List.mem_cons_self ..)
    obtain ⟨ay, hread⟩ := reads_unitLoad card saved n (hcount n (List.mem_cons_self ..))
    have hone := timer_unitLoad hn card _ _ [] true hc (hread [])
    obtain ⟨t, ht, hregs, hcurrent, hdevice, htimer⟩ := ih hone
      (fun i hi => his i (List.mem_cons_of_mem _ hi))
      fun i hi => hcount i (List.mem_cons_of_mem _ hi)
    refine ⟨t, hread.all_cons ht, ?_, ?_, ?_, htimer⟩
    · intro i hi
      rw [hregs i hi, regs_startTimer, regs_withUnit, hc.noHs n hn]
      by_cases hmem : i ∈ is
      · rw [if_pos hmem, if_pos (List.mem_cons_of_mem _ hmem)]
      · rw [if_neg hmem]
        by_cases hin : i = n
        · rw [if_pos hin, if_pos (hin ▸ List.mem_cons_self ..), hin]
        · rw [if_neg hin, if_neg fun hm => (List.mem_cons.mp hm).elim hin hmem]
    · intro i
      rw [hcurrent i, current_startTimer, current_withUnit]
      by_cases hmem : i ∈ is
      · rw [if_pos hmem, if_pos (List.mem_cons_of_mem _ hmem)]
      · rw [if_neg hmem]
        by_cases hin : i = n
        · rw [if_pos hin, if_pos (hin ▸ List.mem_cons_self ..), hin]
        · rw [if_neg hin, if_neg fun hm => (List.mem_cons.mp hm).elim hin hmem]
    · have hnumber : ((withUnit card saved n ay).mb n).nAY8910Number = n :=
        (number_withUnit card saved n ay).trans (hc.number n hn)
      have hstarts : StartsTimer (withUnit card saved n ay) n ↔ StartsTimer saved n := by
        unfold StartsTimer
        rw [regs_withUnit, if_pos rfl]
      rw [hdevice, List.foldl_cons, device_startTimer hnumber]
      congr 1
      exact if_congr hstarts rfl rfl

/-! ## The file -/

/-- The timer that a load of the saved state starts: that of the first device of the second card if
its interrupt is enabled, and otherwise that of the first device of the first card. -/
def derivedTimer (saved : Card) : Option ℕ :=
  if (saved.regs 2).ier &&& ixrTimer1 ≠ 0 then some 2
  else if (saved.regs 0).ier &&& ixrTimer1 ≠ 0 then some 0
  else none

theorem derivedTimer_eq (saved : Card) :
    (List.range numSY6522).foldl (fun d i => if StartsTimer saved i then some i else d) none =
      derivedTimer saved := by
  have hrange : List.range numSY6522 = [0, 1, 2, 3] := rfl
  rw [hrange]
  simp [StartsTimer, derivedTimer]

section File
variable {host : Host} {card saved : Card}

/-- What is saved of an AY8910, call by call. -/
def ay8910Saved (ay : CAY8910) : List (List UInt8) :=
  (List.range ayWords).map (fun i => data32 (ay.words i)) ++
    ((List.range ayRegisters).map (fun i => [ay.soundAyRegisters i]) ++
      (data32 (UInt32.ofNat ay.ayChangeCount) ::
        (List.range ay.ayChangeCount).flatMap fun i => changeChunks (ay.ayChange i)))

theorem flatten_ay8910Saved (ay : CAY8910) : (ay8910Saved ay).flatten = ay8910Bytes ay := by
  unfold ay8910Saved ay8910Bytes
  simp only [List.flatten_append, List.flatten_cons, List.flatMap_def, List.flatten_flatten,
    List.map_map]
  rfl

theorem ay8910Chunks_ok (ay : CAY8910) (h : ay.ayChangeCount ≤ ayChangeMax) :
    ay8910Chunks ay = (ay8910Saved ay).map .ok := by
  have hchanges : ((List.range ay.ayChangeCount).flatMap fun i =>
        if i < ayChangeMax then (changeChunks (ay.ayChange i)).map (.ok : _ → Except Fault _)
        else [.error .overrun]) =
      ((List.range ay.ayChangeCount).flatMap fun i => changeChunks (ay.ayChange i)).map .ok := by
    rw [List.map_flatMap]
    apply List.flatMap_congr
    intro i hi
    rw [if_pos (lt_of_lt_of_le (List.mem_range.mp hi) h)]
  unfold ay8910Chunks ay8910Saved
  rw [hchanges]
  simp only [List.map_append, List.map_cons, List.map_map]
  rfl

/-- A state that is saved without an error has no more changes than there may be. -/
theorem count_le_of_saved (ay : CAY8910) (h : ∀ call ∈ ay8910Chunks ay, ∃ bytes, call = .ok bytes) :
    ay.ayChangeCount ≤ ayChangeMax := by
  by_contra hlt
  have hmem : (.error .overrun : Except Fault (List UInt8)) ∈ ay8910Chunks ay := by
    unfold ay8910Chunks
    apply List.mem_append_right
    apply List.mem_append_right
    apply List.mem_cons_of_mem
    refine List.mem_flatMap.mpr ⟨ayChangeMax, List.mem_range.mpr (by omega), ?_⟩
    rw [if_neg (Nat.lt_irrefl _)]
    exact List.mem_singleton_self _
  obtain ⟨bytes, hb⟩ := h _ hmem
  cases hb

/-- What is saved of a device, call by call. -/
def unitSaved (card : Card) (n : ℕ) : List (List UInt8) :=
  sy6522Chunks (card.regs n) ++ (ay8910Saved (card.sound.ay n) ++
    (ssi263Chunks (card.mb n).speechChip ++ [[(card.mb n).nAYCurrentRegister]]))

theorem flatten_unitSaved (card : Card) (n : ℕ) :
    (unitSaved card n).flatten = unitBytes card n := by
  unfold unitSaved unitBytes
  rw [List.flatten_append, List.flatten_append, List.flatten_append, flatten_ay8910Saved]
  rfl

theorem unitChunks_ok (card : Card) (n : ℕ)
    (h : (card.sound.ay n).ayChangeCount ≤ ayChangeMax) :
    unitChunks card n = (unitSaved card n).map .ok := by
  unfold unitChunks unitSaved
  rw [ay8910Chunks_ok _ h, List.map_append, List.map_append, List.map_append]
  rfl

/-- The bytes that a successful save writes. -/
theorem mbSaveState_file {helper saved : StateHelper}
    (h : mbSaveState helper card = .ok (saved, true)) :
    (∀ i ∈ List.range numSY6522, (card.sound.ay i).ayChangeCount ≤ ayChangeMax) ∧
      saved.file = helper.file ++ (List.range numSY6522).flatMap (unitBytes card) := by
  obtain ⟨chunks, hcalls, hfile⟩ := StateHelper.saveEach_ok h
  have hcount : ∀ i ∈ List.range numSY6522, (card.sound.ay i).ayChangeCount ≤ ayChangeMax := by
    intro i hi
    apply count_le_of_saved
    intro call hcall
    have hmem : call ∈ chunks.map (.ok : _ → Except Fault _) := by
      rw [← hcalls]
      refine List.mem_flatMap.mpr ⟨i, hi, ?_⟩
      exact List.mem_append_right _ (List.mem_append_left _ hcall)
    obtain ⟨bytes, -, rfl⟩ := List.mem_map.mp hmem
    exact ⟨bytes, rfl⟩
  refine ⟨hcount, ?_⟩
  have hchunks : chunks = (List.range numSY6522).flatMap (unitSaved card) := by
    have hinj : Function.Injective (.ok : List UInt8 → Except Fault (List UInt8)) :=
      fun _ _ he => Except.ok.inj he
    apply List.map_injective_iff.mpr hinj
    rw [← hcalls, List.map_flatMap]
    exact List.flatMap_congr fun i hi => unitChunks_ok card i (hcount i hi)
  have hunits : (unitBytes card) = fun i => (unitSaved card i).flatten :=
    funext fun i => (flatten_unitSaved card i).symm
  rw [hfile, hchunks, hunits, List.flatMap_def, List.flatMap_def, List.flatten_flatten,
    List.map_map]
  rfl

/-- The save goes through when there is room for it. -/
theorem mbSaveState_ok {helper : StateHelper}
    (hhost : ∀ file bytes, bytes.length ≤ helper.host file bytes)
    (h : ∀ i ∈ List.range numSY6522, (card.sound.ay i).ayChangeCount ≤ ayChangeMax) :
    ∃ saved, mbSaveState helper card = .ok (saved, true) := by
  have hcalls : (List.range numSY6522).flatMap (unitChunks card) =
      ((List.range numSY6522).flatMap (unitSaved card)).map .ok := by
    rw [List.map_flatMap]
    exact List.flatMap_congr fun i hi => unitChunks_ok card i (h i hi)
  unfold mbSaveState
  rw [hcalls]
  exact helper.saveEach_room hhost _

end File

/-! ## Continuing after a load -/

/-- What a load is to restore: the registers, and which timer runs. -/
structure Restored (s t : Card) : Prop where
  regs : ∀ i < numSY6522, t.regs i = s.regs i
  current : ∀ i < numSY6522, (t.mb i).nAYCurrentRegister = (s.mb i).nAYCurrentRegister
  device : t.nMBTimerDevice = s.nMBTimerDevice
  active : t.bMBTimerIrqActive = s.bMBTimerIrqActive

/-- The interrupt flags are the same after every number of calls of `MB_UpdateCycles`, once the CPU
executes again. -/
def SameFlags (host : Host) (s t : Card) : Prop :=
  ∀ (start : ℕ) (counts : List ℕ), ∀ i < numSY6522,
    ((counts.foldl (mbUpdateCycles host) (mbStartOfCpuExecute t start)).regs i).ifr =
      ((counts.foldl (mbUpdateCycles host) (mbStartOfCpuExecute s start)).regs i).ifr

/-- All that `MB_UpdateCycles` depends on is the same in both. -/
structure Alike (s t : Card) : Prop where
  soundcardType : t.soundcardType = s.soundcardType
  cycles : t.uLastCumulativeCycles = s.uLastCumulativeCycles
  regs : ∀ i < numSY6522, t.regs i = s.regs i
  number : ∀ i < numSY6522, (t.mb i).nAY8910Number = (s.mb i).nAY8910Number
  device : t.nMBTimerDevice = s.nMBTimerDevice
  active : t.bMBTimerIrqActive = s.bMBTimerIrqActive

section Alike
variable {host : Host} {s t : Card} {i : ℕ}

theorem Alike.setRegs (h : Alike s t) (n : ℕ) (r : SY6522) :
    Alike (s.setRegs n r) (t.setRegs n r) := by
  refine ⟨h.soundcardType, h.cycles, ?_, ?_, h.device, h.active⟩
  · intro i hi
    rw [regs_setRegs, regs_setRegs, h.regs i hi]
  · intro i hi
    have hs := @number_setUnit s n { s.mb n with sy6522 := r } rfl i
    have ht := @number_setUnit t n { t.mb n with sy6522 := r } rfl i
    exact ht.trans ((h.number i hi).trans hs.symm)

theorem Alike.updateIFR (h : Alike s t) (hi : i < numSY6522) :
    Alike (updateIFR s i) (updateIFR t i) := by
  have hset := h.setRegs i (s.regs i).flagged
  unfold Mockingboard.updateIFR
  simp only []
  rw [h.regs i hi]
  exact ⟨hset.soundcardType, hset.cycles, hset.regs, hset.number, hset.device, hset.active⟩

theorem Alike.setStatus (h : Alike s t) (n : ℕ) (status : UInt8) :
    Alike (s.setUnit n { s.mb n with nTimerStatus := status })
      (t.setUnit n { t.mb n with nTimerStatus := status }) := by
  have hs := @regs_setUnit_same s n { s.mb n with nTimerStatus := status } rfl
  have ht := @regs_setUnit_same t n { t.mb n with nTimerStatus := status } rfl
  refine ⟨h.soundcardType, h.cycles, ?_, ?_, h.device, h.active⟩
  · intro i hi
    rw [hs, ht, h.regs i hi]
  · intro i hi
    have hs' := @number_setUnit s n { s.mb n with nTimerStatus := status } rfl i
    have ht' := @number_setUnit t n { t.mb n with nTimerStatus := status } rfl i
    exact ht'.trans ((h.number i hi).trans hs'.symm)

theorem Alike.stopTimer (h : Alike s t) (n : ℕ) : Alike (stopTimer s n) (stopTimer t n) := by
  have hstatus := h.setStatus n 0
  exact ⟨h.soundcardType, h.cycles, hstatus.regs, hstatus.number, rfl, rfl⟩

theorem Alike.startTimer (h : Alike s t) (hi : i < numSY6522) :
    Alike (startTimer s i) (startTimer t i) := by
  have hstatus := h.setStatus i 1
  have hregs : (t.mb i).sy6522 = (s.mb i).sy6522 := h.regs i hi
  have hnumber := h.number i hi
  have hodd : (t.mb i).nAY8910Number % 2 ≠ 0 ↔ (s.mb i).nAY8910Number % 2 ≠ 0 := by rw [hnumber]
  have hier : (t.mb i).sy6522.ier &&& ixrTimer1 = 0 ↔ (s.mb i).sy6522.ier &&& ixrTimer1 = 0 := by
    rw [hregs]
  unfold Mockingboard.startTimer
  simp only []
  by_cases ho : (s.mb i).nAY8910Number % 2 ≠ 0
  · rw [if_pos ho, if_pos (hodd.mpr ho)]
    exact h
  · rw [if_neg ho, if_neg (mt hodd.mp ho)]
    by_cases hz : (s.mb i).sy6522.ier &&& ixrTimer1 = 0
    · rw [if_pos hz, if_pos (hier.mpr hz)]
      exact h
    · rw [if_neg hz, if_neg (mt hier.mp hz)]
      exact ⟨h.soundcardType, h.cycles, hstatus.regs, hstatus.number, congrArg some hnumber, rfl⟩

theorem Alike.mask (h : Alike s t) (hi : i < numSY6522) (mask : UInt8) :
    Alike (maskIFR s i mask) (maskIFR t i mask) := by
  unfold maskIFR
  rw [h.regs i hi]
  exact (h.setRegs i _).updateIFR hi

theorem Alike.mbUpdate (h : Alike s t) : Alike (s.mbUpdate host) (t.mbUpdate host) :=
  ⟨h.soundcardType, h.cycles, h.regs, h.number, h.device, h.active⟩

theorem Alike.tick (h : Alike s t) (host : Host) (nClocks : UInt16) (hi : i < numSY6522) :
    Alike (tick host nClocks s i) (tick host nClocks t i) := by
  unfold Mockingboard.tick
  simp only []
  rw [h.regs i hi]
  have hc := h.setRegs i { s.regs i with
    timer1Counter := (s.regs i).timer1Counter - nClocks
    timer2Counter := (s.regs i).timer2Counter - nClocks }
  rw [hc.regs i hi, hc.device, hc.active]
  generalize s.setRegs i _ = s' at hc ⊢
  generalize t.setRegs i _ = t' at hc ⊢
  have hflag := (hc.setRegs i { s'.regs i with ifr := (s'.regs i).ifr ||| ixrTimer1 }).updateIFR hi
  generalize Mockingboard.updateIFR (s'.setRegs i _) i = s'' at hflag ⊢
  generalize Mockingboard.updateIFR (t'.setRegs i _) i = t'' at hflag ⊢
  rw [hflag.regs i hi]
  split_ifs
  · exact (hflag.stopTimer i).mbUpdate
  · exact ((hflag.setRegs i _).startTimer hi).mbUpdate
  · exact hc.mask hi _
  · exact hc

theorem Alike.updateCycles (h : Alike s t) (host : Host) (cycles : ℕ) :
    Alike (mbUpdateCycles host s cycles) (mbUpdateCycles host t cycles) := by
  have hpasses : ∀ (nClocks : UInt16) (is : List ℕ) (s t : Card), (∀ i ∈ is, i < numSY6522) →
      Alike s t → Alike (is.foldl (Mockingboard.tick host nClocks) s)
        (is.foldl (Mockingboard.tick host nClocks) t) := by
    intro nClocks is
    induction is with
    | nil => exact fun s t _ h => h
    | cons i is ih =>
      intro s t his h
      exact ih _ _ (fun j hj => his j (List.mem_cons_of_mem _ hj))
        (h.tick host nClocks (his i (List.mem_cons_self ..)))
  unfold mbUpdateCycles
  rw [h.soundcardType, h.cycles]
  split_ifs
  · exact h
  · simp only []
    split_ifs
    · exact ⟨rfl, rfl, h.regs, h.number, h.device, h.active⟩
    · apply hpasses
      · exact fun i hi => List.mem_range.mp hi
      · exact ⟨rfl, rfl, h.regs, h.number, h.device, h.active⟩

theorem Alike.counts (h : Alike s t) (host : Host) (counts : List ℕ) :
    Alike (counts.foldl (mbUpdateCycles host) s) (counts.foldl (mbUpdateCycles host) t) := by
  induction counts generalizing s t with
  | nil => exact h
  | cons cycles counts ih => exact ih (h.updateCycles host cycles)

/-- Cards whose registers and timers agree go on alike. -/
theorem Restored.sameFlags (h : Restored s t) {k : CardType} (hs : TimerInv k s)
    (ht : TimerInv k t) (host : Host) : SameFlags host s t := by
  intro start counts i hi
  have hnumber : ∀ i < numSY6522, (t.mb i).nAY8910Number = (s.mb i).nAY8910Number := by
    intro i hi
    rw [hs.number i hi, ht.number i hi]
  have halike : Alike (mbStartOfCpuExecute s start) (mbStartOfCpuExecute t start) :=
    ⟨ht.type.trans hs.type.symm, rfl, h.regs, hnumber, h.device, h.active⟩
  exact congrArg SY6522.ifr ((halike.counts host counts).regs i hi)

end Alike

/-! ## Saving and loading -/

section SaveLoad
variable {host : Host} {soundcardType : CardType} {s t : Card}

/-- The saved bytes are loaded, and the running timer is the one that they stand for. -/
theorem load_saved (haudio : host.audioIsAvailable = true) (hs : Reachable host soundcardType s)
    (ht : Reachable host soundcardType t) {helper saved : StateHelper} {input : List UInt8}
    (cycles : ℕ) (hsave : mbSaveState helper s = .ok (saved, true))
    (hinput : saved.file = helper.file ++ input) :
    ∃ t', mbLoadState host t cycles input = .ok (t', [], true) ∧
      (∀ i < numSY6522, t'.regs i = s.regs i) ∧
      (∀ i < numSY6522, (t'.mb i).nAYCurrentRegister = (s.mb i).nAYCurrentRegister) ∧
      t'.nMBTimerDevice = derivedTimer s ∧ TimerInv soundcardType t' := by
  obtain ⟨hcount, hfile⟩ := mbSaveState_file hsave
  have hbytes : input = (List.range numSY6522).flatMap (unitBytes s) :=
    List.append_cancel_left (hinput.symm.trans hfile)
  obtain ⟨-, hnone⟩ := (ht.timer.mbReset host).2 haudio
  have hstart : (mbBeforeLoad host t cycles).nMBTimerDevice = none := hnone
  obtain ⟨u, hread, hregs, hcurrent, hdevice, htimer⟩ :=
    reads_units (ht.timer.beforeLoad host cycles) s (List.range numSY6522)
      (fun i hi => List.mem_range.mp hi) hcount
  rw [hstart, derivedTimer_eq] at hdevice
  have hload := hread []
  rw [List.append_nil, ← hbytes] at hload
  refine ⟨u |> mbReinitialize host, ?_, ?_, ?_, hdevice, htimer.of_view rfl⟩
  · unfold mbLoadState
    rw [hload]
    rfl
  · intro i hi
    refine (hregs i hi).trans ?_
    rw [if_pos (List.mem_range.mpr hi), ← hs.timer.noHs i hi]
  · intro i hi
    refine (hcurrent i).trans ?_
    rw [if_pos (List.mem_range.mpr hi)]

/-- **Saving and loading.** The bytes that were saved of a reachable state are loaded in any other,
and the registers and the timer come back, and with them the interrupts, exactly when the timer that
ran is the one that the load derives from the enabled interrupts. -/
theorem save_load_timer (haudio : host.audioIsAvailable = true)
    (hs : Reachable host soundcardType s) (ht : Reachable host soundcardType t)
    {helper saved : StateHelper} {input : List UInt8} (cycles : ℕ)
    (hsave : mbSaveState helper s = .ok (saved, true))
    (hinput : saved.file = helper.file ++ input) :
    ∃ t', mbLoadState host t cycles input = .ok (t', [], true) ∧
      (Restored s t' ∧ SameFlags host s t' ↔ s.nMBTimerDevice = derivedTimer s) := by
  obtain ⟨t', hload, hregs, hcurrent, hdevice, htimer⟩ :=
    load_saved haudio hs ht cycles hsave hinput
  refine ⟨t', hload, ?_, ?_⟩
  · rintro ⟨hrestored, -⟩
    exact hrestored.device.symm.trans hdevice
  · intro hsame
    have hdev : t'.nMBTimerDevice = s.nMBTimerDevice := hdevice.trans hsame.symm
    have hactive : t'.bMBTimerIrqActive = s.bMBTimerIrqActive := by
      rw [Bool.eq_iff_iff, htimer.active, hs.timer.active, hdev]
    have hrestored : Restored s t' := ⟨hregs, hcurrent, hdev, hactive⟩
    exact ⟨hrestored, hrestored.sameFlags hs.timer htimer host⟩

end SaveLoad

/-- An empty file with room for everything. -/
def emptyFile : StateHelper where
  file := []
  host := fun _ bytes => bytes.length

/-- Timer 1 of the first 6522 is started with its interrupt enabled, and an AY8910 register is
selected. -/
def timerRuns : List Step :=
  [.write 0xC40E 0xC0 0, .write 0xC404 0x10 0, .write 0xC405 0x27 0, .write 0xC402 0xFF 0,
    .write 0xC403 0xFF 0, .write 0xC401 0x07 0, .write 0xC400 0x07 0, .write 0xC400 0x04 0]

theorem timerRuns_start : ∃ s, runM (step quietHost)
    (mbInitialize quietHost (.static .mockingboardC silence 0)) timerRuns = .ok s ∧
    s.nMBTimerDevice = some 0 ∧ derivedTimer s = some 0 ∧ (s.regs 0).timer1Latch = 0x2710 ∧
    (s.mb 0).nAYCurrentRegister = 7 ∧
    ∀ i ∈ List.range numSY6522, (s.sound.ay i).ayChangeCount ≤ ayChangeMax :=
  ⟨_, rfl, rfl, by decide, by decide, by decide, by decide⟩

/-- The cards with a running timer are saved, and come back in cards that were just started. -/
theorem save_load_timer_runs :
    ∃ s saved t', runM (step quietHost)
        (mbInitialize quietHost (.static .mockingboardC silence 0)) timerRuns = .ok s ∧
      mbSaveState emptyFile s = .ok (saved, true) ∧
      mbLoadState quietHost (mbInitialize quietHost (.static .mockingboardC silence 0)) 0
        saved.file = .ok (t', [], true) ∧
      Restored s t' ∧ SameFlags quietHost s t' ∧
      (t'.nMBTimerDevice, (t'.regs 0).timer1Latch, (t'.mb 0).nAYCurrentRegister) =
        (some 0, 0x2710, 7) := by
  obtain ⟨s, hrun, hdevice, hderived, hlatch, hcurrent, hcount⟩ := timerRuns_start
  have hs : Reachable quietHost .mockingboardC s := ⟨silence, 0, timerRuns, hrun⟩
  have hstart : Reachable quietHost .mockingboardC
      (mbInitialize quietHost (.static .mockingboardC silence 0)) := ⟨silence, 0, [], rfl⟩
  obtain ⟨saved, hsave⟩ : ∃ saved, mbSaveState emptyFile s = .ok (saved, true) :=
    mbSaveState_ok (fun _ _ => Nat.le_refl _) hcount
  obtain ⟨t', hload, hiff⟩ := save_load_timer rfl hs hstart 0 hsave rfl
  obtain ⟨hrestored, hflags⟩ := hiff.mpr (hdevice.trans hderived.symm)
  refine ⟨s, saved, t', hrun, hsave, hload, hrestored, hflags, ?_⟩
  rw [hrestored.device, hrestored.regs 0 (by decide), hrestored.current 0 (by decide),
    hdevice, hlatch, hcurrent]

/-- A timer that has run out is running again after a load. -/
theorem expired_timer_restarts :
    ∃ s saved t', runM (step quietHost) (mbInitialize quietHost (.static .mockingboardC silence 0))
        timerRunsOut = .ok s ∧
      mbSaveState emptyFile s = .ok (saved, true) ∧
      mbLoadState quietHost s 1 saved.file = .ok (t', [], true) ∧ ¬ Restored s t' := by
  obtain ⟨s, hrun, hnone, hderived, hcount⟩ : ∃ s, runM (step quietHost)
      (mbInitialize quietHost (.static .mockingboardC silence 0)) timerRunsOut = .ok s ∧
      s.nMBTimerDevice = none ∧ derivedTimer s = some 0 ∧
      ∀ i ∈ List.range numSY6522, (s.sound.ay i).ayChangeCount ≤ ayChangeMax :=
    ⟨_, rfl, rfl, by decide, by decide⟩
  have hs : Reachable quietHost .mockingboardC s := ⟨silence, 0, timerRunsOut, hrun⟩
  obtain ⟨saved, hsave⟩ : ∃ saved, mbSaveState emptyFile s = .ok (saved, true) :=
    mbSaveState_ok (fun _ _ => Nat.le_refl _) hcount
  obtain ⟨t', hload, -, -, hdevice, -⟩ := load_saved rfl hs hs 1 hsave rfl
  refine ⟨s, saved, t', hrun, hsave, hload, ?_⟩
  intro hrestored
  have hd := hrestored.device
  rw [hdevice, hderived, hnone] at hd
  cases hd

end Apple2ix.Mockingboard
