import Mathlib.Data.List.GetD
import Apple2ix.Disk.TrackScan

/-! Nibblizing a track and denibblizing it again restores the track. The decoder is followed
around the ring of the encoder's nibbles, one header and one data field a sector; a pass never
looks at a byte that could be taken for a prologue, because the bytes between the end of one
field and the next prologue are gaps, epilogues and 4-and-4 encoded header bytes. -/
namespace Apple2ix.Disk
open Loops
set_option autoImplicit false

/-! ## The layout of a nibblized track -/

section Layout
variable (conformant : Bool) (skew : List ℕ) (track : ℕ) (buf : Buf)

/-- The bytes of one sector of the track. -/
def trackBlock (sector : ℕ) : List UInt8 :=
  addressField track sector ++
    (List.range (numSixbitNibs + 1)).map (sectorNibble fun i => buf (secOff skew sector + i)) ++
    [0xDE, 0xAA, 0xEB] ++ List.replicate (sectorGap conformant) 0xFF

def blockLength : ℕ := 369 + sectorGap conformant

/-- The width `nibblize_track` returns. -/
def trackWidth : ℕ := trackGap conformant + numSectors * blockLength conformant

theorem trackWidth_le : trackWidth conformant + 2 ≤ nibTrackSize := by
  cases conformant <;> decide

theorem trackWidth_pos : 0 < trackWidth conformant := by
  cases conformant <;> decide

theorem addressField_length (sector : ℕ) : (addressField track sector).length = 23 := rfl

theorem trackBlock_length (sector : ℕ) :
    (trackBlock conformant skew track buf sector).length = blockLength conformant := by
  simp [trackBlock, addressField_length, blockLength, numSixbitNibs, sixbitExtraBytes]
  omega

theorem flatMap_range_length (block : ℕ → List UInt8) (B n : ℕ) (hB : ∀ s, (block s).length = B) :
    ((List.range n).flatMap block).length = n * B := by
  induction n with
  | zero => simp
  | succ n ih =>
    rw [List.range_succ, List.flatMap_append, List.length_append, ih, Nat.succ_mul]
    simp [hB]

/-- Cell `j` of block `s` in a list of blocks of one length. -/
theorem flatMap_range_getD (block : ℕ → List UInt8) (B n s j : ℕ)
    (hB : ∀ s, (block s).length = B) (hs : s < n) (hj : j < B) :
    ((List.range n).flatMap block).getD (s * B + j) 0 = (block s).getD j 0 := by
  induction n with
  | zero => omega
  | succ n ih =>
    have hlen := flatMap_range_length block B n hB
    rw [List.range_succ, List.flatMap_append]
    by_cases h : s < n
    · have hle : (s + 1) * B ≤ n * B := Nat.mul_le_mul_right B h
      rw [Nat.succ_mul] at hle
      rw [List.getD_append _ _ _ _ (by rw [hlen]; omega)]
      exact ih h
    · have hsn : s = n := by omega
      subst hsn
      rw [List.getD_append_right _ _ _ _ (by rw [hlen]; omega), hlen, Nat.add_sub_cancel_left]
      simp

/-- **The encoder of a track.** No assertion fires; the nibbles are the gap and sixteen blocks. -/
theorem nibblizeTrack_eq :
    nibblizeTrack conformant skew track buf =
      .ok (List.replicate (trackGap conformant) 0xFF ++
        (List.range numSectors).flatMap (trackBlock conformant skew track buf)) := by
  unfold nibblizeTrack
  induction numSectors with
  | zero => simp
  | succ n ih =>
    rw [forUpM_succ, ih, List.range_succ, List.flatMap_append, ← List.append_assoc]
    simp only [Except.bind, bind, pure, Except.pure, nibblizeTrackSector, nibblizeSector_eq,
      trackBlock, List.flatMap_cons, List.flatMap_nil, List.append_nil]

/-- The nibbles of a track as a buffer. -/
def trackNibbles : Buf := fun i =>
  (List.replicate (trackGap conformant) 0xFF ++
    (List.range numSectors).flatMap (trackBlock conformant skew track buf)).getD i 0

theorem nibblizeTrack_length (nibs : List UInt8)
    (h : nibblizeTrack conformant skew track buf = .ok nibs) :
    nibs.length = trackWidth conformant := by
  rw [nibblizeTrack_eq] at h
  cases h
  rw [List.length_append, List.length_replicate,
    flatMap_range_length _ _ _ (trackBlock_length conformant skew track buf), trackWidth]

/-! ## What stands where -/

/-- The ring position of sector `s`. -/
def blockStart (s : ℕ) : ℕ := trackGap conformant + s * blockLength conformant

theorem trackNibbles_gap (i : ℕ) (hi : i < trackGap conformant) :
    trackNibbles conformant skew track buf i = 0xFF := by
  rw [trackNibbles, List.getD_append _ _ _ _ (by rw [List.length_replicate]; exact hi)]
  rw [List.getD_eq_getElem _ _ (by rw [List.length_replicate]; exact hi), List.getElem_replicate]

theorem trackNibbles_block (s j : ℕ) (hs : s < numSectors) (hj : j < blockLength conformant) :
    trackNibbles conformant skew track buf (blockStart conformant s + j) =
      (trackBlock conformant skew track buf s).getD j 0 := by
  rw [trackNibbles, blockStart, Nat.add_assoc,
    List.getD_append_right _ _ _ _ (by rw [List.length_replicate]; omega), List.length_replicate,
    Nat.add_sub_cancel_left]
  exact flatMap_range_getD _ _ _ _ _ (trackBlock_length conformant skew track buf) hs hj

theorem trackBlock_header (s j : ℕ) (hj : j < 23) :
    (trackBlock conformant skew track buf s).getD j 0 = (addressField track s).getD j 0 := by
  rw [trackBlock, List.append_assoc, List.append_assoc]
  exact List.getD_append _ _ _ _ (by rw [addressField_length]; exact hj)

theorem trackBlock_data (s j : ℕ) (hj : j < numSixbitNibs + 1) :
    (trackBlock conformant skew track buf s).getD (23 + j) 0 =
      sectorNibble (fun i => buf (secOff skew s + i)) j := by
  rw [trackBlock, List.append_assoc, List.append_assoc,
    List.getD_append_right _ _ _ _ (by rw [addressField_length]; omega), addressField_length,
    Nat.add_sub_cancel_left, List.getD_append _ _ _ _ (by simpa using hj)]
  rw [List.getD_eq_getElem _ _ (by simpa using hj)]
  simp

theorem trackBlock_tail (s j : ℕ) (hj : j < 3 + sectorGap conformant) :
    (trackBlock conformant skew track buf s).getD (366 + j) 0 ≠ 0xD5 := by
  have hlen : (addressField track s ++ (List.range (numSixbitNibs + 1)).map
      (sectorNibble fun i => buf (secOff skew s + i))).length = 366 := by
    simp [addressField_length, numSixbitNibs, sixbitExtraBytes]
  rw [trackBlock, List.append_assoc, List.getD_append_right _ _ _ _ (by rw [hlen]; omega), hlen,
    Nat.add_sub_cancel_left]
  have hmem : ([0xDE, 0xAA, 0xEB] ++ List.replicate (sectorGap conformant) 0xFF : List UInt8).getD
      j 0 ∈ ([0xDE, 0xAA, 0xEB] ++ List.replicate (sectorGap conformant) 0xFF : List UInt8) := by
    rw [List.getD_eq_getElem _ _ (by simp; omega)]
    exact List.getElem_mem _
  intro he
  rw [he] at hmem
  simp at hmem

theorem code44A_ne (a : ℕ) : code44A a ≠ 0xD5 := by
  have hle : (a >>> 1) &&& 0x55 < 0x56 := Nat.lt_succ_of_le Nat.and_le_right
  have h : ∀ y, y < 0x56 → UInt8.ofNat (y ||| 0xAA) ≠ 0xD5 := by decide
  exact h _ hle

theorem code44B_ne (b : ℕ) : code44B b ≠ 0xD5 := by
  have hle : b &&& 0x55 < 0x56 := Nat.lt_succ_of_le Nat.and_le_right
  have h : ∀ y, y < 0x56 → UInt8.ofNat (y ||| 0xAA) ≠ 0xD5 := by decide
  exact h _ hle

theorem headerSector_code44 (s : ℕ) (hs : s < numSectors) :
    headerSector (code44A s) (code44B s) = s := by
  have h : ∀ s, s < 16 → headerSector (code44A s) (code44B s) = s := by decide
  exact h s hs

/-- Between the two prologues of a sector there is no 0xD5. -/
theorem addressField_middle (s j : ℕ) (hj : j < 11) :
    (addressField track s).getD (9 + j) 0 ≠ 0xD5 := by
  have ha := code44A_ne ((dskVolume ^^^ track ^^^ s) % 256)
  have hb := code44B_ne ((dskVolume ^^^ track ^^^ s) % 256)
  match j, hj with
  | 0, _ => exact ha
  | 1, _ => exact hb
  | 2, _ => exact (by decide : (0xDE : UInt8) ≠ 0xD5)
  | 3, _ => exact (by decide : (0xAA : UInt8) ≠ 0xD5)
  | 4, _ => exact (by decide : (0xEB : UInt8) ≠ 0xD5)
  | 5, _ | 6, _ | 7, _ | 8, _ | 9, _ | 10, _ => exact (by decide : (0xFF : UInt8) ≠ 0xD5)

end Layout

/-! ## The decoder on that layout -/

section Decode
variable (conformant : Bool) (skew : List ℕ) (track : ℕ) (buf : Buf)

/-- The ring the decoder reads. -/
def trackRing : Buf := ring (trackNibbles conformant skew track buf) (trackWidth conformant)

theorem blockStart_succ (s : ℕ) :
    blockStart conformant (s + 1) = blockStart conformant s + blockLength conformant := by
  rw [blockStart, blockStart, Nat.succ_mul, Nat.add_assoc]

theorem blockStart_numSectors : blockStart conformant numSectors = trackWidth conformant := rfl

theorem blockStart_mono (s t : ℕ) (h : s ≤ t) : blockStart conformant s ≤ blockStart conformant t :=
  Nat.add_le_add_left (Nat.mul_le_mul_right _ h) _

theorem trackRing_block (s j : ℕ) (hs : s < numSectors) (hj : j < blockLength conformant) :
    trackRing conformant skew track buf (blockStart conformant s + j) =
      (trackBlock conformant skew track buf s).getD j 0 := by
  have hle := blockStart_mono conformant (s + 1) numSectors hs
  rw [blockStart_succ, blockStart_numSectors] at hle
  rw [trackRing, ring_of_lt _ _ _ (by omega)]
  exact trackNibbles_block conformant skew track buf s j hs hj

theorem trackRing_gap (i : ℕ) (hi : i < trackGap conformant) :
    trackRing conformant skew track buf i = 0xFF := by
  have hlt : i < trackWidth conformant := by
    rw [trackWidth]
    omega
  rw [trackRing, ring_of_lt _ _ _ hlt]
  exact trackNibbles_gap conformant skew track buf i hi

/-- Where the search for the header of sector `s` begins: at the track start, or behind the data
field of the sector before. -/
def fieldEnd : ℕ → ℕ
  | 0 => 0
  | s + 1 => blockStart conformant s + 366

/-- The bytes from there to the header. -/
def leadIn : ℕ → ℕ
  | 0 => trackGap conformant
  | _ + 1 => 3 + sectorGap conformant

theorem fieldEnd_leadIn (s : ℕ) :
    fieldEnd conformant s + leadIn conformant s = blockStart conformant s := by
  cases s with
  | zero => simp [fieldEnd, leadIn, blockStart]
  | succ s =>
    rw [blockStart_succ, fieldEnd, leadIn, blockLength]
    omega

theorem firstD5_header (s : ℕ) (hs : s < numSectors) :
    FirstD5 (trackRing conformant skew track buf) (fieldEnd conformant s)
      (leadIn conformant s) := by
  refine ⟨fun j hj => ?_, ?_⟩
  · cases s with
    | zero =>
      rw [fieldEnd, Nat.zero_add, trackRing_gap conformant skew track buf j hj]
      decide
    | succ s =>
      have hj' : j < 3 + sectorGap conformant := hj
      rw [fieldEnd, Nat.add_assoc, trackRing_block conformant skew track buf s (366 + j) (by omega)
        (by rw [blockLength]; omega)]
      exact trackBlock_tail conformant skew track buf s j hj'
  · rw [fieldEnd_leadIn]
    have h := trackRing_block conformant skew track buf s 0 hs (by rw [blockLength]; omega)
    rw [Nat.add_zero] at h
    rw [h, trackBlock_header _ _ _ _ _ _ (by omega)]
    rfl

theorem firstD5_data (s : ℕ) (hs : s < numSectors) :
    FirstD5 (trackRing conformant skew track buf) (blockStart conformant s + 9) 11 := by
  refine ⟨fun j hj => ?_, ?_⟩
  · rw [Nat.add_assoc, trackRing_block conformant skew track buf s (9 + j) hs
      (by rw [blockLength]; omega), trackBlock_header _ _ _ _ _ _ (by omega)]
    exact addressField_middle track s j hj
  · rw [Nat.add_assoc, trackRing_block conformant skew track buf s (9 + 11) hs
      (by rw [blockLength]; omega), trackBlock_header _ _ _ _ _ _ (by omega)]
    rfl

/-- A byte of sector `s` in the ring, by its place in the address field. -/
theorem trackRing_header (s j : ℕ) (hs : s < numSectors) (hj : j < 23) :
    trackRing conformant skew track buf (blockStart conformant s + j) =
      (addressField track s).getD j 0 := by
  rw [trackRing_block conformant skew track buf s j hs (by rw [blockLength]; omega),
    trackBlock_header _ _ _ _ _ _ hj]

/-- The cells of the first `n` sectors of the track. -/
def InSectors (skew : List ℕ) (n i : ℕ) : Prop :=
  ∃ t, t < n ∧ secOff skew t ≤ i ∧ i < secOff skew t + 0x100

instance (skew : List ℕ) (n i : ℕ) : Decidable (InSectors skew n i) := by
  unfold InSectors
  infer_instance

variable (nib : Buf)

section Steps
variable (hnib : ring nib (trackWidth conformant) = trackRing conformant skew track buf)
include hnib

/-- A pass that meets the header of sector `s`, `k` bytes after `p`. -/
theorem decode_header (s p k : ℕ) (sector : ℤ) (dst : Buf) (hs : s < numSectors)
    (hfirst : FirstD5 (trackRing conformant skew track buf) p k) (hk : k + 3 ≤ nibTrackSize)
    (hat : ∀ j, trackRing conformant skew track buf (p + k + j) =
      trackRing conformant skew track buf (blockStart conformant s + j)) :
    denibblizeStep skew nib (trackWidth conformant)
        ⟨p % trackWidth conformant, sector, dst⟩ =
      .ok ⟨(p + k + 9) % trackWidth conformant, s, dst⟩ := by
  have hcell : ∀ j, j < 23 → ring nib (trackWidth conformant) (p + k + j) =
      (addressField track s).getD j 0 := by
    intro j hj
    rw [hnib, hat, trackRing_header conformant skew track buf s j hs hj]
  rw [← hnib] at hfirst
  rw [denibblizeStep_header nib _ skew p k sector dst hfirst hk (hcell 1 (by omega))
    (hcell 2 (by omega)), hcell 7 (by omega), hcell 8 (by omega)]
  have hsector := headerSector_code44 s hs
  congr 3

/-- A pass that starts behind the header of sector `s` decodes its data field. -/
theorem decode_data (s : ℕ) (dst : Buf) (hs : s < numSectors) :
    denibblizeStep skew nib (trackWidth conformant)
        ⟨(blockStart conformant s + 9) % trackWidth conformant, s, dst⟩ =
      .ok ⟨fieldEnd conformant (s + 1) % trackWidth conformant, -1,
        fun i => if secOff skew s ≤ i ∧ i < secOff skew s + 0x100 then buf i else dst i⟩ := by
  have hfirst := firstD5_data conformant skew track buf s hs
  rw [← hnib] at hfirst
  have haa : ring nib (trackWidth conformant) (blockStart conformant s + 9 + 11 + 1) = 0xAA := by
    rw [hnib]
    exact trackRing_header conformant skew track buf s 21 hs (by omega)
  have had : ring nib (trackWidth conformant) (blockStart conformant s + 9 + 11 + 2) = 0xAD := by
    rw [hnib]
    exact trackRing_header conformant skew track buf s 22 hs (by omega)
  have hs16 : s < 16 := hs
  have hguard : (decide ((0 : ℤ) ≤ s) && decide ((s : ℤ) < 16)) = true := by
    simp only [Bool.and_eq_true, decide_eq_true_eq]
    omega
  have hdata : ∀ i, i < numSixbitNibs + 1 →
      (if i < numSixbitNibs + 1 then
        ring nib (trackWidth conformant) (blockStart conformant s + 9 + 11 + 3 + i) else 0) =
        sectorNibble (fun i => buf (secOff skew s + i)) i := by
    intro i hi
    have hi' : i < 343 := hi
    simp only [hi, if_true]
    rw [hnib, show blockStart conformant s + 9 + 11 + 3 + i = blockStart conformant s + (23 + i) by
        omega,
      trackRing_block conformant skew track buf s (23 + i) hs (by rw [blockLength]; omega),
      trackBlock_data _ _ _ _ _ _ hi]
  rw [denibblizeStep_data nib _ skew _ 11 _ dst hfirst (by decide) haa had, hguard,
    Int.toNat_natCast]
  simp only [assertThat_true, bind, Except.bind, denibblizeSector_sectorNibble _ _ _ hdata, pure,
    Except.pure]
  congr 2
  funext i
  by_cases hlo : secOff skew s ≤ i
  · by_cases hhi : i < secOff skew s + 0x100
    · have h1 : i - secOff skew s < 0x100 := by omega
      simp only [hlo, hhi, h1, if_true, and_self, Nat.add_sub_cancel' hlo]
    · have h1 : ¬ i - secOff skew s < 0x100 := by omega
      simp only [hlo, hhi, h1, if_true, if_false, and_false, Nat.add_sub_cancel' hlo]
  · simp only [hlo, if_false, false_and]

/-- Header and data field of the first `n` sectors, two passes a sector. -/
theorem decode_sectors (dst : Buf) (n : ℕ) (hn : n ≤ numSectors) :
    forUpM (2 * n) (fun _ => denibblizeStep skew nib (trackWidth conformant))
        { offset := 0, sector := -1, dst := dst } =
      .ok ⟨fieldEnd conformant n % trackWidth conformant, -1,
        fun i => if InSectors skew n i then buf i else dst i⟩ := by
  induction n with
  | zero =>
    have hnone : ∀ i, ¬ InSectors skew 0 i := by
      rintro i ⟨t, ht, -⟩
      omega
    simp only [Nat.mul_zero, forUpM_zero, fieldEnd, Nat.zero_mod, hnone, if_false]
  | succ n ih =>
    have hlead : leadIn conformant n + 3 ≤ nibTrackSize := by
      cases n with
      | zero => cases conformant <;> decide
      | succ n =>
        rw [leadIn]
        cases conformant <;> decide
    rw [show 2 * (n + 1) = 2 * n + 1 + 1 by omega, forUpM_succ, forUpM_succ, ih (by omega)]
    simp only [Except.bind]
    rw [decode_header conformant skew track buf nib hnib n _ _ _ _ hn
      (firstD5_header conformant skew track buf n hn) hlead
      (fun j => by rw [fieldEnd_leadIn]), fieldEnd_leadIn]
    simp only []
    rw [decode_data conformant skew track buf nib hnib n _ hn]
    congr 2
    funext i
    by_cases hin : secOff skew n ≤ i ∧ i < secOff skew n + 0x100
    · have hsucc : InSectors skew (n + 1) i := ⟨n, Nat.lt_succ_self n, hin⟩
      simp only [hin, and_self, if_true, hsucc]
    · have hiff : InSectors skew (n + 1) i ↔ InSectors skew n i := by
        constructor
        · rintro ⟨t, ht, hi⟩
          have hne : t ≠ n := fun e => hin (e ▸ hi)
          exact ⟨t, by omega, hi⟩
        · rintro ⟨t, ht, hi⟩
          exact ⟨t, by omega, hi⟩
      simp only [hin, if_false, hiff]

/-- The last pass wraps around the track end and meets the first header again. -/
theorem decode_track (dst : Buf) :
    denibblizeTrack skew (trackWidth conformant) nib dst =
      .ok (fun i => if InSectors skew numSectors i then buf i else dst i) := by
  have hzero : (0 : ℕ) < numSectors := by decide
  have hwrap : ∀ j, trackRing conformant skew track buf (trackWidth conformant + j) =
      trackRing conformant skew track buf j := fun j => ring_add_width _ _ _
  have hend : fieldEnd conformant numSectors + (3 + sectorGap conformant) =
      trackWidth conformant := fieldEnd_leadIn conformant numSectors
  have hfirst : FirstD5 (trackRing conformant skew track buf) (fieldEnd conformant numSectors)
      (3 + sectorGap conformant + trackGap conformant) := by
    refine ⟨fun j hj => ?_, ?_⟩
    · by_cases htail : j < 3 + sectorGap conformant
      · have hpos : fieldEnd conformant numSectors = blockStart conformant 15 + 366 := rfl
        rw [hpos, Nat.add_assoc, trackRing_block conformant skew track buf 15 (366 + j) (by decide)
          (by rw [blockLength]; omega)]
        exact trackBlock_tail conformant skew track buf 15 j htail
      · obtain ⟨i, rfl⟩ : ∃ i, j = 3 + sectorGap conformant + i :=
          ⟨j - (3 + sectorGap conformant), by omega⟩
        rw [← Nat.add_assoc, hend, hwrap, trackRing_gap conformant skew track buf i (by omega)]
        decide
    · have h := (firstD5_header conformant skew track buf 0 hzero).2
      rw [← Nat.add_assoc, hend, hwrap]
      simpa only [fieldEnd, leadIn, Nat.zero_add] using h
  have hk : 3 + sectorGap conformant + trackGap conformant + 3 ≤ nibTrackSize := by
    cases conformant <;> decide
  have hat : ∀ j, trackRing conformant skew track buf (fieldEnd conformant numSectors +
      (3 + sectorGap conformant + trackGap conformant) + j) =
      trackRing conformant skew track buf (blockStart conformant 0 + j) := by
    intro j
    rw [← Nat.add_assoc, hend, Nat.add_assoc, hwrap, blockStart, Nat.zero_mul, Nat.add_zero]
  rw [denibblizeTrack, forUpM_succ,
    decode_sectors conformant skew track buf nib hnib dst numSectors (le_refl _)]
  simp only [Except.bind, bind]
  rw [decode_header conformant skew track buf nib hnib 0 _ _ _ _ hzero hfirst hk hat]
  rfl

end Steps

end Decode

/-! ## The round trip -/

theorem inSectors_skewTable6 (po : Bool) (i : ℕ) :
    InSectors (skewTable6 po) numSectors i ↔ i < dskTrackSize := by
  have hlt : ∀ t, t < 16 → (skewTable6 po).getD t 0 < 16 := by
    cases po <;> decide
  have hsurj : ∀ q, q < 16 → ∃ t, t < 16 ∧ (skewTable6 po).getD t 0 = q := by
    cases po <;> decide
  constructor
  · rintro ⟨t, ht, -, hi⟩
    have := hlt t ht
    rw [secOff] at hi
    rw [dskTrackSize]
    omega
  · intro hi
    rw [dskTrackSize] at hi
    obtain ⟨t, ht, hq⟩ := hsurj (i / 0x100) (by omega)
    refine ⟨t, ht, ?_⟩
    rw [secOff, hq]
    omega

/-- **Track round trip.** For every track buffer, track number and skew table, and whatever the
nibble image and the destination held before: neither direction fails an assertion, the width
fits a NIB track, and decoding with that width restores the 4096 bytes of the track and writes
nothing else. -/
theorem track_round_trip (conformant po : Bool) (track : ℕ) (buf image dst : Buf) :
    ∃ nibs, nibblizeTrack conformant (skewTable6 po) track buf = .ok nibs ∧
      nibs.length ≤ nibTrackSize ∧
      denibblizeTrack (skewTable6 po) nibs.length (storeNibbles image 0 nibs) dst =
        .ok (fun i => if i < dskTrackSize then buf i else dst i) := by
  have hlen := nibblizeTrack_length conformant (skewTable6 po) track buf _
    (nibblizeTrack_eq conformant (skewTable6 po) track buf)
  refine ⟨_, nibblizeTrack_eq conformant (skewTable6 po) track buf, ?_, ?_⟩
  · have := trackWidth_le conformant
    omega
  · rw [hlen, decode_track conformant (skewTable6 po) track buf]
    · simp only [inSectors_skewTable6]
    · apply ring_congr _ _ _ (trackWidth_pos conformant)
      intro i hi
      rw [storeNibbles, if_pos ⟨Nat.zero_le i, by rw [hlen]; exact hi⟩]
      rfl

end Apple2ix.Disk
