import Mathlib.Data.List.GetD
import Apple2ix.Disk.SectorCodec

/-! What the sector codec computes. `sectorNibble` gives the disk bytes of a sector cell by cell
and `decodedByte` the sector bytes of a work buffer; the loops of `nibblize_sector` and
`denibblize_sector` are shown to fill exactly these cells, and the two functions to be inverse. -/
namespace Apple2ix.Disk
open Loops
set_option autoImplicit false
set_option maxRecDepth 4000

/-! ## One byte of low bits -/

theorem lowPair_cases (b : UInt8) :
    (lowPair b = 0 ∧ b &&& 3 = 0) ∨ (lowPair b = 1 ∧ b &&& 3 = 2) ∨
      (lowPair b = 2 ∧ b &&& 3 = 1) ∨ (lowPair b = 3 ∧ b &&& 3 = 3) := by
  revert b
  exact forall_uint8 (by decide)

/-- Three low pairs in one byte, the pair of `z` lowest. -/
def packPairs (x y z : UInt8) : UInt8 :=
  (((lowPair x <<< 2 ||| lowPair y) <<< 2) ||| lowPair z) <<< 2

/-! The three readers of the decoder, each with the pair back in its original bit order. -/

def pairHigh (v : UInt8) : UInt8 := ((v &&& 0x80) >>> 7) ||| ((v &&& 0x40) >>> 5)
def pairMid (v : UInt8) : UInt8 := ((v &&& 0x20) >>> 5) ||| ((v &&& 0x10) >>> 3)
def pairLow (v : UInt8) : UInt8 := ((v &&& 0x08) >>> 3) ||| ((v &&& 0x04) >>> 1)

/-- Reading a packed byte gives the low bits of its three sources; clearing the two top bits
spoils the first of them only. -/
theorem packPairs_read (x y z : UInt8) :
    pairHigh (packPairs x y z) = x &&& 3 ∧
    (pairMid (packPairs x y z) = y &&& 3 ∧ pairMid (packPairs x y z &&& sixbitMask) = y &&& 3) ∧
    (pairLow (packPairs x y z) = z &&& 3 ∧ pairLow (packPairs x y z &&& sixbitMask) = z &&& 3) := by
  rcases lowPair_cases x with ⟨hx, ex⟩ | ⟨hx, ex⟩ | ⟨hx, ex⟩ | ⟨hx, ex⟩ <;>
  rcases lowPair_cases y with ⟨hy, ey⟩ | ⟨hy, ey⟩ | ⟨hy, ey⟩ | ⟨hy, ey⟩ <;>
  rcases lowPair_cases z with ⟨hz, ez⟩ | ⟨hz, ez⟩ | ⟨hz, ez⟩ | ⟨hz, ez⟩ <;>
  rw [ex, ey, ez, packPairs, hx, hy, hz] <;> decide

/-- The readers look at the six high bits only. -/
theorem pair_mask (v : UInt8) :
    pairHigh (v &&& 0xFC) = pairHigh v ∧ pairMid (v &&& 0xFC) = pairMid v ∧
      pairLow (v &&& 0xFC) = pairLow v := by
  revert v
  exact forall_uint8 (by decide)

theorem mask_join (b : UInt8) : ((b &&& 0xFC) &&& 0xFC) ||| (b &&& 3) = b := by
  revert b
  exact forall_uint8 (by decide)

/-! ## The tables -/

/-- Every byte of the table is a disk byte that stands for data. -/
theorem translateTable6_valid : ∀ b ∈ translateTable6, 0x96 ≤ b ∧ b ≠ 0xD5 ∧ b ≠ 0xAA := by
  have hall : translateTable6.all (fun b => decide (0x96 ≤ b ∧ b ≠ 0xD5 ∧ b ≠ 0xAA)) = true := by
    decide
  intro b hb
  exact of_decide_eq_true (List.all_eq_true.mp hall b hb)

theorem translate_mem {i : ℕ} (hi : i < 0x40) : translateTable6.getD i 0 ∈ translateTable6 := by
  rw [List.getD_eq_getElem _ _ hi]
  exact List.getElem_mem hi

theorem shifted_lt (v : UInt8) : (v >>> 2).toNat < 0x40 := by
  have hv := v.toNat_lt
  have h2 : (2 : UInt8).toNat % 8 = 2 := rfl
  rw [UInt8.toNat_shiftRight, h2, Nat.shiftRight_eq_div_pow]
  omega

theorem translate_ge (v : UInt8) : (0x96 : UInt8) ≤ translateTable6.getD (v >>> 2).toNat 0 :=
  (translateTable6_valid _ (translate_mem (shifted_lt v))).1

/-- Looking a disk byte up gives back the six high bits it was chosen by. -/
theorem revTranslate_translate (v : UInt8) :
    revTranslateTable6 (translateTable6.getD (v >>> 2).toNat 0 &&& (0x7F : UInt8)).toNat =
      v &&& 0xFC := by
  have hall : ∀ i, i < 0x40 → revTranslateTable6
      (translateTable6.getD i 0 &&& (0x7F : UInt8)).toNat = UInt8.ofNat (i <<< 2) := by
    decide +kernel
  have hhigh : ∀ v : UInt8, UInt8.ofNat ((v >>> 2).toNat <<< 2) = v &&& 0xFC :=
    forall_uint8 (by decide)
  rw [hall _ (shifted_lt v), hhigh]

/-- The one cell that keeps its 1 is cell 0. -/
theorem revTranslateTable6_eq_one (j : ℕ) : revTranslateTable6 j = 1 ↔ j = 0 := by
  refine forUp_invariant (fun _ (table : Buf) => ∀ j, table j = 1 ↔ j = 0) 0x40 ?_ ?_ j
  · intro j
    by_cases hj : j = 0
    · simp [hj]
    · simp [hj]
  · intro i table hi htable j
    have hbyte := UInt8.le_iff_toNat_le.mp (translateTable6_valid _ (translate_mem hi)).1
    change 0x96 ≤ _ at hbyte
    have hvalue : UInt8.ofNat (i <<< 2) ≠ 1 := by
      intro h
      have hnat := congrArg UInt8.toNat h
      rw [UInt8.toNat_ofNat', Nat.shiftLeft_eq] at hnat
      change _ = 1 at hnat
      omega
    by_cases hj : j = (translateTable6.getD i 0).toNat - 0x80
    · rw [hj, Function.update_self]
      exact iff_of_false hvalue (by omega)
    · rw [Function.update_of_ne hj]
      exact htable j

/-- The one table cell that fails the decoder's check is cell 0. -/
theorem revTranslate_eq_one (b : UInt8) :
    revTranslateTable6 (b &&& 0x7F).toNat = 1 ↔ b &&& 0x7F = 0 := by
  rw [revTranslateTable6_eq_one, ← UInt8.toNat_inj]
  rfl
theorem mask_ne_one (v : UInt8) : v &&& 0xFC ≠ 1 := by
  revert v
  exact forall_uint8 (by decide)

/-! ## The encoder, cell by cell -/

/-- Low-bits byte `i` of a sector; the last two have no third source. -/
def packedLow (src : Buf) (i : ℕ) : UInt8 :=
  let v := packPairs (src ((0xAC + i) % 256)) (src (0x56 + i)) (src i)
  if i < 0x54 then v else v &&& sixbitMask

/-- Six-bit byte `i` of a sector (in the high bits of the byte). -/
def sixbit (src : Buf) (i : ℕ) : UInt8 :=
  if i < 0x56 then packedLow src i else if i < 0x156 then src (i - 0x56) else 0

/-- The cell before `i`, zero before the first one. -/
def prev (a : Buf) (i : ℕ) : UInt8 := if i = 0 then 0 else a (i - 1)

/-- Disk byte `i` of the data field of a sector. -/
def sectorNibble (src : Buf) (i : ℕ) : UInt8 :=
  translateTable6.getD ((prev (sixbit src) i ^^^ sixbit src i) >>> 2).toNat 0

theorem toNat_offset (n : ℕ) : (UInt8.ofNat n).toNat = n % 256 := by
  simp [UInt8.toNat_ofNat']

theorem offset_sub (n m : ℕ) : UInt8.ofNat (n + m) - UInt8.ofNat m = UInt8.ofNat n := by
  rw [UInt8.ofNat_add]
  simp

theorem offset_wrap (k : ℕ) :
    UInt8.ofNat k - UInt8.ofNat sixbitExtraWrap = UInt8.ofNat (0xAD + k) := by
  have h : UInt8.ofNat k = UInt8.ofNat (0xAD + k + sixbitExtraWrap) := by
    apply UInt8.toNat_inj.mp
    rw [toNat_offset, toNat_offset, sixbitExtraWrap]
    omega
  rw [h, offset_sub]

/-- After `k` passes the loop stands at offset `0xAC + k` and has packed `k` bytes. -/
theorem packStep_iterate (src : Buf) (k : ℕ) (hk : k ≤ sixbitExtraBytes) :
    (packStep src)^[k] { counter := 0, offset := sixbitOffBegin, workBuf := fun _ => 0 } =
      { counter := k
        offset := UInt8.ofNat (0xAC + k)
        workBuf := fun j => if j < k then
          packPairs (src ((0xAC + j) % 256)) (src (0x56 + j)) (src j) else 0 } := by
  induction k with
  | zero => simp [sixbitOffBegin]
  | succ k ih =>
    have hk' : k < 0x56 := hk
    rw [Function.iterate_succ_apply', ih (by omega)]
    have h1 : UInt8.ofNat (0xAC + k) - UInt8.ofNat sixbitExtraBytes = UInt8.ofNat (0x56 + k) := by
      rw [show 0xAC + k = 0x56 + k + sixbitExtraBytes by rw [sixbitExtraBytes]; omega, offset_sub]
    have h2 : UInt8.ofNat (0x56 + k) - UInt8.ofNat sixbitExtraBytes = UInt8.ofNat k := by
      rw [show 0x56 + k = k + sixbitExtraBytes by rw [sixbitExtraBytes]; omega, offset_sub]
    simp only [packStep, h1, h2, offset_wrap, toNat_offset]
    rw [Nat.mod_eq_of_lt (by omega : 0x56 + k < 256), Nat.mod_eq_of_lt (by omega : k < 256)]
    congr 1
    · congr 1
      omega
    · funext j
      by_cases hj : j = k
      · subst hj
        simp [packPairs]
      · have hiff : j < k ↔ j < k + 1 := by omega
        simp [hj, hiff]

/-- The loop is left after 86 passes and not before. -/
theorem packLoop_runs (src : Buf) (k : ℕ) (hk : k ≤ sixbitExtraBytes) :
    (((packStep src)^[k] { counter := 0, offset := sixbitOffBegin, workBuf := fun _ => 0 }).offset
      != 0x02) = true ↔ k < 0x56 := by
  rw [packStep_iterate src k hk, bne_iff_ne, ne_eq, ← UInt8.toNat_inj, toNat_offset]
  rw [sixbitExtraBytes] at hk
  change ¬ _ = 2 ↔ _
  omega

theorem packLoop_eq (src : Buf) :
    whileLoop Fault.loopBound (fun s => s.offset != 0x02) (packStep src) 0x100
        { counter := 0, offset := sixbitOffBegin, workBuf := fun _ => 0 } =
      .ok { counter := 0x56
            offset := 0x02
            workBuf := fun j => if j < 0x56 then
              packPairs (src ((0xAC + j) % 256)) (src (0x56 + j)) (src j) else 0 } := by
  rw [whileLoop_iterate 0x56]
  · rw [packStep_iterate src 0x56 (le_refl _)]
    rfl
  · omega
  · intro i hi
    exact (packLoop_runs src i (by rw [sixbitExtraBytes]; omega)).mpr hi
  · rw [Bool.eq_false_iff, ne_eq, packLoop_runs src 0x56 (le_refl _)]
    exact lt_irrefl _

/-- The checksum loop replaces every cell by its difference from the cell before. -/
theorem xorLoop_eq (w : Buf) (n : ℕ) :
    forUp n xorStep (0, w) =
      (prev w n, fun j => if j < n then prev w j ^^^ w j else w j) := by
  induction n with
  | zero => simp [prev]
  | succ n ih =>
    rw [forUp_succ, ih]
    simp only [xorStep, lt_irrefl, if_false]
    refine Prod.ext (by simp [prev]) ?_
    funext j
    by_cases hj : j = n
    · subst hj
      simp
    · have hiff : j < n ↔ j < n + 1 := by omega
      simp [hj, hiff]

theorem sixbitBuffer_eq (src : Buf) (j : ℕ) (hj : j < numSixbitNibs) :
    sixbitBuffer src
        { counter := 0x56
          offset := 0x02
          workBuf := fun j => if j < 0x56 then
            packPairs (src ((0xAC + j) % 256)) (src (0x56 + j)) (src j) else 0 } j =
      sixbit src j := by
  by_cases hlow : j < 0x56
  · rw [sixbitBuffer, Buf.copy_outside _ _ _ _ _ (Or.inl hlow)]
    by_cases h85 : j = 0x55
    · subst h85
      simp [sixbit, packedLow]
    · by_cases h84 : j = 0x54
      · subst h84
        simp [sixbit, packedLow]
      · have h : j < 0x54 := by omega
        simp [sixbit, packedLow, hlow, h, h84, h85]
  · simp only [numSixbitNibs, sixbitExtraBytes] at hj
    obtain ⟨k, rfl⟩ : ∃ k, j = 0x56 + k := ⟨j - 0x56, by omega⟩
    have hk : 0x56 + k < 0x156 := hj
    rw [sixbitBuffer, Buf.copy_inside _ _ _ _ _ (by omega)]
    simp [sixbit, hk]

theorem xorNibs_eq (src w : Buf) (hw : ∀ j, j < numSixbitNibs → w j = sixbit src j) (i : ℕ)
    (hi : i < numSixbitNibs + 1) : xorNibs w i = prev (sixbit src) i ^^^ sixbit src i := by
  have hprev : prev w i = prev (sixbit src) i := by
    by_cases h0 : i = 0
    · simp [prev, h0]
    · simp only [prev, h0, if_false]
      exact hw _ (by omega)
  rw [xorNibs, xorLoop_eq, ← hprev]
  by_cases hlast : i = numSixbitNibs
  · have h0 : sixbit src i = 0 := by
      rw [hlast]
      simp [sixbit, numSixbitNibs, sixbitExtraBytes]
    rw [h0, hlast]
    simp
  · have hi' : i < numSixbitNibs := by omega
    rw [Function.update_of_ne hlast]
    simp only [hi', if_true]
    rw [hw i hi']

/-- **The encoder.** No assertion fires, and disk byte `i` is `sectorNibble src i`. -/
theorem nibblizeSector_eq (src : Buf) :
    nibblizeSector src = .ok ((List.range (numSixbitNibs + 1)).map (sectorNibble src)) := by
  rw [nibblizeSector, packLoop_eq]
  simp only [bind, Except.bind, pure, Except.pure, sixbitExtraBytes, beq_self_eq_true,
    assertThat_true]
  refine congrArg Except.ok (List.map_congr_left ?_)
  intro i hi
  rw [sectorNibble, xorNibs_eq src _ (sixbitBuffer_eq src) i (List.mem_range.mp hi)]

/-! ## The decoder, cell by cell -/

theorem lookupLoop_ok (src w : Buf) (n : ℕ)
    (h : ∀ i, i < n → revTranslateTable6 (src i &&& 0x7F).toNat ≠ 1) :
    forUpM n (lookupStep src) w =
      .ok (fun j => if j < n then revTranslateTable6 (src j &&& 0x7F).toNat else w j) := by
  induction n with
  | zero => simp
  | succ n ih =>
    rw [forUpM_succ, ih (fun i hi => h i (by omega))]
    have hn : (revTranslateTable6 (src n &&& 0x7F).toNat != 1) = true := by
      simpa using h n (Nat.lt_succ_self n)
    simp only [Except.bind, lookupStep, Function.update_self, hn, assertThat_true, bind, pure,
      Except.pure]
    congr 1
    funext j
    by_cases hj : j = n
    · subst hj
      simp
    · have hiff : j < n ↔ j < n + 1 := by omega
      simp [hj, hiff]

/-- The second xor pass undoes the first: it turns differences back into the cells. -/
theorem unxorLoop_eq (w a : Buf) (n : ℕ) (h : ∀ j, j < n → w j = prev a j ^^^ a j) :
    forUp n unxorStep (0, w) = (prev a n, fun j => if j < n then a j else w j) := by
  induction n with
  | zero => simp [prev]
  | succ n ih =>
    rw [forUp_succ, ih (fun j hj => h j (by omega))]
    have hn : prev a n ^^^ w n = a n := by
      rw [h n (Nat.lt_succ_self n), ← UInt8.xor_assoc]
      simp
    simp only [unxorStep, lt_irrefl, if_false, Function.update_self, hn]
    refine Prod.ext (by simp [prev]) ?_
    funext j
    by_cases hj : j = n
    · subst hj
      simp
    · have hiff : j < n ↔ j < n + 1 := by omega
      simp [hj, hiff]

/-- Sector byte `j` of a work buffer `w`: six bits from its own cell, two from a low-bits byte. -/
def decodedByte (w : Buf) (j : ℕ) : UInt8 :=
  (w (0x56 + j) &&& 0xFC) |||
    (if j < 0x56 then pairLow (w j)
     else if j < 0xAC then pairMid (w (j - 0x56))
     else pairHigh (w (j - 0xAC)))

theorem decodedByte_low (w : Buf) (j : ℕ) (hj : j < 0x56) :
    (w (sixbitExtraBytes + j) &&& 0xFC : UInt8) ||| ((w j &&& 0x08 : UInt8) >>> 3) |||
        ((w j &&& 0x04 : UInt8) >>> 1) = decodedByte w j := by
  simp only [decodedByte, hj, if_true, pairLow, sixbitExtraBytes, UInt8.or_assoc]

theorem decodedByte_mid (w : Buf) (i : ℕ) (hi : i < 0x56) :
    (w (sixbitExtraBytes + (0x56 + i)) &&& 0xFC : UInt8) ||| ((w i &&& 0x20 : UInt8) >>> 5) |||
        ((w i &&& 0x10 : UInt8) >>> 3) = decodedByte w (0x56 + i) := by
  have h1 : ¬ 0x56 + i < 0x56 := by omega
  have h2 : 0x56 + i < 0xAC := by omega
  simp only [decodedByte, h1, h2, if_false, if_true, pairMid, sixbitExtraBytes, UInt8.or_assoc,
    Nat.add_sub_cancel_left]

theorem decodedByte_high (w : Buf) (i : ℕ) :
    (w (sixbitExtraBytes + (0xAC + i)) &&& 0xFC : UInt8) ||| ((w i &&& 0x80 : UInt8) >>> 7) |||
        ((w i &&& 0x40 : UInt8) >>> 5) = decodedByte w (0xAC + i) := by
  have h1 : ¬ 0xAC + i < 0x56 := by omega
  have h2 : ¬ 0xAC + i < 0xAC := by omega
  simp only [decodedByte, h1, h2, if_false, pairHigh, sixbitExtraBytes, UInt8.or_assoc,
    Nat.add_sub_cancel_left]

/-- The cells the decoder has written after `k` passes: a prefix of each third of the sector. -/
def Unpacked (k j : ℕ) : Prop :=
  j < k ∨ (0x56 ≤ j ∧ j < 0x56 + k) ∨ (0xAC ≤ j ∧ j < 0xAC + k ∧ j < 0x100)

instance (k j : ℕ) : Decidable (Unpacked k j) := by
  unfold Unpacked
  infer_instance

theorem unpacked_succ (k j : ℕ) (hk : k < 0x56) :
    Unpacked (k + 1) j ↔ j = k ∨ j = 0x56 + k ∨ (j = 0xAC + k ∧ k < 0x54) ∨ Unpacked k j := by
  unfold Unpacked
  omega

/-- After `k` passes the loop stands at offset `0xAC + k`; the third source is missing from the
last two passes. -/
theorem unpackLoop_eq (w out : Buf) (k : ℕ) (hk : k ≤ sixbitExtraBytes) :
    forUp k (unpackStep w) { offset := sixbitOffBegin, counter := 0, out := out } =
      { offset := UInt8.ofNat (0xAC + k)
        counter := 2 * k + min k 0x54
        out := fun j => if Unpacked k j then decodedByte w j else out j } := by
  induction k with
  | zero =>
    have hnone : ∀ j, ¬ Unpacked 0 j := by
      unfold Unpacked
      omega
    simp only [forUp_zero, hnone, if_false]
    rfl
  | succ k ih =>
    have hk' : k < 0x56 := hk
    rw [forUp_succ, ih (by omega)]
    have h1 : UInt8.ofNat (0xAC + k) - UInt8.ofNat sixbitExtraBytes = UInt8.ofNat (0x56 + k) := by
      rw [show 0xAC + k = 0x56 + k + sixbitExtraBytes by rw [sixbitExtraBytes]; omega, offset_sub]
    have h2 : UInt8.ofNat (0x56 + k) - UInt8.ofNat sixbitExtraBytes = UInt8.ofNat k := by
      rw [show 0x56 + k = k + sixbitExtraBytes by rw [sixbitExtraBytes]; omega, offset_sub]
    have hmid : (0x56 + k) % 256 = 0x56 + k := Nat.mod_eq_of_lt (by omega)
    have hlow : k % 256 = k := Nat.mod_eq_of_lt (by omega)
    have htest : sixbitOffBegin ≤ UInt8.ofNat (0xAC + k) ↔ k < 0x54 := by
      rw [UInt8.le_iff_toNat_le, toNat_offset]
      change 0xAC ≤ _ ↔ _
      omega
    have hoff : UInt8.ofNat (0xAD + k) = UInt8.ofNat (0xAC + (k + 1)) := by
      congr 1
      omega
    by_cases hhigh : k < 0x54
    · have hmod : (0xAC + k) % 256 = 0xAC + k := Nat.mod_eq_of_lt (by omega)
      simp only [unpackStep, htest, hhigh, if_true, h1, h2, offset_wrap, toNat_offset, hmod, hmid,
        hlow, decodedByte_high, decodedByte_mid w k hk', decodedByte_low w k hk', hoff,
        UnpackState.mk.injEq, true_and]
      refine ⟨by omega, ?_⟩
      funext j
      have hiff := unpacked_succ k j hk'
      simp only [Function.update_apply, hiff, hhigh, and_true]
      by_cases hk0 : j = k
      · simp [hk0]
      by_cases hk1 : j = 0x56 + k
      · simp [hk1]
      by_cases hk2 : j = 0xAC + k
      · simp [hk2]
      simp [hk0, hk1, hk2]
    · simp only [unpackStep, htest, hhigh, if_false, h1, h2, offset_wrap, toNat_offset, hmid,
        hlow, decodedByte_mid w k hk', decodedByte_low w k hk', hoff,
        UnpackState.mk.injEq, true_and]
      refine ⟨by omega, ?_⟩
      funext j
      have hiff := unpacked_succ k j hk'
      simp only [Function.update_apply, hiff, hhigh, and_false, false_or]
      by_cases hk0 : j = k
      · simp [hk0]
      by_cases hk1 : j = 0x56 + k
      · simp [hk1]
      simp [hk0, hk1]

theorem unpackLoop_full (w out : Buf) :
    forUp sixbitExtraBytes (unpackStep w) { offset := sixbitOffBegin, counter := 0, out := out } =
      { offset := 2
        counter := 0x100
        out := fun j => if j < 0x100 then decodedByte w j else out j } := by
  have hall : ∀ j, Unpacked 0x56 j ↔ j < 0x100 := by
    unfold Unpacked
    omega
  rw [unpackLoop_eq w out sixbitExtraBytes (le_refl _)]
  simp only [sixbitExtraBytes, hall]
  rfl

/-- **The decoder on any 343 bytes.** It stops exactly at a byte the table marks unknown;
otherwise it overwrites the 256 bytes of the sector and nothing else. -/
theorem denibblizeSector_ok (src out : Buf) (h : ∀ i, i < numSixbitNibs + 1 → src i &&& 0x7F ≠ 0) :
    ∃ w : Buf, denibblizeSector src out =
      .ok (fun j => if j < 0x100 then decodedByte w j else out j) := by
  have hne : ∀ i, i < numSixbitNibs + 1 → revTranslateTable6 (src i &&& 0x7F).toNat ≠ 1 :=
    fun i hi he => h i hi ((revTranslate_eq_one _).mp he)
  refine ⟨(forUp numSixbitNibs unxorStep (0, fun j => if j < numSixbitNibs + 1 then
    revTranslateTable6 (src j &&& 0x7F).toNat else 0)).2, ?_⟩
  rw [denibblizeSector, lookupLoop_ok _ _ _ hne]
  simp only [bind, Except.bind, unpackLoop_full, beq_self_eq_true, assertThat_true, pure,
    Except.pure]

/-! ## The round trip -/

theorem sixbit_high (src : Buf) (j : ℕ) (hj : j < 0x100) : sixbit src (0x56 + j) = src j := by
  have h1 : ¬ 0x56 + j < 0x56 := by omega
  have h2 : 0x56 + j < 0x156 := by omega
  simp only [sixbit, h1, h2, if_false, if_true, Nat.add_sub_cancel_left]

theorem sixbit_low (src : Buf) (i : ℕ) (hi : i < 0x56) :
    pairMid (sixbit src i) = src (0x56 + i) &&& 3 ∧ pairLow (sixbit src i) = src i &&& 3 := by
  obtain ⟨-, ⟨hm, hm'⟩, hl, hl'⟩ :=
    packPairs_read (src ((0xAC + i) % 256)) (src (0x56 + i)) (src i)
  by_cases h84 : i < 0x54
  · simp only [sixbit, hi, packedLow, h84, if_true]
    exact ⟨hm, hl⟩
  · simp only [sixbit, hi, packedLow, h84, if_true, if_false]
    exact ⟨hm', hl'⟩

theorem sixbit_top (src : Buf) (i : ℕ) (hi : i < 0x54) :
    pairHigh (sixbit src i) = src (0xAC + i) &&& 3 := by
  have h86 : i < 0x56 := by omega
  have hmod : (0xAC + i) % 256 = 0xAC + i := Nat.mod_eq_of_lt (by omega)
  have h := (packPairs_read (src ((0xAC + i) % 256)) (src (0x56 + i)) (src i)).1
  rw [hmod] at h
  simp only [sixbit, h86, packedLow, hi, if_true, hmod]
  exact h

/-- The six high bits of every six-bit byte are enough to rebuild the sector. -/
theorem decodedByte_sixbit (src : Buf) (j : ℕ) (hj : j < 0x100) :
    decodedByte (fun i => sixbit src i &&& 0xFC) j = src j := by
  simp only [decodedByte, sixbit_high src j hj, pair_mask]
  by_cases hlow : j < 0x56
  · simp only [hlow, if_true, (sixbit_low src j hlow).2]
    exact mask_join (src j)
  by_cases hmid : j < 0xAC
  · obtain ⟨i, rfl⟩ : ∃ i, j = 0x56 + i := ⟨j - 0x56, by omega⟩
    simp only [hlow, hmid, if_true, if_false, Nat.add_sub_cancel_left,
      (sixbit_low src i (by omega)).1]
    exact mask_join (src (0x56 + i))
  · obtain ⟨i, rfl⟩ : ∃ i, j = 0xAC + i := ⟨j - 0xAC, by omega⟩
    simp only [hlow, hmid, if_false, Nat.add_sub_cancel_left, sixbit_top src i (by omega)]
    exact mask_join (src (0xAC + i))

theorem decodedByte_congr (w w' : Buf) (j : ℕ) (hj : j < 0x100)
    (h : ∀ i, i < numSixbitNibs → w i = w' i) : decodedByte w j = decodedByte w' j := by
  have hn : numSixbitNibs = 0x156 := rfl
  rw [hn] at h
  rw [decodedByte, decodedByte, h (0x56 + j) (by omega), h (j - 0x56) (by omega),
    h (j - 0xAC) (by omega), h j (by omega)]

theorem xor_mask (a b : UInt8) : (a ^^^ b) &&& 0xFC = (a &&& 0xFC) ^^^ (b &&& 0xFC) := by
  apply UInt8.toBitVec_inj.mp
  simp only [UInt8.toBitVec_and, UInt8.toBitVec_xor]
  ext i hi
  simp only [BitVec.getElem_and, BitVec.getElem_xor, Bool.and_xor_distrib_right]

theorem sectorNibble_lookup (src : Buf) (i : ℕ) :
    revTranslateTable6 (sectorNibble src i &&& (0x7F : UInt8)).toNat =
      prev (fun k => sixbit src k &&& 0xFC) i ^^^ (sixbit src i &&& 0xFC) := by
  rw [sectorNibble, revTranslate_translate, xor_mask]
  congr 1
  by_cases h0 : i = 0
  · simp [prev, h0]
  · simp [prev, h0]

/-- **Sector round trip.** Decoding the 343 disk bytes of a sector restores its 256 bytes. -/
theorem denibblizeSector_sectorNibble (src nibs out : Buf)
    (h : ∀ i, i < numSixbitNibs + 1 → nibs i = sectorNibble src i) :
    denibblizeSector nibs out = .ok (fun j => if j < 0x100 then src j else out j) := by
  have hne : ∀ i, i < numSixbitNibs + 1 → revTranslateTable6 (nibs i &&& 0x7F).toNat ≠ 1 := by
    intro i hi
    rw [h i hi, sectorNibble, revTranslate_translate]
    exact mask_ne_one _
  have hdiff : ∀ j, j < numSixbitNibs →
      (if j < numSixbitNibs + 1 then revTranslateTable6 (nibs j &&& 0x7F).toNat else 0) =
        prev (fun k => sixbit src k &&& 0xFC) j ^^^ (sixbit src j &&& 0xFC) := by
    intro j hj
    have hj' : j < numSixbitNibs + 1 := by omega
    simp only [hj', if_true]
    rw [h j hj', sectorNibble_lookup]
  rw [denibblizeSector, lookupLoop_ok _ _ _ hne]
  simp only [bind, Except.bind, unxorLoop_eq _ _ _ hdiff, unpackLoop_full, beq_self_eq_true,
    assertThat_true, pure, Except.pure]
  congr 1
  funext j
  by_cases hj : j < 0x100
  · simp only [hj, if_true]
    rw [← decodedByte_sixbit src j hj]
    apply decodedByte_congr _ _ _ hj
    intro i hi
    simp only [hi, if_true]
  · simp only [hj, if_false]

end Apple2ix.Disk
