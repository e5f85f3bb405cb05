import Apple2ix.Foundations.LoopLogs
import Apple2ix.Disk.SectorMeaning

/-! The walks of the sector codec through the 256 bytes of a sector: which `src[offset]` the loop
of `nibblize_sector` reads, and which `out[offset]` the loop of `denibblize_sector` writes. -/
namespace Apple2ix.Disk
open Loops
set_option autoImplicit false
set_option maxRecDepth 4000

/-! ## The offsets of a pass -/

/-- Where a pass of `nibblize_sector` has `src[offset]`. -/
def packOffsets (s : PackState) : List ℕ :=
  let offset := s.offset
  let offset' := offset - UInt8.ofNat sixbitExtraBytes
  let offset'' := offset' - UInt8.ofNat sixbitExtraBytes
  [offset.toNat, offset'.toNat, offset''.toNat]

/-- Where a pass of `denibblize_sector` has `out[offset]`. -/
def unpackOffsets (s : UnpackState) : List ℕ :=
  let offset := s.offset
  let offset' := offset - UInt8.ofNat sixbitExtraBytes
  let offset'' := offset' - UInt8.ofNat sixbitExtraBytes
  (if sixbitOffBegin ≤ offset then [offset.toNat] else []) ++ ([offset'.toNat] ++ [offset''.toNat])

/-! ## The walks -/

/-- The offsets of the passes of `nibblize_sector`. -/
def packWalk (src : Buf) : Except Fault (List (List ℕ)) :=
  (whileLoop Fault.loopBound (fun s => s.1.offset != 0x02) (logged packOffsets (packStep src)) 0x100
    ({ counter := 0, offset := sixbitOffBegin, workBuf := fun _ => 0 }, [])).map Prod.snd

/-- The offsets of the passes of `denibblize_sector`. -/
def unpackWalk (w out : Buf) : List (List ℕ) :=
  (forUp sixbitExtraBytes (fun i => logged unpackOffsets (unpackStep w i))
    ({ offset := sixbitOffBegin, counter := 0, out := out }, [])).2

theorem offset_down (k : ℕ) :
    UInt8.ofNat (0xAC + k) - UInt8.ofNat sixbitExtraBytes = UInt8.ofNat (0x56 + k) ∧
      UInt8.ofNat (0x56 + k) - UInt8.ofNat sixbitExtraBytes = UInt8.ofNat k := by
  have hhigh : 0xAC + k = 0x56 + k + sixbitExtraBytes := by rw [sixbitExtraBytes]; omega
  have hmid : 0x56 + k = k + sixbitExtraBytes := by rw [sixbitExtraBytes]; omega
  refine ⟨by rw [hhigh, offset_sub], ?_⟩
  rw [hmid, offset_sub]

theorem packOffsets_pass (src : Buf) (k : ℕ) (hk : k < 0x56) :
    packOffsets ((packStep src)^[k]
        { counter := 0, offset := sixbitOffBegin, workBuf := fun _ => 0 }) =
      [(0xAC + k) % 256] ++ ([0x56 + k] ++ [k]) := by
  have hlow : k % 256 = k := Nat.mod_eq_of_lt (by omega)
  have hmid : (0x56 + k) % 256 = 0x56 + k := Nat.mod_eq_of_lt (by omega)
  rw [packStep_iterate src k (le_of_lt hk), packOffsets]
  simp only [(offset_down k).1, (offset_down k).2, toNat_offset, hlow, hmid]
  rfl

theorem unpackOffsets_pass (w out : Buf) (k : ℕ) (hk : k < 0x56) :
    unpackOffsets (forUp k (unpackStep w) { offset := sixbitOffBegin, counter := 0, out := out }) =
      (if k < 0x54 then [0xAC + k] else []) ++ ([0x56 + k] ++ [k]) := by
  have hlow : k % 256 = k := Nat.mod_eq_of_lt (by omega)
  have hmid : (0x56 + k) % 256 = 0x56 + k := Nat.mod_eq_of_lt (by omega)
  have htest : sixbitOffBegin ≤ UInt8.ofNat (0xAC + k) ↔ k < 0x54 := by
    rw [UInt8.le_iff_toNat_le, toNat_offset]
    change 0xAC ≤ _ ↔ _
    omega
  rw [unpackLoop_eq w out k (le_of_lt hk), unpackOffsets]
  simp only [(offset_down k).1, (offset_down k).2, toNat_offset, hlow, hmid, htest]
  by_cases hhigh : k < 0x54
  · rw [if_pos hhigh, if_pos hhigh, Nat.mod_eq_of_lt (by omega)]
  · rw [if_neg hhigh, if_neg hhigh]

/-- The loop of `nibblize_sector` and its offsets, pass by pass. -/
theorem packWalk_eq (src : Buf) : packWalk src =
    .ok ((List.range 0x56).map fun k => [(0xAC + k) % 256] ++ ([0x56 + k] ++ [k])) := by
  rw [packWalk, whileLoop_iterate 0x56]
  · rw [logged_iterate, List.nil_append]
    refine congrArg Except.ok (List.map_congr_left ?_)
    intro k hk
    exact packOffsets_pass src k (List.mem_range.mp hk)
  · omega
  · intro i hi
    rw [logged_iterate]
    exact (packLoop_runs src i (by rw [sixbitExtraBytes]; omega)).mpr hi
  · rw [logged_iterate, Bool.eq_false_iff, ne_eq, packLoop_runs src 0x56 (le_refl _)]
    exact lt_irrefl _

theorem unpackWalk_eq (w out : Buf) : unpackWalk w out =
    (List.range 0x56).map fun k =>
      (if k < 0x54 then [0xAC + k] else []) ++ ([0x56 + k] ++ [k]) := by
  rw [unpackWalk, forUp_logged, List.nil_append]
  exact List.map_congr_left fun k hk => unpackOffsets_pass w out k (List.mem_range.mp hk)

/-! ## What the walks cover -/

/-- Every byte of the sector exactly once, and the ones in `again` once more. -/
def Covers (walk : List (List ℕ)) (again : List ℕ) : Prop :=
  walk.flatten.Perm (List.range 0x100 ++ again)

/-- The three thirds of a sector, one after the other. -/
theorem thirds :
    (List.range 0x56).flatMap (fun k => [k]) ++ ((List.range 0x56).flatMap (fun k => [0x56 + k]) ++
      (List.range 0x54).flatMap fun k => [0xAC + k]) = List.range 0x100 := by
  simp only [← List.map_eq_flatMap, ← List.range'_eq_map_range, List.map_id']
  rw [List.range'_append_1, List.range_eq_range', List.range'_append_1, List.range_eq_range']

/-- The first offsets of all passes, which are the last third but for the last two of them. -/
theorem first_offsets (f : ℕ → List ℕ) (h : ∀ k, k < 0x54 → f k = [0xAC + k]) :
    (List.range 0x56).flatMap f =
      ((List.range 0x54).flatMap fun k => [0xAC + k]) ++ (f 0x54 ++ f 0x55) := by
  have hfirst : (List.range 0x54).flatMap f = (List.range 0x54).flatMap fun k => [0xAC + k] :=
    List.flatMap_congr fun k hk => h k (List.mem_range.mp hk)
  rw [List.range_succ, List.flatMap_append, List.range_succ, List.flatMap_append, hfirst,
    List.flatMap_singleton, List.flatMap_singleton, List.append_assoc]

theorem covers_of_passes (f : ℕ → List ℕ) (h : ∀ k, k < 0x54 → f k = [0xAC + k]) :
    Covers ((List.range 0x56).map fun k => f k ++ ([0x56 + k] ++ [k])) (f 0x54 ++ f 0x55) := by
  have hturns := flatten_turns 0x56 f (fun k => [0x56 + k]) fun k => [k]
  rw [first_offsets f h, ← List.append_assoc, ← List.append_assoc,
    List.append_assoc (List.flatMap _ _), thirds] at hturns
  exact hturns

theorem unpackWalk_covers (w out : Buf) : Covers (unpackWalk w out) [] := by
  rw [unpackWalk_eq]
  exact covers_of_passes _ fun k hk => if_pos hk

theorem packWalk_covers (src : Buf) : ∃ walk, packWalk src = .ok walk ∧ Covers walk [0, 1] ∧
    walk.drop 0x54 = [[0, 0xAA, 0x54], [1, 0xAB, 0x55]] := by
  refine ⟨_, packWalk_eq src, covers_of_passes _ fun k hk => ?_, rfl⟩
  rw [Nat.mod_eq_of_lt (by omega)]

/-- What the last two passes took a second time is masked off. -/
theorem sixbitBuffer_masked (src : Buf) {s : PackState}
    (hs : whileLoop Fault.loopBound (fun s => s.offset != 0x02) (packStep src) 0x100
      { counter := 0, offset := sixbitOffBegin, workBuf := fun _ => 0 } = .ok s)
    (i : ℕ) (hi : 0x54 ≤ i ∧ i < 0x56) : sixbitBuffer src s i &&& 0xC0 = 0 := by
  have hclear : ∀ v : UInt8, (v &&& sixbitMask) &&& 0xC0 = 0 := forall_uint8 (by decide)
  have hlow : ¬ i < 0x54 := by omega
  rw [packLoop_eq] at hs
  rw [← Except.ok.inj hs, sixbitBuffer_eq src i (by rw [numSixbitNibs, sixbitExtraBytes]; omega),
    sixbit, if_pos hi.2, packedLow, if_neg hlow]
  exact hclear _

/-! ## The codec -/

theorem getD_map_range {n i : ℕ} (f : ℕ → UInt8) (hi : i < n) :
    ((List.range n).map f).getD i 0 = f i := by
  simp [List.getD_eq_getElem?_getD, hi]

/-- **Main.** Of every sector come 343 valid disk bytes, none of a prologue, and of these the
sector again. The decoder writes every byte of it once; the encoder reads every byte once, and in
its last two passes the bytes 0 and 1 a second time, which it masks off. -/
theorem sector_codec (src out : Buf) :
    (∃ nibs, nibblizeSector src = .ok nibs ∧ nibs.length = 343 ∧
      (∀ nib ∈ nibs, 0x96 ≤ nib ∧ nib ≠ 0xD5 ∧ nib ≠ 0xAA) ∧
      denibblizeSector (fun i => nibs.getD i 0) out =
        .ok fun j => if j < 0x100 then src j else out j) ∧
    (∃ walk, packWalk src = .ok walk ∧ Covers walk [0, 1] ∧
      walk.drop 0x54 = [[0, 0xAA, 0x54], [1, 0xAB, 0x55]]) ∧
    (∀ s, whileLoop Fault.loopBound (fun s => s.offset != 0x02) (packStep src) 0x100
        { counter := 0, offset := sixbitOffBegin, workBuf := fun _ => 0 } = .ok s →
      ∀ i, 0x54 ≤ i ∧ i < 0x56 → sixbitBuffer src s i &&& 0xC0 = 0) ∧
    (∀ w, Covers (unpackWalk w out) []) ∧
    ∀ data, (∀ i, i < numSixbitNibs + 1 → data i &&& 0x7F ≠ 0) →
      ∃ sector, denibblizeSector data out = .ok sector := by
  refine ⟨⟨_, nibblizeSector_eq src, ?_, ?_, ?_⟩, packWalk_covers src,
    fun s hs => sixbitBuffer_masked src hs, fun w => unpackWalk_covers w out, ?_⟩
  · rw [List.length_map, List.length_range]
    rfl
  · intro nib hnib
    obtain ⟨i, -, rfl⟩ := List.mem_map.mp hnib
    exact translateTable6_valid _ (translate_mem (shifted_lt _))
  · exact denibblizeSector_sectorNibble src _ out fun i hi => getD_map_range _ hi
  · intro data hdata
    obtain ⟨w, hw⟩ := denibblizeSector_ok data out hdata
    exact ⟨_, hw⟩

/-- The encoder takes two bytes of every sector twice. -/
theorem packWalk_twice : ¬ ∀ src : Buf, ∃ walk, packWalk src = .ok walk ∧ Covers walk [] := by
  intro h
  obtain ⟨walk, hwalk, honce⟩ := h fun _ => 0
  obtain ⟨walk', hwalk', htwice, -⟩ := packWalk_covers fun _ => 0
  rw [hwalk] at hwalk'
  obtain rfl := Except.ok.inj hwalk'
  have hlength := (honce.symm.trans htwice).length_eq
  rw [List.length_append, List.length_append] at hlength
  exact absurd (Nat.add_left_cancel hlength) (by decide)

end Apple2ix.Disk
