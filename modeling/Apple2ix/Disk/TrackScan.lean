import Apple2ix.Foundations.Ring
import Apple2ix.Disk.SectorMeaning
import Apple2ix.Disk.TrackCodec

/-! One step of the track decoder in terms of the ring of nibbles it reads. A step started at
ring position `p` is decided by the first 0xD5 at or after `p` and the two bytes behind it. -/
namespace Apple2ix.Disk
open Loops
set_option autoImplicit false

/-- The first 0xD5 at or after `p` is `k` bytes away. -/
def FirstD5 (c : Buf) (p k : ℕ) : Prop := (∀ j, j < k → c (p + j) ≠ 0xD5) ∧ c (p + k) = 0xD5

/-- The sector number of a header, from its two 4-and-4 encoded bytes. -/
def headerSector (a b : UInt8) : ℕ := ((a.toNat &&& 0x55) <<< 1) ||| (b.toNat &&& 0x55)

section Scan
variable (src : Buf) (w : ℕ)

/-! ## The search -/

theorem findPrologue_skip (n p : ℕ) (h : ring src w p ≠ 0xD5) :
    findPrologue src w (n + 1) [] (p % w) = findPrologue src w n [] ((p + 1) % w) := by
  have hb : (src (p % w) == 0xD5) = false := by simpa [ring] using h
  simp [findPrologue, hb]

theorem findPrologue_hit (n p : ℕ) (h : ring src w p = 0xD5) :
    findPrologue src w (n + 3) [] (p % w) =
      ([0xD5, ring src w (p + 1), ring src w (p + 2)], (p + 3) % w) := by
  have hb : src (p % w) = 0xD5 := h
  simp [findPrologue, hb, ring, Nat.add_assoc]

theorem findPrologue_first (n p k : ℕ) (h : FirstD5 (ring src w) p k) (hn : k + 3 ≤ n) :
    findPrologue src w n [] (p % w) =
      ([0xD5, ring src w (p + k + 1), ring src w (p + k + 2)], (p + k + 3) % w) := by
  induction k generalizing p n with
  | zero =>
    obtain ⟨m, rfl⟩ : ∃ m, n = m + 3 := ⟨n - 3, by omega⟩
    exact findPrologue_hit src w m p h.2
  | succ k ih =>
    obtain ⟨m, rfl⟩ : ∃ m, n = m + 1 := ⟨n - 1, by omega⟩
    have hnext : FirstD5 (ring src w) (p + 1) k := by
      refine ⟨fun j hj => ?_, ?_⟩
      · have := h.1 (j + 1) (by omega)
        rwa [show p + (j + 1) = p + 1 + j by omega] at this
      · have := h.2
        rwa [show p + (k + 1) = p + 1 + k by omega] at this
    rw [findPrologue_skip src w m p (h.1 0 (by omega)), ih m (p + 1) hnext (by omega)]
    rw [show p + 1 + k = p + (k + 1) by omega]

theorem findPrologue_none (n p : ℕ) (h : ∀ j, j < n → ring src w (p + j) ≠ 0xD5) :
    findPrologue src w n [] (p % w) = ([], (p + n) % w) := by
  induction n generalizing p with
  | zero => rfl
  | succ n ih =>
    rw [findPrologue_skip src w n p (h 0 (by omega)), ih (p + 1) (fun j hj => ?_)]
    · rw [show p + 1 + n = p + (n + 1) by omega]
    · rw [show p + 1 + j = p + (j + 1) by omega]
      exact h (j + 1) (by omega)

theorem copyDataField_eq (p : ℕ) :
    copyDataField src w (p % w) =
      ((p + (numSixbitNibs + 1)) % w,
        fun i => if i < numSixbitNibs + 1 then ring src w (p + i) else 0) := by
  unfold copyDataField
  induction numSixbitNibs + 1 with
  | zero => simp
  | succ n ih =>
    rw [forUp_succ, ih]
    refine Prod.ext ?_ ?_
    · simp [Nat.add_assoc]
    · funext i
      by_cases hi : i = n
      · subst hi
        simp [ring]
      · have hiff : i < n ↔ i < n + 1 := by omega
        simp [hi, hiff]

/-! ## One pass of the decoder -/

variable (skew : List ℕ) (p k : ℕ) (sector : ℤ) (dst : Buf)

theorem denibblizeStep_none (h : ∀ j, j < nibTrackSize → ring src w (p + j) ≠ 0xD5) :
    denibblizeStep skew src w ⟨p % w, sector, dst⟩ =
      .ok ⟨(p + nibTrackSize) % w, sector, dst⟩ := by
  simp [denibblizeStep, findPrologue_none src w nibTrackSize p h]

theorem denibblizeStep_junk (h : FirstD5 (ring src w) p k) (hk : k + 3 ≤ nibTrackSize)
    (hj : ¬ (ring src w (p + k + 1) = 0xAA ∧
      (ring src w (p + k + 2) = 0x96 ∨ ring src w (p + k + 2) = 0xAD))) :
    denibblizeStep skew src w ⟨p % w, sector, dst⟩ = .ok ⟨(p + k + 3) % w, sector, dst⟩ := by
  simp only [denibblizeStep, findPrologue_first src w nibTrackSize p k h hk,
    List.getD_cons_succ, List.getD_cons_zero]
  by_cases haa : ring src w (p + k + 1) = 0xAA
  · have h96 : ring src w (p + k + 2) ≠ 0x96 := fun e => hj ⟨haa, Or.inl e⟩
    have had : ring src w (p + k + 2) ≠ 0xAD := fun e => hj ⟨haa, Or.inr e⟩
    simp [haa, h96, had]
  · simp [haa]

theorem denibblizeStep_header (h : FirstD5 (ring src w) p k) (hk : k + 3 ≤ nibTrackSize)
    (haa : ring src w (p + k + 1) = 0xAA) (h96 : ring src w (p + k + 2) = 0x96) :
    denibblizeStep skew src w ⟨p % w, sector, dst⟩ =
      .ok ⟨(p + k + 9) % w,
        headerSector (ring src w (p + k + 7)) (ring src w (p + k + 8)), dst⟩ := by
  simp only [denibblizeStep, findPrologue_first src w nibTrackSize p k h hk,
    List.getD_cons_succ, List.getD_cons_zero, haa, h96]
  simp [headerSector, ring, sctoff, Nat.add_assoc]

theorem denibblizeStep_data (h : FirstD5 (ring src w) p k) (hk : k + 3 ≤ nibTrackSize)
    (haa : ring src w (p + k + 1) = 0xAA) (had : ring src w (p + k + 2) = 0xAD) :
    denibblizeStep skew src w ⟨p % w, sector, dst⟩ = (do
      assertThat (0 ≤ sector && sector < 16) .invalidPreviousNibblization
      let off := secOff skew sector.toNat
      let sectorBuf ← denibblizeSector
        (fun i => if i < numSixbitNibs + 1 then ring src w (p + k + 3 + i) else 0)
        fun i => dst (off + i)
      return ⟨(p + k + 3 + (numSixbitNibs + 1)) % w, -1,
        fun i => if off ≤ i then sectorBuf (i - off) else dst i⟩) := by
  have hne : ¬ (0xAD : UInt8) = 0x96 := by decide
  simp only [denibblizeStep, findPrologue_first src w nibTrackSize p k h hk,
    List.getD_cons_succ, List.getD_cons_zero, haa, had, copyDataField_eq, hne, ne_eq, not_true,
    if_false]

end Scan

end Apple2ix.Disk
