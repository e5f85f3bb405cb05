import Apple2ix.Disk.TrackRoundTrip

/-! Decoding a track a guest program has written to. The decoder succeeds exactly on the tracks
whose data fields are numbered: `FieldsNumbered` reads the ring of nibbles from one 0xD5 to the
next, as a grammar of headers, data fields and stray bytes. -/
namespace Apple2ix.Disk
open Loops
set_option autoImplicit false

/-- Read from ring position `p` on, and as far as `n` fields, every data field comes after a
header with a sector number below 16 and no other data field in between. `header` is the sector
number of the header that is open at `p`. -/
def FieldsNumbered (c : Buf) : ℕ → ℕ → Option ℕ → Prop
  | 0, _, _ => True
  | n + 1, p, header => ∀ k, FirstD5 c p k →
    if c (p + k + 1) = 0xAA ∧ c (p + k + 2) = 0x96 then
      FieldsNumbered c n (p + k + 9) (some (headerSector (c (p + k + 7)) (c (p + k + 8))))
    else if c (p + k + 1) = 0xAA ∧ c (p + k + 2) = 0xAD then
      (∃ sector, header = some sector ∧ sector < numSectors) ∧
        FieldsNumbered c n (p + k + 3 + (numSixbitNibs + 1)) none
    else FieldsNumbered c n (p + k + 3) header

/-- The fields the decoder looks at. -/
def NumberedTrack (src : Buf) (w : ℕ) : Prop :=
  FieldsNumbered (ring src w) (2 * numSectors + 1) 0 none

/-! ## The first 0xD5 -/

theorem firstD5_unique (c : Buf) (p j k : ℕ) (hj : FirstD5 c p j) (hk : FirstD5 c p k) : j = k := by
  rcases Nat.lt_trichotomy j k with h | h | h
  · exact absurd hj.2 (hk.1 j h)
  · exact h
  · exact absurd hk.2 (hj.1 k h)

/-- In a ring of `w` cells the next 0xD5 is less than `w` away, or there is none. -/
theorem firstD5_ring (src : Buf) (w p : ℕ) (hw : 0 < w) :
    (∃ k, k < w ∧ FirstD5 (ring src w) p k) ∨ ∀ q, ring src w q ≠ 0xD5 := by
  by_cases h : ∃ j, j < w ∧ ring src w (p + j) = 0xD5
  · left
    obtain ⟨hlt, hat⟩ := Nat.find_spec h
    refine ⟨Nat.find h, hlt, fun j hj he => ?_, hat⟩
    exact Nat.find_min h hj ⟨by omega, he⟩
  · right
    intro q hq
    apply h
    -- the cell of the ring that holds `q`, met on the way around from `p`
    refine ⟨(q + (w - p % w)) % w, Nat.mod_lt _ hw, ?_⟩
    rw [ring] at hq ⊢
    have hpos : (p + (q + (w - p % w)) % w) % w = q % w := by
      have hp := Nat.mod_lt p hw
      rw [Nat.add_mod_mod]
      have hsplit : p + (q + (w - p % w)) = q + w * (p / w + 1) := by
        have := Nat.div_add_mod p w
        rw [Nat.mul_add]
        omega
      rw [hsplit, Nat.add_mul_mod_self_left]
    rw [hpos]
    exact hq

/-! ## One field -/

/-- The decoder's `sector` variable for an open or closed header. -/
def sectorVar : Option ℕ → ℤ
  | none => -1
  | some sector => sector

theorem skewTable6_lt (po : Bool) (t : ℕ) (ht : t < numSectors) :
    (skewTable6 po).getD t 0 < 16 := by
  revert t
  cases po <;> decide

section Decode
variable (po : Bool) (src : Buf) (w : ℕ) (hw : 0 < w) (hwidth : w + 2 ≤ nibTrackSize)
  (hnib : ∀ p, ring src w p &&& 0x7F ≠ 0)
include hnib

/-- A data field whose header is numbered is decoded into the sector of that number. -/
theorem denibblizeStep_numbered (p k sector : ℕ) (dst : Buf)
    (h : FirstD5 (ring src w) p k) (hk : k + 3 ≤ nibTrackSize)
    (haa : ring src w (p + k + 1) = 0xAA) (had : ring src w (p + k + 2) = 0xAD)
    (hsector : sector < numSectors) :
    ∃ out : Buf, denibblizeStep (skewTable6 po) src w ⟨p % w, sector, dst⟩ =
        .ok ⟨(p + k + 3 + (numSixbitNibs + 1)) % w, -1, out⟩ ∧
      ∀ i, dskTrackSize ≤ i → out i = dst i := by
  have hrange : (decide (0 ≤ (sector : ℤ)) && decide ((sector : ℤ) < 16)) = true := by
    have hint : (sector : ℤ) < 16 := by exact_mod_cast hsector
    simp [hint]
  obtain ⟨b, hb⟩ := denibblizeSector_ok
    (fun i => if i < numSixbitNibs + 1 then ring src w (p + k + 3 + i) else 0)
    (fun i => dst (secOff (skewTable6 po) sector + i))
    (by
      intro i hi
      simp only [hi, if_true]
      exact hnib _)
  rw [denibblizeStep_data src w _ p k sector dst h hk haa had, hrange]
  simp only [assertThat_true, bind, Except.bind, Int.toNat_natCast, hb, pure, Except.pure]
  refine ⟨_, rfl, ?_⟩
  intro i hi
  have hoff : secOff (skewTable6 po) sector + 0x100 ≤ i := by
    have := skewTable6_lt po sector hsector
    rw [dskTrackSize] at hi
    rw [secOff]
    omega
  have hin : secOff (skewTable6 po) sector ≤ i := by omega
  have hout : ¬ i - secOff (skewTable6 po) sector < 0x100 := by omega
  have hback : secOff (skewTable6 po) sector + (i - secOff (skewTable6 po) sector) = i := by omega
  simp only [hin, if_true, hout, if_false, hback]

omit hnib in
/-- A data field without a numbered header fails the assertion. -/
theorem denibblizeStep_orphan (p k : ℕ) (header : Option ℕ) (dst : Buf)
    (h : FirstD5 (ring src w) p k) (hk : k + 3 ≤ nibTrackSize)
    (haa : ring src w (p + k + 1) = 0xAA) (had : ring src w (p + k + 2) = 0xAD)
    (horphan : ¬ ∃ sector, header = some sector ∧ sector < numSectors) :
    denibblizeStep (skewTable6 po) src w ⟨p % w, sectorVar header, dst⟩ =
      .error .invalidPreviousNibblization := by
  have hrange : (decide (0 ≤ sectorVar header) && decide (sectorVar header < 16)) = false := by
    cases header with
    | none => rfl
    | some sector =>
      have hint : ¬ (sector : ℤ) < 16 := by
        intro hs
        exact horphan ⟨sector, rfl, by exact_mod_cast hs⟩
      simp [sectorVar, hint]
  rw [denibblizeStep_data src w _ p k _ dst h hk haa had, hrange]
  rfl

include hw hwidth

/-! ## The whole track -/

/-- The induction is on the fields still to be read; each pass meets one of the four shapes. -/
theorem denibblizeFields (n p : ℕ) (header : Option ℕ) (dst : Buf) :
    (FieldsNumbered (ring src w) n p header →
      ∃ s, forUpM n (fun _ => denibblizeStep (skewTable6 po) src w)
          ⟨p % w, sectorVar header, dst⟩ = .ok s ∧ ∀ i, dskTrackSize ≤ i → s.dst i = dst i) ∧
    (¬ FieldsNumbered (ring src w) n p header →
      forUpM n (fun _ => denibblizeStep (skewTable6 po) src w) ⟨p % w, sectorVar header, dst⟩ =
        .error .invalidPreviousNibblization) := by
  induction n generalizing p header dst with
  | zero =>
    refine ⟨fun _ => ⟨_, rfl, fun _ _ => rfl⟩, fun h => ?_⟩
    exact absurd trivial h
  | succ n ih =>
    rw [forUpM_const_succ]
    rcases firstD5_ring src w p hw with ⟨k, hlt, hfirst⟩ | hnone
    · have hk : k + 3 ≤ nibTrackSize := by omega
      -- the quantifier of the grammar ranges over this one `k`
      have hall : FieldsNumbered (ring src w) (n + 1) p header ↔ _ :=
        ⟨fun h => h k hfirst, fun h j hj => by
          rw [firstD5_unique _ _ _ _ hj hfirst]
          exact h⟩
      rw [hall]
      by_cases hhead : ring src w (p + k + 1) = 0xAA ∧ ring src w (p + k + 2) = 0x96
      · rw [if_pos hhead, denibblizeStep_header src w _ p k _ dst hfirst hk hhead.1 hhead.2]
        exact ih (p + k + 9) (some (headerSector _ _)) dst
      · rw [if_neg hhead]
        by_cases hdata : ring src w (p + k + 1) = 0xAA ∧ ring src w (p + k + 2) = 0xAD
        · rw [if_pos hdata]
          by_cases hnum : ∃ sector, header = some sector ∧ sector < numSectors
          · obtain ⟨sector, rfl, hsector⟩ := hnum
            obtain ⟨out, hout, hframe⟩ := denibblizeStep_numbered po src w hnib p k sector dst
              hfirst hk hdata.1 hdata.2 hsector
            obtain ⟨hok, hfail⟩ := ih (p + k + 3 + (numSixbitNibs + 1)) none out
            rw [sectorVar, hout]
            constructor
            · rintro ⟨-, hrest⟩
              obtain ⟨s, hs, hsframe⟩ := hok hrest
              exact ⟨s, hs, fun i hi => (hsframe i hi).trans (hframe i hi)⟩
            · intro h
              exact hfail fun hrest => h ⟨⟨sector, rfl, hsector⟩, hrest⟩
          · rw [denibblizeStep_orphan po src w p k header dst hfirst hk hdata.1 hdata.2 hnum]
            exact ⟨fun h => absurd h.1 hnum, fun _ => rfl⟩
        · rw [if_neg hdata]
          have hjunk : ¬ (ring src w (p + k + 1) = 0xAA ∧
              (ring src w (p + k + 2) = 0x96 ∨ ring src w (p + k + 2) = 0xAD)) := by
            rintro ⟨haa, h96 | had⟩
            · exact hhead ⟨haa, h96⟩
            · exact hdata ⟨haa, had⟩
          rw [denibblizeStep_junk src w _ p k _ dst hfirst hk hjunk]
          exact ih (p + k + 3) header dst
    · have hvac : ∀ m q h, FieldsNumbered (ring src w) m q h := by
        intro m q h
        cases m with
        | zero => trivial
        | succ m => exact fun k hk => absurd hk.2 (hnone _)
      rw [denibblizeStep_none src w _ p _ dst fun j _ => hnone (p + j)]
      obtain ⟨hok, -⟩ := ih (p + nibTrackSize) header dst
      exact ⟨fun _ => hok (hvac _ _ _), fun h => absurd (hvac _ _ _) h⟩

/-- **Write-back of any track.** A numbered track is decoded, and the decoder then writes the
4096 bytes of the track only. -/
theorem denibblizeTrack_ok (dst : Buf) (h : NumberedTrack src w) :
    ∃ out, denibblizeTrack (skewTable6 po) w src dst = .ok out ∧
      ∀ i, dskTrackSize ≤ i → out i = dst i := by
  obtain ⟨s, hs, hframe⟩ :=
    (denibblizeFields po src w hw hwidth hnib (2 * numSectors + 1) 0 none dst).1 h
  rw [Nat.zero_mod] at hs
  refine ⟨s.dst, ?_, hframe⟩
  rw [denibblizeTrack, show (-1 : ℤ) = sectorVar none from rfl, hs]
  rfl

/-- Any other track stops the program at the assertion on the sector number. -/
theorem denibblizeTrack_error (dst : Buf) (h : ¬ NumberedTrack src w) :
    denibblizeTrack (skewTable6 po) w src dst = .error .invalidPreviousNibblization := by
  have hs := (denibblizeFields po src w hw hwidth hnib (2 * numSectors + 1) 0 none dst).2 h
  rw [Nat.zero_mod] at hs
  rw [denibblizeTrack, show (-1 : ℤ) = sectorVar none from rfl, hs]
  rfl

end Decode

end Apple2ix.Disk
