import Apple2ix.Misc.Framing
import Apple2ix.Disk.SaveLoad
import Apple2ix.Timing.SpeedSaved

/-! The parts of a save-state file that the disk controller, the clock and the Mockingboard load. -/
namespace Apple2ix
open Loader
set_option autoImplicit false

/-! ## The disk controller -/

namespace Disk
variable (conformant : Bool)

theorem framed_loadHeader : Framed loadHeader := by
  refine framed_all fun load hload => ?_
  simp only [List.mem_cons, List.not_mem_nil, or_false] at hload
  obtain rfl | rfl | rfl | rfl := hload <;> exact framed_field _ _

theorem framed_loadImage (host : LoadHost) (drive : ℕ) (isProtected : Bool) (namelen : ℕ) :
    Framed (loadImage conformant host drive isProtected namelen) := by
  unfold loadImage
  split
  · exact framed_field _ _
  · exact framed_step id

theorem framed_loadDrive (host : LoadHost) (drive : ℕ) : Framed
    (loadDrive conformant host drive) := by
  refine framed_read fun state => framed_read fun serialized => framed_all fun load hload => ?_
  simp only [List.mem_cons, List.not_mem_nil, or_false] at hload
  obtain rfl | rfl | rfl | rfl | rfl | rfl := hload
  · exact framed_effect _
  · exact framed_loadImage conformant host drive _ _
  · exact framed_field _ _
  · exact framed_field _ _
  · exact framed_field _ _
  · exact framed_field _ _

/-- The ejects after a load that failed leave it failed. -/
theorem framed_loadDrives (hosts : Fin 2 → LoadHost) : Framed (loadDrives conformant hosts) := by
  have hall :
      Framed (.all [loadDrive conformant (hosts 0) 0, loadDrive conformant (hosts 1) 1]) := by
    refine framed_all fun load hload => ?_
    simp only [List.mem_cons, List.not_mem_nil, or_false] at hload
    obtain rfl | rfl := hload <;> exact framed_loadDrive conformant _ _
  intro s input t rest hload
  obtain ⟨bytes, hinput, hreads, hcut⟩ := hall s input t rest (loadDrives_accepted conformant hload)
  refine ⟨bytes, hinput, reads_loadDrives hreads,
    fun start missing hbytes hmissing r rest' hload' => ?_⟩
  exact hcut start missing hbytes hmissing r rest' (loadDrives_accepted conformant hload')

theorem framed_disk6LoadState (hosts : Fin 2 → LoadHost) :
    Framed (disk6LoadState conformant hosts) :=
  framed_loadHeader.andThen (framed_loadDrives conformant hosts)

end Disk

/-! ## The clock -/

namespace Timing

theorem framed_timingLoadState (sampleRateHz : ℕ) : Framed (timingLoadState sampleRateHz) :=
  (framed_field _ _).andThen ((framed_field _ _).andThen
    ((framed_field _ _).andThen (framed_effect _)))

end Timing

/-! ## The Mockingboard -/

namespace Mockingboard

theorem framed_sy6522Load : Framed sy6522Load := by
  have hbefore : Framed sy6522Before := by
    refine framed_all fun load hload => ?_
    simp only [List.mem_cons, List.not_mem_nil, or_false] at hload
    obtain rfl | rfl | rfl | rfl | rfl | rfl | rfl | rfl | rfl | rfl | rfl := hload <;>
      exact framed_field _ _
  exact hbefore.andThen ((framed_field _ _).andThen (framed_field _ _))

theorem framed_changeLoad (i : ℕ) : Framed (changeLoad i) := by
  refine framed_all fun load hload => ?_
  simp only [List.mem_cons, List.not_mem_nil, or_false] at hload
  obtain rfl | rfl | rfl | rfl := hload <;> exact framed_field _ _

/-- The number of changes is in the file, and with it where the part ends. -/
theorem framed_ay8910Load : Framed ay8910Load := by
  have hmap : ∀ (n : ℕ) (load : ℕ → Loader Fault CAY8910), (∀ i, Framed (load i)) →
      Framed (all ((List.range n).map load)) := by
    intro n load h
    refine framed_all fun l hl => ?_
    obtain ⟨i, -, rfl⟩ := List.mem_map.mp hl
    exact h i
  refine (hmap _ _ fun _ => framed_field _ _).andThen
    ((hmap _ _ fun _ => framed_field _ _).andThen ?_)
  exact (framed_field _ _).andThen (framed_among fun ay => hmap _ _ framed_changeLoad)

theorem framed_ssi263Load : Framed ssi263Load := by
  refine framed_all fun load hload => ?_
  simp only [List.mem_cons, List.not_mem_nil, or_false] at hload
  obtain rfl | rfl | rfl | rfl | rfl | rfl := hload <;> exact framed_field _ _

theorem framed_unitLoad (n : ℕ) : Framed (unitLoad n) :=
  framed_sy6522Load.on.andThen (framed_ay8910Load.on.andThen (framed_ssi263Load.on.andThen
    ((framed_field _ _).andThen (framed_step _))))

theorem mbLoadState_true {host : Host} {card t : Card} {cycles : ℕ} {input rest : List UInt8} :
    mbLoadState host card cycles input = .ok (t, rest, true) ↔
      ∃ u, all ((List.range numSY6522).map unitLoad) (mbBeforeLoad host card cycles) input =
        .ok (u, rest, true) ∧ t = mbReinitialize host u := by
  unfold mbLoadState
  cases all ((List.range numSY6522).map unitLoad) (mbBeforeLoad host card cycles) input with
  | error e => exact ⟨fun h => (by cases h), fun ⟨_, h, _⟩ => (by cases h)⟩
  | ok x =>
    obtain ⟨u, left, loaded⟩ := x
    constructor
    · intro h
      cases h
      exact ⟨u, rfl, rfl⟩
    · rintro ⟨_, h, rfl⟩
      cases h
      rfl

theorem framed_mbLoadState (host : Host) (cycles : ℕ) :
    Framed fun card input => mbLoadState host card cycles input := by
  have hunits : Framed (all ((List.range numSY6522).map unitLoad)) := by
    refine framed_all fun load hload => ?_
    obtain ⟨n, -, rfl⟩ := List.mem_map.mp hload
    exact framed_unitLoad n
  intro card input t rest hload
  obtain ⟨u, hu, rfl⟩ := mbLoadState_true.mp hload
  obtain ⟨bytes, hinput, hreads, hcut⟩ := hunits _ input u rest hu
  refine ⟨bytes, hinput, fun more => mbLoadState_true.mpr ⟨u, hreads more, rfl⟩, ?_⟩
  intro start missing hbytes hmissing r rest' hload'
  obtain ⟨v, hv, -⟩ := mbLoadState_true.mp hload'
  exact hcut start missing hbytes hmissing v rest' hv

end Mockingboard

end Apple2ix
