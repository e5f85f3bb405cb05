import Apple2ix.Misc.StateHelper

/-! Saves that are built from calls of `helper->save`, and what they add to the file. -/
namespace Apple2ix
set_option autoImplicit false

universe u v
variable {ε : Type u} {σ : Type v}

/-- What a save makes of a state and of the file, and whether all its bytes were written. -/
abbrev Saver (ε : Type u) (σ : Type v) := σ → StateHelper → Except ε (σ × StateHelper × Bool)

theorem StateHelper.saveEach_host {helper saved : StateHelper}
    {calls : List (Except ε (List UInt8))}
    {written : Bool} (h : helper.saveEach calls = .ok (saved, written)) :
      saved.host = helper.host := by
  induction calls generalizing helper with
  | nil =>
    cases h
    rfl
  | cons call calls ih =>
    cases call with
    | error e => cases h
    | ok bytes =>
      simp only [saveEach] at h
      split at h
      · exact (ih h).trans rfl
      · cases h
        rfl

namespace Saver

/-- Calls of `helper->save` that change nothing. -/
def calls (chunks : σ → List (List UInt8)) : Saver ε σ := fun s helper =>
  .ok (s, helper.saveAll (chunks s))

/-- The second save is left out when the first fails. -/
def andThen (first second : Saver ε σ) : Saver ε σ := fun s helper =>
  match first s helper with
  | .error e => .error e
  | .ok (t, helper, true) => second t helper
  | .ok (t, helper, false) => .ok (t, helper, false)

def all : List (Saver ε σ) → Saver ε σ
  | [] => calls fun _ => []
  | save :: saves => save.andThen (all saves)

/-- A save that succeeds in a state with `I` leaves one with `J`, and adds a word of `L` to the
file. -/
def Writes (I : σ → Prop) (save : Saver ε σ) (J : σ → Prop) (L : List UInt8 → Prop) : Prop :=
  ∀ s t helper saved, I s → save s helper = .ok (t, saved, true) →
    J t ∧ ∃ bytes, saved.file = helper.file ++ bytes ∧ L bytes

/-- Calls on a file that has room for everything succeed. -/
theorem calls_room (chunks : σ → List (List UInt8)) (s : σ) {helper : StateHelper}
    (hroom : helper.TakesAll) :
    ∃ saved, (calls chunks : Saver ε σ) s helper = .ok (s, saved, true) ∧
      saved.host = helper.host := by
  refine ⟨(helper.saveAll (chunks s)).1, ?_, helper.saveAll_host (chunks s)⟩
  rw [calls, ← helper.saveAll_room hroom (chunks s)]

theorem andThen_ok {first second : Saver ε σ} {s t : σ} {helper middle : StateHelper}
    (h : first s helper = .ok (t, middle, true)) :
      first.andThen second s helper = second t middle := by
  rw [andThen, h]

section
variable {I J K : σ → Prop} {save first second : Saver ε σ} {L M : List UInt8 → Prop}

theorem writes_calls {chunks : σ → List (List UInt8)} (h : ∀ s, I s → L (chunks s).flatten) :
    Writes I (calls chunks : Saver ε σ) I L := by
  intro s t helper saved hs hsave
  obtain ⟨rfl, hall⟩ := Prod.mk.inj (Except.ok.inj hsave)
  have hok : (helper.saveAll (chunks s)).2 = true := congrArg Prod.snd hall
  have hfile := helper.saveAll_ok (chunks s) hok
  rw [hall] at hfile
  exact ⟨hs, _, hfile, h s hs⟩

/-- A word of `L` and then one of `M`. -/
theorem Writes.andThen (h : Writes I first J L) (h' : Writes J second K M) :
    Writes I (first.andThen second) K fun bytes => ∃ x y, L x ∧ M y ∧ bytes = x ++ y := by
  intro s t helper saved hs hsave
  unfold Saver.andThen at hsave
  cases hfirst : first s helper with
  | error e =>
    rw [hfirst] at hsave
    cases hsave
  | ok result =>
    obtain ⟨r, middle, written⟩ := result
    rw [hfirst] at hsave
    cases written with
    | false => cases hsave
    | true =>
      obtain ⟨hr, x, hx, hL⟩ := h s r helper middle hs hfirst
      obtain ⟨ht, y, hy, hM⟩ := h' r t middle saved hr hsave
      refine ⟨ht, x ++ y, ?_, x, y, hL, hM, rfl⟩
      rw [hy, hx, List.append_assoc]

end

end Saver

end Apple2ix
