import Mathlib.Data.List.Basic
import Mathlib.Data.Nat.Find
import Mathlib.Data.Int.ModEq

/-! Walks over the integers whose steps are at most one, and the first time such a walk comes down
to a level, against the first time it is seen at the level by a counter that wraps around. -/
namespace Apple2ix.Walks
set_option autoImplicit false

/-! ## First times -/

/-- The first time from 1 to `len` at which `p` holds. -/
def first (len : ℕ) (p : ℕ → Bool) : Option ℕ := (List.range' 1 len).find? p

theorem find?_range'_eq_iff (p q : ℕ → Bool) (m len : ℕ) :
    (List.range' m len).find? p = (List.range' m len).find? q ↔
      ∀ k, m ≤ k → k < m + len → (∀ j, m ≤ j → j < k → p j = false ∧ q j = false) → p k = q k := by
  induction len generalizing m with
  | zero => exact iff_of_true rfl fun k hk hlt => absurd hlt (by omega)
  | succ len ih =>
    have hlater : ∀ {r : ℕ → Bool}, (List.range' (m + 1) len).find? r ≠ some m := by
      intro r h
      have := List.mem_of_find?_eq_some h
      rw [List.mem_range'_1] at this
      omega
    rw [List.range'_succ, List.find?_cons, List.find?_cons]
    constructor
    · intro heq k hk hlt hbefore
      obtain rfl | hmk := hk.eq_or_lt
      · cases hp : p m with
        | false =>
          cases hq : q m with
          | false => rfl
          | true =>
            rw [hp, hq] at heq
            exact absurd heq hlater
        | true =>
          cases hq : q m with
          | false =>
            rw [hp, hq] at heq
            exact absurd heq.symm hlater
          | true => rfl
      · obtain ⟨hp, hq⟩ := hbefore m (le_refl m) hmk
        rw [hp, hq] at heq
        exact (ih (m + 1)).mp heq k hmk (by omega) fun j hj hjk => hbefore j (by omega) hjk
    · intro hagree
      have hm := hagree m (le_refl m) (by omega) fun j hj hjm => absurd hjm (by omega)
      rw [← hm]
      cases hp : p m with
      | true => rfl
      | false =>
        refine (ih (m + 1)).mpr fun k hk hlt hbefore =>
          hagree k (by omega) (by omega) fun j hj hjk => ?_
        obtain rfl | hmj := hj.eq_or_lt
        · exact ⟨hp, hm ▸ hp⟩
        · exact hbefore j hmj hjk

/-- Two first times are the same when, as long as neither has come, both come together. -/
theorem first_eq_iff (p q : ℕ → Bool) (len : ℕ) : first len p = first len q ↔
    ∀ k, 1 ≤ k → k ≤ len → (∀ j, 1 ≤ j → j < k → p j = false ∧ q j = false) → p k = q k := by
  rw [first, first, find?_range'_eq_iff]
  exact ⟨fun h k hk hlt => h k hk (by omega), fun h k hk hlt => h k hk (by omega)⟩

/-! ## Walks -/

section Walk
variable {d : ℕ → ℤ} {n m : ℕ} {level modulus : ℤ}

/-- A walk that starts below a level and does not meet it stays below. -/
theorem stays_below (hup : ∀ j, d (j + 1) ≤ d j + 1) (hstart : d n < level)
    (hmeet : ∀ j, n ≤ j → j ≤ m → d j ≠ level) (hnm : n ≤ m) : d m < level := by
  induction m, hnm using Nat.le_induction with
  | base => exact hstart
  | succ m hnm ih =>
    have hbefore := ih fun j hj hjm => hmeet j hj (by omega)
    have hne := hmeet (m + 1) (by omega) (le_refl _)
    have hstep := hup m
    omega

theorem stays_above (hdown : ∀ j, d j - 1 ≤ d (j + 1)) (hstart : level < d n)
    (hmeet : ∀ j, n ≤ j → j ≤ m → d j ≠ level) (hnm : n ≤ m) : level < d m := by
  induction m, hnm using Nat.le_induction with
  | base => exact hstart
  | succ m hnm ih =>
    have hbefore := ih fun j hj hjm => hmeet j hj (by omega)
    have hne := hmeet (m + 1) (by omega) (le_refl _)
    have hstep := hdown m
    omega

/-- A walk that starts above a level meets it before it is below. -/
theorem first_passage (hdown : ∀ j, d j - 1 ≤ d (j + 1)) (hstart : level < d 0) (len : ℕ) :
    first len (fun j => 1 ≤ j ∧ d j ≤ level) = first len (fun j => d j = level) := by
  rw [first_eq_iff]
  simp only [decide_eq_decide, decide_eq_false_iff_not]
  intro k hk _ hbefore
  have hlast : level < d (k - 1) := by
    refine stays_above hdown hstart (fun j _ hj => ?_) (Nat.zero_le _)
    obtain rfl | hpos := Nat.eq_zero_or_pos j
    · omega
    · exact (hbefore j hpos (by omega)).2
  have hstep := hdown (k - 1)
  rw [Nat.sub_add_cancel hk] at hstep
  omega

/-- **A counter that wraps around** sees a walk come down to a level, from the time `n` on, exactly
when the walk is not below it yet at `n`, and does not rise by the modulus before. -/
theorem first_wrapped_iff (hup : ∀ j, d (j + 1) ≤ d j + 1) (hdown : ∀ j, d j - 1 ≤ d (j + 1))
    (hn : 1 ≤ n) (hlow : level - modulus < d n) (hhigh : d n < level + modulus) (len : ℕ) :
    first len (fun j => n ≤ j ∧ modulus ∣ d j - level) = first len (fun j => n ≤ j ∧ d j ≤ level) ↔
      (n ≤ len → level ≤ d n) ∧ ∀ m, n ≤ m → m ≤ len → (∀ k, n ≤ k → k ≤ m → level < d k) →
        d m ≠ level + modulus := by
  have hwrapped : ∀ {k}, modulus ∣ d k - level → level - modulus < d k → d k < level + modulus →
      d k = level := by
    intro k hdvd hlow hhigh
    have hzero := Int.eq_zero_of_abs_lt_dvd hdvd (abs_lt.mpr ⟨by omega, by omega⟩)
    omega
  rw [first_eq_iff]
  simp only [decide_eq_decide, decide_eq_false_iff_not]
  constructor
  · intro hagree
    refine ⟨fun hlen => ?_, fun m hnm hlen habove hrise => ?_⟩
    · have hnow := hagree n hn hlen fun j _ hjn => ⟨fun h => by omega, fun h => by omega⟩
      by_contra hbelow
      have hlevel := hwrapped (hnow.mpr ⟨le_refl n, by omega⟩).2 hlow hhigh
      omega
    · have hseen : ∃ k, n ≤ k ∧ modulus ∣ d k - level := by
        refine ⟨m, hnm, 1, ?_⟩
        rw [hrise]
        omega
      have hkm : Nat.find hseen ≤ m := Nat.find_min' hseen ⟨hnm, by rw [hrise]; exact ⟨1, by omega⟩⟩
      obtain ⟨hnk, hdvd⟩ := Nat.find_spec hseen
      have hfirst := hagree (Nat.find hseen) (by omega) (by omega) fun j _ hj =>
        ⟨Nat.find_min hseen hj, fun h => by
          have := habove j h.1 (by omega)
          omega⟩
      have hreached := (hfirst.mp ⟨hnk, hdvd⟩).2
      have := habove _ hnk hkm
      omega
  · rintro ⟨hnow, hnever⟩ k hk hlen hbefore
    by_cases hnk : n ≤ k
    · have habove : ∀ j, n ≤ j → j < k → level < d j := by
        intro j hnj hjk
        have := (hbefore j (by omega) hjk).2
        omega
      have hdown : level ≤ d k := by
        obtain rfl | hlt := hnk.eq_or_lt
        · exact hnow hlen
        · have hlast := habove (k - 1) (by omega) (by omega)
          have hstep := hdown (k - 1)
          rw [Nat.sub_add_cancel hk] at hstep
          omega
      obtain heq | hlt := hdown.eq_or_lt
      · refine iff_of_true ⟨hnk, 0, ?_⟩ ⟨hnk, heq.ge⟩
        omega
      · have hupto : ∀ j, n ≤ j → j ≤ k → level < d j := by
          intro j hnj hjk
          obtain rfl | hjk := hjk.eq_or_lt
          · exact hlt
          · exact habove j hnj hjk
        have hbelow := stays_below hup hhigh (fun j hnj hjk => hnever j hnj (by omega)
          fun i hni hij => hupto i hni (by omega)) hnk
        refine iff_of_false (fun h => ?_) fun h => by omega
        have := hwrapped h.2 (by omega) hbelow
        omega
    · exact iff_of_false (fun h => hnk h.1) fun h => hnk h.1

end Walk

end Apple2ix.Walks
