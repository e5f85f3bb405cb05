import Mathlib.Data.List.Basic
import Mathlib.Data.Nat.Find
import Mathlib.Order.Monotone.Basic
import Apple2ix.Foundations.Loops

/-! Looking for a word in a text in one pass that never goes back. Comparisons follow each other,
each from behind the letter that ended the one before it, so that a word which begins inside a
comparison that fails is not seen. -/
namespace Apple2ix.Matching
open Loops
set_option autoImplicit false

variable {α : Type*} [DecidableEq α] (text word : ℕ → α) (n stop : ℕ)

/-! ## Occurrences -/

/-- The word, of `n` letters, begins at `a` and ends inside the text. -/
def Occurs (a : ℕ) : Prop := a + n ≤ stop ∧ ∀ k < n, text (a + k) = word k

/-- In order, occurrences only, and each one that does not overlap an earlier one of the list. -/
structure Exact (found : List ℕ) : Prop where
  ascending : found.Pairwise (· < ·)
  sound : ∀ a ∈ found, Occurs text word n stop a
  complete : ∀ a, Occurs text word n stop a → (∀ r ∈ found, r < a → r + n ≤ a) → a ∈ found

/-! ## Comparisons -/

/-- The number of letters that agree at `p`. -/
def agree (p : ℕ) : ℕ := Nat.findGreatest (fun k => ∀ j < k, text (p + j) = word j) n

/-- Where the comparison after the one at `p` begins. -/
def next (p : ℕ) : ℕ := if agree text word n p = n then p + n else p + agree text word n p + 1

/-- Where the comparisons begin. -/
def start (t : ℕ) : ℕ := (next text word n)^[t] 0

/-- No word begins behind the first letter of a comparison that fails, up to the letter at which it
fails. -/
def NoneHidden : Prop :=
  ∀ t, agree text word n (start text word n t) < n →
    ∀ a, start text word n t < a →
      a ≤ start text word n t + agree text word n (start text word n t) →
      ¬ Occurs text word n stop a

section Agree
variable {text word n} {p k : ℕ}

theorem agree_le : agree text word n p ≤ n := Nat.findGreatest_le n

theorem agree_spec : ∀ j < agree text word n p, text (p + j) = word j := by
  have h := Nat.findGreatest_spec (P := fun k => ∀ j < k, text (p + j) = word j) (Nat.zero_le n)
    fun j hj => absurd hj (Nat.not_lt_zero j)
  exact h

theorem le_agree (hk : k ≤ n) (h : ∀ j < k, text (p + j) = word j) : k ≤ agree text word n p :=
  Nat.le_findGreatest hk h

/-- A comparison that came to a wrong letter. -/
theorem agree_eq (hk : k < n) (h : ∀ j < k, text (p + j) = word j) (hne : text (p + k) ≠ word k) :
    agree text word n p = k := by
  apply Nat.le_antisymm _ (le_agree hk.le h)
  by_contra hlt
  exact hne (agree_spec (n := n) k (by omega))

theorem agree_full (h : ∀ j < n, text (p + j) = word j) : agree text word n p = n :=
  Nat.le_antisymm agree_le (le_agree (le_refl n) h)

theorem start_succ (t : ℕ) :
    start text word n (t + 1) = next text word n (start text word n t) :=
  Function.iterate_succ_apply' _ _ _

theorem start_full {t : ℕ} (h : agree text word n (start text word n t) = n) :
    start text word n (t + 1) = start text word n t + n := by
  rw [start_succ, next, if_pos h]

theorem start_failed {t : ℕ} (h : agree text word n (start text word n t) < n) :
    start text word n (t + 1) =
      start text word n t + agree text word n (start text word n t) + 1 := by
  rw [start_succ, next, if_neg h.ne]

theorem start_strictMono (text word : ℕ → α) (hn : 0 < n) : StrictMono (start text word n) := by
  apply strictMono_nat_of_lt_succ
  intro t
  obtain hfull | hfailed := (agree_le : agree text word n (start text word n t) ≤ n).eq_or_lt
  · rw [start_full hfull]
    omega
  · rw [start_failed hfailed]
    omega

/-- A word at the beginning, whose first letter does not come again behind it. -/
theorem noneHidden_of_head (hn : 0 < n) (h : ∀ j < n, text j = word j)
    (hbehind : ∀ a, n ≤ a → text a ≠ word 0) : NoneHidden text word n stop := by
  have hfull : agree text word n 0 = n := agree_full fun j hj => by rw [Nat.zero_add, h j hj]
  intro t hfails a hstart _ hoccurs
  cases t with
  | zero => exact absurd hfull hfails.ne
  | succ t =>
    have hfirst : start text word n 1 = 0 + n := start_full (t := 0) hfull
    have hle := (start_strictMono text word hn).monotone (Nat.le_add_left 1 t)
    rw [hfirst] at hle
    exact hbehind a (by omega) (hoccurs.2 0 hn)

/-- Every place belongs to one comparison. -/
theorem exists_start (text word : ℕ → α) (hn : 0 < n) (a : ℕ) :
    ∃ t, start text word n t ≤ a ∧ a < start text word n (t + 1) := by
  have hmono := start_strictMono text word hn
  induction a with
  | zero => exact ⟨0, le_refl _, hmono (Nat.lt_add_one 0)⟩
  | succ a ih =>
    obtain ⟨t, hle, hlt⟩ := ih
    by_cases hin : a + 1 < start text word n (t + 1)
    · exact ⟨t, by omega, hin⟩
    · have hnext := hmono (Nat.lt_add_one (t + 1))
      exact ⟨t + 1, by omega, by omega⟩

end Agree

/-! ## The pass -/

/-- The letters of the word that were just seen, and the places where it was found. -/
structure State where
  matched : ℕ
  found : List ℕ

def step (i : ℕ) (s : State) : State :=
  if text i = word s.matched then
    if s.matched + 1 = n then ⟨0, s.found ++ [i + 1 - n]⟩ else ⟨s.matched + 1, s.found⟩
  else ⟨0, s.found⟩

def scan : State := forUp stop (step text word n) ⟨0, []⟩

/-- The word at the beginning of the first `t` comparisons. -/
def foundBefore (t : ℕ) : List ℕ :=
  ((List.range t).map (start text word n)).filter fun p => agree text word n p = n

/-- After `i` letters the pass is inside the comparison `t`. -/
structure Inside (i : ℕ) (s : State) (t : ℕ) : Prop where
  place : i = start text word n t + s.matched
  short : s.matched < n
  agrees : ∀ j < s.matched, text (start text word n t + j) = word j
  found : s.found = foundBefore text word n t

section Pass
variable {text word n}

theorem foundBefore_succ (t : ℕ) : foundBefore text word n (t + 1) =
    foundBefore text word n t ++
      if agree text word n (start text word n t) = n then [start text word n t] else [] := by
  rw [foundBefore, List.range_succ, List.map_append, List.filter_append]
  by_cases h : agree text word n (start text word n t) = n
  · simp [foundBefore, h]
  · simp [foundBefore, h]

theorem mem_foundBefore {t a : ℕ} : a ∈ foundBefore text word n t ↔
    ∃ u < t, start text word n u = a ∧ agree text word n a = n := by
  simp only [foundBefore, List.mem_filter, List.mem_map, List.mem_range, decide_eq_true_eq]
  constructor
  · rintro ⟨⟨u, hu, rfl⟩, hfull⟩
    exact ⟨u, hu, rfl, hfull⟩
  · rintro ⟨u, hu, rfl, hfull⟩
    exact ⟨⟨u, hu, rfl⟩, hfull⟩

theorem Inside.step {i : ℕ} {s : State} {t : ℕ} (h : Inside text word n i s t) :
    ∃ u, Inside text word n (i + 1) (step text word n i s) u := by
  obtain ⟨hat, hshort, hagrees, hfound⟩ := h
  unfold Matching.step
  by_cases hletter : text i = word s.matched
  · have hmore : ∀ j < s.matched + 1, text (start text word n t + j) = word j := by
      intro j hj
      obtain hlt | rfl := Nat.lt_succ_iff_lt_or_eq.mp hj
      · exact hagrees j hlt
      · rw [← hat, hletter]
    rw [if_pos hletter]
    by_cases hlast : s.matched + 1 = n
    · have hfull : agree text word n (start text word n t) = n := agree_full (hlast ▸ hmore)
      rw [if_pos hlast]
      refine ⟨t + 1, ⟨?_, Nat.zero_lt_of_lt hshort, fun j hj => absurd hj (Nat.not_lt_zero j), ?_⟩⟩
      · rw [start_full hfull]
        change i + 1 = _ + 0
        omega
      · have hhere : i + 1 - n = start text word n t := by omega
        rw [foundBefore_succ, if_pos hfull, ← hfound, hhere]
    · rw [if_neg hlast]
      exact ⟨t, ⟨by rw [hat]; rfl, by change s.matched + 1 < n; omega, hmore, hfound⟩⟩
  · have hfailed : agree text word n (start text word n t) = s.matched :=
      agree_eq hshort hagrees (by rwa [← hat])
    rw [if_neg hletter]
    refine ⟨t + 1, ⟨?_, Nat.zero_lt_of_lt hshort, fun j hj => absurd hj (Nat.not_lt_zero j), ?_⟩⟩
    · rw [start_failed (by omega), hfailed]
      change i + 1 = _ + 0
      omega
    · rw [foundBefore_succ, if_neg (by omega), List.append_nil, hfound]

theorem scan_inside (text word : ℕ → α) (stop : ℕ) (hn : 0 < n) :
    ∃ t, Inside text word n stop (scan text word n stop) t :=
  forUp_invariant (fun i s => ∃ t, Inside text word n i s t) stop
    ⟨0, ⟨rfl, hn, fun j hj => absurd hj (Nat.not_lt_zero j), rfl⟩⟩
    fun _ _ _ h => h.choose_spec.step

end Pass

/-! ## What it finds -/

section Exact
variable {text word n stop} {s : State} {t : ℕ}

theorem Inside.ascending (h : Inside text word n stop s t) : s.found.Pairwise (· < ·) := by
  have hmono := start_strictMono text word (Nat.zero_lt_of_lt h.short)
  rw [h.found, foundBefore]
  apply List.Pairwise.filter
  rw [List.pairwise_map]
  exact List.pairwise_lt_range.imp fun huv => hmono huv

theorem Inside.sound (h : Inside text word n stop s t) {a : ℕ} (ha : a ∈ s.found) :
    Occurs text word n stop a := by
  have hmono := start_strictMono text word (Nat.zero_lt_of_lt h.short)
  rw [h.found, mem_foundBefore] at ha
  obtain ⟨u, hu, rfl, hfull⟩ := ha
  have hle : start text word n (u + 1) ≤ start text word n t := hmono.monotone hu
  have hat := h.place
  rw [start_full hfull] at hle
  refine ⟨by omega, fun k hk => agree_spec (n := n) k ?_⟩
  rw [hfull]
  exact hk

/-- A comparison that begins at a word is over before the text is. -/
theorem Inside.begun (h : Inside text word n stop s t) {a u : ℕ} (ha : Occurs text word n stop a)
    (hu : start text word n u ≤ a) : u < t := by
  have hmono := start_strictMono text word (Nat.zero_lt_of_lt h.short)
  have hshort := h.short
  have hat := h.place
  have hroom := ha.1
  exact hmono.lt_iff_lt.mp (by omega)

theorem Inside.complete (h : Inside text word n stop s t) (hnone : NoneHidden text word n stop)
    {a : ℕ}
    (ha : Occurs text word n stop a) (hfree : ∀ r ∈ s.found, r < a → r + n ≤ a) : a ∈ s.found := by
  obtain ⟨u, hle, hlt⟩ := exists_start text word (Nat.zero_lt_of_lt h.short) a
  have hu := h.begun ha hle
  obtain heq | hinside := hle.eq_or_lt
  · rw [h.found, mem_foundBefore]
    exact ⟨u, hu, heq, agree_full ha.2⟩
  · obtain hfull | hfailed := (agree_le : agree text word n (start text word n u) ≤ n).eq_or_lt
    · have hreported : start text word n u ∈ s.found := by
        rw [h.found, mem_foundBefore]
        exact ⟨u, hu, rfl, hfull⟩
      have hover := hfree _ hreported hinside
      rw [start_full hfull] at hlt
      omega
    · rw [start_failed hfailed] at hlt
      exact absurd ha (hnone u hfailed a hinside (by omega))

/-- A word that is hidden is missed, and overlaps nothing that was found. -/
theorem Inside.noneHidden (h : Inside text word n stop s t)
    (hexact : Exact text word n stop s.found) :
    NoneHidden text word n stop := by
  have hmono := start_strictMono text word (Nat.zero_lt_of_lt h.short)
  intro u hfailed a hafter hupto ha
  have hnext := start_failed hfailed
  have hmember : ∀ v, start text word n v ≠ a := by
    rintro v rfl
    have hlow := hmono.lt_iff_lt.mp hafter
    have hhigh : start text word n v < start text word n (u + 1) := by omega
    have := hmono.lt_iff_lt.mp hhigh
    omega
  have hmem := hexact.complete a ha ?_
  · rw [h.found, mem_foundBefore] at hmem
    obtain ⟨v, -, hv, -⟩ := hmem
    exact hmember v hv
  · intro r hr hra
    rw [h.found, mem_foundBefore] at hr
    obtain ⟨v, -, rfl, hfull⟩ := hr
    obtain hvu | rfl | huv := Nat.lt_trichotomy v u
    · have hle : start text word n (v + 1) ≤ start text word n u := hmono.monotone hvu
      rw [start_full hfull] at hle
      omega
    · omega
    · have hle : start text word n (u + 1) ≤ start text word n v := hmono.monotone huv
      omega

/-- **One pass finds what it should** exactly when no word is hidden. -/
theorem exact_iff (hn : 0 < n) :
    Exact text word n stop (scan text word n stop).found ↔ NoneHidden text word n stop := by
  obtain ⟨t, h⟩ := scan_inside text word stop hn
  exact ⟨fun hexact => h.noneHidden hexact, fun hnone =>
    ⟨h.ascending, fun a ha => h.sound ha, fun a ha hfree => h.complete hnone ha hfree⟩⟩

end Exact

end Apple2ix.Matching
