import Mathlib.Data.Int.Log
import Mathlib.Algebra.Order.Floor.Ring
import Mathlib.Data.Rat.Floor
import Mathlib.Algebra.Order.Field.Power
import Mathlib.Tactic.Linarith
import Mathlib.Tactic.FieldSimp
import Mathlib.Tactic.Positivity

/-! Rounding to a number of binary digits, to the nearest and ties to even: the results of
arithmetic in floating point, where they neither overflow nor underflow. -/
namespace Apple2ix.Rounding
set_option autoImplicit false

/-! ## To an integer -/

/-- The nearest integer; the even one of two. -/
def nearest (x : ℚ) : ℤ :=
  let below := ⌊x⌋
  if x - below < 1 / 2 then below
  else if 1 / 2 < x - below then below + 1
  else if below % 2 = 0 then below
  else below + 1

theorem nearest_cases (x : ℚ) : (nearest x = ⌊x⌋ ∧ x - ⌊x⌋ ≤ 1 / 2) ∨
    (nearest x = ⌊x⌋ + 1 ∧ 1 / 2 ≤ x - ⌊x⌋) := by
  simp only [nearest]
  split_ifs with hlow hhigh heven
  · exact .inl ⟨rfl, hlow.le⟩
  · exact .inr ⟨rfl, hhigh.le⟩
  · exact .inl ⟨rfl, not_lt.mp hhigh⟩
  · exact .inr ⟨rfl, not_lt.mp hlow⟩

theorem abs_nearest_sub (x : ℚ) : |(nearest x : ℚ) - x| ≤ 1 / 2 := by
  have hlow := Int.floor_le x
  have hhigh := Int.lt_floor_add_one x
  rw [abs_le]
  obtain ⟨heq, hhalf⟩ | ⟨heq, hhalf⟩ := nearest_cases x
  · rw [heq]
    constructor <;> linarith
  · rw [heq]
    push_cast
    constructor <;> linarith

theorem nearest_intCast (n : ℤ) : nearest (n : ℚ) = n := by
  have hsmall : (n : ℚ) - n < 1 / 2 := by norm_num
  simp only [nearest, Int.floor_intCast]
  exact if_pos hsmall

theorem nearest_mono {x y : ℚ} (h : x ≤ y) : nearest x ≤ nearest y := by
  have hfloor : ⌊x⌋ ≤ ⌊y⌋ := Int.floor_mono h
  obtain heq | hlt := hfloor.eq_or_lt
  · simp only [nearest, heq]
    split_ifs <;> first | omega | (exfalso; linarith)
  · obtain ⟨hx, -⟩ | ⟨hx, -⟩ := nearest_cases x <;>
      obtain ⟨hy, -⟩ | ⟨hy, -⟩ := nearest_cases y <;> omega

/-! ## To a number of digits -/

/-- The value of the last of `p` digits. -/
def ulp (p : ℕ) (q : ℚ) : ℚ := 2 ^ (Int.log 2 |q| - (p - 1) : ℤ)

def roundTo (p : ℕ) (q : ℚ) : ℚ := nearest (q / ulp p q) * ulp p q

theorem ulp_pos (p : ℕ) (q : ℚ) : 0 < ulp p q := by
  rw [ulp]
  positivity

theorem roundTo_zero (p : ℕ) : roundTo p 0 = 0 := by
  have hzero : nearest 0 = 0 := nearest_intCast 0
  rw [roundTo, zero_div, hzero, Int.cast_zero, zero_mul]

/-- Half of the last digit is the largest error. -/
theorem abs_roundTo_sub_ulp (p : ℕ) (q : ℚ) : |roundTo p q - q| ≤ ulp p q / 2 := by
  have hpos := ulp_pos p q
  have hsplit : roundTo p q - q = ((nearest (q / ulp p q) : ℚ) - q / ulp p q) * ulp p q := by
    rw [roundTo, sub_mul, div_mul_cancel₀ _ hpos.ne']
  rw [hsplit, abs_mul, abs_of_pos hpos]
  have herror := mul_le_mul_of_nonneg_right (abs_nearest_sub (q / ulp p q)) hpos.le
  linarith

theorem lt_log (q : ℚ) : q < (2 : ℚ) ^ (Int.log 2 q + 1) :=
  Int.lt_zpow_succ_log_self (by norm_num) q

section Positive
variable {p : ℕ} {q : ℚ} (hq : 0 < q)
include hq

theorem ulp_eq : ulp p q = 2 ^ Int.log 2 q / 2 ^ (p - 1 : ℤ) := by
  rw [ulp, abs_of_pos hq, zpow_sub₀ (by norm_num)]

theorem log_le : (2 : ℚ) ^ Int.log 2 q ≤ q := Int.zpow_log_le_self (by norm_num) hq

theorem ulp_le : ulp p q ≤ q / 2 ^ (p - 1 : ℤ) := by
  rw [ulp_eq hq]
  exact div_le_div_of_nonneg_right (log_le hq) (by positivity)

/-- The relative error. -/
theorem abs_roundTo_sub : |roundTo p q - q| ≤ q / 2 ^ p := by
  have herror := abs_roundTo_sub_ulp p q
  have hulp := ulp_le (p := p) hq
  have hpow : (2 : ℚ) ^ (p - 1 : ℤ) * 2 = 2 ^ p := by
    rw [← zpow_add_one₀ (by norm_num), sub_add_cancel, zpow_natCast]
  have hhalf : q / 2 ^ (p - 1 : ℤ) / 2 = q / 2 ^ p := by rw [div_div, hpow]
  linarith

/-- A number of at most `p` digits is not rounded. -/
theorem roundTo_exact {m : ℕ} {e : ℤ} (hm : m < 2 ^ p) (heq : q = m * 2 ^ e) : roundTo p q = q := by
  have hmpos : (m : ℚ) < 2 ^ p := by exact_mod_cast hm
  have hlog : Int.log 2 q < p + e := by
    have hlt : (2 : ℚ) ^ Int.log 2 q < 2 ^ (p + e) := by
      refine (log_le hq).trans_lt ?_
      rw [heq, zpow_add₀ (by norm_num), zpow_natCast]
      exact mul_lt_mul_of_pos_right hmpos (by positivity)
    exact (zpow_lt_zpow_iff_right₀ (by norm_num)).mp hlt
  obtain ⟨n, hn⟩ : ∃ n : ℕ, (n : ℤ) = e - (Int.log 2 q - (p - 1)) :=
    ⟨(e - (Int.log 2 q - (p - 1))).toNat, Int.toNat_of_nonneg (by omega)⟩
  have hquot : q / ulp p q = ((m * 2 ^ n : ℕ) : ℤ) := by
    have hpow : (2 : ℚ) ^ e = 2 ^ n * ulp p q := by
      rw [ulp, abs_of_pos hq, ← zpow_natCast, hn, ← zpow_add₀ (by norm_num), sub_add_cancel]
    rw [div_eq_iff (ulp_pos p q).ne']
    push_cast
    calc q = m * 2 ^ e := heq
      _ = m * 2 ^ n * ulp p q := by rw [hpow]; ring
  rw [roundTo, hquot, nearest_intCast, ← hquot, div_mul_cancel₀ _ (ulp_pos p q).ne']

end Positive

/-- Rounding keeps the order. -/
theorem roundTo_mono {p : ℕ} (hp : 0 < p) {x y : ℚ} (hx : 0 < x) (h : x ≤ y) :
    roundTo p x ≤ roundTo p y := by
  have hy : 0 < y := hx.trans_le h
  have hlog : Int.log 2 x ≤ Int.log 2 y := Int.log_mono_right hx h
  obtain heq | hlt := hlog.eq_or_lt
  · have hulp : ulp p x = ulp p y := by rw [ulp_eq hx, ulp_eq hy, heq]
    rw [roundTo, roundTo, hulp]
    have hquot := nearest_mono (div_le_div_of_nonneg_right h (ulp_pos p y).le)
    exact mul_le_mul_of_nonneg_right (by exact_mod_cast hquot) (ulp_pos p y).le
  · -- a power of two lies between them
    have hbelow : roundTo p x ≤ 2 ^ (Int.log 2 x + 1) := by
      have hquot : x / ulp p x ≤ ((2 ^ p : ℤ) : ℚ) := by
        rw [div_le_iff₀ (ulp_pos p x), ulp, abs_of_pos hx]
        push_cast
        rw [← zpow_natCast, ← zpow_add₀ (by norm_num)]
        have hexp : (p : ℤ) + (Int.log 2 x - (p - 1)) = Int.log 2 x + 1 := by ring
        rw [hexp]
        exact (lt_log x).le
      have hnearest := nearest_mono hquot
      rw [nearest_intCast] at hnearest
      have hscaled :=
        mul_le_mul_of_nonneg_right (Int.cast_le (R := ℚ).mpr hnearest) (ulp_pos p x).le
      refine hscaled.trans_eq ?_
      rw [ulp, abs_of_pos hx]
      push_cast
      rw [← zpow_natCast, ← zpow_add₀ (by norm_num)]
      congr 1
      ring
    have habove : (2 : ℚ) ^ Int.log 2 y ≤ roundTo p y := by
      have hquot : ((2 ^ (p - 1) : ℤ) : ℚ) ≤ y / ulp p y := by
        rw [le_div_iff₀ (ulp_pos p y), ulp, abs_of_pos hy]
        push_cast
        rw [← zpow_natCast, ← zpow_add₀ (by norm_num)]
        have hexp : ((p - 1 : ℕ) : ℤ) + (Int.log 2 y - (p - 1)) = Int.log 2 y := by omega
        rw [hexp]
        exact log_le hy
      have hnearest := nearest_mono hquot
      rw [nearest_intCast] at hnearest
      have hscaled :=
        mul_le_mul_of_nonneg_right (Int.cast_le (R := ℚ).mpr hnearest) (ulp_pos p y).le
      refine le_trans (le_of_eq ?_) hscaled
      rw [ulp, abs_of_pos hy]
      push_cast
      rw [← zpow_natCast, ← zpow_add₀ (by norm_num)]
      congr 1
      omega
    refine hbelow.trans (le_trans ?_ habove)
    exact zpow_le_zpow_right₀ (by norm_num) (by omega)

section Bounds
variable {p : ℕ} (hp : 0 < p) {q c : ℚ} {m : ℕ} {e : ℤ} (hm : m < 2 ^ p) (hc : c = m * 2 ^ e)
include hp hm hc

theorem roundTo_le (hq : 0 < q) (h : q ≤ c) : roundTo p q ≤ c := by
  have hexact := roundTo_exact (hq.trans_le h) hm hc
  exact (roundTo_mono hp hq h).trans_eq hexact

theorem le_roundTo (hpos : 0 < c) (h : c ≤ q) : c ≤ roundTo p q := by
  have hexact := roundTo_exact hpos hm hc
  exact hexact.symm.trans_le (roundTo_mono hp hpos h)

end Bounds

/-- A rounded number is a multiple of the last digit of what it was rounded from. -/
theorem exists_roundTo (p : ℕ) (q : ℚ) :
    ∃ n : ℤ, roundTo p q = n * 2 ^ (Int.log 2 |q| - (p - 1) : ℤ) :=
  ⟨_, rfl⟩

end Apple2ix.Rounding
