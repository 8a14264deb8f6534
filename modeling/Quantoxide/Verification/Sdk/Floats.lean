import Mathlib.Algebra.Order.AbsoluteValue.Basic
import Mathlib.Algebra.Order.Field.Power
import Mathlib.Tactic.FieldSimp
import Mathlib.Tactic.GCongr
import Mathlib.Tactic.Linarith.Frontend
import Mathlib.Tactic.NormNum
import Mathlib.Tactic.Positivity
import Quantoxide.Model.Numeric

/-! # How far a double is from what it rounds -/

namespace Quantoxide.F64

/-! ### Saturation -/

theorem le_clamp {x : ℚ} (h : clamp x < ⊤) : x ≤ (clamp x).val := by
  have hlt : min maxVal x < maxVal := lt_of_le_of_lt (le_max_right _ _) h
  have hx : x < maxVal := by
    by_contra hge
    rw [min_eq_left (not_lt.mp hge)] at hlt
    exact lt_irrefl _ hlt
  calc x = min maxVal x := (min_eq_right hx.le).symm
    _ ≤ _ := le_max_right _ _

theorem neg_maxVal_neg : -maxVal < 0 := by decide +kernel

theorem clamp_le {x : ℚ} (h : 0 < (clamp x).val) : (clamp x).val ≤ x := by
  rcases max_choice (-maxVal) (min maxVal x) with heq | heq
  · have hval : (clamp x).val = -maxVal := heq
    have hneg := neg_maxVal_neg
    linarith
  · have hval : (clamp x).val = min maxVal x := heq
    rw [hval]
    exact min_le_right _ _

/-! ### The rounding error -/

theorem roundTiesEven_near (q : ℚ) : |(roundTiesEven q : ℚ) - q| ≤ 1 / 2 := by
  have hfloor := Int.floor_le q
  have hlt := Int.lt_floor_add_one q
  unfold roundTiesEven
  simp only
  split_ifs with hlow hhigh heven
  · rw [abs_le]
    constructor <;> linarith
  · push_cast
    rw [abs_le]
    constructor <;> linarith
  · rw [abs_le]
    constructor <;> linarith
  · push_cast
    rw [abs_le]
    constructor <;> linarith

theorem clamp_val_of_abs_le {q : ℚ} (h : |q| ≤ maxVal) : (clamp q).val = q := by
  obtain ⟨hlow, hhigh⟩ := abs_le.mp h
  simp only [clamp, min_eq_right hhigh, max_eq_right hlow]

/-- The unit in the last place of a value, or of the least normal one. -/
theorem ulp_le {q : ℚ} (hq : q ≠ 0) :
    (2 : ℚ) ^ (max (Int.log 2 |q|) (-1022) - 52) ≤ (|q| + 2 ^ (-1022 : ℤ)) / 2 ^ 52 := by
  have hlog : (2 : ℚ) ^ Int.log 2 |q| ≤ |q| := by
    exact_mod_cast Int.zpow_log_le_self (by decide : 1 < 2) (abs_pos.mpr hq)
  have htiny : (0 : ℚ) < 2 ^ (-1022 : ℤ) := by positivity
  have hmax : (2 : ℚ) ^ max (Int.log 2 |q|) (-1022) ≤ |q| + 2 ^ (-1022 : ℤ) := by
    rcases max_choice (Int.log 2 |q|) (-1022) with heq | heq
    · rw [heq]
      linarith
    · rw [heq]
      have hpos := abs_nonneg q
      linarith
  rw [zpow_sub₀ (by norm_num)]
  exact div_le_div_of_nonneg_right hmax (by positivity)

/-- Half a unit in the last place of a value in range, or half the least subnormal. -/
theorem ofRat_near {q : ℚ} (h : |q| ≤ 2 ^ 200) :
    |(ofRat q).val - q| ≤ |q| / 2 ^ 53 + 1 / 2 ^ 200 := by
  by_cases hq : q = 0
  · subst hq
    have hzero : (ofRat 0).val = 0 := by decide +kernel
    rw [hzero, sub_self, abs_zero]
    positivity
  obtain ⟨ulp, hulp⟩ : ∃ ulp : ℚ, ulp = 2 ^ (max (Int.log 2 |q|) (-1022) - 52) := ⟨_, rfl⟩
  have hpos : 0 < ulp := by
    rw [hulp]
    positivity
  have hle : ulp ≤ (|q| + 2 ^ (-1022 : ℤ)) / 2 ^ 52 := by
    rw [hulp]
    exact ulp_le hq
  have hround : |roundTiesEven (q / ulp) * ulp - q| ≤ ulp / 2 := by
    have hsplit : roundTiesEven (q / ulp) * ulp - q =
        (roundTiesEven (q / ulp) - q / ulp) * ulp := by
      rw [sub_mul, div_mul_cancel₀ q hpos.ne']
    rw [hsplit, abs_mul, abs_of_pos hpos]
    have hmul := mul_le_mul_of_nonneg_right (roundTiesEven_near (q / ulp)) hpos.le
    linarith
  have htiny : (2 : ℚ) ^ (-1022 : ℤ) / 2 ^ 53 ≤ 1 / 2 ^ 200 := by
    have hexp : (2 : ℚ) ^ (-1022 : ℤ) ≤ 2 ^ (-200 : ℤ) :=
      zpow_le_zpow_right₀ (by norm_num) (by norm_num)
    have hcast : (2 : ℚ) ^ (-200 : ℤ) = 1 / 2 ^ 200 := by
      rw [zpow_neg, one_div]
      rfl
    have hhalve : (2 : ℚ) ^ (-1022 : ℤ) / 2 ^ 53 ≤ 2 ^ (-1022 : ℤ) :=
      div_le_self (by positivity) (by norm_num)
    exact hhalve.trans (hexp.trans hcast.le)
  have herror : ulp / 2 ≤ |q| / 2 ^ 53 + 1 / 2 ^ 200 := by
    calc ulp / 2 ≤ (|q| + 2 ^ (-1022 : ℤ)) / 2 ^ 52 / 2 := by linarith
      _ = |q| / 2 ^ 53 + 2 ^ (-1022 : ℤ) / 2 ^ 53 := by ring
      _ ≤ _ := by linarith
  have hrange : |roundTiesEven (q / ulp) * ulp| ≤ maxVal := by
    have htriangle := abs_sub_abs_le_abs_sub (roundTiesEven (q / ulp) * ulp) q
    have hone : (2 : ℚ) ^ 200 + (2 ^ 200 / 2 ^ 53 + 1 / 2 ^ 200) ≤ maxVal := by decide +kernel
    have hsmall : |q| / 2 ^ 53 ≤ 2 ^ 200 / 2 ^ 53 := by gcongr
    linarith
  have hval : (ofRat q).val = roundTiesEven (q / ulp) * ulp := by
    unfold ofRat
    rw [if_neg hq, hulp]
    rw [hulp] at hrange
    exact clamp_val_of_abs_le hrange
  rw [hval]
  exact hround.trans herror

/-! ### Quotients -/

theorem div_of_ne {x y : F64} (h : y.val ≠ 0) : x / y = ofRat (x.val / y.val) := if_neg h

theorem one_val : (1 : F64).val = 1 := by decide +kernel

theorem hundred_val : (100 : F64).val = 100 := by decide +kernel

theorem hundredth_near {x : F64} (h : 0 ≤ x.val) (h' : x.val ≤ 100) :
    |(x / 100).val - x.val / 100| ≤ 1 / 2 ^ 52 := by
  have hpos : 0 ≤ x.val / 100 := by linarith
  have hle : x.val / 100 ≤ 1 := by linarith
  have habs : |x.val / 100| ≤ 1 := by rwa [abs_of_nonneg hpos]
  rw [div_of_ne (by rw [hundred_val]; norm_num), hundred_val]
  refine (ofRat_near (habs.trans (by norm_num))).trans ?_
  calc |x.val / 100| / 2 ^ 53 + 1 / 2 ^ 200 ≤ 1 / 2 ^ 53 + 1 / 2 ^ 200 := by gcongr
    _ ≤ 1 / 2 ^ 52 := by norm_num

/-- Dividing by a slightly wrong divisor and rounding the quotient moves what is multiplied
back by less than an eighth. -/
theorem quotient_near {n b c : ℚ} {x : F64} (hn : 0 ≤ n) (hn' : n ≤ 100000000)
    (hc : 1 / 1000 ≤ c) (hc' : c ≤ 2) (hb : |b - c| ≤ 1 / 2 ^ 50) (hx : x = ofRat (n / b)) :
    |x.val - n / c| * c ≤ 1 / 8 := by
  obtain ⟨hlow, hhigh⟩ := abs_le.mp hb
  have hbpos : 1 / 2000 ≤ b := by
    have hsmall : (1 : ℚ) / 2 ^ 50 ≤ 1 / 2000 := by norm_num
    linarith
  have hquot : 0 ≤ n / b := div_nonneg hn (by linarith)
  have hquot' : n / b ≤ 200000000000 := by
    rw [div_le_iff₀ (by linarith)]
    linarith
  have hround : |x.val - n / b| ≤ 1 / 2 ^ 15 := by
    rw [hx]
    refine (ofRat_near ?_).trans ?_
    · rw [abs_of_nonneg hquot]
      exact hquot'.trans (by norm_num)
    · rw [abs_of_nonneg hquot]
      calc n / b / 2 ^ 53 + 1 / 2 ^ 200 ≤ 200000000000 / 2 ^ 53 + 1 / 2 ^ 200 := by gcongr
        _ ≤ 1 / 2 ^ 15 := by norm_num
  have hdivisor : |n / b - n / c| * c ≤ 1 / 2 ^ 10 := by
    have hsplit : n / b - n / c = n / b * ((c - b) / c) := by
      have hb0 : b ≠ 0 := by linarith
      have hc0 : c ≠ 0 := by linarith
      field_simp
    have hcpos : 0 < c := by linarith
    rw [hsplit, abs_mul, abs_of_nonneg hquot, abs_div, abs_of_pos hcpos, mul_assoc,
      div_mul_cancel₀ _ hcpos.ne', abs_sub_comm]
    calc n / b * |b - c| ≤ 200000000000 * (1 / 2 ^ 50) := by gcongr
      _ ≤ 1 / 2 ^ 10 := by norm_num
  have htriangle : |x.val - n / c| ≤ |x.val - n / b| + |n / b - n / c| := abs_sub_le _ _ _
  calc |x.val - n / c| * c ≤ (|x.val - n / b| + |n / b - n / c|) * c := by gcongr
    _ = |x.val - n / b| * c + |n / b - n / c| * c := by ring
    _ ≤ 1 / 2 ^ 15 * 2 + 1 / 2 ^ 10 := by gcongr
    _ ≤ 1 / 8 := by norm_num

end Quantoxide.F64
