import Mathlib.Algebra.Order.Group.Int
import Mathlib.Algebra.Ring.Int.Defs
import Mathlib.Data.List.Range
import Mathlib.Order.Bounds.Basic
import Mathlib.Tactic.Ring

/-! # Rounding on a shifted grid

The grid of step `m` and offset `o` is `{s | (s - o) % m = 0}`. Both roundings are
stated as order facts, so a caller never unfolds the division. -/

namespace Grid

/-- Membership in the grid of step `m` through `o`. -/
def On (m o s : ℤ) : Prop := (s - o) % m = 0

instance (m o s : ℤ) : Decidable (On m o s) := inferInstanceAs (Decidable (_ = _))

/-- The last grid point at or before `t`. -/
def floor (m o t : ℤ) : ℤ := t - (t - o) % m

/-- The first grid point at or after `t`. -/
def ceil (m o t : ℤ) : ℤ := t + (o - t) % m

variable {m : ℤ} (o t : ℤ)

theorem floor_on : On m o (floor m o t) := by
  unfold On floor
  rw [show t - (t - o) % m - o = (t - o) - (t - o) % m by ring]
  exact Int.emod_eq_zero_of_dvd (Int.dvd_self_sub_emod)

theorem ceil_on : On m o (ceil m o t) := by
  unfold On ceil
  rw [show t + (o - t) % m - o = -((o - t) - (o - t) % m) by ring]
  exact Int.emod_eq_zero_of_dvd (Int.dvd_neg.mpr Int.dvd_self_sub_emod)

theorem floor_le (hm : 0 < m) : floor m o t ≤ t := by
  have h := Int.emod_nonneg (t - o) hm.ne'
  unfold floor
  omega

theorem lt_floor_add (hm : 0 < m) : t < floor m o t + m := by
  have h := Int.emod_lt_of_pos (t - o) hm
  unfold floor
  omega

theorem le_ceil (hm : 0 < m) : t ≤ ceil m o t := by
  have h := Int.emod_nonneg (o - t) hm.ne'
  unfold ceil
  omega

theorem ceil_lt_add (hm : 0 < m) : ceil m o t < t + m := by
  have h := Int.emod_lt_of_pos (o - t) hm
  unfold ceil
  omega

variable {o t}

/-- Two grid points less than one step apart coincide. -/
theorem On.eq_of_lt {a b : ℤ} (ha : On m o a) (hb : On m o b)
    (hab : a ≤ b) (hlt : b < a + m) : a = b := by
  have hd : m ∣ b - a := by
    have h := Int.dvd_sub (Int.dvd_of_emod_eq_zero hb) (Int.dvd_of_emod_eq_zero ha)
    rwa [show b - o - (a - o) = b - a by ring] at h
  have hz := Int.eq_zero_of_dvd_of_nonneg_of_lt (by omega) (by omega : b - a < m) hd
  omega

theorem On.le_floor (hm : 0 < m) {s : ℤ} (hs : On m o s) (h : s ≤ t) : s ≤ floor m o t := by
  by_contra hc
  have hlt := lt_floor_add o t hm
  have he := (floor_on (m := m) o t).eq_of_lt hs (by omega) (by omega)
  omega

theorem On.ceil_le (hm : 0 < m) {s : ℤ} (hs : On m o s) (h : t ≤ s) : ceil m o t ≤ s := by
  by_contra hc
  have hlt := ceil_lt_add o t hm
  have he := hs.eq_of_lt (ceil_on (m := m) o t) (by omega) (by omega)
  omega

theorem isGreatest_floor (hm : 0 < m) : IsGreatest {s | s ≤ t ∧ On m o s} (floor m o t) :=
  ⟨⟨floor_le o t hm, floor_on o t⟩, fun _ hs => hs.2.le_floor hm hs.1⟩

theorem isLeast_ceil (hm : 0 < m) : IsLeast {s | t ≤ s ∧ On m o s} (ceil m o t) :=
  ⟨⟨le_ceil o t hm, ceil_on o t⟩, fun _ hs => hs.2.ceil_le hm hs.1⟩

theorem floor_of_on (h : On m o t) : floor m o t = t := by
  unfold floor
  rw [h, sub_zero]

theorem ceil_of_on (h : On m o t) : ceil m o t = t := by
  have hd : (o - t) % m = 0 := by
    apply Int.emod_eq_zero_of_dvd
    rw [← neg_sub]
    exact Int.dvd_neg.mpr (Int.dvd_of_emod_eq_zero h)
  unfold ceil
  rw [hd, add_zero]

theorem floor_mono (hm : 0 < m) {s : ℤ} (h : s ≤ t) : floor m o s ≤ floor m o t :=
  (floor_on o s).le_floor hm ((floor_le o s hm).trans h)

/-- A grid may be read from any of its points. -/
theorem On.rebase {a s : ℤ} (h : On m o a) : On m a s ↔ On m o s := by
  have hd : m ∣ a - o := Int.dvd_of_emod_eq_zero h
  have hadd : s - o = s - a + (a - o) := by ring
  unfold On
  rw [hadd, Int.add_emod, Int.emod_eq_zero_of_dvd hd, add_zero, Int.emod_emod]

/-! ### The points of a range -/

/-- The points `a`, `a + m`, … up to `b`. -/
def series (m a b : ℤ) : List ℤ :=
  if b < a then [] else (List.range (((b - a) / m).toNat + 1)).map fun i : ℕ => a + m * i

theorem series_of_lt {a b : ℤ} (h : b < a) : series m a b = [] := if_pos h

theorem series_cons (hm : 0 < m) {a b : ℤ} (h : a ≤ b) :
    series m a b = a :: series m (a + m) b := by
  have hsteps : (b - a) / m = (b - (a + m)) / m + 1 := by
    rw [← Int.add_mul_ediv_right _ _ hm.ne', one_mul]
    congr 1
    ring
  rw [series, if_neg (not_lt.mpr h), List.range_succ_eq_map, List.map_cons, List.map_map]
  congr 1
  · simp
  · by_cases hlast : b < a + m
    · have hzero : (b - a) / m = 0 := Int.ediv_eq_zero_of_lt (by omega) (by omega)
      rw [series_of_lt hlast, hzero]
      rfl
    · have hnonneg : 0 ≤ (b - (a + m)) / m := Int.ediv_nonneg (by omega) hm.le
      rw [series, if_neg hlast, hsteps, Int.toNat_add hnonneg (by omega)]
      apply List.map_congr_left
      intro i _
      simp only [Function.comp_apply, Nat.succ_eq_add_one, Nat.cast_add, Nat.cast_one]
      ring

theorem mem_series (hm : 0 < m) {a b s : ℤ} : s ∈ series m a b ↔ a ≤ s ∧ s ≤ b ∧ On m a s := by
  unfold series On
  split_ifs with hba
  · constructor
    · intro h
      cases h
    · intro h
      omega
  have hsteps : 0 ≤ (b - a) / m := Int.ediv_nonneg (by omega) hm.le
  simp only [List.mem_map, List.mem_range]
  constructor
  · rintro ⟨i, hi, rfl⟩
    have hle : (i : ℤ) ≤ (b - a) / m := by omega
    rw [Int.le_ediv_iff_mul_le hm, mul_comm] at hle
    have hpos : 0 ≤ m * (i : ℤ) := Int.mul_nonneg hm.le (Int.natCast_nonneg i)
    refine ⟨by omega, by omega, ?_⟩
    rw [add_sub_cancel_left]
    exact Int.mul_emod_right m i
  · rintro ⟨ha, hb, hon⟩
    obtain ⟨k, hk⟩ := Int.dvd_of_emod_eq_zero hon
    have hk0 : 0 ≤ k := by
      by_contra hneg
      have := Int.mul_neg_of_pos_of_neg hm (not_le.mp hneg)
      omega
    have hle : k ≤ (b - a) / m := by
      rw [Int.le_ediv_iff_mul_le hm, mul_comm]
      omega
    refine ⟨k.toNat, by omega, ?_⟩
    rw [Int.toNat_of_nonneg hk0]
    omega

theorem series_ascending (hm : 0 < m) (a b : ℤ) : (series m a b).Pairwise (· < ·) := by
  unfold series
  split_ifs
  · exact List.Pairwise.nil
  rw [List.pairwise_map]
  apply List.pairwise_lt_range.imp
  intro i j hij
  have hlt : (i : ℤ) < j := Int.ofNat_lt.mpr hij
  have hmul := Int.mul_lt_mul_of_pos_left hlt hm
  omega

end Grid
