import Quantoxide.Verification.Settlements.Correctness

/-! # Least and greatest settlements

The roundings are compared with the order-theoretic reading of the validity predicate:
the ceiling is the least valid instant not before `t`, the floor the greatest valid
instant from the phase A start not after `t`. -/

namespace Quantoxide.Settlements

open DateTime

def RoundsExactly (t : ℤ) : Prop :=
  IsLeast {s | t ≤ s ∧ isValidFundingSettlementTime s = true} (ceilFundingSettlementTime t) ∧
  IsGreatest {s | s ≤ t ∧ isValidFundingSettlementTime s = true ∧ LNM_SETTLEMENT_A_START ≤ s}
    (floorFundingSettlementTime t)

/-- The part of the schedule an instant lies in, with both of its roundings. -/
inductive Phase (t : ℤ) : Prop
  | daily (h : t ≤ LNM_SETTLEMENT_A_END)
      (hc : ceilFundingSettlementTime t = Grid.ceil (Duration.hours 24) (Duration.hours 8) t)
      (hf : floorFundingSettlementTime t = Grid.floor (Duration.hours 24) (Duration.hours 8) t)
  | deadA (ha : LNM_SETTLEMENT_A_END < t) (hb : t < LNM_SETTLEMENT_B_START)
      (hc : ceilFundingSettlementTime t = LNM_SETTLEMENT_B_START)
      (hf : floorFundingSettlementTime t = LNM_SETTLEMENT_A_END)
  | phaseB (hb : LNM_SETTLEMENT_B_START ≤ t) (he : t ≤ LNM_SETTLEMENT_B_END)
      (hc : ceilFundingSettlementTime t = Grid.ceil (Duration.hours 8) (Duration.hours 4) t)
      (hf : floorFundingSettlementTime t = Grid.floor (Duration.hours 8) (Duration.hours 4) t)
  | noon (h : t = strayNoon)
  | stray (h : InStrayZone t) (hc : ceilFundingSettlementTime t = LNM_SETTLEMENT_C_START)
      (hf : floorFundingSettlementTime t = LNM_SETTLEMENT_B_END)
  | phaseC (h : LNM_SETTLEMENT_C_START ≤ t)
      (hc : ceilFundingSettlementTime t = Grid.ceil (Duration.hours 8) (Duration.hours 0) t)
      (hf : floorFundingSettlementTime t = Grid.floor (Duration.hours 8) (Duration.hours 0) t)

theorem phase (t : ℤ) : Phase t := by
  rcases le_or_gt t LNM_SETTLEMENT_A_END with ha | ha
  · exact .daily ha (ceil_phaseA ha) (floor_phaseA ha)
  rcases lt_or_ge t LNM_SETTLEMENT_B_START with hb | hb
  · exact .deadA ha hb (ceil_deadA ha hb) (floor_deadA ha hb)
  rcases le_or_gt t LNM_SETTLEMENT_B_END with he | he
  · exact .phaseB hb he (ceil_phaseB hb he) (floor_phaseB hb he)
  rcases lt_or_ge t LNM_SETTLEMENT_C_START with hc | hc
  · by_cases hn : t = strayNoon
    · exact .noon hn
    · exact .stray ⟨he, hc, hn⟩ (ceil_deadB ⟨he, hc, hn⟩) (floor_deadB ⟨he, hc, hn⟩)
  · exact .phaseC hc (ceil_phaseC hc) (floor_phaseC hc)

/-! ### Exactness outside the stray zone -/

theorem hours24_pos : 0 < Duration.hours 24 := by decide

theorem hours8_pos : 0 < Duration.hours 8 := by decide

theorem noon_valid : isValidFundingSettlementTime strayNoon = true := by decide

theorem isLeast_ceil {t : ℤ} (h : ¬ InStrayZone t) :
    IsLeast {s | t ≤ s ∧ isValidFundingSettlementTime s = true} (ceilFundingSettlementTime t) := by
  cases phase t with
  | daily ha hc _ =>
      have hle := Grid.On.ceil_le (o := Duration.hours 8) hours24_pos
        (s := LNM_SETTLEMENT_A_END) (by decide) ha
      rw [hc]
      refine ⟨⟨Grid.le_ceil _ t hours24_pos,
        (valid_phaseA (hle.trans_lt (by decide))).mpr (Grid.ceil_on _ t)⟩, ?_⟩
      intro s hs
      rcases lt_or_ge s LNM_SETTLEMENT_B_START with hb | hb
      · exact ((valid_phaseA hb).mp hs.2).ceil_le hours24_pos hs.1
      · exact hle.trans (le_trans (by decide) hb)
  | deadA ha hb hc _ =>
      rw [hc]
      refine ⟨⟨hb.le, by decide⟩, ?_⟩
      intro s hs
      by_contra hlt
      exact not_valid_deadA (ha.trans_le hs.1) (not_le.mp hlt) hs.2
  | phaseB hb he hc _ =>
      have hge := Grid.le_ceil (Duration.hours 4) t hours8_pos
      have hle := Grid.On.ceil_le (o := Duration.hours 4) hours8_pos
        (s := LNM_SETTLEMENT_B_END) (by decide) he
      rw [hc]
      refine ⟨⟨hge, (valid_phaseB (hb.trans hge) (hle.trans_lt (by decide))).mpr
        (Grid.ceil_on _ t)⟩, ?_⟩
      intro s hs
      rcases lt_or_ge s LNM_SETTLEMENT_C_START with hlt | hlt
      · exact ((valid_phaseB (hb.trans hs.1) hlt).mp hs.2).ceil_le hours8_pos hs.1
      · exact hle.trans (le_trans (by decide) hlt)
  | noon hn =>
      subst hn
      rw [ceil_of_valid noon_valid]
      exact ⟨⟨le_rfl, noon_valid⟩, fun s hs => hs.1⟩
  | stray hz _ _ => exact absurd hz h
  | phaseC hge hc _ =>
      rw [hc]
      refine ⟨⟨Grid.le_ceil _ t hours8_pos, (valid_phaseC
        (hge.trans (Grid.le_ceil _ t hours8_pos))).mpr (Grid.ceil_on _ t)⟩, ?_⟩
      intro s hs
      exact ((valid_phaseC (hge.trans hs.1)).mp hs.2).ceil_le hours8_pos hs.1

theorem isGreatest_floor {t : ℤ} (hA : LNM_SETTLEMENT_A_START ≤ t) (h : ¬ InStrayZone t) :
    IsGreatest {s | s ≤ t ∧ isValidFundingSettlementTime s = true ∧ LNM_SETTLEMENT_A_START ≤ s}
      (floorFundingSettlementTime t) := by
  cases phase t with
  | daily ha _ hf =>
      have hle := Grid.floor_le (Duration.hours 8) t hours24_pos
      rw [hf]
      refine ⟨⟨hle, (valid_phaseA ((hle.trans ha).trans_lt (by decide))).mpr
        (Grid.floor_on _ t), Grid.On.le_floor hours24_pos (by decide) hA⟩, ?_⟩
      intro s hs
      exact ((valid_phaseA ((hs.1.trans ha).trans_lt (by decide))).mp hs.2.1).le_floor
        hours24_pos hs.1
  | deadA ha hb _ hf =>
      rw [hf]
      refine ⟨⟨ha.le, by decide, by decide⟩, ?_⟩
      intro s hs
      by_contra hlt
      exact not_valid_deadA (not_le.mp hlt) (hs.1.trans_lt hb) hs.2.1
  | phaseB hb he _ hf =>
      have hle := Grid.floor_le (Duration.hours 4) t hours8_pos
      have hge := Grid.On.le_floor (o := Duration.hours 4) hours8_pos
        (s := LNM_SETTLEMENT_B_START) (by decide) hb
      rw [hf]
      refine ⟨⟨hle, (valid_phaseB hge ((hle.trans he).trans_lt (by decide))).mpr
        (Grid.floor_on _ t), le_trans (by decide) hge⟩, ?_⟩
      intro s hs
      rcases lt_or_ge s LNM_SETTLEMENT_B_START with hlt | hlt
      · exact hlt.le.trans hge
      · exact ((valid_phaseB hlt ((hs.1.trans he).trans_lt (by decide))).mp hs.2.1).le_floor
          hours8_pos hs.1
  | noon hn =>
      subst hn
      rw [floor_of_valid noon_valid]
      exact ⟨⟨le_rfl, noon_valid, by decide⟩, fun s hs => hs.1⟩
  | stray hz _ _ => exact absurd hz h
  | phaseC hc _ hf =>
      have hge := Grid.On.le_floor (o := Duration.hours 0) hours8_pos
        (s := LNM_SETTLEMENT_C_START) (by decide) hc
      rw [hf]
      refine ⟨⟨Grid.floor_le _ t hours8_pos, (valid_phaseC hge).mpr (Grid.floor_on _ t),
        le_trans (by decide) hge⟩, ?_⟩
      intro s hs
      rcases lt_or_ge s LNM_SETTLEMENT_C_START with hlt | hlt
      · exact hlt.le.trans hge
      · exact ((valid_phaseC hlt).mp hs.2.1).le_floor hours8_pos hs.1

/-! ### The stray zone -/

/-- In the stray zone one of the roundings jumps over noon. -/
theorem not_roundsExactly {t : ℤ} (h : InStrayZone t) : ¬ RoundsExactly t := by
  rintro ⟨hc, hf⟩
  rw [ceil_deadB h] at hc
  rw [floor_deadB h] at hf
  rcases lt_or_gt_of_ne h.2.2 with hn | hn
  · exact absurd (hc.2 ⟨hn.le, noon_valid⟩) (by decide)
  · exact absurd (hf.2 ⟨hn.le, noon_valid, by decide⟩) (by decide)

theorem roundsExactly_iff {t : ℤ} (hA : LNM_SETTLEMENT_A_START ≤ t) :
    RoundsExactly t ↔ ¬ InStrayZone t :=
  ⟨fun he hz => not_roundsExactly hz he, fun h => ⟨isLeast_ceil h, isGreatest_floor hA h⟩⟩

theorem ceil_valid (t : ℤ) : isValidFundingSettlementTime (ceilFundingSettlementTime t) = true := by
  by_cases h : InStrayZone t
  · rw [ceil_deadB h]
    decide
  · exact (isLeast_ceil h).1.2

theorem floor_valid {t : ℤ} (hA : LNM_SETTLEMENT_A_START ≤ t) :
    isValidFundingSettlementTime (floorFundingSettlementTime t) = true := by
  by_cases h : InStrayZone t
  · rw [floor_deadB h]
    decide
  · exact (isGreatest_floor hA h).1.2.1

theorem le_ceil (t : ℤ) : t ≤ ceilFundingSettlementTime t := by
  by_cases h : InStrayZone t
  · rw [ceil_deadB h]
    exact h.2.1.le
  · exact (isLeast_ceil h).1.1

theorem floor_le {t : ℤ} (hA : LNM_SETTLEMENT_A_START ≤ t) : floorFundingSettlementTime t ≤ t := by
  by_cases h : InStrayZone t
  · rw [floor_deadB h]
    exact h.1.le
  · exact (isGreatest_floor hA h).1.1

/-- What rounding an instant owes to the schedule, and to every later instant `u`. -/
structure RoundingSpec (t : ℤ) : Prop where
  exact_iff : RoundsExactly t ↔ ¬ InStrayZone t
  ceil_mono : ∀ u, t ≤ u → ¬ InStrayZone t → ¬ InStrayZone u →
    ceilFundingSettlementTime t ≤ ceilFundingSettlementTime u
  floor_mono : ∀ u, t ≤ u → ¬ InStrayZone t → ¬ InStrayZone u →
    floorFundingSettlementTime t ≤ floorFundingSettlementTime u
  ceil_idem : ceilFundingSettlementTime (ceilFundingSettlementTime t) = ceilFundingSettlementTime t
  floor_idem :
    floorFundingSettlementTime (floorFundingSettlementTime t) = floorFundingSettlementTime t
  between : floorFundingSettlementTime t ≤ t ∧ t ≤ ceilFundingSettlementTime t

/-- The settlement grid is rounded exactly at every instant from the phase A start,
save for those of the B→C dead zone other than its noon. -/
theorem settlement_rounding_exact (t : ℤ) (hA : LNM_SETTLEMENT_A_START ≤ t) : RoundingSpec t where
  exact_iff := roundsExactly_iff hA
  ceil_mono _ hle ht hu :=
    (isLeast_ceil ht).2 ⟨hle.trans (isLeast_ceil hu).1.1, (isLeast_ceil hu).1.2⟩
  floor_mono _ hle ht hu :=
    (isGreatest_floor (hA.trans hle) hu).2
      ⟨(isGreatest_floor hA ht).1.1.trans hle, (isGreatest_floor hA ht).1.2⟩
  ceil_idem := ceil_of_valid (ceil_valid t)
  floor_idem := floor_of_valid (floor_valid hA)
  between := ⟨floor_le hA, le_ceil t⟩

/-- Five in the morning of the last phase, between two settlements. -/
theorem settlement_rounding_exact_morning :
    RoundingSpec (ofDateHour 2026 1 15 5) ∧ RoundsExactly (ofDateHour 2026 1 15 5) ∧
      floorFundingSettlementTime (ofDateHour 2026 1 15 5) = ofDateHour 2026 1 15 0 ∧
      ceilFundingSettlementTime (ofDateHour 2026 1 15 5) = ofDateHour 2026 1 15 8 := by
  have hspec := settlement_rounding_exact (ofDateHour 2026 1 15 5) (by decide)
  have hlast : ¬ InStrayZone (ofDateHour 2026 1 15 5) := fun h => absurd h.2.1 (by decide)
  exact ⟨hspec, hspec.exact_iff.mpr hlast, by decide, by decide⟩

/-- At 05:00 of 2025-04-11 the ceiling skips the valid noon, which itself rounds lower. -/
theorem settlement_ceil_skips_noon :
    LNM_SETTLEMENT_A_START ≤ ofDateHour 2025 4 11 5 ∧
      ofDateHour 2025 4 11 5 ≤ strayNoon ∧ ¬ RoundsExactly (ofDateHour 2025 4 11 5) ∧
      ceilFundingSettlementTime strayNoon < ceilFundingSettlementTime (ofDateHour 2025 4 11 5) :=
  ⟨by decide, by decide, not_roundsExactly ⟨by decide, by decide, by decide⟩, by decide⟩

end Quantoxide.Settlements
