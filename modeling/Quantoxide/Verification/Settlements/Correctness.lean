import Quantoxide.Library.Grid
import Quantoxide.Model.Settlements

/-! # Exactness of the settlement rounding

On each phase the validity predicate and both roundings are the library's grid of
step 24h or 8h. The predicate of phase B also accepts noon of the B→C dead zone, which
the roundings skip; everywhere else they agree. -/

namespace Quantoxide.Settlements

open DateTime

/-! ### The schedule in nanoseconds -/

theorem a_end_eq : LNM_SETTLEMENT_A_END = 1638864000000000000 := rfl

theorem b_start_eq : LNM_SETTLEMENT_B_START = 1638907200000000000 := rfl

theorem b_end_eq : LNM_SETTLEMENT_B_END = 1744344000000000000 := rfl

theorem c_start_eq : LNM_SETTLEMENT_C_START = 1744387200000000000 := rfl

theorem interval_eq : Duration.numHours LNM_SETTLEMENT_INTERVAL_8H = 8 := rfl

/-- Noon of 2025-04-11: on the phase B grid, yet inside the B→C dead zone. -/
def strayNoon : ℤ := ofDateHour 2025 4 11 12

theorem strayNoon_eq : strayNoon = 1744372800000000000 := rfl

/-- The instants between the last phase B settlement and the phase C start, noon apart. -/
def InStrayZone (t : ℤ) : Prop :=
  LNM_SETTLEMENT_B_END < t ∧ t < LNM_SETTLEMENT_C_START ∧ t ≠ strayNoon

/-! ### Validity is membership in the phase's grid -/

/-- A clean instant is a whole number of hours, and its hour is that number modulo 24. -/
theorem clean_iff (t : ℤ) :
    minute t = 0 ∧ second t = 0 ∧ nanosecond t = 0 ↔ ∃ k, t = 3600000000000 * k := by
  simp only [minute, second, nanosecond]
  constructor
  · rintro ⟨hm, hs, hn⟩
    exact ⟨t / 3600000000000, by omega⟩
  · rintro ⟨k, rfl⟩
    omega

theorem hour_mul (k : ℤ) : hour (3600000000000 * k) = k % 24 := by
  unfold hour
  omega

theorem daily_on_iff (t : ℤ) :
    (minute t = 0 ∧ second t = 0 ∧ nanosecond t = 0) ∧ hour t = 8 ↔
      Grid.On (Duration.hours 24) (Duration.hours 8) t := by
  rw [clean_iff]
  constructor
  · rintro ⟨⟨k, rfl⟩, hk⟩
    rw [hour_mul] at hk
    simp only [Grid.On, Duration.hours]
    omega
  · intro h
    simp only [Grid.On, Duration.hours] at h
    obtain ⟨k, rfl⟩ : ∃ k, t = 3600000000000 * k := ⟨t / 3600000000000, by omega⟩
    refine ⟨⟨k, rfl⟩, ?_⟩
    rw [hour_mul]
    omega

theorem eightHourly_on_iff (t : ℤ) {offset : ℤ} (ho : 0 ≤ offset) (h8 : offset < 8) :
    (minute t = 0 ∧ second t = 0 ∧ nanosecond t = 0) ∧ hour t % 8 = offset ↔
      Grid.On (Duration.hours 8) (Duration.hours offset) t := by
  rw [clean_iff]
  constructor
  · rintro ⟨⟨k, rfl⟩, hk⟩
    rw [hour_mul] at hk
    simp only [Grid.On, Duration.hours]
    omega
  · intro h
    simp only [Grid.On, Duration.hours] at h
    obtain ⟨k, rfl⟩ : ∃ k, t = 3600000000000 * k := ⟨t / 3600000000000, by omega⟩
    refine ⟨⟨k, rfl⟩, ?_⟩
    rw [hour_mul]
    omega

theorem isValid_iff (t : ℤ) :
    isValidFundingSettlementTime t = true ↔
      (t < LNM_SETTLEMENT_B_START ∧ Grid.On (Duration.hours 24) (Duration.hours 8) t) ∨
      (LNM_SETTLEMENT_B_START ≤ t ∧ t < LNM_SETTLEMENT_C_START ∧
        Grid.On (Duration.hours 8) (Duration.hours 4) t) ∨
      (LNM_SETTLEMENT_C_START ≤ t ∧ Grid.On (Duration.hours 8) (Duration.hours 0) t) := by
  rw [← daily_on_iff, ← eightHourly_on_iff t (by omega) (by omega),
    ← eightHourly_on_iff t (by omega) (by omega)]
  simp only [isValidFundingSettlementTime, interval_eq, b_start_eq, c_start_eq]
  split_ifs <;> grind

theorem valid_phaseA {t : ℤ} (h : t < LNM_SETTLEMENT_B_START) :
    isValidFundingSettlementTime t = true ↔
      Grid.On (Duration.hours 24) (Duration.hours 8) t := by
  rw [isValid_iff]
  simp only [b_start_eq, c_start_eq] at h ⊢
  grind

theorem valid_phaseB {t : ℤ} (h : LNM_SETTLEMENT_B_START ≤ t) (hc : t < LNM_SETTLEMENT_C_START) :
    isValidFundingSettlementTime t = true ↔
      Grid.On (Duration.hours 8) (Duration.hours 4) t := by
  rw [isValid_iff]
  simp only [b_start_eq, c_start_eq] at h hc ⊢
  grind

theorem valid_phaseC {t : ℤ} (h : LNM_SETTLEMENT_C_START ≤ t) :
    isValidFundingSettlementTime t = true ↔
      Grid.On (Duration.hours 8) (Duration.hours 0) t := by
  rw [isValid_iff]
  simp only [b_start_eq, c_start_eq] at h ⊢
  grind

/-! ### The slot arithmetic of each phase -/

theorem daily_ceil (t : ℤ) :
    (if t ≤ atHour t 8 then atHour t 8 else atHour t 8 + Duration.hours 24) =
      Grid.ceil (Duration.hours 24) (Duration.hours 8) t := by
  simp only [atHour, Grid.ceil, Duration.hours]
  split_ifs <;> omega

theorem daily_floor (t : ℤ) :
    (if t ≥ atHour t 8 then atHour t 8 else atHour t 8 - Duration.hours 24) =
      Grid.floor (Duration.hours 24) (Duration.hours 8) t := by
  simp only [atHour, Grid.floor, Duration.hours]
  split_ifs <;> omega

/-- Off the grid, the next slot of the source is the grid's ceiling. -/
theorem slot_ceil (t offset : ℤ) (ho : 0 ≤ offset) (h8 : offset < 8)
    (hoff : ¬ Grid.On (Duration.hours 8) (Duration.hours offset) t) :
    (if ((hour t - offset) / 8 + 1) * 8 + offset ≥ 24 then
      atHour t 0 + Duration.hours (24 + offset)
    else atHour t 0 + Duration.hours (((hour t - offset) / 8 + 1) * 8 + offset)) =
      Grid.ceil (Duration.hours 8) (Duration.hours offset) t := by
  simp only [Grid.On, atHour, hour, Grid.ceil, Duration.hours] at hoff ⊢
  split_ifs <;> omega

theorem slot_floor (t offset : ℤ) :
    (if (hour t - offset) / 8 * 8 + offset < 0 then
      atHour t 0 - Duration.days 1 + Duration.hours (24 + ((hour t - offset) / 8 * 8 + offset))
    else atHour t ((hour t - offset) / 8 * 8 + offset)) =
      Grid.floor (Duration.hours 8) (Duration.hours offset) t := by
  simp only [atHour, hour, Grid.floor, Duration.hours, Duration.days]
  split_ifs <;> omega

/-! ### Both roundings, phase by phase -/

theorem ceil_of_valid {t : ℤ} (h : isValidFundingSettlementTime t = true) :
    ceilFundingSettlementTime t = t := by
  rw [ceilFundingSettlementTime, if_pos h]

theorem floor_of_valid {t : ℤ} (h : isValidFundingSettlementTime t = true) :
    floorFundingSettlementTime t = t := by
  rw [floorFundingSettlementTime, if_pos h]

theorem ceil_phaseA {t : ℤ} (h : t ≤ LNM_SETTLEMENT_A_END) :
    ceilFundingSettlementTime t = Grid.ceil (Duration.hours 24) (Duration.hours 8) t := by
  have hb : t < LNM_SETTLEMENT_B_START := lt_of_le_of_lt h (by decide)
  by_cases hv : isValidFundingSettlementTime t = true
  · rw [ceil_of_valid hv, Grid.ceil_of_on ((valid_phaseA hb).mp hv)]
  · have hle := Grid.On.ceil_le (o := Duration.hours 8) (show 0 < Duration.hours 24 by decide)
      (s := LNM_SETTLEMENT_A_END) (by decide) h
    rw [ceilFundingSettlementTime, if_neg hv, if_neg (fun hz => hz.1.not_ge h),
      if_neg (fun hz => hz.1.not_ge (h.trans (by decide))), if_pos hb]
    simp only [daily_ceil]
    exact if_neg hle.not_gt

theorem floor_phaseA {t : ℤ} (h : t ≤ LNM_SETTLEMENT_A_END) :
    floorFundingSettlementTime t = Grid.floor (Duration.hours 24) (Duration.hours 8) t := by
  have hb : t < LNM_SETTLEMENT_B_START := lt_of_le_of_lt h (by decide)
  by_cases hv : isValidFundingSettlementTime t = true
  · rw [floor_of_valid hv, Grid.floor_of_on ((valid_phaseA hb).mp hv)]
  · rw [floorFundingSettlementTime, if_neg hv, if_neg (fun hz => hz.1.not_ge h),
      if_neg (fun hz => hz.1.not_ge (h.trans (by decide))), if_pos hb]
    exact daily_floor t

/-- Strictly between the last daily settlement and the phase B start nothing is valid. -/
theorem not_valid_deadA {t : ℤ} (h : LNM_SETTLEMENT_A_END < t) (hb : t < LNM_SETTLEMENT_B_START) :
    isValidFundingSettlementTime t ≠ true := by
  rw [ne_eq, valid_phaseA hb]
  simp only [Grid.On, Duration.hours, a_end_eq, b_start_eq] at h hb ⊢
  omega

theorem ceil_deadA {t : ℤ} (h : LNM_SETTLEMENT_A_END < t) (hb : t < LNM_SETTLEMENT_B_START) :
    ceilFundingSettlementTime t = LNM_SETTLEMENT_B_START := by
  rw [ceilFundingSettlementTime, if_neg (not_valid_deadA h hb), if_pos ⟨h, hb⟩]

theorem floor_deadA {t : ℤ} (h : LNM_SETTLEMENT_A_END < t) (hb : t < LNM_SETTLEMENT_B_START) :
    floorFundingSettlementTime t = LNM_SETTLEMENT_A_END := by
  rw [floorFundingSettlementTime, if_neg (not_valid_deadA h hb), if_pos ⟨h, hb⟩]

theorem ceil_phaseB {t : ℤ} (h : LNM_SETTLEMENT_B_START ≤ t) (he : t ≤ LNM_SETTLEMENT_B_END) :
    ceilFundingSettlementTime t = Grid.ceil (Duration.hours 8) (Duration.hours 4) t := by
  have hc : t < LNM_SETTLEMENT_C_START := lt_of_le_of_lt he (by decide)
  by_cases hv : isValidFundingSettlementTime t = true
  · rw [ceil_of_valid hv, Grid.ceil_of_on ((valid_phaseB h hc).mp hv)]
  · have hle := Grid.On.ceil_le (o := Duration.hours 4) (show 0 < Duration.hours 8 by decide)
      (s := LNM_SETTLEMENT_B_END) (by decide) he
    have hon : ¬ Grid.On (Duration.hours 8) (Duration.hours 4) t :=
      fun ho => hv ((valid_phaseB h hc).mpr ho)
    rw [ceilFundingSettlementTime, if_neg hv, if_neg (fun hz => hz.2.not_ge h),
      if_neg (fun hz => hz.1.not_ge he), if_neg h.not_gt]
    simp only [interval_eq, hc, if_true, slot_ceil t 4 (by omega) (by omega) hon]
    exact if_neg (fun hz => hz.1.not_ge hle)

theorem floor_phaseB {t : ℤ} (h : LNM_SETTLEMENT_B_START ≤ t) (he : t ≤ LNM_SETTLEMENT_B_END) :
    floorFundingSettlementTime t = Grid.floor (Duration.hours 8) (Duration.hours 4) t := by
  have hc : t < LNM_SETTLEMENT_C_START := lt_of_le_of_lt he (by decide)
  by_cases hv : isValidFundingSettlementTime t = true
  · rw [floor_of_valid hv, Grid.floor_of_on ((valid_phaseB h hc).mp hv)]
  · rw [floorFundingSettlementTime, if_neg hv, if_neg (fun hz => hz.2.not_ge h),
      if_neg (fun hz => hz.1.not_ge he), if_neg h.not_gt]
    simp only [interval_eq, hc, if_true]
    exact slot_floor t 4

/-- Inside the B→C dead zone the predicate accepts noon and nothing else. -/
theorem valid_deadB {t : ℤ} (h : LNM_SETTLEMENT_B_END < t) (hc : t < LNM_SETTLEMENT_C_START) :
    isValidFundingSettlementTime t = true ↔ t = strayNoon := by
  rw [valid_phaseB (le_trans (by decide) h.le) hc]
  simp only [Grid.On, Duration.hours, b_end_eq, c_start_eq, strayNoon_eq] at h hc ⊢
  omega

theorem ceil_deadB {t : ℤ} (h : InStrayZone t) :
    ceilFundingSettlementTime t = LNM_SETTLEMENT_C_START := by
  obtain ⟨hb, hc, hn⟩ := h
  have hv := mt (valid_deadB hb hc).mp hn
  have hs : ¬ t < LNM_SETTLEMENT_B_START := (le_trans (by decide) hb.le).not_gt
  rw [ceilFundingSettlementTime, if_neg hv, if_neg (fun hz => hs hz.2), if_pos ⟨hb, hc⟩]

theorem floor_deadB {t : ℤ} (h : InStrayZone t) :
    floorFundingSettlementTime t = LNM_SETTLEMENT_B_END := by
  obtain ⟨hb, hc, hn⟩ := h
  have hv := mt (valid_deadB hb hc).mp hn
  have hs : ¬ t < LNM_SETTLEMENT_B_START := (le_trans (by decide) hb.le).not_gt
  rw [floorFundingSettlementTime, if_neg hv, if_neg (fun hz => hs hz.2), if_pos ⟨hb, hc⟩]

theorem ceil_phaseC {t : ℤ} (h : LNM_SETTLEMENT_C_START ≤ t) :
    ceilFundingSettlementTime t = Grid.ceil (Duration.hours 8) (Duration.hours 0) t := by
  have hb : LNM_SETTLEMENT_B_START ≤ t := le_trans (by decide) h
  by_cases hv : isValidFundingSettlementTime t = true
  · rw [ceil_of_valid hv, Grid.ceil_of_on ((valid_phaseC h).mp hv)]
  · have hle := Grid.le_ceil (Duration.hours 0) t (show 0 < Duration.hours 8 by decide)
    have hon : ¬ Grid.On (Duration.hours 8) (Duration.hours 0) t :=
      fun ho => hv ((valid_phaseC h).mpr ho)
    rw [ceilFundingSettlementTime, if_neg hv, if_neg (fun hz => hz.2.not_ge hb),
      if_neg (fun hz => hz.2.not_ge h), if_neg hb.not_gt]
    simp only [interval_eq, h.not_gt, if_false, slot_ceil t 0 (by omega) (by omega) hon]
    exact if_neg (fun hz => hz.2.not_ge (h.trans hle))

theorem floor_phaseC {t : ℤ} (h : LNM_SETTLEMENT_C_START ≤ t) :
    floorFundingSettlementTime t = Grid.floor (Duration.hours 8) (Duration.hours 0) t := by
  have hb : LNM_SETTLEMENT_B_START ≤ t := le_trans (by decide) h
  by_cases hv : isValidFundingSettlementTime t = true
  · rw [floor_of_valid hv, Grid.floor_of_on ((valid_phaseC h).mp hv)]
  · rw [floorFundingSettlementTime, if_neg hv, if_neg (fun hz => hz.2.not_ge hb),
      if_neg (fun hz => hz.2.not_ge h), if_neg hb.not_gt]
    simp only [interval_eq, h.not_gt, if_false]
    exact slot_floor t 0

end Quantoxide.Settlements
