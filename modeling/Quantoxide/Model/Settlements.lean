import Quantoxide.Model.Time

/-! # The funding settlement grid

The three phases of the exchange's settlement schedule, and the rounding of an instant
to it. Each rounding keeps the order of the source's branches. -/

namespace Quantoxide

open DateTime

def LNM_SETTLEMENT_INTERVAL_8H : ℤ := Duration.hours 8

def LNM_SETTLEMENT_A_START : ℤ := ofDateHour 2021 1 11 8

def LNM_SETTLEMENT_A_END : ℤ := ofDateHour 2021 12 7 8

def LNM_SETTLEMENT_B_START : ℤ := ofDateHour 2021 12 7 20

def LNM_SETTLEMENT_B_END : ℤ := ofDateHour 2025 4 11 4

def LNM_SETTLEMENT_C_START : ℤ := ofDateHour 2025 4 11 16

namespace DateTime

def isValidFundingSettlementTime (t : ℤ) : Bool :=
  let clean := minute t == 0 && second t == 0 && nanosecond t == 0
  let intervalHours := Duration.numHours LNM_SETTLEMENT_INTERVAL_8H
  if t < LNM_SETTLEMENT_B_START then
    clean && hour t == 8
  else if t < LNM_SETTLEMENT_C_START then
    clean && hour t % intervalHours == 4
  else
    clean && hour t % intervalHours == 0

def ceilFundingSettlementTime (t : ℤ) : ℤ :=
  if isValidFundingSettlementTime t then t
  -- Dead zone A→B: snap to Phase B start.
  else if LNM_SETTLEMENT_A_END < t ∧ t < LNM_SETTLEMENT_B_START then LNM_SETTLEMENT_B_START
  -- Dead zone B→C: snap to Phase C start.
  else if LNM_SETTLEMENT_B_END < t ∧ t < LNM_SETTLEMENT_C_START then LNM_SETTLEMENT_C_START
  else if t < LNM_SETTLEMENT_B_START then
    let base := atHour t 8
    let result := if t ≤ base then base else base + Duration.hours 24
    if result > LNM_SETTLEMENT_A_END then LNM_SETTLEMENT_B_START else result
  else
    let interval := Duration.numHours LNM_SETTLEMENT_INTERVAL_8H
    let phaseOffset : ℤ := if t < LNM_SETTLEMENT_C_START then 4 else 0
    let nextSlot := ((hour t - phaseOffset) / interval + 1) * interval + phaseOffset
    let base := atHour t 0
    let result :=
      if nextSlot ≥ 24 then base + Duration.hours (24 + phaseOffset)
      else base + Duration.hours nextSlot
    if result > LNM_SETTLEMENT_B_END ∧ result < LNM_SETTLEMENT_C_START then
      LNM_SETTLEMENT_C_START
    else result

def floorFundingSettlementTime (t : ℤ) : ℤ :=
  if isValidFundingSettlementTime t then t
  else if LNM_SETTLEMENT_A_END < t ∧ t < LNM_SETTLEMENT_B_START then LNM_SETTLEMENT_A_END
  else if LNM_SETTLEMENT_B_END < t ∧ t < LNM_SETTLEMENT_C_START then LNM_SETTLEMENT_B_END
  else if t < LNM_SETTLEMENT_B_START then
    let base := atHour t 8
    if t ≥ base then base else base - Duration.hours 24
  else
    let interval := Duration.numHours LNM_SETTLEMENT_INTERVAL_8H
    let phaseOffset : ℤ := if t < LNM_SETTLEMENT_C_START then 4 else 0
    let slot := (hour t - phaseOffset) / interval * interval + phaseOffset
    -- A negative slot wraps to the last slot of the previous day.
    if slot < 0 then atHour t 0 - Duration.days 1 + Duration.hours (24 + slot)
    else atHour t slot

end DateTime

end Quantoxide
