import Quantoxide.Library.Grid
import Quantoxide.Model.CandleTable

/-! # The table of funding settlements

What the settlement repository answers about the times that have no row yet. -/

namespace Quantoxide

open DateTime

/-- `generate_series(start, stop, step)` of PostgreSQL, which is empty past its end. -/
def generateSeries (start stop step : ℤ) : List ℤ := Grid.series step start stop

namespace Database

variable (db : Database)

/-- The times of a series without a row: `LEFT JOIN … WHERE fs.time IS NULL ORDER BY gs.time`. -/
def queryMissingSettlementTimes (step fromTime toTime : ℤ) : List ℤ :=
  ((generateSeries fromTime toTime step).filter fun time =>
    !db.fundingSettlements.any fun fs => fs.time == time).mergeSort fun a b => decide (a ≤ b)

def queryMissingSettlementTimes8h : ℤ → ℤ → List ℤ :=
  db.queryMissingSettlementTimes (Duration.hours 8)

def queryMissingSettlementTimes24h : ℤ → ℤ → List ℤ :=
  db.queryMissingSettlementTimes (Duration.hours 24)

/-- `get_missing_settlement_times`, phase by phase: each series starts on its phase's grid. -/
def getMissingSettlementTimes (fromTime toTime : ℤ) : Except DbError (List ℤ) :=
  if !isValidFundingSettlementTime fromTime then .error (.invalidFundingSettlementTime fromTime)
  else if !isValidFundingSettlementTime toTime then .error (.invalidFundingSettlementTime toTime)
  else
    let phaseA :=
      if fromTime ≤ LNM_SETTLEMENT_A_END then
        db.queryMissingSettlementTimes24h (max fromTime LNM_SETTLEMENT_A_START)
          (min toTime LNM_SETTLEMENT_A_END)
      else []
    let phaseB :=
      if fromTime ≤ LNM_SETTLEMENT_B_END ∧ toTime ≥ LNM_SETTLEMENT_B_START then
        db.queryMissingSettlementTimes8h (max fromTime LNM_SETTLEMENT_B_START)
          (min toTime LNM_SETTLEMENT_B_END)
      else []
    let phaseC :=
      if toTime ≥ LNM_SETTLEMENT_C_START then
        db.queryMissingSettlementTimes8h (max fromTime LNM_SETTLEMENT_C_START) toTime
      else []
    .ok (phaseA ++ phaseB ++ phaseC)

end Database

end Quantoxide
