import Quantoxide.Model.Candles
import Quantoxide.Model.Settlements

/-! # The database

Both tables are keyed by time and kept in time order, so a query is a filter. A stored
candle carries the `gap` flag next to the row the engines read. -/

namespace Quantoxide

structure CandleRecord where
  row : OhlcCandleRow
  gap : Bool
deriving DecidableEq

structure Database where
  ohlcCandles : List CandleRecord
  fundingSettlements : List FundingSettlementRow
  candlesAscending : ohlcCandles.Pairwise (fun a b => a.row.time < b.row.time)
  candlesMinutes : ∀ c ∈ ohlcCandles, c.row.IsMinute
  settlementsAscending : fundingSettlements.Pairwise (fun a b => a.time < b.time)

namespace Database

theorem noSettlements : ([] : List FundingSettlementRow).Pairwise (fun a b => a.time < b.time) :=
  List.Pairwise.nil

variable (db : Database)

/-- The stored candles as the queries return them. -/
def candleRows : List OhlcCandleRow := db.ohlcCandles.map (·.row)

def getCandles (fromTime toTime : ℤ) : List OhlcCandleRow :=
  db.candleRows.filter (fun c => fromTime ≤ c.time ∧ c.time ≤ toTime)

def getEarliestCandleTime : Option ℤ := db.candleRows.head?.map (·.time)

def getLatestCandleTime : Option ℤ := db.candleRows.getLast?.map (·.time)

/-- The latest stable candle before `time`. -/
def stableBefore (time : ℤ) : Option ℤ :=
  (db.candleRows.filter (fun c => c.time < time ∧ c.stable = true)).getLast?.map (·.time)

def getGaps : List (ℤ × ℤ) :=
  db.ohlcCandles.filterMap fun gapCandle =>
    if gapCandle.gap = true ∧ gapCandle.row.stable = true then
      (db.stableBefore gapCandle.row.time).map fun fromTime => (fromTime, gapCandle.row.time)
    else none

def getSettlements (fromTime toTime : ℤ) : List FundingSettlementRow :=
  db.fundingSettlements.filter (fun s => fromTime ≤ s.time ∧ s.time ≤ toTime)

def getEarliestSettlementTime : Option ℤ := db.fundingSettlements.head?.map (·.time)

def getLatestSettlementTime : Option ℤ := db.fundingSettlements.getLast?.map (·.time)

end Database

/-! ### The price history state -/

inductive SyncPriceHistoryFatalError
  | apiCandlesTimesNotRoundedToMinute
  | apiCandlesNotOrderedByTimeDesc (inconsistencyAt : ℤ)
  | apiCandlesNotAvailableBeforeHistoryStart (historyStart : ℤ)
  | unreachableDbGap (gap reach : ℤ)
  | invalidPriceHistoryStateRange (rangeFrom rangeTo : ℤ)
  | priceHistoryStateReachNotSet
deriving DecidableEq, Repr

structure PriceHistoryState where
  reachTime : Option ℤ
  bounds : Option (ℤ × ℤ)
  gaps : List (ℤ × ℤ)
deriving DecidableEq

namespace PriceHistoryState

/-- Fails with `gap` when it lies before the reach. -/
def checkReach (reachTime : Option ℤ) (gap : ℤ) : Except SyncPriceHistoryFatalError Unit :=
  match reachTime.filter (fun reach => gap < reach) with
  | some reach => .error (.unreachableDbGap gap reach)
  | none => .ok ()

def new (db : Database) (reachTime : Option ℤ) :
    Except SyncPriceHistoryFatalError PriceHistoryState :=
  match db.getEarliestCandleTime, db.getLatestCandleTime with
  | some earliest, some latest =>
    if earliest = latest then do
      checkReach reachTime earliest
      pure ⟨reachTime, some (earliest, earliest), []⟩
    else
      match db.getGaps with
      | [] => .ok ⟨reachTime, some (earliest, latest), []⟩
      | gap :: gaps => do
        checkReach reachTime gap.1
        pure ⟨reachTime, some (earliest, latest), gap :: gaps⟩
  | _, _ => .ok ⟨reachTime, none, []⟩

def evaluate (db : Database) : Except SyncPriceHistoryFatalError PriceHistoryState := new db none

def boundStart (state : PriceHistoryState) : Option ℤ := state.bounds.map (·.1)

def boundEnd (state : PriceHistoryState) : Option ℤ := state.bounds.map (·.2)

def isRangeAvailable (state : PriceHistoryState) (rangeFrom rangeTo : ℤ) :
    Except SyncPriceHistoryFatalError Bool :=
  if rangeFrom ≥ rangeTo then .error (.invalidPriceHistoryStateRange rangeFrom rangeTo)
  else
    match state.bounds with
    | none => .ok false
    | some bounds =>
      let rangeWithinBounds := decide (bounds.1 ≤ rangeFrom) && decide (bounds.2 ≥ rangeTo)
      let rangeWithoutGaps :=
        !state.gaps.any fun gap => decide (rangeFrom < gap.2) && decide (gap.1 < rangeTo)
      .ok (rangeWithinBounds && rangeWithoutGaps)

end PriceHistoryState

/-! ### The funding settlements state -/

/-- The state `evaluate` reads, which does not scan for missing settlements. -/
structure FundingSettlementsState where
  bounds : Option (ℤ × ℤ)
deriving DecidableEq

namespace FundingSettlementsState

def evaluate (db : Database) : FundingSettlementsState :=
  match db.getEarliestSettlementTime, db.getLatestSettlementTime with
  | some earliest, some latest => ⟨some (earliest, latest)⟩
  | _, _ => ⟨none⟩

def boundStart (state : FundingSettlementsState) : Option ℤ := state.bounds.map (·.1)

def boundEnd (state : FundingSettlementsState) : Option ℤ := state.bounds.map (·.2)

def isRangeAvailable (state : FundingSettlementsState) (rangeFrom rangeTo : ℤ) : Bool :=
  state.bounds.any fun (start, last) => decide (start ≤ rangeFrom) && decide (last ≥ rangeTo)

end FundingSettlementsState

end Quantoxide
