import Quantoxide.Library.Spread
import Quantoxide.Model.CandleTable

/-! # The price ticks

Ticks are stored next to the candles, at the instants the exchange streams them. The price of
the latest entry and the range from a time on are taken over both tables. -/

namespace Quantoxide

open Timeline

/-- `LastPrice` of the exchange's stream. -/
structure LastPrice where
  time : ℤ
  lastPrice : Price
deriving DecidableEq

structure PriceTickRow where
  time : ℤ
  lastPrice : F64
  createdAt : ℤ
deriving DecidableEq

structure PriceEntry where
  time : ℤ
  price : F64
deriving DecidableEq

/-- The tables that prices are read from. -/
structure PriceTables where
  db : Database
  priceTicks : List PriceTickRow
  ticksAscending : Ascending PriceTickRow.time priceTicks

namespace PriceTables

variable (tables : PriceTables)

/-- `INSERT … ON CONFLICT (time) DO NOTHING`. -/
def insertTick (row : PriceTickRow) : PriceTables where
  db := tables.db
  priceTicks := upsert PriceTickRow.time (fun _ existing => existing) row tables.priceTicks
  ticksAscending := Ascending.upsert (fun _ h => h) tables.ticksAscending

/-- One tick of a batch, with the rows inserted so far. -/
def addTick (clock : Clock) (acc : PriceTables × List PriceTickRow) (tick : LastPrice) :
    PriceTables × List PriceTickRow :=
  let row : PriceTickRow := ⟨tick.time, tick.lastPrice.asF64, clock.transactionNow⟩
  if acc.1.priceTicks.any fun r => r.time = row.time then acc
  else (acc.1.insertTick row, acc.2 ++ [row])

/-- The tables with the ticks, and the rows `RETURNING` gives. -/
def addTicks (clock : Clock) (ticks : List LastPrice) : PriceTables × List PriceTickRow :=
  ticks.foldl (addTick clock) (tables, [])

def removeTicks (before : ℤ) : PriceTables where
  db := tables.db
  priceTicks := tables.priceTicks.filter fun t => ¬ t.time ≤ before
  ticksAscending := tables.ticksAscending.filter _

end PriceTables

/-- `max_by_key` over the times of both; the candle is preferred when they are equal. -/
def latestOf (lastTick lastCandle : Option PriceEntry) : Option PriceEntry :=
  match lastTick, lastCandle with
  | none, lastCandle => lastCandle
  | lastTick, none => lastTick
  | some tick, some candle => if tick.time ≤ candle.time then some candle else some tick

namespace PriceTables

variable (tables : PriceTables)

def lastTick (ticks : List PriceTickRow) : Option PriceEntry :=
  ticks.getLast?.map fun t => ⟨t.time, t.lastPrice⟩

def lastCandle (candles : List OhlcCandleRow) : Option PriceEntry :=
  candles.getLast?.map fun c => ⟨c.time, c.close⟩

def getLatestEntry : Option PriceEntry :=
  latestOf (lastTick tables.priceTicks) (lastCandle tables.db.candleRows)

def ticksFrom (start : ℤ) : List PriceTickRow := tables.priceTicks.filter fun t => t.time ≥ start

def candlesFrom (start : ℤ) : List OhlcCandleRow :=
  tables.db.candleRows.filter fun c => c.time ≥ start

/-- The range and the latest entry; `⊤` and `⊥` stand for the infinities the loops start at. -/
def getPriceRangeFrom (start : ℤ) : Option ((F64 × F64) × PriceEntry) :=
  let tickEntries := tables.ticksFrom start
  let candleEntries := tables.candlesFrom start
  let range := tickEntries.foldl (fun range entry =>
    Spread.widen range (entry.lastPrice, entry.lastPrice)) (⊤, ⊥)
  let range := candleEntries.foldl (fun range candle =>
    Spread.widen range (candle.low, candle.high)) range
  (latestOf (lastTick tickEntries) (lastCandle candleEntries)).map fun latestEntry =>
    (range, latestEntry)

end PriceTables

end Quantoxide
