import Quantoxide.Library.Groups
import Quantoxide.Model.CandleTable
import Quantoxide.Model.Shared

/-! # The candles of a live operator

The query that aggregates stored minutes, clause by clause, and the range a live operator
asks it for. The session's time zone is UTC. -/

namespace Quantoxide

open DateTime

namespace Sql

/-- `EXTRACT(EPOCH FROM time)::BIGINT`: the cast rounds halves away from zero. -/
def epoch (time : ℤ) : ℤ :=
  if 0 ≤ time then (time + 500000000) / 1000000000 else -((-time + 500000000) / 1000000000)

/-- `to_timestamp(FLOOR(EXTRACT(EPOCH FROM time)::BIGINT / $3) * $3)`: the division is one of
integers. -/
def epochBucket (resolutionSeconds time : ℤ) : ℤ :=
  fromTimestamp ((epoch time).tdiv resolutionSeconds * resolutionSeconds)

/-- `date_trunc('day', time)`. -/
def dateTruncDay (time : ℤ) : ℤ := time - time % 86400000000000

/-- `SUM(volume)::BIGINT`: the sum is exact and the cast fails out of range. -/
def sumBigint (volumes : List Int64) : Except DbError Int64 :=
  match I64.checked (volumes.map Int64.toInt).sum with
  | none => .error .query
  | some sum => .ok (Int64.ofInt sum)

end Sql

namespace Database

open Sql

variable (db : Database)

/-- The row that `GROUP BY bucket_time` selects for a group. -/
def bucketRow (resolution toTime bucketTime : ℤ) (group : List OhlcCandleRow) :
    Except DbError OhlcCandleRow := do
  let volume ← sumBigint (group.map (·.volume))
  pure
    { time := bucketTime
      openPrice :=
        ((group.mergeSort fun a b => a.time ≤ b.time).head?.map (·.openPrice)).getD 0
      high := (group.map (·.high)).max?.getD 0
      low := (group.map (·.low)).min?.getD 0
      close := ((group.mergeSort fun a b => b.time ≤ a.time).head?.map (·.close)).getD 0
      volume
      createdAt := (group.map (·.createdAt)).min?.getD 0
      updatedAt := (group.map (·.updatedAt)).max?.getD 0
      stable := group.all (·.stable) && bucketTime + resolution ≤ toTime }

/-- The aggregating queries: one row for each bucket, `ORDER BY bucket_time ASC`. -/
def groupByBucket (bucket : ℤ → ℤ) (resolution fromTime toTime : ℤ) :
    Except DbError (List OhlcCandleRow) :=
  let bucketed := db.getCandles fromTime toTime
  let buckets := (Groups.keys (fun c => bucket c.time) bucketed).mergeSort (· ≤ ·)
  buckets.mapM fun b =>
    bucketRow resolution toTime b (Groups.group (fun c => bucket c.time) bucketed b)

def getCandlesConsolidated (fromTime toTime : ℤ) (resolution : OhlcResolution) :
    Except DbError (List OhlcCandleRow) :=
  match resolution with
  | .oneMinute => .ok (db.getCandles fromTime toTime)
  | .threeMinutes | .fiveMinutes | .tenMinutes | .fifteenMinutes | .thirtyMinutes
  | .fortyFiveMinutes | .oneHour | .twoHours | .threeHours | .fourHours =>
    let resolutionSeconds := resolution.asSeconds
    db.groupByBucket (epochBucket resolutionSeconds) (Duration.seconds resolutionSeconds)
      fromTime toTime
  | .oneDay => db.groupByBucket dateTruncDay (Duration.days 1) fromTime toTime

end Database

/-- `fetch_candles` of the live process, for the operator's lookback. -/
def fetchCandles (db : Database) (lookback : Option Lookback) (now : ℤ) :
    Except DbError (List OhlcCandleRow) :=
  match lookback with
  | some lookback =>
    let resolution := lookback.resolution
    let currentBucket := floorToResolution now resolution
    let fromTime := stepBackCandles currentBucket resolution (lookback.period.asInt - 1)
    db.getCandlesConsolidated fromTime now resolution
  | none => .ok []

end Quantoxide
