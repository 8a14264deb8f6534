import Quantoxide.Library.OrdMap
import Quantoxide.Model.Backtest

/-! # The runtime consolidator

One-minute candles are folded into buckets of the target resolution. The buffer's last
element mirrors the bucket in progress. A method returns the state it leaves behind with
its result, so that what an error path changes can be seen. -/

namespace Quantoxide

open DateTime

structure BucketAccumulator where
  bucketTime : ℤ
  firstCandleTime : ℤ
  lastCandleTime : ℤ
  openPrice : F64
  high : F64
  low : F64
  close : F64
  volume : Int64
  minCreatedAt : ℤ
  maxUpdatedAt : ℤ
  allStable : Bool
deriving DecidableEq

namespace BucketAccumulator

def new (bucketTime : ℤ) : BucketAccumulator where
  bucketTime := bucketTime
  firstCandleTime := maxUtc
  lastCandleTime := minUtc
  openPrice := 0
  high := ⊥
  low := ⊤
  close := 0
  volume := 0
  minCreatedAt := maxUtc
  maxUpdatedAt := minUtc
  allStable := true

def addCandle (acc : BucketAccumulator) (candle : OhlcCandleRow) : BucketAccumulator where
  bucketTime := acc.bucketTime
  firstCandleTime :=
    if candle.time < acc.firstCandleTime then candle.time else acc.firstCandleTime
  openPrice := if candle.time < acc.firstCandleTime then candle.openPrice else acc.openPrice
  lastCandleTime := if candle.time > acc.lastCandleTime then candle.time else acc.lastCandleTime
  close := if candle.time > acc.lastCandleTime then candle.close else acc.close
  high := max acc.high candle.high
  low := min acc.low candle.low
  volume := acc.volume + candle.volume
  minCreatedAt := min acc.minCreatedAt candle.createdAt
  maxUpdatedAt := max acc.maxUpdatedAt candle.updatedAt
  allStable := acc.allStable && candle.stable

def toCandleRow (acc : BucketAccumulator) (isComplete : Bool) : OhlcCandleRow where
  time := acc.bucketTime
  openPrice := acc.openPrice
  high := acc.high
  low := acc.low
  close := acc.close
  volume := acc.volume
  createdAt := acc.minCreatedAt
  updatedAt := acc.maxUpdatedAt
  stable := acc.allStable && isComplete

end BucketAccumulator

/-- `BacktestError::OutOfOrderCandle`. -/
structure OutOfOrderCandle where
  candleTime : ℤ
  bucketTime : ℤ
deriving DecidableEq, Repr

structure RuntimeConsolidator where
  lookback : Lookback
  candles : List OhlcCandleRow
  currentBucket : Option BucketAccumulator
deriving DecidableEq

namespace RuntimeConsolidator

/-- A consolidator before any candle. -/
def empty (lookback : Lookback) : RuntimeConsolidator := ⟨lookback, [], none⟩

/-- `while len > period { remove(0) }`. -/
def trim (period : ℕ) : List OhlcCandleRow → List OhlcCandleRow
  | [] => []
  | c :: cs => if (c :: cs).length > period then trim period cs else c :: cs

def trimOldCandles (s : RuntimeConsolidator) : RuntimeConsolidator :=
  { s with candles := trim s.lookback.period.asUsize s.candles }

/-- `*candles.last_mut() = row`, which needs a last element. -/
def setLast (cs : List OhlcCandleRow) (row : OhlcCandleRow) : List OhlcCandleRow :=
  if cs.isEmpty then [] else cs.dropLast ++ [row]

def finalizeCurrentBucket (s : RuntimeConsolidator) : RuntimeConsolidator :=
  match s.currentBucket with
  | none => s
  | some current =>
    trimOldCandles
      { s with candles := setLast s.candles (current.toCandleRow true), currentBucket := none }

def syncCurrentBucket (s : RuntimeConsolidator) : RuntimeConsolidator :=
  match s.currentBucket with
  | none => s
  | some current =>
    let currentCandle := current.toCandleRow false
    if s.candles.isEmpty then { s with candles := s.candles ++ [currentCandle] }
    else { s with candles := setLast s.candles currentCandle }

def floorToBucket (s : RuntimeConsolidator) (time : ℤ) : ℤ :=
  floorToResolution time s.lookback.resolution

/-- The tail of `push`: the previous bucket is closed and `candle` opens the next. -/
def startBucket (s : RuntimeConsolidator) (candle : OhlcCandleRow) : RuntimeConsolidator :=
  let s' := s.finalizeCurrentBucket
  let newBucket := (BucketAccumulator.new (s.floorToBucket candle.time)).addCandle candle
  trimOldCandles
    { s' with
      candles := s'.candles ++ [newBucket.toCandleRow false], currentBucket := some newBucket }

def push (s : RuntimeConsolidator) (candle : OhlcCandleRow) :
    RuntimeConsolidator × Except OutOfOrderCandle Unit :=
  let candleBucketTime := s.floorToBucket candle.time
  match s.currentBucket with
  | none => (s.startBucket candle, .ok ())
  | some current =>
    if current.bucketTime = candleBucketTime then
      (syncCurrentBucket { s with currentBucket := some (current.addCandle candle) }, .ok ())
    else if candleBucketTime < current.bucketTime then
      (s, .error ⟨candle.time, current.bucketTime⟩)
    else (s.startBucket candle, .ok ())

def getCandles (s : RuntimeConsolidator) : List OhlcCandleRow := s.candles

/-- Pushes one candle after the other, up to the first error. -/
def pushAll (s : RuntimeConsolidator) :
    List OhlcCandleRow → RuntimeConsolidator × Except OutOfOrderCandle Unit
  | [] => (s, .ok ())
  | candle :: cs =>
    match s.push candle with
    | (s', .error e) => (s', .error e)
    | (s', .ok ()) => pushAll s' cs

/-- The one-minute branch of `new`: candles before the cursor are stored as they are. -/
def newOneMinute (s : RuntimeConsolidator) (timeCursor : ℤ) (lastTime : Option ℤ) :
    List OhlcCandleRow → Except OutOfOrderCandle RuntimeConsolidator
  | [] => .ok s
  | candle :: cs =>
    if candle.time > timeCursor then newOneMinute s timeCursor lastTime cs
    else
      match lastTime.filter (fun prevTime => candle.time < prevTime) with
      | some prevTime => .error ⟨candle.time, prevTime⟩
      | none =>
        let s' :=
          if candle.time < timeCursor then
            trimOldCandles { s with candles := s.candles ++ [candle] }
          else
            let bucket := (BucketAccumulator.new candle.time).addCandle candle
            trimOldCandles
              { s with
                candles := s.candles ++ [bucket.toCandleRow false], currentBucket := some bucket }
        newOneMinute s' timeCursor (some candle.time) cs

def new (lookback : Lookback) (initialCandles : List OhlcCandleRow) (timeCursor : ℤ) :
    Except OutOfOrderCandle RuntimeConsolidator :=
  if lookback.resolution = .oneMinute then
    newOneMinute (empty lookback) timeCursor none initialCandles
  else
    match (empty lookback).pushAll (initialCandles.filter (fun c => ¬ c.time > timeCursor)) with
    | (_, .error e) => .error e
    | (s, .ok ()) => .ok s

end RuntimeConsolidator

/-- One consolidator a resolution. -/
structure MultiResolutionConsolidator where
  consolidators : OrdMap OhlcResolution RuntimeConsolidator

namespace MultiResolutionConsolidator

variable {ε : Type}

def outOfOrder (e : OutOfOrderCandle) : BacktestError ε :=
  .outOfOrderCandle e.candleTime e.bucketTime

def newConsolidator (initialCandles : List OhlcCandleRow) (timeCursor : ℤ)
    (resolution : OhlcResolution) (maxPeriod : Period) :
    Except (BacktestError ε) RuntimeConsolidator :=
  match Lookback.new resolution maxPeriod with
  | .error _ => .error (.panicked "is valid")
  | .ok lookback => (RuntimeConsolidator.new lookback initialCandles timeCursor).mapError outOfOrder

def new (resolutionToMaxPeriod : OrdMap OhlcResolution Period)
    (initialCandles : List OhlcCandleRow) (timeCursor : ℤ) :
    Except (BacktestError ε) MultiResolutionConsolidator :=
  (resolutionToMaxPeriod.traverse (newConsolidator initialCandles timeCursor)).map .mk

def pushTo (candle : OhlcCandleRow) (_ : OhlcResolution) (consolidator : RuntimeConsolidator) :
    Except (BacktestError ε) RuntimeConsolidator :=
  match consolidator.push candle with
  | (consolidator, .ok ()) => .ok consolidator
  | (_, .error e) => .error (outOfOrder e)

def push (s : MultiResolutionConsolidator) (candle : OhlcCandleRow) :
    Except (BacktestError ε) MultiResolutionConsolidator :=
  (s.consolidators.traverse (pushTo candle)).map .mk

def getCandles (s : MultiResolutionConsolidator) (resolution : OhlcResolution) :
    Option (List OhlcCandleRow) :=
  (s.consolidators.get resolution).map (·.getCandles)

end MultiResolutionConsolidator

end Quantoxide
