import Quantoxide.Library.Result
import Quantoxide.Model.CandleTable

/-! # The price history sync task

`backfill` downloads one range after another until the newest candles have arrived and the
state shows no gap. What one turn of its loop meets outside the database, the answers of the
API and the clock, is the turn's environment. -/

namespace Quantoxide

open Result

/-- The target of a partial download. -/
inductive DownloadRange
  | latest
  | upperBound (fromTime : ℤ)
  | gap (fromTime toTime : ℤ)
  | lowerBound (toTime : ℤ)
deriving DecidableEq, Repr

namespace DownloadRange

/-- `DownloadRange::from`. -/
def fromTime? : DownloadRange → Option ℤ
  | upperBound fromTime => some fromTime
  | gap fromTime _ => some fromTime
  | _ => none

/-- `DownloadRange::to`. -/
def toTime? : DownloadRange → Option ℤ
  | lowerBound toTime => some toTime
  | gap _ toTime => some toTime
  | _ => none

end DownloadRange

inductive SyncPriceHistoryRecoverableError (ε : Type)
  | restApiMaxTrialsReached (error : ε) (trials : ℕ)
  | db (e : DbError)
deriving DecidableEq, Repr

inductive SyncPriceHistoryError (ε : Type)
  | recoverable (e : SyncPriceHistoryRecoverableError ε)
  | fatal (e : SyncPriceHistoryFatalError)
deriving DecidableEq, Repr

abbrev SyncPriceHistoryResult (ε : Type) := Except (SyncPriceHistoryError ε)

def liftFatal {ε α : Type} (x : Except SyncPriceHistoryFatalError α) : SyncPriceHistoryResult ε α :=
  x.mapError .fatal

def liftDb {ε α : Type} (x : Except DbError α) : SyncPriceHistoryResult ε α :=
  x.mapError fun e => .recoverable (.db e)

namespace PriceHistoryState

def evaluateWithReach (db : Database) (reach : ℤ) :
    Except SyncPriceHistoryFatalError PriceHistoryState := new db (some reach)

def nextDownloadRange (state : PriceHistoryState) (backfilling : Bool) :
    Except SyncPriceHistoryFatalError DownloadRange :=
  match state.bounds with
  | none => .ok .latest
  | some bounds =>
    match state.reachTime.filter fun reach => bounds.1 = bounds.2 ∧ bounds.1 < reach with
    | some reach => .error (.unreachableDbGap bounds.1 reach)
    | none =>
      match if backfilling then state.gaps.head? else state.gaps.getLast? with
      | some gap =>
        match state.reachTime.filter fun reach => gap.1 < reach with
        | some reach => .error (.unreachableDbGap gap.1 reach)
        | none => .ok (.gap gap.1 gap.2)
      | none =>
        if state.reachTime.any fun reach => bounds.1 > reach then .ok (.lowerBound bounds.1)
        else .ok (.upperBound bounds.2)

def hasGaps (state : PriceHistoryState) : Except SyncPriceHistoryFatalError Bool :=
  match state.reachTime with
  | none => .error .priceHistoryStateReachNotSet
  | some reach =>
    .ok (state.bounds.all fun bounds => !state.gaps.isEmpty || decide (reach < bounds.1))

/-- From the end of the last gap, or from the first candle, to the last. -/
def tailContinuousDuration (state : PriceHistoryState) : Option ℤ :=
  state.bounds.map fun bounds =>
    match state.gaps.getLast? with
    | some gap => bounds.2 - gap.2
    | none => bounds.2 - bounds.1

end PriceHistoryState

structure SyncPriceHistoryTaskConfig where
  restApiErrorMaxTrials : ℕ
  priceHistoryBatchSize : ℕ
  priceHistoryReach : ℤ
  trials_pos : 0 < restApiErrorMaxTrials
  batch_pos : 0 < priceHistoryBatchSize
deriving DecidableEq

/-- The environment of one turn: `Utc::now()` where the limit is computed, what the API
answers at each trial, and the clocks of the two writes. -/
structure SyncTurn (ε : Type) where
  limitNow : ℤ
  getCandles : (trial limit : ℕ) → (candlesTo : Option ℤ) → Except ε (List OhlcCandle)
  addClock : Clock
  removeClock : Clock

namespace SyncPriceHistoryTask

variable {ε : Type} (config : SyncPriceHistoryTaskConfig) (turn : SyncTurn ε)
  (range : DownloadRange)

/-- The number of candles asked for. -/
def candlesLimit (limitNow : ℤ) : ℕ :=
  match range.fromTime? with
  | some fromTime =>
    let minCandles := Duration.numMinutes CANDLE_STABLE_AGE * 11 / 10
    let toEst := range.toTime?.getD limitNow
    let expCandleQtd := max (Duration.numMinutes (toEst - fromTime)) minCandles
    min expCandleQtd.toNat config.priceHistoryBatchSize
  | none => config.priceHistoryBatchSize

/-- The request, repeated after an error until `left` more have failed. -/
def fetchPage (getCandles : ℕ → Except ε (List OhlcCandle)) :
    (trial left : ℕ) → SyncPriceHistoryResult ε (List OhlcCandle)
  | trial, 0 =>
    (getCandles trial).mapError fun e => .recoverable (.restApiMaxTrialsReached e (trial + 1))
  | trial, left + 1 =>
    match getCandles trial with
    | .ok page => .ok page
    | .error _ => fetchPage getCandles (trial + 1) left

def getNewOhlcCandles : SyncPriceHistoryResult ε (List OhlcCandle) := do
  let limit := candlesLimit config range turn.limitNow
  let candles ← fetchPage (fun trial => turn.getCandles trial limit range.toTime?) 0
    (config.restApiErrorMaxTrials - 1)
  liftFatal (checkMinutesDesc .apiCandlesTimesNotRoundedToMinute
    .apiCandlesNotOrderedByTimeDesc candles)
  pure candles

def partialDownload (db : Database) : SyncPriceHistoryResult ε Database := do
  let newCandles ← getNewOhlcCandles config turn range
  let added ← liftDb (db.addCandles turn.addClock range.toTime? newCandles)
  if newCandles.isEmpty then
    match range with
    | .lowerBound toTime =>
      .error (.fatal (.apiCandlesNotAvailableBeforeHistoryStart toTime))
    | .gap _ toTime => pure (added.removeGapFlag turn.removeClock toTime)
    | .latest => pure added
    | .upperBound _ => pure added
  else pure added

/-- Whether a download without remaining gaps ends the backfill. -/
def isNewest : DownloadRange → Bool
  | .latest => true
  | .upperBound _ => true
  | _ => false

/-- One turn of the loop: the table and the state after it, and whether it was the last. -/
def backfillTurn (db : Database) (state : PriceHistoryState) :
    SyncPriceHistoryResult ε (Database × PriceHistoryState × Bool) := do
  let range ← liftFatal (state.nextDownloadRange true)
  let db' ← partialDownload config turn range db
  let state' ← liftFatal (PriceHistoryState.evaluateWithReach db' config.priceHistoryReach)
  let gaps ← liftFatal state'.hasGaps
  pure (db', state', !gaps && isNewest range)

/-- The first `fuel` turns of the loop; `none` when it is still running. -/
def backfillLoop (turns : ℕ → SyncTurn ε) :
    ℕ → ℕ → Database → PriceHistoryState → Option (SyncPriceHistoryResult ε Database)
  | 0, _, _, _ => none
  | fuel + 1, i, db, state =>
    match backfillTurn config (turns i) db state with
    | .error e => some (.error e)
    | .ok (db', state', finished) =>
      if finished then some (.ok db') else backfillLoop turns fuel (i + 1) db' state'

/-- The table a backfill starts its loop with. -/
def flagged (flagGapsRange : Option ℤ) (flagClock : Clock) (db : Database) : Database :=
  match flagGapsRange with
  | some range => db.flagMissingCandles flagClock range
  | none => db

def backfill (flagGapsRange : Option ℤ) (flagClock : Clock) (turns : ℕ → SyncTurn ε) (fuel : ℕ)
    (db : Database) : Option (SyncPriceHistoryResult ε Database) :=
  let start := flagged flagGapsRange flagClock db
  match liftFatal (PriceHistoryState.evaluateWithReach start config.priceHistoryReach) with
  | .error e => some (.error e)
  | .ok state => backfillLoop config turns fuel 0 start state

/-! ### The history behind a live feed -/

inductive LiveError (ε : Type)
  | lookbackExceedsPriceHistoryReach (lookbackReach priceHistoryReach : ℤ)
  | task (e : SyncPriceHistoryError ε)
deriving DecidableEq, Repr

/-- The first download: what is newer than the last candle. -/
def initialRange (state : PriceHistoryState) : DownloadRange :=
  match state.boundEnd with
  | some boundEnd => .upperBound boundEnd
  | none => .latest

/-- One turn of the loop: none when the tail is long enough, else the table after a download. -/
def liveTurn (lookback : ℤ) (db : Database) : SyncPriceHistoryResult ε (Option Database) := do
  let state ← liftFatal (PriceHistoryState.evaluateWithReach db config.priceHistoryReach)
  if state.tailContinuousDuration.any fun duration => decide (lookback ≤ duration) then pure none
  else do
    let range ← liftFatal (state.nextDownloadRange false)
    let db' ← partialDownload config turn range db
    pure (some db')

/-- The first `fuel` turns of the loop; `none` when it is still running. -/
def liveLoop (lookback : ℤ) (turns : ℕ → SyncTurn ε) :
    ℕ → ℕ → Database → Option (SyncPriceHistoryResult ε Database)
  | 0, _, _ => none
  | fuel + 1, i, db =>
    match liveTurn config (turns i) lookback db with
    | .error e => some (.error e)
    | .ok none => some (.ok db)
    | .ok (some db') => liveLoop lookback turns fuel (i + 1) db'

/-- The download that brings the upper bound of the history to the current time. -/
def liveStart (db : Database) : SyncPriceHistoryResult ε Database := do
  let state ← liftFatal (PriceHistoryState.evaluateWithReach db config.priceHistoryReach)
  partialDownload config turn (initialRange state) db

def live (now lookback : ℤ) (turns : ℕ → SyncTurn ε) (fuel : ℕ) (db : Database) :
    Option (Except (LiveError ε) Database) :=
  if now - lookback < config.priceHistoryReach then
    some (.error (.lookbackExceedsPriceHistoryReach (now - lookback) config.priceHistoryReach))
  else
    match liveStart config (turns 0) db with
    | .error e => some (.error (.task e))
    | .ok db' => (liveLoop config lookback turns fuel 1 db').map (Except.mapError LiveError.task)

end SyncPriceHistoryTask

end Quantoxide
