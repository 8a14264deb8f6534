import Quantoxide.Model.Operators

/-! # The backtest engine

`run` is a start and a loop body. The local variables that both engines advance in the
same way are one state; a turn of the loop reports what it did to the executor. -/

namespace Quantoxide

open DateTime Result

variable {ε S ω : Type}

/-! ### The checks on a request -/

def checkPeriod (startTime endTime : ℤ) : Except (BacktestError ε) Unit :=
  let minDuration := Duration.days 1
  if !isRoundMinute startTime || !isRoundMinute endTime then
    .error (.invalidTimeRangeNotRounded startTime endTime)
  else if endTime ≤ startTime then .error (.invalidTimeRangeSequence startTime endTime)
  else if endTime - startTime < minDuration then
    .error (.invalidTimeRangeTooShort minDuration (Duration.numHours (endTime - startTime)))
  else .ok ()

def lookbackTime (maxLookback : Option Lookback) (startTime : ℤ) : ℤ :=
  match maxLookback with
  | some lookback => stepBackCandles startTime lookback.resolution (lookback.period.asInt - 1)
  | none => startTime

def checkHistory (db : Database) (maxLookback : Option Lookback) (startTime endTime : ℤ) :
    Except (BacktestError ε) Unit := do
  let state ← (PriceHistoryState.evaluate db).mapError .priceHistoryStateEvaluation
  let lookbackTime := lookbackTime maxLookback startTime
  let available ← (state.isRangeAvailable lookbackTime endTime).mapError
    .priceHistoryStateEvaluation
  if !available then
    .error (.priceHistoryUnavailable lookbackTime endTime state.boundStart state.boundEnd)
  else .ok ()

def checkSettlements (db : Database) (startTime endTime : ℤ) : Except (BacktestError ε) Unit :=
  let settlementFrom := ceilFundingSettlementTime startTime
  let settlementTo := floorFundingSettlementTime endTime
  let state := FundingSettlementsState.evaluate db
  if settlementTo ≥ LNM_SETTLEMENT_A_START ∧
      ¬ state.isRangeAvailable (max settlementFrom LNM_SETTLEMENT_A_START) settlementTo then
    .error (.fundingSettlementDataUnavailable settlementFrom settlementTo state.boundStart
      state.boundEnd)
  else .ok ()

/-! ### The replay -/

/-- The candles fetched first, with the first of them from the start time on. -/
structure FirstBuffer where
  minuteBuffer : List OhlcCandleRow
  startCandleIdx : ℕ
  startCandle : OhlcCandleRow

/-- `minute_buffer[idx]`, which panics out of bounds. -/
def candleAt (minuteBuffer : List OhlcCandleRow) (idx : ℕ) :
    Except (BacktestError ε) OhlcCandleRow :=
  okOr minuteBuffer[idx]? (.panicked "index out of bounds")

/-- The time the first buffer is fetched from. -/
def bufferFrom (maxLookback : Option Lookback) (startTime : ℤ) : ℤ :=
  startTime - (maxLookback.map (·.asDuration)).getD 0

def firstBuffer (db : Database) (bufferSize : ℕ) (maxLookback : Option Lookback)
    (startTime : ℤ) : Except (BacktestError ε) FirstBuffer := do
  let bufferFrom := bufferFrom maxLookback startTime
  let bufferTo := bufferFrom + Duration.minutes bufferSize
  let minuteBuffer := db.getCandles bufferFrom bufferTo
  let startCandleIdx ← okOr (minuteBuffer.findIdx? fun c => c.time ≥ startTime)
    (.unexpectedEmptyBuffer startTime)
  let startCandle ← candleAt minuteBuffer startCandleIdx
  pure ⟨minuteBuffer, startCandleIdx, startCandle⟩

/-- The variables of `run` apart from operators and executors. The head of `settlements`
is `next_settlement`. -/
structure Replay where
  minuteBuffer : List OhlcCandleRow
  minuteCursorIdx : ℕ
  timeCursor : ℤ
  settlements : List FundingSettlementRow
  consolidator : Option MultiResolutionConsolidator
  sendNextUpdateAt : ℤ

namespace Replay

/-- The consolidator over the first buffer up to the start candle, if one is needed. -/
def firstConsolidator (first : FirstBuffer)
    (resolutionToMaxPeriod : OrdMap OhlcResolution Period) (timeCursor : ℤ) :
    Except (BacktestError ε) (Option MultiResolutionConsolidator) :=
  if resolutionToMaxPeriod.isEmpty then .ok none
  else
    let initialCandles := first.minuteBuffer.take (first.startCandleIdx + 1)
    (MultiResolutionConsolidator.new resolutionToMaxPeriod initialCandles timeCursor).map some

def new (db : Database) (first : FirstBuffer)
    (resolutionToMaxPeriod : OrdMap OhlcResolution Period) (startTime endTime : ℤ) :
    Except (BacktestError ε) Replay := do
  let settlements := db.getSettlements (ceilFundingSettlementTime startTime)
    (floorFundingSettlementTime endTime)
  let timeCursor := first.startCandle.time + Duration.seconds 59
  let consolidator ← firstConsolidator first resolutionToMaxPeriod timeCursor
  pure {
    minuteBuffer := first.minuteBuffer
    minuteCursorIdx := first.startCandleIdx
    timeCursor
    settlements
    consolidator
    sendNextUpdateAt := startTime + Duration.days 1 - Duration.seconds 1 }

variable (r : Replay)

/-- The time the day is reported at, when a report is due. -/
def dueReport : Option ℤ :=
  if r.timeCursor ≥ r.sendNextUpdateAt then some (r.sendNextUpdateAt + Duration.seconds 1)
  else none

def afterReport : Replay :=
  if r.timeCursor ≥ r.sendNextUpdateAt then
    { r with sendNextUpdateAt := r.sendNextUpdateAt + Duration.days 1 }
  else r

def isLast (endTime : ℤ) : Bool := r.timeCursor ≥ endTime - Duration.seconds 1

/-- Moves to the next candle, refetching the buffer when it is exhausted. -/
def nextCandle (db : Database) (bufferSize : ℕ) (endTime : ℤ) :
    Except (BacktestError ε) Replay :=
  if r.minuteCursorIdx + 1 ≥ r.minuteBuffer.length then
    let newBufferTo := min (r.timeCursor + Duration.minutes bufferSize) endTime
    let minuteBuffer := db.getCandles r.timeCursor newBufferTo
    if minuteBuffer.isEmpty then .error (.unexpectedEmptyBuffer r.timeCursor)
    else .ok { r with minuteBuffer, minuteCursorIdx := 0 }
  else .ok { r with minuteCursorIdx := r.minuteCursorIdx + 1 }

/-- The next candle, with the time cursor at the end of its minute. -/
def advance (db : Database) (bufferSize : ℕ) (endTime : ℤ) :
    Except (BacktestError ε) (OhlcCandleRow × Replay) := do
  let r ← r.nextCandle db bufferSize endTime
  let candle ← candleAt r.minuteBuffer r.minuteCursorIdx
  pure (candle, { r with timeCursor := candle.time + Duration.seconds 59 })

/-- The settlements the cursor has reached. -/
def dueSettlements : List FundingSettlementRow :=
  r.settlements.takeWhile (fun s => s.time ≤ r.timeCursor)

/-- The state once they are applied and the candle is consolidated. -/
def push (candle : OhlcCandleRow) : Except (BacktestError ε) Replay := do
  let consolidator ← r.consolidator.mapM fun c => c.push candle
  pure { r with
    settlements := r.settlements.dropWhile (fun s => s.time ≤ r.timeCursor)
    consolidator }

end Replay

/-! ### What the loop does to an executor -/

namespace SimulatedTradeExecutor

variable (ex : SimulatedTradeExecutor ε)

/-- `?` on a method, with its error wrapped. -/
def Outcome.check (wrap : SimulatedTradeExecutorError ε → BacktestError ε)
    (out : Outcome ε Unit) : Except (BacktestError ε) SimulatedTradeExecutorState :=
  (out.2.mapError wrap).map fun _ => out.1

/-- The daily report: the time is moved to midnight and the trading state sent. -/
def report (reportTime : Option ℤ) (s : SimulatedTradeExecutorState) :
    Except (BacktestError ε) (Option TradingState × SimulatedTradeExecutorState) :=
  match reportTime with
  | none => .ok (none, s)
  | some time => do
    let s ← Outcome.check .executorTickUpdate (updateTime s time : Outcome ε Unit)
    pure (some (ex.tradingState s), s)

/-- Applies a settlement, kept with the state it finds. -/
def charge (settlement : FundingSettlementRow)
    (acc : List (FundingSettlementRow × SimulatedTradeExecutorState) ×
      SimulatedTradeExecutorState) :
    Except (BacktestError ε)
      (List (FundingSettlementRow × SimulatedTradeExecutorState) ×
        SimulatedTradeExecutorState) := do
  let s ← Outcome.check .fundingSettlementApplication (ex.applyFundingSettlement acc.2 settlement)
  pure (acc.1 ++ [(settlement, acc.2)], s)

def settle (settlements : List FundingSettlementRow) (s : SimulatedTradeExecutorState) :
    Except (BacktestError ε)
      (List (FundingSettlementRow × SimulatedTradeExecutorState) × SimulatedTradeExecutorState) :=
  settlements.foldlM (fun acc settlement => ex.charge settlement acc) ([], s)

def replayCandle (candle : OhlcCandleRow) (s : SimulatedTradeExecutorState) :
    Except (BacktestError ε) SimulatedTradeExecutorState :=
  Outcome.check .executorTickUpdate (ex.candleUpdate s candle)

end SimulatedTradeExecutor

/-- A turn of the loop as one executor sees it. -/
structure LoopStep where
  timeCursor : ℤ
  found : SimulatedTradeExecutorState
  iterated : SimulatedTradeExecutorState
  report : Option TradingState
  /-- The settlements applied, each with the state it found. -/
  settled : List (FundingSettlementRow × SimulatedTradeExecutorState)
  candle : OhlcCandleRow
  updated : SimulatedTradeExecutorState
deriving DecidableEq

/-- A turn of the loop: the last, with what it reports, or one that goes on. -/
inductive Turn (ι ρ σ : Type*)
  | finished (report : ρ) (s : σ)
  | next (step : ι) (s : σ)

/-! ### The engine of one operator -/

/-- A request that passed the checks. -/
structure BacktestEngine (ε S ω : Type) where
  config : BacktestConfig
  db : Database
  operatorPending : OperatorPending ε S ω
  startTime : ℤ
  startBalance : ℕ
  endTime : ℤ
  period : (checkPeriod startTime endTime : Except (BacktestError ε) Unit) = .ok ()
  history : (checkHistory db operatorPending.lookbacks.maxLookback startTime endTime :
    Except (BacktestError ε) Unit) = .ok ()
  settlements : (checkSettlements db startTime endTime : Except (BacktestError ε) Unit) = .ok ()

structure BacktestState (ε S ω : Type) where
  replay : Replay
  operator : OperatorRunning ε S ω
  executor : SimulatedTradeExecutorState

namespace BacktestEngine

def new (config : BacktestConfig) (db : Database) (operatorPending : OperatorPending ε S ω)
    (startTime : ℤ) (startBalance : ℕ) (endTime : ℤ) :
    Except (BacktestError ε) (BacktestEngine ε S ω) :=
  match hp : (checkPeriod startTime endTime : Except (BacktestError ε) Unit) with
  | .error e => .error e
  | .ok () =>
    match hh : (checkHistory db operatorPending.lookbacks.maxLookback startTime endTime :
      Except (BacktestError ε) Unit) with
    | .error e => .error e
    | .ok () =>
      match hs : (checkSettlements db startTime endTime : Except (BacktestError ε) Unit) with
      | .error e => .error e
      | .ok () =>
        .ok ⟨config, db, operatorPending, startTime, startBalance, endTime, hp, hh, hs⟩

def withSignalOperator (config : BacktestConfig) (db : Database)
    (evaluators : List (SignalEvaluator S ω)) (signalOperator : SignalOperator ε S ω) (memory : ω)
    (startTime : ℤ) (startBalance : ℕ) (endTime : ℤ) :
    Except (BacktestError ε) (BacktestEngine ε S ω) := do
  let pending ← SignalOperatorPending.new evaluators signalOperator memory
  new config db (.signal pending) startTime startBalance endTime

def withRawOperator (config : BacktestConfig) (db : Database) (rawOperator : RawOperator ε ω)
    (memory : ω) (startTime : ℤ) (startBalance : ℕ) (endTime : ℤ) :
    Except (BacktestError ε) (BacktestEngine ε Unit ω) := do
  let pending ← RawOperatorPending.new rawOperator memory
  new config db (.raw pending) startTime startBalance endTime

variable (engine : BacktestEngine ε S ω) (sdk : LnmSdk ε) (newV4 : ℕ → Uuid)

def executor : SimulatedTradeExecutor ε := ⟨engine.config.executorConfig, sdk, newV4⟩

def lookbacks : Lookbacks := engine.operatorPending.lookbacks

/-- `run` up to its loop. -/
def start : Except (BacktestError ε) (BacktestState ε S ω) := do
  let first ← firstBuffer engine.db engine.config.bufferSize engine.lookbacks.maxLookback
    engine.startTime
  let operator ← OperatorRunning.start engine.operatorPending engine.startTime
  let replay ← Replay.new engine.db first engine.lookbacks.resolutionToMaxPeriod
    engine.startTime engine.endTime
  pure ⟨replay, operator, (engine.executor sdk newV4).new first.startCandle engine.startBalance⟩

/-- The loop body of `run`. -/
def turn (s : BacktestState ε S ω) :
    Except (BacktestError ε) (Turn LoopStep (Option TradingState) (BacktestState ε S ω)) := do
  let ex := engine.executor sdk newV4
  let (operator, iterated) ←
    s.operator.iterate ex s.replay.timeCursor s.replay.consolidator s.executor
  let (report, reported) ← ex.report s.replay.dueReport iterated
  let replay := s.replay.afterReport
  if replay.isLast engine.endTime then pure (.finished report ⟨replay, operator, reported⟩)
  else
    let (candle, replay) ← replay.advance engine.db engine.config.bufferSize engine.endTime
    let (settled, charged) ← ex.settle replay.dueSettlements reported
    let updated ← ex.replayCandle candle charged
    let replay ← replay.push candle
    let step := ⟨s.replay.timeCursor, s.executor, iterated, report, settled, candle, updated⟩
    pure (.next step ⟨replay, operator, updated⟩)

/-- `run` with at most `fuel` turns of the loop. -/
def run : ℕ → Except (BacktestError ε) (Option (BacktestState ε S ω))
  | fuel => do
    let s ← engine.start sdk newV4
    loop fuel s
where
  loop : ℕ → BacktestState ε S ω → Except (BacktestError ε) (Option (BacktestState ε S ω))
    | 0, _ => .ok none
    | fuel + 1, s => do
      match ← engine.turn sdk newV4 s with
      | .finished _ s => pure (some s)
      | .next _ s => loop fuel s

end BacktestEngine

end Quantoxide
