import Quantoxide.Model.Consolidator

/-! # Operators

An operator is user code: what it remembers is a value of its own type, and what it does
with its executor is a tree of calls. The wrappers turn its panics into errors. -/

namespace Quantoxide

open Result

/-- What user code does: calls on its executor, then a result. -/
inductive Program (ε α : Type)
  | done (result : α)
  | call (call : Call) (next : ExecutorResult ε Answer → Program ε α)

def Program.run {ε α : Type} (ex : SimulatedTradeExecutor ε) :
    Program ε α → SimulatedTradeExecutorState → α × SimulatedTradeExecutorState
  | done result, s => (result, s)
  | call c next, s => (next (c.execute ex s).2).run ex (c.execute ex s).1

inductive Failure
  | panicked (payload : String)
  | error (message : String)
deriving DecidableEq, Repr

def Failure.asError {β : Type} (panicked error : String → β) : Failure → β
  | .panicked payload => panicked payload
  | .error message => error message

/-- An evaluator of signals `S` that remembers a value of `ω`. -/
structure SignalEvaluator (S ω : Type) where
  lookback : Except String (Option Lookback)
  minIterationInterval : Except String MinIterationInterval
  evaluate : List OhlcCandleRow → ω → ω × Except Failure S

structure SignalOperator (ε S ω : Type) where
  setTradeExecutor : ω → ω × Except Failure Unit
  processSignal : S → ω → Program ε (ω × Except Failure Unit)

structure RawOperator (ε ω : Type) where
  setTradeExecutor : ω → ω × Except Failure Unit
  lookback : Except String (Option Lookback)
  minIterationInterval : Except String MinIterationInterval
  iterate : List OhlcCandleRow → ω → Program ε (ω × Except Failure Unit)

/-! ### The wrappers -/

namespace WrappedSignalEvaluator

variable {S ω : Type} (evaluator : SignalEvaluator S ω)

def lookback : Except SignalEvaluatorError (Option Lookback) :=
  evaluator.lookback.mapError .lookbackPanicked

def minIterationInterval : Except SignalEvaluatorError MinIterationInterval :=
  evaluator.minIterationInterval.mapError .minIterationIntervalPanicked

def evaluate (candles : List OhlcCandleRow) (memory : ω) : ω × Except SignalEvaluatorError S :=
  let (memory, signal) := evaluator.evaluate candles memory
  (memory, signal.mapError (Failure.asError .evaluatePanicked .evaluateError))

end WrappedSignalEvaluator

namespace WrappedSignalOperator

variable {ε S ω : Type} (operator : SignalOperator ε S ω)

def setTradeExecutor (memory : ω) : ω × Except (TradeCoreError ε) Unit :=
  let (memory, result) := operator.setTradeExecutor memory
  (memory, result.mapError (Failure.asError .signalOperatorSetTradeExecutorPanicked
    .signalOperatorSetTradeExecutorError))

def processSignal (ex : SimulatedTradeExecutor ε) (signal : S) (memory : ω)
    (s : SimulatedTradeExecutorState) :
    (ω × Except (TradeCoreError ε) Unit) × SimulatedTradeExecutorState :=
  let ((memory, result), s) := (operator.processSignal signal memory).run ex s
  ((memory, result.mapError (Failure.asError .signalOperatorProcessSignalPanicked
    .signalOperatorProcessSignalError)), s)

end WrappedSignalOperator

namespace WrappedRawOperator

variable {ε ω : Type} (operator : RawOperator ε ω)

def setTradeExecutor (memory : ω) : ω × Except (TradeCoreError ε) Unit :=
  let (memory, result) := operator.setTradeExecutor memory
  (memory, result.mapError (Failure.asError .rawOperatorSetTradeExecutorPanicked
    .rawOperatorSetTradeExecutorError))

def lookback : Except (TradeCoreError ε) (Option Lookback) :=
  operator.lookback.mapError .rawOperatorLookbackPanicked

def minIterationInterval : Except (TradeCoreError ε) MinIterationInterval :=
  operator.minIterationInterval.mapError .rawOperatorMinIterationIntervalPanicked

def iterate (ex : SimulatedTradeExecutor ε) (candles : List OhlcCandleRow) (memory : ω)
    (s : SimulatedTradeExecutorState) :
    (ω × Except (TradeCoreError ε) Unit) × SimulatedTradeExecutorState :=
  let ((memory, result), s) := (operator.iterate candles memory).run ex s
  ((memory, result.mapError (Failure.asError .rawOperatorIteratePanicked
    .rawOperatorIterateError)), s)

end WrappedRawOperator

/-! ### Lookbacks asked for -/

/-- `entry(resolution).and_modify(max).or_insert(period)`. -/
def notePeriod (resolutionMap : OrdMap OhlcResolution Period) (resolution : OhlcResolution)
    (period : Period) : OrdMap OhlcResolution Period :=
  match resolutionMap.get resolution with
  | some existing =>
    if period > existing then resolutionMap.insert resolution period else resolutionMap
  | none => resolutionMap.insert resolution period

/-- Replaces the lookback kept so far by one of strictly longer duration. -/
def longerLookback (maxLookback : Option Lookback) (lookback : Lookback) : Option Lookback :=
  if maxLookback.all (fun existing => existing.asDuration < lookback.asDuration) then some lookback
  else maxLookback

/-- The periods by resolution and the longest lookback of the lookbacks asked for. -/
structure Lookbacks where
  resolutionToMaxPeriod : OrdMap OhlcResolution Period
  maxLookback : Option Lookback

namespace Lookbacks

def empty : Lookbacks := ⟨OrdMap.empty, none⟩

def note (noted : Lookbacks) (lookback : Lookback) : Lookbacks where
  resolutionToMaxPeriod :=
    notePeriod noted.resolutionToMaxPeriod lookback.resolution lookback.period
  maxLookback := longerLookback noted.maxLookback lookback

/-- The evaluators' lookbacks noted in turn. -/
def ofEvaluators {S ω : Type} :
    Lookbacks → List (SignalEvaluator S ω) → Except SignalEvaluatorError Lookbacks
  | noted, [] => .ok noted
  | noted, evaluator :: evaluators => do
    match ← WrappedSignalEvaluator.lookback evaluator with
    | some lookback => ofEvaluators (noted.note lookback) evaluators
    | none => ofEvaluators noted evaluators

end Lookbacks

/-! ### Pending operators -/

structure SignalOperatorPending (ε S ω : Type) where
  evaluators : List (SignalEvaluator S ω)
  signalOperator : SignalOperator ε S ω
  memory : ω
  lookbacks : Lookbacks
  noted : Lookbacks.ofEvaluators .empty evaluators = .ok lookbacks

structure RawOperatorPending (ε ω : Type) where
  rawOperator : RawOperator ε ω
  memory : ω
  lookback : Option Lookback
  noted : WrappedRawOperator.lookback rawOperator = .ok lookback

def SignalOperatorPending.new {ε S ω : Type} (evaluators : List (SignalEvaluator S ω))
    (signalOperator : SignalOperator ε S ω) (memory : ω) :
    Except (BacktestError ε) (SignalOperatorPending ε S ω) :=
  if evaluators.isEmpty then .error (.signalOperator .emptyEvaluatorsVec)
  else
    match h : Lookbacks.ofEvaluators .empty evaluators with
    | .error e => .error (.signalEvaluator e)
    | .ok lookbacks => .ok ⟨evaluators, signalOperator, memory, lookbacks, h⟩

def RawOperatorPending.new {ε ω : Type} (rawOperator : RawOperator ε ω) (memory : ω) :
    Except (BacktestError ε) (RawOperatorPending ε ω) :=
  match h : WrappedRawOperator.lookback rawOperator with
  | .error e => .error (.operatorError e)
  | .ok lookback => .ok ⟨rawOperator, memory, lookback, h⟩

def RawOperatorPending.lookbacks {ε ω : Type} (pending : RawOperatorPending ε ω) : Lookbacks :=
  match pending.lookback with
  | some lookback =>
    ⟨OrdMap.empty.insert lookback.resolution lookback.period, some lookback⟩
  | none => .empty

inductive OperatorPending (ε S ω : Type)
  | signal (pending : SignalOperatorPending ε S ω)
  | raw (pending : RawOperatorPending ε ω)

def OperatorPending.lookbacks {ε S ω : Type} : OperatorPending ε S ω → Lookbacks
  | signal pending => pending.lookbacks
  | raw pending => pending.lookbacks

/-! ### Running operators -/

/-- Each evaluator with the time of its last evaluation. -/
structure SignalOperatorRunning (ε S ω : Type) where
  evaluators : List (ℤ × SignalEvaluator S ω)
  signalOperator : SignalOperator ε S ω
  memory : ω

structure RawOperatorRunning (ε ω : Type) where
  lastEval : ℤ
  rawOperator : RawOperator ε ω
  memory : ω

inductive OperatorRunning (ε S ω : Type)
  | signal (running : SignalOperatorRunning ε S ω)
  | raw (running : RawOperatorRunning ε ω)

/-- The shared buffer an operator with a lookback is given a view of. -/
def ctxCandles {ε : Type} (consolidator : Option MultiResolutionConsolidator)
    (lookback : Lookback) : Except (BacktestError ε) (List OhlcCandleRow) :=
  match consolidator.bind (fun c => c.getCandles lookback.resolution) with
  | some ctxCandles => .ok ctxCandles
  | none => .error (.panicked "not None when evaluator has lookback")

namespace SignalOperatorRunning

variable {ε S ω : Type}

def start (pending : SignalOperatorPending ε S ω) (startTime : ℤ) :
    Except (BacktestError ε) (SignalOperatorRunning ε S ω) := do
  let (memory, result) := WrappedSignalOperator.setTradeExecutor pending.signalOperator
    pending.memory
  result.mapError .setTradeExecutor
  pure ⟨pending.evaluators.map fun ev => (startTime, ev), pending.signalOperator, memory⟩

/-- The slice an evaluator is given: the last `period` candles of the shared buffer. -/
def evalCandles (consolidator : Option MultiResolutionConsolidator) (lookback : Option Lookback) :
    Except (BacktestError ε) (List OhlcCandleRow) :=
  match lookback with
  | some lb => do
    let ctxCandles ← ctxCandles consolidator lb
    let startIdx := ctxCandles.length - lb.period.asUsize
    pure (ctxCandles.drop startIdx)
  | none => .ok []

/-- The loop body of `iterate`, after the interval check. -/
def evaluate (ex : SimulatedTradeExecutor ε) (signalOperator : SignalOperator ε S ω)
    (consolidator : Option MultiResolutionConsolidator) (evaluator : SignalEvaluator S ω)
    (memory : ω) (s : SimulatedTradeExecutorState) :
    Except (BacktestError ε) (ω × SimulatedTradeExecutorState) := do
  let lookback ← (WrappedSignalEvaluator.lookback evaluator).mapError .signalEvaluator
  let evalCandles ← evalCandles consolidator lookback
  let (memory, signal) := WrappedSignalEvaluator.evaluate evaluator evalCandles memory
  let signal ← signal.mapError .signalEvaluator
  let ((memory, result), s) := WrappedSignalOperator.processSignal signalOperator ex signal memory s
  result.mapError .signalProcessingError
  pure (memory, s)

/-- The loop of `iterate` over the evaluators. -/
def evaluateAll (ex : SimulatedTradeExecutor ε) (signalOperator : SignalOperator ε S ω)
    (timeCursor : ℤ) (consolidator : Option MultiResolutionConsolidator) :
    List (ℤ × SignalEvaluator S ω) → ω → SimulatedTradeExecutorState →
      Except (BacktestError ε)
        (List (ℤ × SignalEvaluator S ω) × ω × SimulatedTradeExecutorState)
  | [], memory, s => .ok ([], memory, s)
  | (lastEval, evaluator) :: evaluators, memory, s => do
    let minIterationInterval ←
      (WrappedSignalEvaluator.minIterationInterval evaluator).mapError .signalEvaluator
    if timeCursor < lastEval + minIterationInterval.asDuration then
      let (evaluators, memory, s) ←
        evaluateAll ex signalOperator timeCursor consolidator evaluators memory s
      pure ((lastEval, evaluator) :: evaluators, memory, s)
    else
      let (memory, s) ← evaluate ex signalOperator consolidator evaluator memory s
      let (evaluators, memory, s) ←
        evaluateAll ex signalOperator timeCursor consolidator evaluators memory s
      pure ((timeCursor, evaluator) :: evaluators, memory, s)

def iterate (ex : SimulatedTradeExecutor ε) (running : SignalOperatorRunning ε S ω)
    (timeCursor : ℤ) (consolidator : Option MultiResolutionConsolidator)
    (s : SimulatedTradeExecutorState) :
    Except (BacktestError ε) (SignalOperatorRunning ε S ω × SimulatedTradeExecutorState) := do
  let (evaluators, memory, s) ← evaluateAll ex running.signalOperator timeCursor consolidator
    running.evaluators running.memory s
  pure ({ running with evaluators, memory }, s)

end SignalOperatorRunning

namespace RawOperatorRunning

variable {ε ω : Type}

def start (pending : RawOperatorPending ε ω) (startTime : ℤ) :
    Except (BacktestError ε) (RawOperatorRunning ε ω) := do
  let (memory, result) := WrappedRawOperator.setTradeExecutor pending.rawOperator pending.memory
  result.mapError .setTradeExecutor
  pure ⟨startTime, pending.rawOperator, memory⟩

/-- The slice a raw operator is given: the whole shared buffer. -/
def rawCandles (consolidator : Option MultiResolutionConsolidator) (lookback : Option Lookback) :
    Except (BacktestError ε) (List OhlcCandleRow) :=
  match lookback with
  | some lb => ctxCandles consolidator lb
  | none => .ok []

def iterate (ex : SimulatedTradeExecutor ε) (running : RawOperatorRunning ε ω) (timeCursor : ℤ)
    (consolidator : Option MultiResolutionConsolidator) (s : SimulatedTradeExecutorState) :
    Except (BacktestError ε) (RawOperatorRunning ε ω × SimulatedTradeExecutorState) := do
  let minIterationInterval ←
    (WrappedRawOperator.minIterationInterval running.rawOperator).mapError .operatorError
  if timeCursor ≥ running.lastEval + minIterationInterval.asDuration then
    let lookback ← (WrappedRawOperator.lookback running.rawOperator).mapError .operatorError
    let ctxCandles ← rawCandles consolidator lookback
    let ((memory, result), s) :=
      WrappedRawOperator.iterate running.rawOperator ex ctxCandles running.memory s
    result.mapError .operatorError
    pure ({ running with lastEval := timeCursor, memory }, s)
  else pure (running, s)

end RawOperatorRunning

namespace OperatorRunning

variable {ε S ω : Type}

def start (pending : OperatorPending ε S ω) (startTime : ℤ) :
    Except (BacktestError ε) (OperatorRunning ε S ω) :=
  match pending with
  | .signal pending => (SignalOperatorRunning.start pending startTime).map .signal
  | .raw pending => (RawOperatorRunning.start pending startTime).map .raw

def iterate (ex : SimulatedTradeExecutor ε) (running : OperatorRunning ε S ω) (timeCursor : ℤ)
    (consolidator : Option MultiResolutionConsolidator) (s : SimulatedTradeExecutorState) :
    Except (BacktestError ε) (OperatorRunning ε S ω × SimulatedTradeExecutorState) :=
  match running with
  | .signal running =>
    (running.iterate ex timeCursor consolidator s).map fun (running, s) => (.signal running, s)
  | .raw running =>
    (running.iterate ex timeCursor consolidator s).map fun (running, s) => (.raw running, s)

end OperatorRunning

end Quantoxide
