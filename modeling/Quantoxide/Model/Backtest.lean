import Quantoxide.Model.Database
import Quantoxide.Model.Executor
import Quantoxide.Model.Shared

/-! # Configuration and errors of a backtest -/

namespace Quantoxide

inductive SignalEvaluatorError
  | lookbackPanicked (payload : String)
  | minIterationIntervalPanicked (payload : String)
  | evaluatePanicked (payload : String)
  | evaluateError (message : String)
deriving DecidableEq, Repr

inductive SignalOperatorError
  | emptyEvaluatorsVec
deriving DecidableEq, Repr

/-- `BacktestError`; `panicked` is the panic of an `expect`. -/
inductive BacktestError (ε : Type)
  | invalidConfigurationBufferSize (size : ℕ)
  | invalidConfigurationMaxRunningQtd (max : ℕ)
  | invalidTimeRangeNotRounded (startTime endTime : ℤ)
  | invalidTimeRangeSequence (startTime endTime : ℤ)
  | invalidTimeRangeTooShort (minDuration durationHours : ℤ)
  | priceHistoryStateEvaluation (e : SyncPriceHistoryFatalError)
  | priceHistoryUnavailable (lookbackTime endTime : ℤ) (historyStart historyEnd : Option ℤ)
  | setTradeExecutor (e : TradeCoreError ε)
  | operatorError (e : TradeCoreError ε)
  | signalEvaluator (e : SignalEvaluatorError)
  | signalOperator (e : SignalOperatorError)
  | signalProcessingError (e : TradeCoreError ε)
  | executorTickUpdate (e : SimulatedTradeExecutorError ε)
  | unexpectedEmptyBuffer (time : ℤ)
  | outOfOrderCandle (candleTime bucketTime : ℤ)
  | parallelNoOperators
  | parallelEmptyOperatorName
  | parallelDuplicateOperatorName (name : String)
  | parallelOperatorFailed (operatorName : String) (source : BacktestError ε)
  | fundingSettlementDataUnavailable (fromTime toTime : ℤ) (boundStart boundEnd : Option ℤ)
  | fundingSettlementApplication (e : SimulatedTradeExecutorError ε)
  | panicked (message : String)

/-- `Lookback::MAX.num_minutes()`. -/
def MIN_BUFFER_SIZE : ℕ := (Lookback.MAX.tdiv 60000000000).toNat

structure BacktestConfig where
  bufferSize : ℕ
  tradeMaxRunningQtd : ℕ
  feePerc : PercentageCapped
  tradeTslStepSize : PercentageCapped
  min_le_bufferSize : MIN_BUFFER_SIZE ≤ bufferSize
  tradeMaxRunningQtd_ne : tradeMaxRunningQtd ≠ 0

namespace BacktestConfig

variable {ε : Type}

def withBufferSize (config : BacktestConfig) (size : ℕ) :
    Except (BacktestError ε) BacktestConfig :=
  if h : size < MIN_BUFFER_SIZE then .error (.invalidConfigurationBufferSize size)
  else .ok { config with bufferSize := size, min_le_bufferSize := not_lt.mp h }

def withTradeMaxRunningQtd (config : BacktestConfig) (max : ℕ) :
    Except (BacktestError ε) BacktestConfig :=
  if h : max = 0 then .error (.invalidConfigurationMaxRunningQtd max)
  else .ok { config with tradeMaxRunningQtd := max, tradeMaxRunningQtd_ne := h }

def withFeePerc (config : BacktestConfig) (feePerc : PercentageCapped) : BacktestConfig :=
  { config with feePerc }

def withTrailingStoplossStepSize (config : BacktestConfig)
    (tradeTslStepSize : PercentageCapped) : BacktestConfig :=
  { config with tradeTslStepSize }

/-- `SimulatedTradeExecutorConfig::from`. -/
def executorConfig (config : BacktestConfig) : SimulatedTradeExecutorConfig where
  tradeMaxRunningQtd := config.tradeMaxRunningQtd
  feePerc := config.feePerc
  trailingStoplossStepSize := config.tradeTslStepSize

end BacktestConfig

end Quantoxide
