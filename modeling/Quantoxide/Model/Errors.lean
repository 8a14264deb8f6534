import Quantoxide.Model.Sdk

/-! # Errors of the trading core and of the simulated executor -/

namespace Quantoxide

/-- A trade's identifier; the order is the one the trade maps sort by. -/
structure Uuid where
  asNat : ℕ
deriving DecidableEq, Repr

theorem Uuid.asNat_injective : Function.Injective Uuid.asNat := by
  intro a b h
  cases a
  cases b
  simpa using h

instance : LinearOrder Uuid := LinearOrder.lift' Uuid.asNat Uuid.asNat_injective

inductive TradeCoreError (ε : Type)
  | invalidStoplossSmallerThanTrailingStepSize (tsl tslStepSize : PercentageCapped)
  | invalidPriceApplyDiscount (price : Price) (discount : PercentageCapped) (e : ε)
  | invalidPriceApplyGain (price : Price) (gain : PercentageCapped) (e : ε)
  | invalidPriceRounding (price : F64) (e : ε)
  | noNextTriggerTradeStoplossNotSet (tradeId : Uuid)
  | tradeNotClosed (tradeId : Uuid)
  | signalOperatorSetTradeExecutorPanicked (payload : String)
  | signalOperatorSetTradeExecutorError (message : String)
  | signalOperatorProcessSignalPanicked (payload : String)
  | signalOperatorProcessSignalError (message : String)
  | rawOperatorSetTradeExecutorPanicked (payload : String)
  | rawOperatorSetTradeExecutorError (message : String)
  | rawOperatorLookbackPanicked (payload : String)
  | rawOperatorMinIterationIntervalPanicked (payload : String)
  | rawOperatorIteratePanicked (payload : String)
  | rawOperatorIterateError (message : String)
deriving DecidableEq

/-- The executor's errors; `unreachable` is the panic of an `unreachable!`. -/
inductive SimulatedTradeExecutorError (ε : Type)
  | invalidMarketPrice (e : ε)
  | timeSequenceViolation (newTime currentTime : ℤ)
  | maxRunningTradesReached (maxQtd : ℕ)
  | tickUpdatePriceValidation (e : ε)
  | tradeValidation (e : ε)
  | crossQuantityValidation (e : ε)
  | crossExposureValidation (e : ε)
  | balanceTooLow
  | crossPositionOverflow
  | crossFreeMarginTooLow
  | crossPositionIncoherent
  | tradeNotRunning (tradeId : Uuid)
  | priceTriggerUpdate (e : TradeCoreError ε)
  | stoplossEvaluation (e : TradeCoreError ε)
  | closedHistoryUpdate (e : TradeCoreError ε)
  | unreachable
deriving DecidableEq

/-- `SimulatedTradeExecutorResult`. -/
abbrev ExecutorResult (ε α : Type) := Except (SimulatedTradeExecutorError ε) α

end Quantoxide
