import Quantoxide.Model.LiveSession

/-! # Statuses of the running processes

What the sync engine, a backtest and the live executor publish about themselves. Errors in a
status are shared values, and two of them are equal when they are the same allocation. -/

namespace Quantoxide

structure Arc (α : Type) where
  ptr : ℕ
  value : α

namespace Arc

variable {α : Type}

def ptrEq (a b : Arc α) : Bool := a.ptr == b.ptr

end Arc

variable {ε : Type}

/-! ### The sync engine -/

inductive SyncProcessRecoverableError (ε : Type)
  | syncPriceHistory (e : ε)
  | syncFundingSettlements (e : ε)
  | realTimeCollection (e : ε)
  | realTimeCollectionTaskJoin
  | unexpectedRealTimeCollectionShutdown
  | priceTickRecv
  | maxPriceTickIntevalExceeded (interval : ℤ)

inductive SyncProcessFatalError (ε : Type)
  | syncFundingSettlements (e : ε)
  | syncPriceHistory (e : ε)
  | shutdownSignalRecv
  | syncProcessTaskJoin
  | sendShutdownSignalFailed
  | shutdownTimeout

inductive SyncStatusNotSynced (ε : Type)
  | notInitiated
  | starting
  | inProgress
  | waitingForResync
  | failed (error : Arc (SyncProcessRecoverableError ε))
  | restarting

inductive SyncStatus (ε : Type)
  | notSynced (status : SyncStatusNotSynced ε)
  | synced
  | backfilled
  | shutdownInitiated
  | shutdown
  | terminated (error : Arc (SyncProcessFatalError ε))

def SyncStatusNotSynced.eq : SyncStatusNotSynced ε → SyncStatusNotSynced ε → Bool
  | .notInitiated, .notInitiated | .starting, .starting | .inProgress, .inProgress
  | .waitingForResync, .waitingForResync | .restarting, .restarting => true
  | .failed a, .failed b => a.ptrEq b
  | _, _ => false

namespace SyncStatus

def eq : SyncStatus ε → SyncStatus ε → Bool
  | .notSynced a, .notSynced b => a.eq b
  | .synced, .synced | .backfilled, .backfilled | .shutdownInitiated, .shutdownInitiated
  | .shutdown, .shutdown => true
  | .terminated a, .terminated b => a.ptrEq b
  | _, _ => false

def isStopped : SyncStatus ε → Bool
  | .shutdown | .terminated _ => true
  | _ => false

end SyncStatus

/-! ### A backtest -/

inductive BacktestStatus (ε : Type)
  | notInitiated
  | starting
  | running
  | finished
  | failed (error : Arc ε)
  | aborted

namespace BacktestStatus

def eq : BacktestStatus ε → BacktestStatus ε → Bool
  | .notInitiated, .notInitiated | .starting, .starting | .running, .running
  | .finished, .finished | .aborted, .aborted => true
  | .failed a, .failed b => a.ptrEq b
  | _, _ => false

def isStopped : BacktestStatus ε → Bool
  | .finished | .failed _ | .aborted => true
  | _ => false

end BacktestStatus

/-! ### The live executor -/

inductive ExecutorProcessRecoverableError (ε : Type)
  | liveTradeSessionEvaluation (e : ExecutorActionError ε)
  | syncRecvLagged (skipped : ℕ)

inductive ExecutorProcessFatalError (ε : Type)
  | syncProcessTerminated (e : Arc (SyncProcessFatalError ε))
  | failedToCloseTradesOnShutdown (e : ExecutorActionError ε)
  | syncProcessShutdown
  | syncRecvClosed

inductive LiveTradeExecutorStatusNotReady (ε : Type)
  | starting
  | waitingForSync (status : SyncStatusNotSynced ε)
  | failed (error : Arc (ExecutorProcessRecoverableError ε))
  | terminated (error : Arc (ExecutorProcessFatalError ε))
  | shutdownInitiated
  | shutdown

namespace LiveTradeExecutorStatusNotReady

def isFailed : LiveTradeExecutorStatusNotReady ε → Bool
  | .failed _ => true
  | _ => false

def isUnrecoverable : LiveTradeExecutorStatusNotReady ε → Bool
  | .starting | .waitingForSync _ | .failed _ => false
  | .shutdownInitiated | .shutdown | .terminated _ => true

def eq : LiveTradeExecutorStatusNotReady ε → LiveTradeExecutorStatusNotReady ε → Bool
  | .starting, .starting | .shutdownInitiated, .shutdownInitiated | .shutdown, .shutdown => true
  | .waitingForSync a, .waitingForSync b => a.eq b
  | .failed a, .failed b => a.ptrEq b
  | .terminated a, .terminated b => a.ptrEq b
  | _, _ => false

/-- Equal statuses are of one kind. -/
theorem isUnrecoverable_of_eq {a b : LiveTradeExecutorStatusNotReady ε} (h : a.eq b = true) :
    a.isUnrecoverable = b.isUnrecoverable := by
  cases a <;> cases b <;> simp_all [eq, isUnrecoverable]

end LiveTradeExecutorStatusNotReady

inductive LiveTradeExecutorStatus (ε : Type)
  | notReady (status : LiveTradeExecutorStatusNotReady ε)
  | ready

end Quantoxide
