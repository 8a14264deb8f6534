import Quantoxide.Model.LiveCandles
import Quantoxide.Model.LiveExecutorProcess
import Quantoxide.Model.Operators
import Quantoxide.Model.SyncProcess

/-! # The live process of a raw operator

The process waits until the operator's interval has passed and the sync lets it pass, and hands
the operator the candles it looks back on. It starts anew after a recoverable error. A step is
one of the sync process beside it, or what an await of the live process returns. -/

namespace Quantoxide

variable {ε η ω : Type}

inductive LiveProcessRecoverableError (η : Type)
  | db (e : DbError)
  | operatorError (e : TradeCoreError η)
  | syncRecvLagged (skipped : ℕ)
  | executorRecvLagged (skipped : ℕ)

inductive LiveProcessFatalError (ε η : Type)
  | launchExecutor
  | startOperatorError (e : TradeCoreError η)
  | syncRecvClosed
  | syncProcessTerminated (e : Arc (SyncProcessFatalError (SyncTaskError ε)))
  | syncProcessShutdown
  | unexpectedSyncBackfilled
  | executorProcessTerminated (e : Arc (ExecutorProcessFatalError η))
  | executorProcessShutdown
  | shutdownSignalRecv

inductive LiveProcessError (ε η : Type)
  | recoverable (e : LiveProcessRecoverableError η)
  | fatal (e : LiveProcessFatalError ε η)

inductive LiveTradeStatus (ε η : Type)
  | notInitiated
  | starting
  | waitingForSync (status : SyncStatusNotSynced (SyncTaskError ε))
  | waitingTradeExecutor (status : LiveTradeExecutorStatusNotReady η)
  | running
  | failed (error : Arc (LiveProcessRecoverableError η))
  | restarting
  | shutdownInitiated
  | terminated (error : Arc (LiveProcessFatalError ε η))

def LiveTradeStatus.eq : LiveTradeStatus ε η → LiveTradeStatus ε η → Bool
  | .notInitiated, .notInitiated | .starting, .starting | .running, .running
  | .restarting, .restarting | .shutdownInitiated, .shutdownInitiated => true
  | .waitingForSync a, .waitingForSync b => a.eq b
  | .waitingTradeExecutor a, .waitingTradeExecutor b => a.eq b
  | .failed a, .failed b => a.ptrEq b
  | .terminated a, .terminated b => a.ptrEq b
  | _, _ => false

structure LiveTradeConfig where
  syncModeFull : Bool
  sync : SyncProcessConfig

/-- The mode in which `with_raw_operator` starts the sync. -/
def LiveTradeEngine.withRawOperator (config : LiveTradeConfig) (operator : RawOperator η ω) :
    Except (TradeCoreError η) SyncModeInt :=
  if config.syncModeFull then .ok .full
  else
    match WrappedRawOperator.lookback operator with
    | .error e => .error e
    | .ok (some lookback) => .ok (.liveWithLookback lookback.asDuration)
    | .ok none => .ok .liveNoLookback

/-- A turn of the loop that the sync has let pass, with the status that did. -/
structure LiveTurn (ε : Type) where
  now : ℤ
  gate : SyncStatus (SyncTaskError ε)

/-- A call of the operator, with the database its candles were read from. -/
structure LiveIteration (ε : Type) extends LiveTurn ε where
  db : Database
  candles : List OhlcCandleRow

/-- What `run_raw` awaits: its sleep, `wait_for_sync`, the executor's state, the candles, or the
operator. -/
inductive LiveAwait (ε : Type)
  | sleep (targetExec : ℤ)
  | sync
  | executorState (turn : LiveTurn ε)
  | candles (turn : LiveTurn ε)
  | iteration

inductive LiveStage (ε : Type)
  | launching
  | starting
  | running (await : LiveAwait ε)
  | restarting
  | ended

/-- The process beside the sync process, with the iterations of the operator so far. -/
structure LiveProcess (ε η : Type) where
  sync : SyncProcess ε
  now : ℤ
  stage : LiveStage ε
  status : LiveTradeStatus ε η
  arcs : ℕ
  lastEval : ℤ
  iterations : List (LiveIteration ε)

inductive LiveProcessEvent (ε η : Type)
  | sync (event : SyncProcessEvent ε)
  | launchFails
  | launches (setTradeExecutor : Except Failure Unit)
  | begins (utcNow : ℤ)
  | wakes (utcNow : ℤ)
  | syncRecv (received : SyncReceived (SyncTaskError ε))
  | syncUpdateTimeout
  | executorState (status : LiveTradeExecutorStatus η)
  | fetches
  | iterates (result : Except Failure Unit)
  | executorLagged (skipped : ℕ)
  | fails (error : LiveProcessError ε η)
  | restartInterval
  | shutdownInitiated
  | stops

namespace LiveProcess

variable (config : LiveTradeConfig) (mode : SyncModeInt) (operator : RawOperator η ω)
  (s : LiveProcess ε η)

def spawn (db : Database) (now : ℤ) : LiveProcess ε η where
  sync := SyncProcess.spawn db now
  now := now
  stage := .launching
  status := .notInitiated
  arcs := 0
  lastEval := now
  iterations := []

def update (newStatus : LiveTradeStatus ε η) : LiveProcess ε η :=
  { s with status := if s.status.eq newStatus then s.status else newStatus }

def updateIfNotRunning (newStatus : LiveTradeStatus ε η) : LiveProcess ε η :=
  match s.status with
  | .running => s
  | _ => s.update newStatus

/-- What `recovery_loop` does with an error of the operator's run. -/
def fail : LiveProcessError ε η → LiveProcess ε η
  | .recoverable e =>
    { s with arcs := s.arcs + 1, stage := .restarting }.update (.failed ⟨s.arcs, e⟩)
  | .fatal e => { s with arcs := s.arcs + 1, stage := .ended }.update (.terminated ⟨s.arcs, e⟩)

def await (await : LiveAwait ε) : LiveProcess ε η :=
  { s with stage := .running await }

/-- The head of the loop of `run_raw`. A sum out of range panics, which ends the task. -/
def nextTurn : LiveProcess ε η :=
  match WrappedRawOperator.minIterationInterval operator with
  | .error e => s.fail (.recoverable (.operatorError e))
  | .ok minIterationInterval =>
    let nextEval := s.lastEval + minIterationInterval.asDuration
    if nextEval ≤ DateTime.maxUtc then s.await (.sleep (DateTime.ceilSec nextEval))
    else { s with stage := .ended }

/-- The loop from its sleep to the executor's state. Only `NotSynced` is held back. -/
def onWake (utcNow : ℤ) : LiveProcess ε η :=
  match s.sync.status with
  | .notSynced status =>
    ({ s with now := utcNow }.update (.waitingForSync status)).await .sync
  | gate => { s with now := utcNow, lastEval := utcNow }.await (.executorState ⟨utcNow, gate⟩)

/-- What `wait_for_sync` does with a status, be it received or read when the wait timed out. -/
def onSyncStatus (status : SyncStatus (SyncTaskError ε)) : LiveProcess ε η :=
  match status with
  | .notSynced status => s.update (.waitingForSync status)
  | .synced => s.nextTurn operator
  | .backfilled => s.fail (.fatal .unexpectedSyncBackfilled)
  | .terminated e => s.fail (.fatal (.syncProcessTerminated e))
  | .shutdownInitiated | .shutdown => s.fail (.fatal .syncProcessShutdown)

def onSyncRecv (received : SyncReceived (SyncTaskError ε)) : LiveProcess ε η :=
  match received with
  | .update (.status status) => s.onSyncStatus operator status
  | .update .priceTick => s.nextTurn operator
  | .update .priceHistoryState | .update .fundingSettlementsState => s
  | .lagged skipped => s.fail (.recoverable (.syncRecvLagged skipped))
  | .closed => s.fail (.fatal .syncRecvClosed)

def onExecutorState (turn : LiveTurn ε) (status : LiveTradeExecutorStatus η) : LiveProcess ε η :=
  match status with
  | .ready => (s.updateIfNotRunning .running).await (.candles turn)
  | .notReady (.terminated e) => s.fail (.fatal (.executorProcessTerminated e))
  | .notReady .shutdownInitiated | .notReady .shutdown =>
    s.fail (.fatal .executorProcessShutdown)
  | .notReady status => (s.update (.waitingTradeExecutor status)).nextTurn operator

def onFetch (turn : LiveTurn ε) : LiveProcess ε η :=
  match WrappedRawOperator.lookback operator with
  | .error e => s.fail (.recoverable (.operatorError e))
  | .ok lookback =>
    match fetchCandles s.sync.db lookback turn.now with
    | .error e => s.fail (.recoverable (.db e))
    | .ok candles =>
      let iteration : LiveIteration ε := { turn with db := s.sync.db, candles }
      { s with iterations := s.iterations ++ [iteration] }.await .iteration

def onIterate (result : Except Failure Unit) : LiveProcess ε η :=
  match result.mapError (Failure.asError .rawOperatorIteratePanicked .rawOperatorIterateError) with
  | .error e => s.fail (.recoverable (.operatorError e))
  | .ok _ => s.nextTurn operator

/-- `spawn` once the executor is launched, and the start of `recovery_loop`. -/
def onLaunch (setTradeExecutor : Except Failure Unit) : LiveProcess ε η :=
  match setTradeExecutor.mapError (Failure.asError .rawOperatorSetTradeExecutorPanicked
    .rawOperatorSetTradeExecutorError) with
  | .error e => s.fail (.fatal (.startOperatorError e))
  | .ok _ => { s with stage := .starting }.update .starting

def onEvent (await : LiveAwait ε) : LiveProcessEvent ε η → Option (LiveProcess ε η)
  | .wakes utcNow =>
    match await with
    | .sleep targetExec => if targetExec ≤ utcNow then some (s.onWake utcNow) else none
    | _ => none
  | .syncRecv received =>
    match await with
    | .sync => some (s.onSyncRecv operator received)
    | _ => none
  | .syncUpdateTimeout =>
    match await with
    | .sync => some (s.onSyncStatus operator s.sync.status)
    | _ => none
  | .executorState status =>
    match await with
    | .executorState turn => some (s.onExecutorState operator turn status)
    | _ => none
  | .fetches =>
    match await with
    | .candles turn => some (s.onFetch operator turn)
    | _ => none
  | .iterates result =>
    match await with
    | .iteration => some (s.onIterate operator result)
    | _ => none
  | .fails error => some (s.fail error)
  | .stops => some { s with stage := .ended }
  | _ => none

/-- The executor's updates and the controller's shutdown can come at any time. -/
def step (event : LiveProcessEvent ε η) : Option (LiveProcess ε η) :=
  match s.stage, event with
  | _, .sync event =>
    (s.sync.step config.sync mode event).map fun sync => { s with sync, now := max s.now sync.now }
  | .ended, _ => none
  | _, .executorLagged skipped =>
    some ({ s with arcs := s.arcs + 1 }.update (.failed ⟨s.arcs, .executorRecvLagged skipped⟩))
  | _, .shutdownInitiated => some (s.update .shutdownInitiated)
  | .launching, .launchFails => some (s.fail (.fatal .launchExecutor))
  | .launching, .launches setTradeExecutor => some (s.onLaunch setTradeExecutor)
  | .starting, .begins utcNow =>
    some ({ s with now := utcNow, lastEval := utcNow }.nextTurn operator)
  | .running await, event => s.onEvent operator await event
  | .restarting, .restartInterval => some ({ s with stage := .starting }.update .restarting)
  | .restarting, .fails (.fatal e) => some (s.fail (.fatal e))
  | .restarting, .stops => some { s with stage := .ended }
  | _, _ => none

end LiveProcess

end Quantoxide
