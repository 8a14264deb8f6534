import Quantoxide.Model.Statuses

/-! # The state of the live executor and who writes it

A task keeps the session fresh, an operator acts on it and `shutdown` ends both. They share the
state behind one lock. A step is what one of them does between two points where it can wait, so
that every order of the steps is an interleaving of the three. -/

namespace Quantoxide

variable {ε : Type}

namespace LiveTradingSession

def expire (session : LiveTradingSession) (now : ℤ) : LiveTradingSession :=
  if session.isExpired now then session else { session with expiresAt := now }

def crossPositionIsRunning (session : LiveTradingSession) : Bool := session.crossPosition.isRunning

end LiveTradingSession

structure LiveTradeExecutorState (ε : Type) where
  status : LiveTradeExecutorStatus ε
  tradingSession : Option LiveTradingSession

inductive LiveTradeExecutorUpdate (ε : Type)
  | status (status : LiveTradeExecutorStatus ε)
  | tradingState (session : LiveTradingSession)
  | closedTrade (trade : Trade)

namespace LiveTradeExecutorState

variable (state : LiveTradeExecutorState ε)

/-- The new state and the updates that are sent. -/
def updateStatusNotReady (now : ℤ) (newStatus : LiveTradeExecutorStatusNotReady ε) :
    LiveTradeExecutorState ε × List (LiveTradeExecutorUpdate ε) :=
  let changed : LiveTradeExecutorState ε × List (LiveTradeExecutorUpdate ε) :=
    (⟨.notReady newStatus, if newStatus.isFailed then state.tradingSession.map (·.expire now)
      else state.tradingSession⟩, [.status (.notReady newStatus)])
  match state.status with
  | .notReady current => if current.eq newStatus then (state, []) else changed
  | .ready => changed

def updateStatusReady (newTradingSession : LiveTradingSession) :
    LiveTradeExecutorState ε × List (LiveTradeExecutorUpdate ε) :=
  (⟨.ready, some newTradingSession⟩,
    (match state.status with
      | .ready => []
      | .notReady _ => [.status .ready]) ++ [.tradingState newTradingSession])

/-- Whether `LockedLiveTradeExecutorStateReady` can be made of the locked state. -/
def isReady : Bool :=
  match state.status with
  | .ready => state.tradingSession.isSome
  | .notReady _ => false

def hasRegisteredRunningTrades : Bool :=
  state.tradingSession.any fun session =>
    !session.runningMap.trades.isEmpty || session.crossPositionIsRunning

end LiveTradeExecutorState

/-! ### The parties -/

/-- Where the task of `spawn_sync_processor` is. -/
inductive SyncProcessor (ε : Type)
  | listening
  | reportingWait (status : SyncStatusNotSynced ε)
  | reportingLag (skipped : ℕ)
  | draining
  | lockingRefresh
  | refreshing
  | terminating (error : ExecutorProcessFatalError ε)
  | ended

namespace SyncProcessor

/-- Only while it drains the receiver, which it does without waiting, can it not be aborted. -/
def canWait : SyncProcessor ε → Bool
  | .draining | .ended => false
  | _ => true

def isFinished : SyncProcessor ε → Bool
  | .ended => true
  | _ => false

end SyncProcessor

/-- Where the call of `shutdown` that consumed the handle is. -/
inductive ShutdownCall (ε : Type)
  | notCalled
  | alreadyTerminated
  | initiating
  | aborting
  | checkingTrades
  | cleaningUp
  | finishing (status : LiveTradeExecutorStatusNotReady ε)
  | returned

/-- Who keeps the lock while it waits for the exchange or the database. -/
inductive LockHolder
  | refresh
  | operator
deriving DecidableEq

structure LiveTradeExecutorWorld (ε : Type) where
  state : LiveTradeExecutorState ε
  holder : Option LockHolder
  processor : SyncProcessor ε
  isSynced : Bool
  shouldRefresh : Bool
  aborted : Bool
  shutdown : ShutdownCall ε
  arcs : ℕ
  updates : List (LiveTradeExecutorUpdate ε)

inductive SyncUpdate (ε : Type)
  | status (status : SyncStatus ε)
  | priceTick
  | priceHistoryState
  | fundingSettlementsState

inductive SyncReceived (ε : Type)
  | update (update : SyncUpdate ε)
  | lagged (skipped : ℕ)
  | closed

/-- One step of a party; the last four are those of the call of `shutdown`. -/
inductive LiveTradeExecutorStep (ε : Type)
  | recv (received : SyncReceived ε)
  | refreshTimer
  | processorLocks (now : ℤ)
  | drained (closed : Bool)
  | evaluated (now : ℤ) (result : ActionResult ε (LiveTradingSession × List Trade))
  | processorAborted
  | tryLockReadyState
  | updateTradingSession (session : LiveTradingSession)
  | unlock
  | shutdown
  | shutdownLocks (now : ℤ)
  | abort
  | cleanedUpTrades (result : ActionResult ε Unit)

namespace LiveTradeExecutorWorld

variable (w : LiveTradeExecutorWorld ε)

def updateStatusNotReady (now : ℤ) (status : LiveTradeExecutorStatusNotReady ε) :
    LiveTradeExecutorWorld ε :=
  let (state, updates) := w.state.updateStatusNotReady now status
  { w with state, updates := w.updates ++ updates }

def updateStatusReady (session : LiveTradingSession) : LiveTradeExecutorWorld ε :=
  let (state, updates) := w.state.updateStatusReady session
  { w with state, updates := w.updates ++ updates }

/-- `Arc::new`: the next allocation, and the state after it. -/
def alloc {α : Type} (value : α) : Arc α × LiveTradeExecutorWorld ε :=
  (⟨w.arcs, value⟩, { w with arcs := w.arcs + 1 })

def fail (now : ℤ) (error : ExecutorProcessRecoverableError ε) : LiveTradeExecutorWorld ε :=
  let (error, w) := w.alloc error
  w.updateStatusNotReady now (.failed error)

def terminate (now : ℤ) (error : ExecutorProcessFatalError ε) : LiveTradeExecutorWorld ε :=
  let (error, w) := w.alloc error
  w.updateStatusNotReady now (.terminated error)

/-- What the handler makes of a message of the sync engine. -/
def onReceived : SyncReceived ε → LiveTradeExecutorWorld ε
  | .update (.status (.notSynced status)) =>
    { w with isSynced := false, shouldRefresh := false, processor := .reportingWait status }
  | .update (.status (.terminated err)) =>
    { w with processor := .terminating (.syncProcessTerminated err) }
  | .update (.status .shutdownInitiated) | .update (.status .shutdown) =>
    { w with processor := .terminating .syncProcessShutdown }
  | .update (.status .backfilled) => w
  | .update (.status .synced) => { w with isSynced := true, shouldRefresh := true }
  | .update .priceTick | .update .priceHistoryState => { w with shouldRefresh := w.isSynced }
  | .update .fundingSettlementsState => w
  | .lagged skipped => { w with processor := .reportingLag skipped }
  | .closed => { w with processor := .terminating .syncRecvClosed }

/-- What the task does once it is given the lock. Only a refresh keeps it. -/
def onProcessorLocked (now : ℤ) : Option (LiveTradeExecutorWorld ε) :=
  match w.processor with
  | .reportingWait status =>
    some { w.updateStatusNotReady now (.waitingForSync status) with processor := .listening }
  | .reportingLag skipped =>
    some { w.fail now (.syncRecvLagged skipped) with processor := .draining }
  | .lockingRefresh => some { w with holder := some .refresh, processor := .refreshing }
  | .terminating error => some { w.terminate now error with processor := .ended }
  | _ => none

/-- The end of a refresh, which releases the lock. -/
def onEvaluated (now : ℤ) (result : ActionResult ε (LiveTradingSession × List Trade)) :
    LiveTradeExecutorWorld ε :=
  let evaluated := match result with
    | .ok (tradingSession, closedTrades) =>
      let w := w.updateStatusReady tradingSession
      { w with updates := w.updates ++ closedTrades.map LiveTradeExecutorUpdate.closedTrade }
    | .error e => w.fail now (.liveTradeSessionEvaluation e)
  { evaluated with holder := none, processor := .listening }

/-- What `shutdown` does once it is given the lock, which it never keeps. -/
def onShutdownLocked (now : ℤ) : Option (LiveTradeExecutorWorld ε) :=
  match w.shutdown with
  | .initiating =>
    some { w.updateStatusNotReady now .shutdownInitiated with shutdown := .aborting }
  | .checkingTrades =>
    some { w with shutdown := if w.state.hasRegisteredRunningTrades then .cleaningUp
      else .finishing .shutdown }
  | .finishing status => some { w.updateStatusNotReady now status with shutdown := .returned }
  | _ => none

/-- The end of `clean_up_all_trades`. -/
def onCleanedUp : ActionResult ε Unit → LiveTradeExecutorWorld ε
  | .ok () => { w with shutdown := .finishing .shutdown }
  | .error e =>
    let (error, w) := w.alloc (.failedToCloseTradesOnShutdown e)
    { w with shutdown := .finishing (.terminated error) }

variable (shutdownCleanUpTrades : Bool)

/-- A step, when its party can take it. -/
def step (w : LiveTradeExecutorWorld ε) :
    LiveTradeExecutorStep ε → Option (LiveTradeExecutorWorld ε)
  | .recv received =>
    match w.processor with
    | .listening => some (w.onReceived received)
    | _ => none
  | .refreshTimer =>
    match w.processor with
    | .listening =>
      some (if w.shouldRefresh then { w with shouldRefresh := false, processor := .lockingRefresh }
        else w)
    | _ => none
  | .processorLocks now => if w.holder = none then w.onProcessorLocked now else none
  | .drained closed =>
    match w.processor with
    | .draining =>
      some { w with processor := if closed then .terminating .syncRecvClosed else .listening }
    | _ => none
  | .evaluated now result =>
    match w.processor with
    | .refreshing => some (w.onEvaluated now result)
    | _ => none
  | .processorAborted =>
    if w.aborted && w.processor.canWait then
      some { w with processor := .ended
                    holder := if w.holder = some .refresh then none else w.holder }
    else none
  | .tryLockReadyState =>
    if w.holder = none then
      some (if w.state.isReady then { w with holder := some .operator } else w)
    else none
  | .updateTradingSession session =>
    if w.holder = some .operator then some { w.updateStatusReady session with holder := none }
    else none
  | .unlock => if w.holder = some .operator then some { w with holder := none } else none
  | .shutdown =>
    match w.shutdown with
    | .notCalled =>
      some { w with shutdown := if w.processor.isFinished then .alreadyTerminated
        else .initiating }
    | _ => none
  | .shutdownLocks now => if w.holder = none then w.onShutdownLocked now else none
  | .abort =>
    match w.shutdown with
    | .aborting =>
      some { w with aborted := true
                    shutdown := if shutdownCleanUpTrades then .checkingTrades
                      else .finishing .shutdown }
    | _ => none
  | .cleanedUpTrades result =>
    match w.shutdown with
    | .cleaningUp => some (w.onCleanedUp result)
    | _ => none

/-- A launched executor, whose task has read whether the sync engine is synced. -/
def launched (isSynced : Bool) : LiveTradeExecutorWorld ε where
  state := ⟨.notReady .starting, none⟩
  holder := none
  processor := .listening
  isSynced := isSynced
  shouldRefresh := isSynced
  aborted := false
  shutdown := .notCalled
  arcs := 0
  updates := []

end LiveTradeExecutorWorld

end Quantoxide
