import Quantoxide.Model.CandleTable
import Quantoxide.Model.LiveTrade

/-! # The live trading session

The in-memory account of the live executor. A session method that fails leaves the session of
its caller as it was: the executor works on a copy and stores it only after success. -/

namespace Quantoxide

open DateTime Result

/-- `ExecutorActionError`; `ε` holds the errors of the SDK. -/
inductive ExecutorActionError (ε : Type)
  | restApi (e : ε)
  | balanceTooLow
  | balanceTooHigh
  | db (e : DbError)
  | dbIsEmpty
  | stoplossEvaluation (e : TradeCoreError ε)
  | newTradeNotRunning (tradeId : Uuid)
  | tradeAlreadyRegistered (tradeId : Uuid)
  | priceTriggerUpdate (e : TradeCoreError ε)
  | closedHistoryUpdate (e : TradeCoreError ε)
  | updatedTradesNotRunning (tradeIds : List Uuid)
  | tradeNotClosed (tradeId : Uuid)
  | tradeNotRegistered (tradeId : Uuid)
  | invalidMarketPrice (e : ε)
  | invalidTradeParams (e : ε)
  | maxRunningTradesReached (maxQtd : ℕ)
  | crossPositionValidation (e : ε)
  | crossPositionTradingFeesDecreased (previousFees currentFees : ℕ)
  | crossOrderNotFilled (orderId : Uuid)
  | crossPositionOverflow
  | closedTradeNotConfirmed (tradeId : Uuid)
  | unexpectedClosedTrade (tradeId : Uuid)
deriving DecidableEq

abbrev ActionResult (ε α : Type) := Except (ExecutorActionError ε) α

variable {ε : Type} (sdk : LnmSdk ε)

/-! ### The cross position -/

structure LiveCrossPosition where
  id : Uuid
  margin : ℕ
  leverage : CrossLeverage
  exposure : CrossExposure
  realizedPl : ℤ
  startFundingFees : ℤ
  currFundingFees : ℤ
  startTradingFees : ℕ
  currTradingFees : ℕ
  fees_le : startTradingFees ≤ currTradingFees
deriving DecidableEq

namespace LiveCrossPosition

def isRunning (pos : LiveCrossPosition) : Bool :=
  match pos.exposure with
  | .running _ => true
  | .neutral => false

def fromRaw (position : CrossPosition ε) (realizedPl : ℤ) : Except ε LiveCrossPosition := do
  let exposure ← position.exposure
  pure
    { id := position.id
      margin := position.margin
      leverage := position.leverage
      exposure
      realizedPl
      startFundingFees := position.fundingFees
      currFundingFees := position.fundingFees
      startTradingFees := position.tradingFees
      currTradingFees := position.tradingFees
      fees_le := le_rfl }

def updateFromRaw (pos : LiveCrossPosition) (newPosition : CrossPosition ε) :
    ActionResult ε LiveCrossPosition := do
  let exposure ← newPosition.exposure.mapError .crossPositionValidation
  if h : newPosition.tradingFees < pos.currTradingFees then
    .error (.crossPositionTradingFeesDecreased pos.currTradingFees newPosition.tradingFees)
  else
    pure
      { id := newPosition.id
        margin := newPosition.margin
        leverage := newPosition.leverage
        exposure
        realizedPl := pos.realizedPl
        startFundingFees := pos.startFundingFees
        currFundingFees := newPosition.fundingFees
        startTradingFees := pos.startTradingFees
        currTradingFees := newPosition.tradingFees
        fees_le := pos.fees_le.trans (not_lt.mp h) }

def updateAfterOrder (pos : LiveCrossPosition) (newPosition : CrossPosition ε) :
    ActionResult ε LiveCrossPosition := do
  let newMargin ← okOr (I64.tryFrom newPosition.margin) .crossPositionOverflow
  let prevMargin ← okOr (I64.tryFrom pos.margin) .crossPositionOverflow
  let marginDelta ← okOr (I64.checkedSub newMargin prevMargin) .crossPositionOverflow
  if h : newPosition.tradingFees < pos.currTradingFees then
    .error (.crossPositionTradingFeesDecreased pos.currTradingFees newPosition.tradingFees)
  else
    let feeDelta ← okOr (I64.tryFrom (newPosition.tradingFees - pos.currTradingFees))
      .crossPositionOverflow
    let fundingDelta ← okOr (I64.checkedSub newPosition.fundingFees pos.currFundingFees)
      .crossPositionOverflow
    let realizedDelta ← okOr
      ((I64.checkedAdd marginDelta feeDelta).bind fun delta => I64.checkedAdd delta fundingDelta)
      .crossPositionOverflow
    let realizedPl ← okOr (I64.checkedAdd pos.realizedPl realizedDelta) .crossPositionOverflow
    let exposure ← newPosition.exposure.mapError .crossPositionValidation
    pure
      { id := newPosition.id
        margin := newPosition.margin
        leverage := newPosition.leverage
        exposure
        realizedPl
        startFundingFees := pos.startFundingFees
        currFundingFees := newPosition.fundingFees
        startTradingFees := pos.startTradingFees
        currTradingFees := newPosition.tradingFees
        fees_le := pos.fees_le.trans (not_lt.mp h) }

def liquidationWasReached (pos : LiveCrossPosition) (rangeMin rangeMax : F64) : Bool :=
  match pos.exposure with
  | .neutral => false
  | .running exposure =>
    match exposure.side with
    | .buy => rangeMin ≤ exposure.liquidation.asF64
    | .sell => rangeMax ≥ exposure.liquidation.asF64

def sessionFundingFees (pos : LiveCrossPosition) : ℤ := pos.currFundingFees - pos.startFundingFees

def tradingFees (pos : LiveCrossPosition) : ℕ := pos.currTradingFees - pos.startTradingFees

end LiveCrossPosition

/-! ### The session -/

structure LiveTradingSession where
  expiresAt : ℤ
  tslStepSize : PercentageCapped
  lastTradeTime : Option ℤ
  balance : ℕ
  lastEvaluationTime : ℤ
  lastPrice : F64
  trigger : PriceTrigger
  runningMap : DynRunningTradesMap
  realizedPl : ℤ
  closedHistory : DynClosedTradeHistory
  closedFees : ℕ
  fundingFees : ℤ
  fundingSnapshot : OrdMap Uuid ℤ
  crossPosition : LiveCrossPosition
deriving DecidableEq

/-- `last` moved to `time` when there was none or an earlier one. -/
def laterTime (last : Option ℤ) (time : ℤ) : Option ℤ :=
  if last.all fun l => time > l then some time else last

/-- Trades collected into a `HashMap` by their ids. -/
def tradesById (trades : List Trade) : OrdMap Uuid Trade :=
  trades.foldl (fun m t => m.insert t.id t) .empty

namespace LiveTradingSession

variable (session : LiveTradingSession)

def isExpired (now : ℤ) : Bool := decide (now ≥ session.expiresAt)

def registerRunningTrade (newTrade : Trade) (tradeTsl : Option TradeTrailingStoploss)
    (updateBalance : Bool) : ActionResult ε LiveTradingSession :=
  if !newTrade.running then .error (.newTradeNotRunning newTrade.id)
  else if session.runningMap.contains newTrade.id then
    .error (.tradeAlreadyRegistered newTrade.id)
  else do
    let balance := if updateBalance then
        session.balance - newTrade.margin.asU64 - (newTrade.maintenanceMargin % 2 ^ 64).toNat
          - newTrade.openingFee
      else session.balance
    let trigger ← (session.trigger.update sdk session.tslStepSize newTrade.asRunning
      tradeTsl).mapError .priceTriggerUpdate
    pure
      { session with
        lastTradeTime := laterTime session.lastTradeTime newTrade.createdAt
        balance
        trigger
        fundingFees := session.fundingFees + newTrade.sumFundingFees
        fundingSnapshot := session.fundingSnapshot.insert newTrade.id newTrade.sumFundingFees
        runningMap := session.runningMap.add newTrade tradeTsl }

/-! #### Updates -/

/-- What `update_running_trades` builds up over the running trades. -/
structure UpdatePass where
  updatedTrades : OrdMap Uuid Trade
  runningMap : DynRunningTradesMap
  trigger : PriceTrigger
  balance : ℤ
  realizedPl : ℤ

def updateOne (tslStepSize : PercentageCapped) (acc : UpdatePass) (entry : TradeEntry) :
    ActionResult ε UpdatePass := do
  let (currTrade, tradeTsl) := entry
  let (runningTrade, acc) := match acc.updatedTrades.get currTrade.id with
    | some updatedTrade =>
      let cashedInPl := F64.roundI64 (currTrade.estPl sdk updatedTrade.price)
      let collateralDelta := currTrade.margin.asI64 + currTrade.maintenanceMargin + cashedInPl
        - updatedTrade.margin.asI64 - updatedTrade.maintenanceMargin
      (updatedTrade,
        { acc with
          updatedTrades := acc.updatedTrades.erase currTrade.id
          balance := acc.balance + collateralDelta
          realizedPl := acc.realizedPl + cashedInPl })
    | none => (currTrade, acc)
  let trigger ← (acc.trigger.update sdk tslStepSize runningTrade.asRunning tradeTsl).mapError
    .priceTriggerUpdate
  pure { acc with trigger, runningMap := acc.runningMap.add runningTrade tradeTsl }

def updateRunningTrades (updatedTrades : OrdMap Uuid Trade) : ActionResult ε LiveTradingSession :=
  if updatedTrades.isEmpty then .ok session
  else do
    let pass ← session.runningMap.tradesDesc.foldlM (updateOne sdk session.tslStepSize)
      { updatedTrades
        runningMap := .new
        trigger := .notSet
        balance := session.balance
        realizedPl := session.realizedPl }
    if !pass.updatedTrades.isEmpty then
      .error (.updatedTradesNotRunning (pass.updatedTrades.entries.map (·.1)))
    else
      pure
        { session with
          trigger := pass.trigger
          runningMap := pass.runningMap
          balance := pass.balance.toNat
          realizedPl := pass.realizedPl }

/-! #### Closures -/

def noteClosed (acc : OrdMap Uuid Trade × Option ℤ) (closedTrade : Trade) :
    ActionResult ε (OrdMap Uuid Trade × Option ℤ) := do
  let closedAt ← okOr closedTrade.closedAt (.tradeNotClosed closedTrade.id)
  if !session.runningMap.contains closedTrade.id then
    .error (.tradeNotRegistered closedTrade.id)
  else pure (acc.1.insert closedTrade.id closedTrade, laterTime acc.2 closedAt)

/-- What `close_trades` builds up over the running trades. -/
structure ClosePass where
  closedMap : OrdMap Uuid Trade
  runningMap : DynRunningTradesMap
  trigger : PriceTrigger
  balance : ℤ
  realizedPl : ℤ
  closedFees : ℕ
  closedHistory : DynClosedTradeHistory
  fundingFees : ℤ
  fundingSnapshot : OrdMap Uuid ℤ

/-- The fees of a closed trade since its baseline, which is dropped. -/
def realizeFunding (acc : ClosePass) (closedTrade : Trade) : ClosePass :=
  match acc.fundingSnapshot.get closedTrade.id with
  | some baseline =>
    { acc with
      fundingSnapshot := acc.fundingSnapshot.erase closedTrade.id
      fundingFees := acc.fundingFees + (closedTrade.sumFundingFees - baseline) }
  | none => acc

def closeOne (tslStepSize : PercentageCapped) (acc : ClosePass) (entry : TradeEntry) :
    ActionResult ε ClosePass :=
  let (runningTrade, tradeTsl) := entry
  match acc.closedMap.get runningTrade.id with
  | some closedTrade => do
    let acc := realizeFunding acc closedTrade
    let closedHistory ← (acc.closedHistory.add closedTrade).mapError .closedHistoryUpdate
    pure
      { acc with
        closedMap := acc.closedMap.erase runningTrade.id
        balance := acc.balance + (runningTrade.margin.asI64 + runningTrade.maintenanceMargin
          - closedTrade.closingFee + closedTrade.pl)
        realizedPl := acc.realizedPl + closedTrade.pl
        closedFees := acc.closedFees + (closedTrade.openingFee + closedTrade.closingFee)
        closedHistory }
  | none => do
    let trigger ← (acc.trigger.update sdk tslStepSize runningTrade.asRunning tradeTsl).mapError
      .priceTriggerUpdate
    pure { acc with trigger, runningMap := acc.runningMap.add runningTrade tradeTsl }

def closeTrades (closedTrades : List Trade) : ActionResult ε LiveTradingSession :=
  if closedTrades.isEmpty then .ok session
  else do
    let noted ← closedTrades.foldlM session.noteClosed (.empty, session.lastTradeTime)
    let pass ← session.runningMap.tradesDesc.foldlM (closeOne sdk session.tslStepSize)
      { closedMap := noted.1
        runningMap := .new
        trigger := .notSet
        balance := session.balance
        realizedPl := session.realizedPl
        closedFees := session.closedFees
        closedHistory := session.closedHistory
        fundingFees := session.fundingFees
        fundingSnapshot := session.fundingSnapshot }
    pure
      { session with
        lastTradeTime := noted.2
        trigger := pass.trigger
        runningMap := pass.runningMap
        balance := pass.balance.toNat
        realizedPl := pass.realizedPl
        closedFees := pass.closedFees
        closedHistory := pass.closedHistory
        fundingFees := pass.fundingFees
        fundingSnapshot := pass.fundingSnapshot }

/-! #### Cross operations -/

def replaceCrossPosition (crossPositionRaw : CrossPosition ε) :
    ActionResult ε LiveTradingSession := do
  let crossPosition ← session.crossPosition.updateFromRaw crossPositionRaw
  pure { session with crossPosition }

def applyCrossDeposit (amount : ℕ) (crossPositionRaw : CrossPosition ε) :
    ActionResult ε LiveTradingSession :=
  if session.balance < amount then .error .balanceTooLow
  else do
    let session' ← session.replaceCrossPosition crossPositionRaw
    pure { session' with balance := session.balance - amount }

def applyCrossWithdraw (amount : ℕ) (crossPositionRaw : CrossPosition ε) :
    ActionResult ε LiveTradingSession := do
  let newBalance ← okOr (U64.checkedAdd session.balance amount) .balanceTooHigh
  let session' ← session.replaceCrossPosition crossPositionRaw
  pure { session' with balance := newBalance }

def registerCrossOrder (newCrossPositionRaw : CrossPosition ε) (crossOrder : CrossOrder) :
    ActionResult ε LiveTradingSession := do
  let tradeTime := crossOrder.filledAt.getD crossOrder.createdAt
  let crossPosition ← session.crossPosition.updateAfterOrder newCrossPositionRaw
  pure { session with lastTradeTime := laterTime session.lastTradeTime tradeTime, crossPosition }

end LiveTradingSession

/-! ### Construction and renewal -/

def SESSION_EXPIRY_OFFSET_MIN : ℤ := 5

def sessionExpiry (now : ℤ) : ℤ :=
  let floorHour := now - now % Duration.hours 1
  if minute now < SESSION_EXPIRY_OFFSET_MIN then
    floorHour + Duration.minutes SESSION_EXPIRY_OFFSET_MIN
  else floorHour + Duration.hours 1 + Duration.minutes SESSION_EXPIRY_OFFSET_MIN

/-- What the database, the clock and the API answer while a session is built. -/
structure SessionSources (ε : Type) where
  latestEntry : Except DbError (Option (ℤ × F64))
  balance : Except ε ℕ
  now : ℤ
  crossPosition : Except ε (CrossPosition ε)
  tradesRunning : Except ε (List Trade)
  tradesClosed : (limit : ℕ) → Except ε (List Trade)
  runningTradesMap : Except DbError (OrdMap Uuid (Option TradeTrailingStoploss))
  removeRunningTrades : List Uuid → Except DbError Unit

namespace LiveTradingSession

/-- What confirming the missed closures builds up. -/
structure Reconciled where
  session : LiveTradingSession
  unconfirmed : List Uuid

/-- Books one trade of the page of closed trades, when it is one of the missed. -/
def confirmClosed (missedIds : List Uuid) (prevFundingSnapshot : OrdMap Uuid ℤ)
    (acc : Reconciled) (closedTrade : Trade) : ActionResult ε Reconciled :=
  if !missedIds.contains closedTrade.id then .ok acc
  else do
    let closedHistory ← (acc.session.closedHistory.add closedTrade).mapError .closedHistoryUpdate
    let baseline := (prevFundingSnapshot.get closedTrade.id).getD 0
    pure
      { unconfirmed := acc.unconfirmed.filter fun id => id ≠ closedTrade.id
        session :=
          { acc.session with
            realizedPl := acc.session.realizedPl + closedTrade.pl
            closedFees := acc.session.closedFees + (closedTrade.openingFee + closedTrade.closingFee)
            closedHistory
            fundingFees := acc.session.fundingFees + (closedTrade.sumFundingFees - baseline)
            lastTradeTime := match closedTrade.closedAt with
              | some closedAt => laterTime acc.session.lastTradeTime closedAt
              | none => acc.session.lastTradeTime } }

/-- The trades of the previous session that are no longer running. -/
def missedIds (prev : LiveTradingSession) (runningTrades : List Trade) : List Uuid :=
  (prev.runningMap.tradesDesc.map (·.1.id)).filter fun id =>
    !(runningTrades.map (·.id)).contains id

/-- Books the closures since the last evaluation of the previous session. -/
def reconcile (sources : SessionSources ε) (prev : LiveTradingSession)
    (runningTrades : List Trade) (session : LiveTradingSession) :
    ActionResult ε LiveTradingSession :=
  let missed := prev.missedIds runningTrades
  if missed.isEmpty then .ok session
  else do
    let limit := max prev.runningMap.len 1
    let closedTrades ← (sources.tradesClosed limit).mapError .restApi
    let acc ← closedTrades.foldlM (confirmClosed missed prev.fundingSnapshot) ⟨session, missed⟩
    match acc.unconfirmed with
    | tradeId :: _ => .error (.closedTradeNotConfirmed tradeId)
    | [] => pure acc.session

/-- Registers a trade that runs on the exchange, with its trailing stoploss of the database. -/
def recoverTrade (prevFundingSnapshot : OrdMap Uuid ℤ)
    (acc : LiveTradingSession × OrdMap Uuid (Option TradeTrailingStoploss)) (trade : Trade) :
    ActionResult ε (LiveTradingSession × OrdMap Uuid (Option TradeTrailingStoploss)) := do
  let tradeTsl := (acc.2.get trade.id).join
  let baseline := (prevFundingSnapshot.get trade.id).getD trade.sumFundingFees
  let session := { acc.1 with fundingFees := acc.1.fundingFees - baseline }
  let session' ← session.registerRunningTrade sdk trade tradeTsl false
  pure (session', acc.2.erase trade.id)

/-- Registers what runs on the exchange; the database forgets the trades that do not. -/
def recoverTrades (sources : SessionSources ε) (prevFundingSnapshot : OrdMap Uuid ℤ)
    (runningTrades : List Trade) (session : LiveTradingSession) :
    ActionResult ε LiveTradingSession := do
  let registeredTradesMap ← sources.runningTradesMap.mapError .db
  let acc ← runningTrades.foldlM (recoverTrade sdk prevFundingSnapshot)
    (session, registeredTradesMap)
  if acc.2.isEmpty then pure acc.1
  else do
    (sources.removeRunningTrades (acc.2.entries.map (·.1))).mapError .db
    pure acc.1

/-- The session before any trade is recovered. -/
def unrecovered (sources : SessionSources ε) (tslStepSize : PercentageCapped)
    (prev : Option LiveTradingSession) : ActionResult ε LiveTradingSession := do
  let latest ← sources.latestEntry.mapError .db
  let (latestEntryTime, latestEntryPrice) ← okOr latest .dbIsEmpty
  let balance ← sources.balance.mapError .restApi
  let crossPositionRaw ← sources.crossPosition.mapError .restApi
  let crossPosition ← match prev with
    | some prevSession => prevSession.crossPosition.updateFromRaw crossPositionRaw
    | none => (LiveCrossPosition.fromRaw crossPositionRaw 0).mapError .crossPositionValidation
  pure
    { expiresAt := sessionExpiry sources.now
      tslStepSize
      lastTradeTime := prev.bind (·.lastTradeTime)
      balance
      lastEvaluationTime := latestEntryTime
      lastPrice := latestEntryPrice
      trigger := .notSet
      runningMap := .new
      realizedPl := (prev.map (·.realizedPl)).getD 0
      closedHistory := (prev.map (·.closedHistory)).getD .new
      closedFees := (prev.map (·.closedFees)).getD 0
      fundingFees := (prev.map (·.fundingFees)).getD 0
      fundingSnapshot := .empty
      crossPosition }

def new (recoverTradesOnStartup : Bool) (tslStepSize : PercentageCapped)
    (sources : SessionSources ε) (prev : Option LiveTradingSession) :
    ActionResult ε LiveTradingSession := do
  let session ← unrecovered sources tslStepSize prev
  if !recoverTradesOnStartup then pure session
  else do
    let runningTrades ← sources.tradesRunning.mapError .restApi
    let session ← match prev with
      | some prevSession => prevSession.reconcile sources runningTrades session
      | none => pure session
    let prevFundingSnapshot := (prev.map (·.fundingSnapshot)).getD .empty
    session.recoverTrades sdk sources prevFundingSnapshot runningTrades

end LiveTradingSession

end Quantoxide
