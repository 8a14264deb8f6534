import Quantoxide.Model.Time
import Quantoxide.Model.Trades

/-! # The simulated trade executor

A method returns the state it leaves behind with its result, so that an error path shows
what it has changed. Balances are exact integers. -/

namespace Quantoxide

open Result

structure SimulatedTradeExecutorConfig where
  tradeMaxRunningQtd : ℕ
  feePerc : PercentageCapped
  trailingStoplossStepSize : PercentageCapped

/-- An executor: its configuration, the SDK, and the ids `Uuid::new_v4` draws in turn. -/
structure SimulatedTradeExecutor (ε : Type) where
  config : SimulatedTradeExecutorConfig
  sdk : LnmSdk ε
  newV4 : ℕ → Uuid

structure SimulatedTradeExecutorState where
  time : ℤ
  marketPrice : F64
  balance : ℤ
  lastTradeTime : Option ℤ
  trigger : PriceTrigger
  runningMap : RunningTradesMap
  fundingFees : ℤ
  realizedPl : ℤ
  closedHistory : ClosedTradeHistory
  closedFees : ℕ
  crossPosition : SimulatedCrossPosition
  /-- How many ids have been drawn. -/
  drawn : ℕ
deriving DecidableEq

inductive Close
  | single (id : Uuid)
  | side (tradeSide : TradeSide)
  | all
deriving DecidableEq

def Close.selects (close : Close) (trade : SimulatedTradeRunning) : Bool :=
  match close with
  | .single id => id == trade.id
  | .side tradeSide => tradeSide == trade.side
  | .all => true

/-- The `new_*` variables of a pass over the running trades. -/
structure Pass where
  balance : ℤ
  realizedPl : ℤ
  closedFees : ℕ
  fundingFees : ℤ
  lastTradeTime : Option ℤ
  closedTrades : List SimulatedTradeClosed
  trigger : PriceTrigger
  runningMap : RunningTradesMap

namespace SimulatedTradeExecutor

variable {ε : Type} (ex : SimulatedTradeExecutor ε) (s : SimulatedTradeExecutorState)

/-- What a method leaves behind and returns. -/
abbrev Outcome (ε α : Type) := SimulatedTradeExecutorState × ExecutorResult ε α

def new (startCandle : OhlcCandleRow) (startBalance : ℕ) : SimulatedTradeExecutorState where
  time := startCandle.time
  marketPrice := startCandle.openPrice
  balance := startBalance
  lastTradeTime := none
  trigger := .notSet
  runningMap := .new
  fundingFees := 0
  realizedPl := 0
  closedHistory := .new
  closedFees := 0
  crossPosition := .initial ex.sdk
  drawn := 0

def updateTime (time : ℤ) : Outcome ε Unit :=
  if time < s.time then (s, .error (.timeSequenceViolation time s.time))
  else ({ s with time }, .ok ())

/-! ### Passes over the running trades -/

/-- The variables before the pass: the trigger and the map are rebuilt from nothing. -/
def startPass : Pass where
  balance := s.balance
  realizedPl := s.realizedPl
  closedFees := s.closedFees
  fundingFees := s.fundingFees
  lastTradeTime := s.lastTradeTime
  closedTrades := []
  trigger := .notSet
  runningMap := .new

/-- Returns a closed trade's margin and reserves to the balance and books its result. -/
def bookClosed (acc : Pass) (closed : SimulatedTradeClosed) : Pass :=
  { acc with
    balance := acc.balance + (closed.margin.asI64 + closed.maintenanceMargin
      - closed.closingFee + closed.pl ex.sdk)
    realizedPl := acc.realizedPl + closed.pl ex.sdk
    closedFees := acc.closedFees + (closed.openingFee + closed.closingFee)
    closedTrades := acc.closedTrades ++ [closed] }

def keepRunning (acc : Pass) (trade : SimulatedTradeRunning)
    (tradeTsl : Option TradeTrailingStoploss) : ExecutorResult ε Pass := do
  let trigger ← (acc.trigger.update ex.sdk ex.config.trailingStoplossStepSize trade
    tradeTsl).mapError .priceTriggerUpdate
  pure { acc with trigger, runningMap := acc.runningMap.add trade tradeTsl }

def addClosed (history : ClosedTradeHistory) (closed : List SimulatedTradeClosed) :
    ExecutorResult ε ClosedTradeHistory :=
  closed.foldlM (fun history trade => (history.add trade).mapError .closedHistoryUpdate) history

/-! ### Candle updates -/

/-- The price a candle closes a trade at, if it does. -/
def candleExit (candle : OhlcCandleRow) (trade : SimulatedTradeRunning) : Option Price :=
  let (tradeMin, tradeMax) := match trade.side with
    | .buy => (some trade.exitBound, trade.takeprofit)
    | .sell => (trade.takeprofit, some trade.exitBound)
  match tradeMin.filter (fun p => candle.low ≤ p.asF64) with
  | some p => some p
  | none => tradeMax.filter (fun p => candle.high ≥ p.asF64)

/-- The stoploss a candle moves a trailing one to, once the next trigger is met. -/
def trailedStoploss (candle : OhlcCandleRow) (side : TradeSide) (tsl : TradeTrailingStoploss)
    (nextTrigger marketPrice : Price) : ExecutorResult ε (Option Price) :=
  match side with
  | .buy => do
    let highestPrice ← (ex.sdk.round candle.high).mapError .tickUpdatePriceValidation
    if highestPrice ≥ nextTrigger then
      let newStoploss ← (ex.sdk.applyDiscount highestPrice tsl.perc).mapError
        .tickUpdatePriceValidation
      pure (if newStoploss < marketPrice then some newStoploss else none)
    else pure none
  | .sell => do
    let lowestPrice ← (ex.sdk.round candle.low).mapError .tickUpdatePriceValidation
    if lowestPrice ≤ nextTrigger then
      let newStoploss ← (ex.sdk.applyGain lowestPrice tsl.perc).mapError
        .tickUpdatePriceValidation
      pure (if newStoploss > marketPrice then some newStoploss else none)
    else pure none

/-- The trade with its trailing stoploss moved by the candle. -/
def trailStoploss (candle : OhlcCandleRow) (trade : SimulatedTradeRunning)
    (tradeTsl : Option TradeTrailingStoploss) : ExecutorResult ε SimulatedTradeRunning :=
  match tradeTsl with
  | none => .ok trade
  | some tsl => do
    let nextTrigger ← (trade.nextStoplossUpdateTrigger ex.sdk
      ex.config.trailingStoplossStepSize tsl).mapError .stoplossEvaluation
    let marketPrice ← (ex.sdk.round candle.close).mapError .tickUpdatePriceValidation
    match ← ex.trailedStoploss candle trade.side tsl nextTrigger marketPrice with
    | some newStoploss => trade.withNewStoploss ex.sdk marketPrice newStoploss
    | none => pure trade

/-- The loop body of `candle_update`. -/
def candleTrade (candle : OhlcCandleRow) (acc : Pass) (entry : RunningEntry) :
    ExecutorResult ε Pass :=
  let (trade, tradeTsl) := entry
  match candleExit candle trade with
  | some exitPrice =>
    let closed := trade.toClosed ex.sdk ex.config.feePerc candle.time exitPrice
    .ok { ex.bookClosed acc closed with
      lastTradeTime := some (candle.time + Duration.seconds 59) }
  | none => do
    let trade ← ex.trailStoploss candle trade tradeTsl
    ex.keepRunning acc trade tradeTsl

/-- The per-trade loop of `candle_update`. -/
def candleLoop (candle : OhlcCandleRow) (acc : Pass) : ExecutorResult ε Pass :=
  s.runningMap.tradesDesc.foldlM (ex.candleTrade candle) acc

/-- The entries after a loop that failed: up to the failure each kept trade has been written
back with its moved stoploss. -/
def candleWrites (candle : OhlcCandleRow) : List RunningEntry → List RunningEntry
  | [] => []
  | (trade, tradeTsl) :: rest =>
    match candleExit candle trade with
    | some _ => (trade, tradeTsl) :: candleWrites candle rest
    | none =>
      match ex.trailStoploss candle trade tradeTsl with
      | .error _ => (trade, tradeTsl) :: rest
      | .ok trade' =>
        match trade'.evalTriggerBounds ex.sdk ex.config.trailingStoplossStepSize tradeTsl with
        | .error _ => (trade', tradeTsl) :: rest
        | .ok _ => (trade', tradeTsl) :: candleWrites candle rest

/-- The cross position after a candle, liquidated if its price was reached. -/
def crossAfterCandle (candle : OhlcCandleRow) :
    ExecutorResult ε (SimulatedCrossPosition × Option ℤ) :=
  if s.crossPosition.liquidationReached candle then
    (s.crossPosition.liquidate ex.sdk ex.config.feePerc).map fun p =>
      (p, some (candle.time + Duration.seconds 59))
  else .ok (s.crossPosition, s.lastTradeTime)

def candleUpdate (candle : OhlcCandleRow) : Outcome ε Unit :=
  let time := candle.time + Duration.seconds 59
  if time < s.time then (s, .error (.timeSequenceViolation time s.time))
  else
    match ex.crossAfterCandle s candle with
    | .error e => (s, .error e)
    | .ok (newCrossPosition, newLastTradeTime) =>
      if !s.trigger.wasReached candle.low && !s.trigger.wasReached candle.high then
        ({ s with
          time
          marketPrice := candle.close
          lastTradeTime := newLastTradeTime
          crossPosition := newCrossPosition }, .ok ())
      else
        match ex.candleLoop s candle { startPass s with lastTradeTime := newLastTradeTime } with
        | .error e =>
          ({ s with runningMap := { s.runningMap with
            trades := s.runningMap.trades.withValuesDesc
              (ex.candleWrites candle s.runningMap.tradesDesc) } }, .error e)
        | .ok acc =>
          match addClosed s.closedHistory acc.closedTrades with
          | .error e => (s, .error e)
          | .ok closedHistory =>
            ({ s with
              time
              marketPrice := candle.close
              balance := acc.balance
              lastTradeTime := acc.lastTradeTime
              trigger := acc.trigger
              runningMap := acc.runningMap
              realizedPl := acc.realizedPl
              closedHistory
              closedFees := acc.closedFees
              crossPosition := newCrossPosition }, .ok ())

/-! ### Funding settlements -/

/-- The loop body of `apply_funding_settlement`. -/
def settleTrade (settlement : FundingSettlementRow) (acc : Pass) (entry : RunningEntry) :
    ExecutorResult ε Pass := do
  let (trade, tradeTsl) := entry
  let (updatedTrade, fundingFee) ← trade.applyFundingSettlement ex.sdk settlement
  let acc := { acc with fundingFees := acc.fundingFees + fundingFee }
  match updatedTrade with
  | some updatedTrade =>
    let acc := if fundingFee < 0 then { acc with balance := acc.balance - fundingFee } else acc
    ex.keepRunning acc updatedTrade tradeTsl
  | none =>
    -- The fee leaves no valid margin or leverage: closed at the market price.
    let closingPrice ← (ex.sdk.round s.marketPrice).mapError .invalidMarketPrice
    let closed := trade.toClosed ex.sdk ex.config.feePerc settlement.time closingPrice
    let acc := ex.bookClosed acc closed
    pure { acc with
      balance := acc.balance - fundingFee
      lastTradeTime := some settlement.time }

def applyFundingSettlement (settlement : FundingSettlementRow) : Outcome ε Unit :=
  if s.runningMap.isEmpty && s.crossPosition.quantity == 0 then (s, .ok ())
  else
    match s.runningMap.tradesDesc.foldlM (ex.settleTrade s settlement) (startPass s) with
    | .error e => (s, .error e)
    | .ok acc =>
      match addClosed s.closedHistory acc.closedTrades with
      | .error e => (s, .error e)
      | .ok closedHistory =>
        match s.crossPosition.applyFundingSettlement ex.sdk s.marketPrice settlement
          ex.config.feePerc with
        | .error e => ({ s with closedHistory }, .error e)
        | .ok (newCrossPosition, _, crossForcedFlattened) =>
          ({ s with
            balance := acc.balance
            trigger := acc.trigger
            runningMap := acc.runningMap
            crossPosition := newCrossPosition
            fundingFees := acc.fundingFees
            realizedPl := acc.realizedPl
            closedHistory
            closedFees := acc.closedFees
            lastTradeTime :=
              if crossForcedFlattened then some settlement.time else acc.lastTradeTime }, .ok ())

/-! ### Operator methods -/

/-- The loop body of `close_running`. -/
def closeTrade (close : Close) (marketPrice : Price) (acc : Pass) (entry : RunningEntry) :
    ExecutorResult ε Pass :=
  let (trade, tradeTsl) := entry
  if close.selects trade then
    .ok (ex.bookClosed acc (trade.toClosed ex.sdk ex.config.feePerc s.time marketPrice))
  else ex.keepRunning acc trade tradeTsl

/-- The loop of `close_running` and the closed history it adds to. -/
def closePass (close : Close) : ExecutorResult ε (Pass × ClosedTradeHistory) := do
  let marketPrice ← (ex.sdk.round s.marketPrice).mapError .invalidMarketPrice
  let acc ← s.runningMap.tradesDesc.foldlM (ex.closeTrade s close marketPrice) (startPass s)
  let closedHistory ← addClosed s.closedHistory acc.closedTrades
  pure (acc, closedHistory)

def closeRunning (close : Close) : Outcome ε (List Uuid) :=
  match ex.closePass s close with
  | .error e => (s, .error e)
  | .ok (acc, closedHistory) =>
    ({ s with
      balance := acc.balance
      lastTradeTime := some s.time
      trigger := acc.trigger
      runningMap := acc.runningMap
      realizedPl := acc.realizedPl
      closedHistory
      closedFees := acc.closedFees }, .ok (acc.closedTrades.map (·.id)))

/-- The cross position after an order at the market price. -/
def orderedPosition (side : TradeSide) (quantity : Quantity) :
    ExecutorResult ε SimulatedCrossPosition := do
  let marketPrice ← (ex.sdk.round s.marketPrice).mapError .invalidMarketPrice
  s.crossPosition.withMarketOrder ex.sdk marketPrice side quantity ex.config.feePerc

def executeCrossOrder (side : TradeSide) (quantity : Quantity) : Outcome ε Uuid :=
  match ex.orderedPosition s side quantity with
  | .error e => (s, .error e)
  | .ok newCrossPosition =>
    ({ s with
      drawn := s.drawn + 1
      lastTradeTime := some s.time
      crossPosition := newCrossPosition }, .ok (ex.newV4 s.drawn))

/-- The stoploss price of an order, and its trailing distance. -/
def orderStoploss (side : TradeSide) (marketPrice : Price) :
    Option Stoploss → ExecutorResult ε (Option Price × Option TradeTrailingStoploss)
  | some stoploss => do
    let (stoplossPrice, tsl) ← (stoploss.evaluate ex.sdk ex.config.trailingStoplossStepSize
      side marketPrice).mapError .stoplossEvaluation
    pure (some stoplossPrice, tsl)
  | none => pure (none, none)

/-- The part of `create_running` up to the new trade. -/
def openTrade (side : TradeSide) (size : TradeSize) (leverage : Leverage)
    (stoploss : Option Stoploss) (takeprofit : Option Price) : ExecutorResult ε RunningEntry := do
  let marketPrice ← (ex.sdk.round s.marketPrice).mapError .invalidMarketPrice
  let (stoplossPrice, tradeTsl) ← ex.orderStoploss side marketPrice stoploss
  let trade ← SimulatedTradeRunning.new ex.sdk (ex.newV4 s.drawn) side size leverage s.time
    marketPrice stoplossPrice takeprofit ex.config.feePerc
  pure (trade, tradeTsl)

def createRunning (side : TradeSide) (size : TradeSize) (leverage : Leverage)
    (stoploss : Option Stoploss) (takeprofit : Option Price) : Outcome ε Uuid :=
  match ex.openTrade s side size leverage stoploss takeprofit with
  | .error e => (s, .error e)
  | .ok (trade, tradeTsl) =>
    let s := { s with drawn := s.drawn + 1 }
    if trade.margin.asI64 + trade.maintenanceMargin > s.balance then (s, .error .balanceTooLow)
    else if s.runningMap.len ≥ ex.config.tradeMaxRunningQtd then
      (s, .error (.maxRunningTradesReached ex.config.tradeMaxRunningQtd))
    else
      let s := { s with
        balance := s.balance
          - (trade.margin.asI64 + trade.maintenanceMargin + trade.openingFee)
        lastTradeTime := some trade.entryTime }
      match s.trigger.update ex.sdk ex.config.trailingStoplossStepSize trade tradeTsl with
      | .error e => (s, .error (.priceTriggerUpdate e))
      | .ok trigger =>
        ({ s with trigger, runningMap := s.runningMap.add trade tradeTsl }, .ok trade.id)

def isolatedOrder (request : IsolatedOrderRequest) : Outcome ε Uuid :=
  ex.createRunning s request.side request.size request.leverage request.stoploss
    request.takeprofit

/-- `*trade = updated_trade` through the reference `get_by_id_mut` lent. -/
def writeTrade (key : TradeReference) (entry : RunningEntry) : SimulatedTradeExecutorState :=
  { s with runningMap := { s.runningMap with trades := s.runningMap.trades.set key entry } }

def isolatedTradeAddMargin (tradeId : Uuid) (amount : ℕ) : Outcome ε Unit :=
  if s.balance < I64.ofU64 amount then (s, .error .balanceTooLow)
  else
    match s.runningMap.getById tradeId with
    | none => (s, .error (.tradeNotRunning tradeId))
    | some (key, trade, tradeTsl) =>
      match trade.withAddedMargin ex.sdk amount with
      | .error e => (s, .error e)
      | .ok updatedTrade =>
        ({ writeTrade s key (updatedTrade, tradeTsl) with
          balance := s.balance - I64.ofU64 amount }, .ok ())

def isolatedTradeCashIn (tradeId : Uuid) (amount : ℕ) : Outcome ε Unit :=
  let marketPrice := ex.sdk.bounded s.marketPrice
  match s.runningMap.getById tradeId with
  | none => (s, .error (.tradeNotRunning tradeId))
  | some (key, trade, tradeTsl) =>
    match trade.withCashIn ex.sdk marketPrice amount with
    | .error e => (s, .error e)
    | .ok updatedTrade =>
      let cashedInPl := F64.roundI64 (trade.estPl ex.sdk updatedTrade.price)
      ({ writeTrade s key (updatedTrade, tradeTsl) with
        balance := s.balance + amount
        realizedPl := s.realizedPl + cashedInPl }, .ok ())

/-- Commits a new cross position when it is coherent at the market price. -/
def crossCommit (balance : ℤ) (newCrossPosition : ExecutorResult ε SimulatedCrossPosition) :
    Outcome ε SimulatedCrossPosition :=
  match newCrossPosition with
  | .error e => (s, .error e)
  | .ok newCrossPosition =>
    if !newCrossPosition.isCoherent ex.sdk (ex.sdk.bounded s.marketPrice) then
      (s, .error .crossPositionIncoherent)
    else ({ s with balance, crossPosition := newCrossPosition }, .ok newCrossPosition)

def crossDeposit (amount : ℕ) : Outcome ε SimulatedCrossPosition :=
  match I64.tryFrom amount with
  | none => (s, .error .crossPositionOverflow)
  | some amountI64 =>
    if s.balance < amountI64 then (s, .error .balanceTooLow)
    else
      ex.crossCommit s (s.balance - amountI64) do
        let newCrossMargin ←
          okOr (U64.checkedAdd s.crossPosition.margin amount) .crossPositionOverflow
        s.crossPosition.withMargin ex.sdk newCrossMargin

def crossWithdraw (amount : ℕ) : Outcome ε SimulatedCrossPosition :=
  match I64.tryFrom amount with
  | none => (s, .error .crossPositionOverflow)
  | some amountI64 =>
    let freeMargin := s.crossPosition.estFreeMargin ex.sdk (ex.sdk.bounded s.marketPrice)
    if amount > freeMargin ∨ (s.crossPosition.quantity ≠ 0 ∧ amount = freeMargin) then
      (s, .error .crossFreeMarginTooLow)
    else
      match I64.checkedAdd s.balance amountI64 with
      | none => (s, .error .crossPositionOverflow)
      | some balance =>
        ex.crossCommit s balance
          (s.crossPosition.withMargin ex.sdk (s.crossPosition.margin - amount))

def crossSetLeverage (leverage : CrossLeverage) : Outcome ε SimulatedCrossPosition :=
  ex.crossCommit s s.balance (s.crossPosition.withLeverage ex.sdk leverage)

def crossOrder (request : CrossOrderRequest) : Outcome ε Uuid :=
  ex.executeCrossOrder s request.side request.quantity

/-- The cross position closed at the market price. -/
def closedPosition : ExecutorResult ε SimulatedCrossPosition := do
  let marketPrice ← (ex.sdk.round s.marketPrice).mapError .invalidMarketPrice
  s.crossPosition.close ex.sdk marketPrice ex.config.feePerc

def crossOrderClosePosition : Outcome ε (Option Uuid) :=
  if s.crossPosition.quantity = 0 then (s, .ok none)
  else
    match ex.closedPosition s with
    | .error e => (s, .error e)
    | .ok newCrossPosition =>
      ({ s with
        drawn := s.drawn + 1
        crossPosition := newCrossPosition
        lastTradeTime := some s.time }, .ok (some (ex.newV4 s.drawn)))

end SimulatedTradeExecutor

structure TradingState where
  lastTickTime : ℤ
  balance : ℕ
  marketPrice : Price
  lastTradeTime : Option ℤ
  running : RunningTradesMap
  fundingFees : ℤ
  realizedPl : ℤ
  closedHistory : ClosedTradeHistory
  closedFees : ℕ
  crossPosition : SimulatedCrossPosition
deriving DecidableEq

def SimulatedTradeExecutor.tradingState {ε : Type} (ex : SimulatedTradeExecutor ε)
    (s : SimulatedTradeExecutorState) : TradingState where
  lastTickTime := s.time
  balance := s.balance.toNat
  marketPrice := ex.sdk.bounded s.marketPrice
  lastTradeTime := s.lastTradeTime
  running := s.runningMap
  fundingFees := s.fundingFees
  realizedPl := s.realizedPl
  closedHistory := s.closedHistory
  closedFees := s.closedFees
  crossPosition := s.crossPosition

/-! ### The `TradeExecutor` interface -/

/-- A method an operator can call, with its arguments. -/
inductive Call
  | isolatedOrder (request : IsolatedOrderRequest)
  | isolatedTradeAddMargin (tradeId : Uuid) (amount : ℕ)
  | isolatedTradeCashIn (tradeId : Uuid) (amount : ℕ)
  | isolatedOrderClose (tradeId : Uuid)
  | isolatedOrderCloseLongs
  | isolatedOrderCloseShorts
  | isolatedOrderCloseAll
  | crossDeposit (amount : ℕ)
  | crossWithdraw (amount : ℕ)
  | crossSetLeverage (leverage : CrossLeverage)
  | crossOrder (request : CrossOrderRequest)
  | crossOrderClosePosition
  | tradingState

inductive Answer
  | unit
  | id (id : Uuid)
  | ids (ids : List Uuid)
  | order (id : Option Uuid)
  | position (position : SimulatedCrossPosition)
  | state (state : TradingState)

/-- An outcome with its answer wrapped. -/
def answer {ε α : Type} (wrap : α → Answer) (out : SimulatedTradeExecutor.Outcome ε α) :
    SimulatedTradeExecutor.Outcome ε Answer :=
  (out.1, out.2.map wrap)

def Call.execute {ε : Type} (ex : SimulatedTradeExecutor ε) (s : SimulatedTradeExecutorState) :
    Call → SimulatedTradeExecutor.Outcome ε Answer
  | isolatedOrder request => answer .id (ex.isolatedOrder s request)
  | isolatedTradeAddMargin tradeId amount =>
    answer (fun _ => .unit) (ex.isolatedTradeAddMargin s tradeId amount)
  | isolatedTradeCashIn tradeId amount =>
    answer (fun _ => .unit) (ex.isolatedTradeCashIn s tradeId amount)
  | isolatedOrderClose tradeId => answer (fun _ => .unit) (ex.closeRunning s (.single tradeId))
  | isolatedOrderCloseLongs => answer .ids (ex.closeRunning s (.side .buy))
  | isolatedOrderCloseShorts => answer .ids (ex.closeRunning s (.side .sell))
  | isolatedOrderCloseAll => answer .ids (ex.closeRunning s .all)
  | crossDeposit amount => answer .position (ex.crossDeposit s amount)
  | crossWithdraw amount => answer .position (ex.crossWithdraw s amount)
  | crossSetLeverage leverage => answer .position (ex.crossSetLeverage s leverage)
  | crossOrder request => answer .id (ex.crossOrder s request)
  | crossOrderClosePosition => answer .order (ex.crossOrderClosePosition s)
  | tradingState => (s, .ok (.state (ex.tradingState s)))

end Quantoxide
