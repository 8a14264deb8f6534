import Quantoxide.Model.LiveSession

/-! # The live trade executor

The operations of a ready executor. Each works on a copy of the session and stores it at its
end; what the exchange confirmed on the way stays confirmed when the operation fails later. -/

namespace Quantoxide

open Result

variable {ε : Type} (sdk : LnmSdk ε)

structure LiveTradeExecutorConfig where
  trailingStoplossStepSize : PercentageCapped
  tradeEstimatedFee : PercentageCapped
  tradeMaxRunningQtd : ℕ

/-- The session an operation leaves, what it returns, and the trades that the exchange
confirmed as opened and as closed during it. -/
structure LiveOutcome (ε α : Type) where
  session : LiveTradingSession
  result : ActionResult ε α
  opened : List Uuid
  closed : List Uuid

namespace LiveOutcome

variable {α : Type}

/-- An operation that ends before the exchange confirmed anything. -/
def rejected (session : LiveTradingSession) (e : ExecutorActionError ε) : LiveOutcome ε α :=
  ⟨session, .error e, [], []⟩

/-- The end of an operation: the new session is stored when there is one. -/
def store (session : LiveTradingSession) (opened closed : List Uuid)
    (r : ActionResult ε (LiveTradingSession × α)) : LiveOutcome ε α :=
  match r with
  | .ok (newSession, a) => ⟨newSession, .ok a, opened, closed⟩
  | .error e => ⟨session, .error e, opened, closed⟩

end LiveOutcome

namespace LiveTradeExecutor

variable (config : LiveTradeExecutorConfig) (session : LiveTradingSession)

/-! ### Orders -/

/-- What the database and the exchange answer to an order. -/
structure OrderAnswers (ε : Type) where
  latestEntry : Except DbError (Option (ℤ × F64))
  newTrade : TradeSide → TradeSize → Leverage → Option Price → Option Price → Except ε Trade
  addRunningTrade : Uuid → Option TradeTrailingStoploss → Except DbError Unit

def getEstimatedMarketPrice (latestEntry : Except DbError (Option (ℤ × F64))) :
    ActionResult ε Price := do
  let latest ← latestEntry.mapError .db
  let (_, lastEntryPrice) ← okOr latest .dbIsEmpty
  (sdk.round lastEntryPrice).mapError .invalidMarketPrice

/-- The checks before an order is sent: the price of its stoploss, and the trailing one. -/
def checkOrder (answers : OrderAnswers ε) (side : TradeSide) (size : TradeSize)
    (leverage : Leverage) (stoploss : Option Stoploss) (takeprofit : Option Price) :
    ActionResult ε (Option Price × Option TradeTrailingStoploss) := do
  let marketPrice ← getEstimatedMarketPrice sdk answers.latestEntry
  let (stoplossPrice, tradeTsl) ← match stoploss with
    | some stoploss => do
      let (stoplossPrice, tsl) ← (stoploss.evaluate sdk config.trailingStoplossStepSize side
        marketPrice).mapError .stoplossEvaluation
      pure (some stoplossPrice, tsl)
    | none => pure (none, none)
  let params ← (sdk.evaluateOpenTradeParams side size leverage marketPrice stoplossPrice
    takeprofit config.tradeEstimatedFee).mapError .invalidTradeParams
  if params.margin.asU64 + params.openingFee + params.closingFeeReserved > session.balance then
    .error .balanceTooLow
  else if session.runningMap.len = config.tradeMaxRunningQtd then
    .error (.maxRunningTradesReached config.tradeMaxRunningQtd)
  else pure (stoplossPrice, tradeTsl)

def executeIsolatedOrder (answers : OrderAnswers ε) (side : TradeSide) (size : TradeSize)
    (leverage : Leverage) (stoploss : Option Stoploss) (takeprofit : Option Price) :
    LiveOutcome ε Uuid :=
  match checkOrder sdk config session answers side size leverage stoploss takeprofit with
  | .error e => .rejected session e
  | .ok (stoplossPrice, tradeTsl) =>
    match answers.newTrade side size leverage stoplossPrice takeprofit with
    | .error e => .rejected session (.restApi e)
    | .ok trade => .store session [trade.id] [] do
      (answers.addRunningTrade trade.id tradeTsl).mapError .db
      let newSession ← session.registerRunningTrade sdk trade tradeTsl true
      pure (newSession, trade.id)

/-! ### Closures -/

/-- What the database and the exchange answer to closures. The removals are numbered, and so
are the closures that an interrupted pass over all trades still gets answered. -/
structure CloseAnswers (ε : Type) where
  closeTrade : Uuid → Except ε Trade
  removeRunningTrades : (call : ℕ) → List Uuid → Except DbError Unit
  cancelAllTrades : Except ε (List Trade)
  runningTrades : Except ε (List Trade)
  answeredBeforeCancelFails : ℕ

variable (answers : CloseAnswers ε)

def isolatedOrderClose (tradeId : Uuid) : LiveOutcome ε Unit :=
  if !session.runningMap.contains tradeId then .rejected session (.tradeNotRegistered tradeId)
  else
    match answers.closeTrade tradeId with
    | .error e => .rejected session (.restApi e)
    | .ok closedTrade => .store session [] [closedTrade.id] do
      (answers.removeRunningTrades 0 [closedTrade.id]).mapError .db
      let newSession ← session.closeTrades sdk [closedTrade]
      pure (newSession, ())

/-- `.chunks(3)`. -/
def chunksOfThree {α : Type} : List α → List (List α)
  | [] => []
  | [a] => [[a]]
  | [a, b] => [[a, b]]
  | a :: b :: c :: rest => [a, b, c] :: chunksOfThree rest

/-- The ids of the closures that the exchange confirmed among those it was asked for. -/
def confirmedIn (chunk : List Uuid) : List Uuid :=
  (chunk.filterMap fun id => (answers.closeTrade id).toOption).map (·.id)

/-- One batch: all its closures are awaited, and the first that failed ends the operation. -/
def closeChunk (call : ℕ) (newSession : LiveTradingSession) (chunk : List Uuid) :
    ActionResult ε (LiveTradingSession × List Uuid) := do
  let closedTrades ← (chunk.mapM answers.closeTrade).mapError .restApi
  let newSession ← newSession.closeTrades sdk closedTrades
  let closedIds := closedTrades.map (·.id)
  (answers.removeRunningTrades call closedIds).mapError .db
  pure (newSession, closedIds)

/-- The batches one after the other, with the ids confirmed until the end. -/
def closeChunks : ℕ → LiveTradingSession → List (List Uuid) →
    List Uuid × ActionResult ε (LiveTradingSession × List Uuid)
  | _, newSession, [] => ([], .ok (newSession, []))
  | call, newSession, chunk :: rest =>
    match closeChunk sdk answers call newSession chunk with
    | .error e => (confirmedIn answers chunk, .error e)
    | .ok (newSession, closedIds) =>
      let (confirmed, r) := closeChunks (call + 1) newSession rest
      (confirmedIn answers chunk ++ confirmed, r.map fun (s, ids) => (s, closedIds ++ ids))

/-- The trades of a side, newest first. -/
def toClose (side : TradeSide) : List Uuid :=
  (session.runningMap.tradesDesc.filter fun e => e.1.side = side).map (·.1.id)

def closeTrades (side : TradeSide) : LiveOutcome ε (List Uuid) :=
  let (confirmed, r) := closeChunks sdk answers 0 session (chunksOfThree (toClose session side))
  .store session [] confirmed r

def isolatedOrderCloseLongs : LiveOutcome ε (List Uuid) := closeTrades sdk session answers .buy

def isolatedOrderCloseShorts : LiveOutcome ε (List Uuid) := closeTrades sdk session answers .sell

/-- The closures that are answered in turn, up to the first that fails. -/
def closeInTurn : List Uuid → List Trade × Except ε (List Trade)
  | [] => ([], .ok [])
  | id :: rest =>
    match answers.closeTrade id with
    | .error e => ([], .error e)
    | .ok closedTrade =>
      let (confirmed, r) := closeInTurn rest
      (closedTrade :: confirmed, r.map (closedTrade :: ·))

/-- The running trades that `isolated_order_close_all` gets to: the cancellation runs beside
it, and stops it when it fails. -/
def reachedByCloseAll (runningTrades : List Trade) : List Uuid :=
  match answers.cancelAllTrades with
  | .ok _ => runningTrades.map (·.id)
  | .error _ => (runningTrades.take answers.answeredBeforeCancelFails).map (·.id)

def isolatedOrderCloseAll : LiveOutcome ε (List Uuid) :=
  match answers.runningTrades with
  | .error e => .rejected session (.restApi e)
  | .ok runningTrades =>
    let (confirmed, r) := closeInTurn answers (reachedByCloseAll answers runningTrades)
    .store session [] (confirmed.map (·.id)) do
      let closedTrades ← r.mapError .restApi
      let _ ← answers.cancelAllTrades.mapError .restApi
      let newSession ← session.closeTrades sdk closedTrades
      pure (newSession, closedTrades.map (·.id))

/-! ### Cross trading -/

/-- A cross operation returns the position that it stores. -/
def withCrossPosition (r : ActionResult ε LiveTradingSession) :
    ActionResult ε (LiveTradingSession × LiveCrossPosition) :=
  r.map fun newSession => (newSession, newSession.crossPosition)

def crossDeposit (amount : ℕ) (answer : Except ε (CrossPosition ε)) :
    LiveOutcome ε LiveCrossPosition :=
  .store session [] [] <| withCrossPosition do
    if amount > session.balance then .error .balanceTooLow
    else
      let crossPositionRaw ← answer.mapError .restApi
      session.applyCrossDeposit amount crossPositionRaw

def crossWithdraw (amount : ℕ) (answer : Except ε (CrossPosition ε)) :
    LiveOutcome ε LiveCrossPosition :=
  .store session [] [] <| withCrossPosition do
    let crossPositionRaw ← answer.mapError .restApi
    session.applyCrossWithdraw amount crossPositionRaw

def crossSetLeverage (leverage : CrossLeverage)
    (answer : CrossLeverage → Except ε (CrossPosition ε)) : LiveOutcome ε LiveCrossPosition :=
  .store session [] [] <| withCrossPosition do
    let crossPositionRaw ← (answer leverage).mapError .restApi
    session.replaceCrossPosition crossPositionRaw

/-- An order once it is sent: it has to be filled before the position is fetched. -/
def afterCrossOrder (orderAnswer : Except ε CrossOrder) (answer : Except ε (CrossPosition ε)) :
    ActionResult ε (LiveTradingSession × Uuid) := do
  let crossOrder ← orderAnswer.mapError .restApi
  if !crossOrder.filled then .error (.crossOrderNotFilled crossOrder.id)
  else
    let crossPositionRaw ← answer.mapError .restApi
    let newSession ← session.registerCrossOrder crossPositionRaw crossOrder
    pure (newSession, crossOrder.id)

def crossOrder (request : CrossOrderRequest)
    (orderAnswer : TradeSide → Quantity → Except ε CrossOrder)
    (answer : Except ε (CrossPosition ε)) : LiveOutcome ε Uuid :=
  .store session [] [] (afterCrossOrder session (orderAnswer request.side request.quantity) answer)

def crossOrderClosePosition (latest : Except ε (CrossPosition ε))
    (orderAnswer : Except ε CrossOrder) (answer : Except ε (CrossPosition ε)) :
    LiveOutcome ε (Option Uuid) :=
  .store session [] [] do
    let latestCrossPosition ← latest.mapError .restApi
    let newSession ← session.replaceCrossPosition latestCrossPosition
    if !newSession.crossPosition.isRunning then pure (newSession, none)
    else
      let (newSession, orderId) ← afterCrossOrder newSession orderAnswer answer
      pure (newSession, some orderId)

/-- `refresh_cross_position`, which a re-evaluation calls when a liquidation was reached. -/
def refreshCrossPosition (answer : Except ε (CrossPosition ε)) :
    ActionResult ε LiveTradingSession := do
  let crossPositionRaw ← answer.mapError .restApi
  session.replaceCrossPosition crossPositionRaw

end LiveTradeExecutor

end Quantoxide
