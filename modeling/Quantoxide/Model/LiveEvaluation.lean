import Quantoxide.Model.LiveSession
import Quantoxide.Model.PriceTicks

/-! # Evaluating the live session

`reevaluate` looks at the prices since its last call. It closes the trades these have closed,
once the exchange confirms it, and moves the trailing stoplosses. -/

namespace Quantoxide

open Result

variable {ε : Type} (sdk : LnmSdk ε)

/-- What the API answers while a session is evaluated. -/
structure EvaluationSources (ε : Type) where
  crossPosition : Except ε (CrossPosition ε)
  tradesClosed : (limit : ℕ) → Except ε (List Trade)
  updateStoploss : Uuid → Price → Except ε Trade

/-- What the loop over the running trades collects; the ids are a set. -/
structure RangeChecks where
  toConfirmClosed : List Uuid
  toUpdate : List (Uuid × Price)

namespace LiveTradingSession

variable (session : LiveTradingSession)

def checkOnRange (rangeMin rangeMax : F64) (acc : RangeChecks) (entry : TradeEntry) :
    ActionResult ε RangeChecks :=
  let (trade, tradeTsl) := entry
  if trade.wasClosedOnRange rangeMin rangeMax then
    .ok { acc with toConfirmClosed := acc.toConfirmClosed.insert trade.id }
  else
    match tradeTsl with
    | none => .ok acc
    | some tradeTsl => do
      let newStoploss ← (trade.evalNewStoplossOnRange sdk session.tslStepSize tradeTsl rangeMin
        rangeMax).mapError .stoplossEvaluation
      match newStoploss with
      | none => pure acc
      | some newStoploss => pure { acc with toUpdate := acc.toUpdate ++ [(trade.id, newStoploss)] }

/-- `to_confirm_closed.remove(..)` for a closed trade of the page. -/
def confirmOne (toConfirmClosed : List Uuid) (closedTrade : Trade) :
    ActionResult ε (List Uuid) :=
  if toConfirmClosed.contains closedTrade.id then .ok (toConfirmClosed.erase closedTrade.id)
  else .error (.unexpectedClosedTrade closedTrade.id)

/-- The page of closed trades, when it is of exactly the trades to confirm. -/
def confirmClosures (sources : EvaluationSources ε) (toConfirmClosed : List Uuid) :
    ActionResult ε (List Trade) :=
  if toConfirmClosed.isEmpty then .ok []
  else do
    let recentlyClosed ← (sources.tradesClosed toConfirmClosed.length).mapError .restApi
    let unconfirmed ← recentlyClosed.foldlM confirmOne toConfirmClosed
    match unconfirmed with
    | tradeId :: _ => .error (.closedTradeNotConfirmed tradeId)
    | [] => pure recentlyClosed

def refreshCrossPosition (sources : EvaluationSources ε) : ActionResult ε LiveTradingSession := do
  let crossPositionRaw ← sources.crossPosition.mapError .restApi
  session.replaceCrossPosition crossPositionRaw

def refreshOnLiquidation (sources : EvaluationSources ε) (rangeMin rangeMax : F64) :
    ActionResult ε LiveTradingSession :=
  if session.crossPosition.liquidationWasReached rangeMin rangeMax then
    session.refreshCrossPosition sources
  else .ok session

/-- `reevaluate` once it has its range: what it leaves of the session and the closed trades. -/
def evaluateOnRange (sources : EvaluationSources ε) (rangeMin rangeMax : F64) :
    ActionResult ε (LiveTradingSession × List Trade) := do
  let session ← session.refreshOnLiquidation sources rangeMin rangeMax
  if !session.trigger.wasReached rangeMin && !session.trigger.wasReached rangeMax then
    pure (session, [])
  else
    let checks ← session.runningMap.tradesDesc.foldlM
      (session.checkOnRange sdk rangeMin rangeMax) ⟨[], []⟩
    let closedTrades ← confirmClosures sources checks.toConfirmClosed
    -- The requests go out three at a time and their answers are taken in order.
    let updatedTrades ← checks.toUpdate.mapM fun update =>
      (sources.updateStoploss update.1 update.2).mapError .restApi
    let session ← session.updateRunningTrades sdk (tradesById updatedTrades)
    let session ← session.closeTrades sdk closedTrades
    pure (session, closedTrades)

def reevaluate (tables : PriceTables) (sources : EvaluationSources ε) :
    ActionResult ε (LiveTradingSession × List Trade) := do
  let (range, latestEntry) ← okOr (tables.getPriceRangeFrom session.lastEvaluationTime) .dbIsEmpty
  let session :=
    { session with lastEvaluationTime := latestEntry.time, lastPrice := latestEntry.price }
  session.evaluateOnRange sdk sources range.1 range.2

end LiveTradingSession

end Quantoxide
