import Mathlib.Data.Prod.Lex
import Quantoxide.Library.OrdMap
import Quantoxide.Library.Result
import Quantoxide.Model.Candles
import Quantoxide.Model.CrossPosition
import Quantoxide.Model.Errors

/-! # Isolated trades

Running and closed simulated trades, the price bounds that trigger their re-evaluation,
and the two maps that hold them. -/

namespace Quantoxide

open Result

/-- The key of both trade maps, ordered by creation time and then by id. -/
abbrev TradeReference := Lex (ℤ × Uuid)

structure TradeTrailingStoploss where
  perc : PercentageCapped
deriving DecidableEq

structure SimulatedTradeClosed where
  id : Uuid
  side : TradeSide
  entryTime : ℤ
  entryPrice : Price
  price : Price
  liquidation : Price
  stoploss : Option Price
  takeprofit : Option Price
  margin : Margin
  quantity : Quantity
  leverage : Leverage
  closeTime : ℤ
  closePrice : Price
  openingFee : ℕ
  closingFeeReserved : ℕ
  closingFee : ℕ
deriving DecidableEq

structure SimulatedTradeRunning where
  id : Uuid
  side : TradeSide
  openingFee : ℕ
  closingFeeReserved : ℕ
  quantity : Quantity
  margin : Margin
  leverage : Leverage
  price : Price
  liquidation : Price
  stoploss : Option Price
  takeprofit : Option Price
  entryTime : ℤ
  entryPrice : Price
deriving DecidableEq

variable {ε : Type} (sdk : LnmSdk ε)

namespace SimulatedTradeClosed

def maintenanceMargin (t : SimulatedTradeClosed) : ℤ := t.openingFee + t.closingFeeReserved

def exitPrice (t : SimulatedTradeClosed) : Option Price := some t.closePrice

def closedAt (t : SimulatedTradeClosed) : Option ℤ := some t.closeTime

def closed (_ : SimulatedTradeClosed) : Bool := true

def pl (t : SimulatedTradeClosed) : ℤ :=
  F64.floorI64 (sdk.estimatePl t.side t.quantity t.price t.closePrice)

def reference (t : SimulatedTradeClosed) : TradeReference := toLex (t.entryTime, t.id)

end SimulatedTradeClosed

namespace SimulatedTradeRunning

def new (id : Uuid) (side : TradeSide) (size : TradeSize) (leverage : Leverage) (entryTime : ℤ)
    (entryPrice : Price) (stoploss takeprofit : Option Price) (feePerc : PercentageCapped) :
    ExecutorResult ε SimulatedTradeRunning := do
  let p ← (sdk.evaluateOpenTradeParams side size leverage entryPrice stoploss takeprofit
    feePerc).mapError .tradeValidation
  pure
    { id
      side
      openingFee := p.openingFee
      closingFeeReserved := p.closingFeeReserved
      quantity := p.quantity
      margin := p.margin
      leverage
      price := entryPrice
      liquidation := p.liquidation
      stoploss
      takeprofit
      entryTime
      entryPrice }

def maintenanceMargin (t : SimulatedTradeRunning) : ℤ := t.openingFee + t.closingFeeReserved

def reference (t : SimulatedTradeRunning) : TradeReference := toLex (t.entryTime, t.id)

def estPl (t : SimulatedTradeRunning) (marketPrice : Price) : F64 :=
  sdk.estimatePl t.side t.quantity t.price marketPrice

def withNewStoploss (t : SimulatedTradeRunning) (marketPrice newStoploss : Price) :
    ExecutorResult ε SimulatedTradeRunning := do
  (sdk.evaluateNewStoploss t.side t.liquidation t.takeprofit marketPrice newStoploss).mapError
    .tradeValidation
  pure { t with stoploss := some newStoploss }

def withAddedMargin (t : SimulatedTradeRunning) (amount : ℕ) :
    ExecutorResult ε SimulatedTradeRunning := do
  let r ← (sdk.evaluateAddedMargin t.side t.quantity t.price t.margin amount).mapError
    .tradeValidation
  pure { t with margin := r.margin, leverage := r.leverage, liquidation := r.liquidation }

def withCashIn (t : SimulatedTradeRunning) (marketPrice : Price) (amount : ℕ) :
    ExecutorResult ε SimulatedTradeRunning := do
  let r ← (sdk.evaluateCashIn t.side t.quantity t.margin t.price t.stoploss marketPrice
    amount).mapError .tradeValidation
  pure
    { t with
      price := r.price
      stoploss := r.stoploss
      margin := r.margin
      leverage := r.leverage
      liquidation := r.liquidation }

/-- The trade after a settlement, `none` when its margin or leverage became invalid, with
the fee: positive fees come out of the margin, the caller books the negative ones. -/
def applyFundingSettlement (t : SimulatedTradeRunning) (settlement : FundingSettlementRow) :
    ExecutorResult ε (Option SimulatedTradeRunning × ℤ) :=
  let fundingFee := settlement.fundingFee t.side t.quantity
  if fundingFee ≤ 0 then .ok (some t, fundingFee)
  else
    match sdk.marginTrySub t.margin fundingFee with
    | .error _ => .ok (none, fundingFee)
    | .ok newMargin =>
      let updated (newLeverage : Leverage) : SimulatedTradeRunning :=
        { t with
          margin := newMargin
          leverage := newLeverage
          liquidation := sdk.estLiquidationFromLeverage t.side t.quantity t.price newLeverage }
      match sdk.leverageTryCalculate t.quantity newMargin t.price with
      | .ok newLeverage => .ok (some (updated newLeverage), fundingFee)
      -- Overcollateralized: the leverage is clamped and the trade kept running.
      | .error .tooLow => .ok (some (updated sdk.leverageMin), fundingFee)
      | .error .tooHigh => .ok (none, fundingFee)
      | .error .notANumber => .error .unreachable
      | .error .other => .error .unreachable

def toClosed (t : SimulatedTradeRunning) (feePerc : PercentageCapped) (closeTime : ℤ)
    (closePrice : Price) : SimulatedTradeClosed where
  id := t.id
  side := t.side
  entryTime := t.entryTime
  entryPrice := t.entryPrice
  price := t.price
  liquidation := t.liquidation
  stoploss := t.stoploss
  takeprofit := t.takeprofit
  margin := t.margin
  quantity := t.quantity
  leverage := t.leverage
  closeTime := closeTime
  closePrice := closePrice
  openingFee := t.openingFee
  closingFeeReserved := t.closingFeeReserved
  closingFee := sdk.evaluateOrderFee feePerc t.quantity closePrice

/-! ### Price triggers -/

/-- The price that makes a trailing stoploss move. -/
def nextStoplossUpdateTrigger (t : SimulatedTradeRunning) (tslStepSize : PercentageCapped)
    (tradeTsl : TradeTrailingStoploss) : Except (TradeCoreError ε) Price :=
  let tsl := tradeTsl.perc
  if tsl < tslStepSize then
    .error (.invalidStoplossSmallerThanTrailingStepSize tsl tslStepSize)
  else do
    let currStoploss ← okOr t.stoploss (.noNextTriggerTradeStoplossNotSet t.id)
    match t.side with
    | .buy =>
      let nextStoploss ← (sdk.applyGain currStoploss tslStepSize).mapError
        (.invalidPriceApplyGain currStoploss tslStepSize)
      let tslFactor := 1 - tsl.asF64 / 100
      let triggerPrice := nextStoploss.asF64 / tslFactor
      (sdk.roundUp triggerPrice).mapError (.invalidPriceRounding triggerPrice)
    | .sell =>
      let nextStoploss ← (sdk.applyDiscount currStoploss tslStepSize).mapError
        (.invalidPriceApplyDiscount currStoploss tslStepSize)
      let tslFactor := 1 + tsl.asF64 / 100
      let triggerPrice := nextStoploss.asF64 / tslFactor
      (sdk.roundDown triggerPrice).mapError (.invalidPriceRounding triggerPrice)

/-- The price at which the trade is stopped: its stoploss, or else its liquidation. -/
def exitBound (t : SimulatedTradeRunning) : Price := t.stoploss.getD t.liquidation

def evalTriggerBounds (t : SimulatedTradeRunning) (tslStepSize : PercentageCapped)
    (tradeTsl : Option TradeTrailingStoploss) : Except (TradeCoreError ε) (Price × Price) := do
  let nextTrigger ← tradeTsl.mapM (t.nextStoplossUpdateTrigger sdk tslStepSize)
  match t.side with
  | .buy =>
    let takeprofitTrigger := t.takeprofit.getD sdk.priceMax
    pure (t.exitBound, min takeprofitTrigger (nextTrigger.getD sdk.priceMax))
  | .sell =>
    let takeprofitTrigger := t.takeprofit.getD sdk.priceMin
    pure (max takeprofitTrigger (nextTrigger.getD sdk.priceMin), t.exitBound)

def wasClosedOnRange (t : SimulatedTradeRunning) (rangeMin rangeMax : F64) : Bool :=
  match t.side with
  | .buy =>
    let stoplossReached := t.stoploss.any fun stoploss => rangeMin ≤ stoploss.asF64
    let liquidationReached := decide (rangeMin ≤ t.liquidation.asF64)
    let takeprofitReached := t.takeprofit.any fun takeprofit => rangeMax ≥ takeprofit.asF64
    stoplossReached || liquidationReached || takeprofitReached
  | .sell =>
    let stoplossReached := t.stoploss.any fun stoploss => rangeMax ≥ stoploss.asF64
    let liquidationReached := decide (rangeMax ≥ t.liquidation.asF64)
    let takeprofitReached := t.takeprofit.any fun takeprofit => rangeMin ≤ takeprofit.asF64
    stoplossReached || liquidationReached || takeprofitReached

/-- The stoploss a price range moves a trailing one to, once the next trigger is met. -/
def stoplossOnRange (t : SimulatedTradeRunning) (tradeTsl : TradeTrailingStoploss)
    (nextTrigger rangeMin rangeMax : F64) : Except (TradeCoreError ε) (Option Price) := do
  let newStoploss ← match t.side with
    | .buy =>
      if rangeMax ≥ nextTrigger then do
        let newStoploss ← (sdk.round rangeMax).mapError (.invalidPriceRounding rangeMax)
        let newStoploss ← (sdk.applyDiscount newStoploss tradeTsl.perc).mapError
          (.invalidPriceApplyDiscount newStoploss tradeTsl.perc)
        pure (some newStoploss)
      else pure none
    | .sell =>
      if rangeMin ≤ nextTrigger then do
        let newStoploss ← (sdk.round rangeMin).mapError (.invalidPriceRounding rangeMin)
        let newStoploss ← (sdk.applyGain newStoploss tradeTsl.perc).mapError
          (.invalidPriceApplyGain newStoploss tradeTsl.perc)
        pure (some newStoploss)
      else pure none
  -- Rounding can bring the new stoploss back to the current one.
  pure (newStoploss.filter (fun p => some p ≠ t.stoploss))

def evalNewStoplossOnRange (t : SimulatedTradeRunning) (tslStepSize : PercentageCapped)
    (tradeTsl : TradeTrailingStoploss) (rangeMin rangeMax : F64) :
    Except (TradeCoreError ε) (Option Price) := do
  let nextTrigger ← t.nextStoplossUpdateTrigger sdk tslStepSize tradeTsl
  t.stoplossOnRange sdk tradeTsl nextTrigger.asF64 rangeMin rangeMax

end SimulatedTradeRunning

inductive PriceTrigger
  | notSet
  | set (min max : Price)
deriving DecidableEq

namespace PriceTrigger

def update (trigger : PriceTrigger) (tslStepSize : PercentageCapped)
    (trade : SimulatedTradeRunning) (tradeTsl : Option TradeTrailingStoploss) :
    Except (TradeCoreError ε) PriceTrigger := do
  let (newMin, newMax) ← trade.evalTriggerBounds sdk tslStepSize tradeTsl
  pure (match trigger with
    | notSet => set newMin newMax
    | set min max => set (Max.max newMin min) (Min.min newMax max))

def wasReached (trigger : PriceTrigger) (marketPrice : F64) : Bool :=
  match trigger with
  | notSet => false
  | set min max => decide (marketPrice ≤ min.asF64) || decide (marketPrice ≥ max.asF64)

end PriceTrigger

/-- A running trade with its trailing stoploss. -/
abbrev RunningEntry := SimulatedTradeRunning × Option TradeTrailingStoploss

/-- `RunningTradesMap`: the trades by reference, and the creation time of each id. -/
structure RunningTradesMap where
  trades : OrdMap TradeReference RunningEntry
  idToTime : OrdMap Uuid ℤ
deriving DecidableEq

namespace RunningTradesMap

def new : RunningTradesMap := ⟨.empty, .empty⟩

def isEmpty (m : RunningTradesMap) : Bool := m.trades.isEmpty

def add (m : RunningTradesMap) (trade : SimulatedTradeRunning)
    (tradeTsl : Option TradeTrailingStoploss) : RunningTradesMap where
  idToTime := m.idToTime.insert trade.id trade.entryTime
  trades := m.trades.insert trade.reference (trade, tradeTsl)

def len (m : RunningTradesMap) : ℕ := m.idToTime.size

def contains (m : RunningTradesMap) (id : Uuid) : Bool := (m.idToTime.get id).isSome

/-- The entry `get_by_id_mut` lends, with its key. -/
def getById (m : RunningTradesMap) (id : Uuid) : Option (TradeReference × RunningEntry) := do
  let time ← m.idToTime.get id
  let entry ← m.trades.get (toLex (time, id))
  some (toLex (time, id), entry)

def tradesDesc (m : RunningTradesMap) : List RunningEntry := m.trades.valuesDesc

end RunningTradesMap

structure ClosedTradeHistory where
  trades : OrdMap TradeReference SimulatedTradeClosed
  idToTime : OrdMap Uuid ℤ
deriving DecidableEq

namespace ClosedTradeHistory

def new : ClosedTradeHistory := ⟨.empty, .empty⟩

def add (h : ClosedTradeHistory) (trade : SimulatedTradeClosed) :
    Except (TradeCoreError ε) ClosedTradeHistory :=
  if !trade.closed || trade.exitPrice.isNone || trade.closedAt.isNone then
    .error (.tradeNotClosed trade.id)
  else
    .ok
      { trades := h.trades.insert trade.reference trade
        idToTime := h.idToTime.insert trade.id trade.entryTime }

end ClosedTradeHistory

inductive Stoploss
  | fixed (price : Price)
  | trailing (perc : PercentageCapped)
deriving DecidableEq

def Stoploss.evaluate (stoploss : Stoploss) (tslStepSize : PercentageCapped) (side : TradeSide)
    (marketPrice : Price) :
    Except (TradeCoreError ε) (Price × Option TradeTrailingStoploss) :=
  match stoploss with
  | .fixed price => .ok (price, none)
  | .trailing tsl =>
    if tsl < tslStepSize then
      .error (.invalidStoplossSmallerThanTrailingStepSize tsl tslStepSize)
    else do
      let initialStoplossPrice ← match side with
        | .buy =>
          (sdk.applyDiscount marketPrice tsl).mapError (.invalidPriceApplyDiscount marketPrice tsl)
        | .sell =>
          (sdk.applyGain marketPrice tsl).mapError (.invalidPriceApplyGain marketPrice tsl)
      pure (initialStoplossPrice, some ⟨tsl⟩)

/-- `validate_fixed_risk_ordering`. -/
def fixedRiskOrdered (side : TradeSide) (stoploss : Option Stoploss)
    (takeprofit : Option Price) : Bool :=
  match stoploss, takeprofit with
  | some (.fixed stoploss), some takeprofit =>
    match side with
    | .buy => decide (stoploss < takeprofit)
    | .sell => decide (stoploss > takeprofit)
  | _, _ => true

structure IsolatedOrderRequest where
  side : TradeSide
  size : TradeSize
  leverage : Leverage
  stoploss : Option Stoploss
  takeprofit : Option Price
  ordered : fixedRiskOrdered side stoploss takeprofit = true
deriving DecidableEq

structure CrossOrderRequest where
  side : TradeSide
  quantity : Quantity
deriving DecidableEq

end Quantoxide
