import Quantoxide.Model.Trades

/-! # The exchange's trades

`Trade`, `CrossPosition` and `CrossOrder` are records of the exchange SDK. A session keeps the
trades in the two maps of the core. -/

namespace Quantoxide

structure Trade where
  id : Uuid
  side : TradeSide
  openingFee : ℕ
  closingFee : ℕ
  maintenanceMargin : ℤ
  quantity : Quantity
  margin : Margin
  leverage : Leverage
  price : Price
  liquidation : Price
  stoploss : Option Price
  takeprofit : Option Price
  exitPrice : Option Price
  createdAt : ℤ
  closedAt : Option ℤ
  running : Bool
  closed : Bool
  pl : ℤ
  sumFundingFees : ℤ
deriving DecidableEq

variable {ε : Type} (sdk : LnmSdk ε)

namespace Trade

def reference (t : Trade) : TradeReference := toLex (t.createdAt, t.id)

/-- The trade as the methods of `TradeRunning` read it. -/
def asRunning (t : Trade) : SimulatedTradeRunning where
  id := t.id
  side := t.side
  openingFee := t.openingFee
  closingFeeReserved := t.closingFee
  quantity := t.quantity
  margin := t.margin
  leverage := t.leverage
  price := t.price
  liquidation := t.liquidation
  stoploss := t.stoploss
  takeprofit := t.takeprofit
  entryTime := t.createdAt
  entryPrice := t.price

def estPl (t : Trade) (marketPrice : Price) : F64 := t.asRunning.estPl sdk marketPrice

def evalTriggerBounds (t : Trade) (tslStepSize : PercentageCapped)
    (tradeTsl : Option TradeTrailingStoploss) : Except (TradeCoreError ε) (Price × Price) :=
  t.asRunning.evalTriggerBounds sdk tslStepSize tradeTsl

def wasClosedOnRange (t : Trade) (rangeMin rangeMax : F64) : Bool :=
  t.asRunning.wasClosedOnRange rangeMin rangeMax

def evalNewStoplossOnRange (t : Trade) (tslStepSize : PercentageCapped)
    (tradeTsl : TradeTrailingStoploss) (rangeMin rangeMax : F64) :
    Except (TradeCoreError ε) (Option Price) :=
  t.asRunning.evalNewStoplossOnRange sdk tslStepSize tradeTsl rangeMin rangeMax

end Trade

/-- A trade of the session with its trailing stoploss. -/
abbrev TradeEntry := Trade × Option TradeTrailingStoploss

def TradeEntry.reference (entry : TradeEntry) : TradeReference := entry.1.reference

structure DynRunningTradesMap where
  trades : OrdMap TradeReference TradeEntry
  idToTime : OrdMap Uuid ℤ
deriving DecidableEq

namespace DynRunningTradesMap

def new : DynRunningTradesMap := ⟨.empty, .empty⟩

def add (m : DynRunningTradesMap) (trade : Trade) (tradeTsl : Option TradeTrailingStoploss) :
    DynRunningTradesMap where
  idToTime := m.idToTime.insert trade.id trade.createdAt
  trades := m.trades.insert trade.reference (trade, tradeTsl)

def len (m : DynRunningTradesMap) : ℕ := m.idToTime.size

def contains (m : DynRunningTradesMap) (id : Uuid) : Bool := (m.idToTime.get id).isSome

def tradesDesc (m : DynRunningTradesMap) : List TradeEntry := m.trades.valuesDesc

end DynRunningTradesMap

structure DynClosedTradeHistory where
  trades : OrdMap TradeReference Trade
  idToTime : OrdMap Uuid ℤ
deriving DecidableEq

namespace DynClosedTradeHistory

def new : DynClosedTradeHistory := ⟨.empty, .empty⟩

def add (h : DynClosedTradeHistory) (trade : Trade) :
    Except (TradeCoreError ε) DynClosedTradeHistory :=
  if !trade.closed || trade.exitPrice.isNone || trade.closedAt.isNone then
    .error (.tradeNotClosed trade.id)
  else
    .ok
      { trades := h.trades.insert trade.reference trade
        idToTime := h.idToTime.insert trade.id trade.createdAt }

end DynClosedTradeHistory

/-- The SDK's `CrossPosition`; `exposure` is what its method of that name makes of it. -/
structure CrossPosition (ε : Type) where
  id : Uuid
  margin : ℕ
  leverage : CrossLeverage
  exposure : Except ε CrossExposure
  fundingFees : ℤ
  tradingFees : ℕ

structure CrossOrder where
  id : Uuid
  filled : Bool
  filledAt : Option ℤ
  createdAt : ℤ
deriving DecidableEq

end Quantoxide
