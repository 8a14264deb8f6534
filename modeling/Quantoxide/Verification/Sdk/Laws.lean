import Quantoxide.Model.Sdk

/-! # What is relied on of the SDK

Each law states documented behaviour of SDK calls on values the SDK itself produced. -/

namespace Quantoxide

variable {ε : Type} (sdk : LnmSdk ε)

/-- Margins add up: what is added is added whole, what is taken is taken whole. -/
structure MarginLaws : Prop where
  added : ∀ {side q p m amount r}, sdk.evaluateAddedMargin side q p m amount = .ok r →
    r.margin.asU64 = m.asU64 + amount
  taken : ∀ {m n m'}, sdk.marginTrySub m n = .ok m' → m'.asI64 = m.asI64 - n

/-- `x` is not beyond `bound` on the losing side. -/
def TradeSide.NotBeyond (side : TradeSide) (bound x : Price) : Prop :=
  match side with
  | .buy => bound ≤ x
  | .sell => x ≤ bound

instance (side : TradeSide) (bound x : Price) : Decidable (side.NotBeyond bound x) :=
  match side with
  | .buy => inferInstanceAs (Decidable (bound ≤ x))
  | .sell => inferInstanceAs (Decidable (x ≤ bound))

namespace TradeSide.NotBeyond

variable {side : TradeSide} {p q r : Price}

theorem refl (side : TradeSide) (p : Price) : side.NotBeyond p p := by
  cases side
  · exact le_refl p
  · exact le_refl p

theorem trans (h : side.NotBeyond p q) (h' : side.NotBeyond q r) : side.NotBeyond p r := by
  cases side
  · exact le_trans h h'
  · exact le_trans h' h

end TradeSide.NotBeyond

/-- The liquidation price the SDK has last given a position, by its entry price and margin. -/
inductive Liquidates (side : TradeSide) : Quantity → Price → Margin → Price → Prop
  | opened {size : TradeSize} {leverage : Leverage} {entry : Price}
      {stoploss takeprofit : Option Price} {fee : PercentageCapped} {r : OpenTradeParams}
      (h : sdk.evaluateOpenTradeParams side size leverage entry stoploss takeprofit fee = .ok r) :
      Liquidates side r.quantity entry r.margin r.liquidation
  | added {q : Quantity} {p liquidation : Price} {m : Margin} {amount : ℕ} {r : AddedMargin}
      (h0 : Liquidates side q p m liquidation)
      (h : sdk.evaluateAddedMargin side q p m amount = .ok r) :
      Liquidates side q p r.margin r.liquidation
  | cashedIn {q : Quantity} {p liquidation market : Price} {m : Margin} {stoploss : Option Price}
      {amount : ℕ} {r : CashIn} (h0 : Liquidates side q p m liquidation)
      (h : sdk.evaluateCashIn side q m p stoploss market amount = .ok r) :
      Liquidates side q r.price r.margin r.liquidation
  | settled {q : Quantity} {p liquidation : Price} {m m' : Margin} {fee : ℤ} {l : Leverage}
      (h0 : Liquidates side q p m liquidation) (hm : sdk.marginTrySub m fee = .ok m')
      (hl : sdk.leverageTryCalculate q m' p = .ok l ∨
        sdk.leverageTryCalculate q m' p = .error .tooLow ∧ l = sdk.leverageMin) :
      Liquidates side q p m' (sdk.estLiquidationFromLeverage side q p l)

/-- Added margin moves a position's liquidation away from the market. -/
structure AddedMarginLaw : Prop where
  away : ∀ {side q p m liquidation amount r}, Liquidates sdk side q p m liquidation →
    sdk.evaluateAddedMargin side q p m amount = .ok r →
      side.NotBeyond r.liquidation liquidation

/-- A position's prices keep the order the SDK validates: liquidation, stoploss, entry and
takeprofit from the losing side to the winning one. -/
structure PriceLaws : Prop where
  liquidation : ∀ {side q p m liquidation}, Liquidates sdk side q p m liquidation →
    side.NotBeyond liquidation p
  openedStoploss : ∀ {side size leverage entry stoploss takeprofit fee r},
    sdk.evaluateOpenTradeParams side size leverage entry (some stoploss) takeprofit fee = .ok r →
      side.NotBeyond r.liquidation stoploss
  openedTakeprofit : ∀ {side size leverage entry stoploss takeprofit fee r},
    sdk.evaluateOpenTradeParams side size leverage entry stoploss (some takeprofit) fee = .ok r →
      side.NotBeyond entry takeprofit
  newStoploss : ∀ {side liquidation takeprofit market stoploss},
    sdk.evaluateNewStoploss side liquidation takeprofit market stoploss = .ok () →
      side.NotBeyond liquidation stoploss

end Quantoxide
