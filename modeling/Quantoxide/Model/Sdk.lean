import Quantoxide.Model.Numeric

/-! # The exchange SDK

The program takes its price, margin and leverage arithmetic from an external crate. Its
types are kept, and its functions are the fields of `LnmSdk`: a result about the program
holds for every such arithmetic that has the properties the result names. -/

namespace Quantoxide

inductive TradeSide
  | buy
  | sell
deriving DecidableEq, Repr

structure Price where
  asF64 : F64
deriving DecidableEq

namespace Price

theorem ext_asF64 {p q : Price} (h : p.asF64 = q.asF64) : p = q := by
  cases p
  cases q
  simpa using h

instance : LinearOrder Price := LinearOrder.lift' Price.asF64 fun _ _ => ext_asF64

theorem le_iff {p q : Price} : p ≤ q ↔ p.asF64 ≤ q.asF64 := Iff.rfl

theorem lt_iff {p q : Price} : p < q ↔ p.asF64 < q.asF64 := Iff.rfl

end Price

structure PercentageCapped where
  asF64 : F64
deriving DecidableEq

instance : LT PercentageCapped := ⟨fun p q => p.asF64 < q.asF64⟩

instance (p q : PercentageCapped) : Decidable (p < q) :=
  inferInstanceAs (Decidable (p.asF64 < q.asF64))

/-- A margin is a `u64` that `as_i64` represents without loss. -/
structure Margin where
  asU64 : ℕ
  lt_i64 : asU64 < 2 ^ 63
deriving DecidableEq

namespace Margin

def asI64 (m : Margin) : ℤ := m.asU64

end Margin

/-- `OrderQuantity` and `CrossQuantity`, whole dollars. -/
structure Quantity where
  asU64 : ℕ
deriving DecidableEq

instance : LT Quantity := ⟨fun p q => p.asU64 < q.asU64⟩

instance (p q : Quantity) : Decidable (p < q) := inferInstanceAs (Decidable (p.asU64 < q.asU64))

def Quantity.asF64 (q : Quantity) : F64 := q.asU64

structure Leverage where
  asF64 : F64
deriving DecidableEq

structure CrossLeverage where
  asU64 : ℕ
deriving DecidableEq

inductive TradeSize
  | quantity (q : Quantity)
  | margin (m : Margin)
deriving DecidableEq

structure CrossExposureRunning where
  side : TradeSide
  quantity : Quantity
  entryPrice : Price
  liquidation : Price
  runningMargin : Margin
  maintenanceMargin : Margin
deriving DecidableEq

inductive CrossExposure
  | neutral
  | running (exposure : CrossExposureRunning)
deriving DecidableEq

namespace CrossExposure

def asRunningParams : CrossExposure → Option (TradeSide × Quantity × Price)
  | neutral => none
  | running e => some (e.side, e.quantity, e.entryPrice)

end CrossExposure

/-- `LeverageValidationError`; `other` stands for the variants the program does not name. -/
inductive LeverageValidationError
  | tooLow
  | tooHigh
  | notANumber
  | other
deriving DecidableEq, Repr

/-- What `evaluate_open_trade_params` settles for a new trade. -/
structure OpenTradeParams where
  quantity : Quantity
  margin : Margin
  liquidation : Price
  openingFee : ℕ
  closingFeeReserved : ℕ
deriving DecidableEq

structure AddedMargin where
  margin : Margin
  leverage : Leverage
  liquidation : Price
deriving DecidableEq

structure CashIn where
  price : Price
  margin : Margin
  leverage : Leverage
  liquidation : Price
  stoploss : Option Price
deriving DecidableEq

def SATS_PER_BTC : F64 := 100000000

/-- The functions of the SDK the program calls; `ε` holds its validation errors. -/
structure LnmSdk (ε : Type) where
  priceMin : Price
  priceMax : Price
  bounded : F64 → Price
  round : F64 → Except ε Price
  roundUp : F64 → Except ε Price
  roundDown : F64 → Except ε Price
  applyGain : Price → PercentageCapped → Except ε Price
  applyDiscount : Price → PercentageCapped → Except ε Price
  leverageMin : Leverage
  leverageTryCalculate : Quantity → Margin → Price → Except LeverageValidationError Leverage
  marginTrySub : Margin → ℤ → Except ε Margin
  evaluateOpenTradeParams : TradeSide → TradeSize → Leverage → Price → Option Price →
    Option Price → PercentageCapped → Except ε OpenTradeParams
  evaluateNewStoploss : TradeSide → Price → Option Price → Price → Price → Except ε Unit
  evaluateAddedMargin : TradeSide → Quantity → Price → Margin → ℕ → Except ε AddedMargin
  evaluateCashIn : TradeSide → Quantity → Margin → Price → Option Price → Price → ℕ →
    Except ε CashIn
  estLiquidationFromLeverage : TradeSide → Quantity → Price → Leverage → Price
  evaluateOrderFee : PercentageCapped → Quantity → Price → ℕ
  estimatePl : TradeSide → Quantity → Price → Price → F64
  crossLeverageMin : CrossLeverage
  crossExposureNew : ℕ → CrossLeverage → Option (TradeSide × Quantity × Price) →
    Except ε CrossExposure
  quantityTryAdd : Quantity → Quantity → Except ε Quantity
  quantityTrySub : Quantity → Quantity → Except ε Quantity
  aggregateCrossEntryPrice : Quantity → Price → Quantity → Price → Price

end Quantoxide
