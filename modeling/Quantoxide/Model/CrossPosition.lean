import Quantoxide.Library.Result
import Quantoxide.Model.Candles
import Quantoxide.Model.Errors

/-! # The simulated cross position -/

namespace Quantoxide

open Result

structure SimulatedCrossPosition where
  margin : ℕ
  leverage : CrossLeverage
  exposure : CrossExposure
  tradingFees : ℕ
  sessionFundingFees : ℤ
  realizedPl : ℤ
deriving DecidableEq

/-- `(quantity / fixing_price) * funding_rate * SATS_PER_BTC`, paid by longs and received
by shorts when the rate is positive. -/
def FundingSettlementRow.fundingFee (settlement : FundingSettlementRow) (side : TradeSide)
    (quantity : Quantity) : ℤ :=
  let rawFee :=
    (quantity.asF64 / settlement.fixingPrice) * settlement.fundingRate * SATS_PER_BTC
  F64.roundI64 (match side with
    | .buy => rawFee
    | .sell => -rawFee)

namespace SimulatedCrossPosition

variable {ε : Type} (sdk : LnmSdk ε)

def new (margin : ℕ) (leverage : CrossLeverage)
    (exposureRunning : Option (TradeSide × Quantity × Price)) (tradingFees : ℕ)
    (sessionFundingFees realizedPl : ℤ) : ExecutorResult ε SimulatedCrossPosition := do
  let exposure ← (sdk.crossExposureNew margin leverage exposureRunning).mapError
    .crossExposureValidation
  pure ⟨margin, leverage, exposure, tradingFees, sessionFundingFees, realizedPl⟩

/-- `new(0, CrossLeverage::MIN, None, 0, 0, 0)`, which is neutral. -/
def initial : SimulatedCrossPosition := ⟨0, sdk.crossLeverageMin, .neutral, 0, 0, 0⟩

def applyAmountToMargin (margin : ℕ) (amount : ℤ) : ExecutorResult ε ℕ :=
  if amount < 0 then .ok (margin - amount.natAbs)
  else okOr (U64.checkedAdd margin amount.natAbs) .crossPositionOverflow

/-! ### Readings of `CrossPositionCore` -/

def quantity (pos : SimulatedCrossPosition) : ℤ :=
  match pos.exposure with
  | .neutral => 0
  | .running exposure =>
    match exposure.side with
    | .buy => exposure.quantity.asU64
    | .sell => -exposure.quantity.asU64

def runningMargin (pos : SimulatedCrossPosition) : ℕ :=
  match pos.exposure with
  | .neutral => 0
  | .running exposure => exposure.runningMargin.asU64

def maintenanceMargin (pos : SimulatedCrossPosition) : ℕ :=
  match pos.exposure with
  | .neutral => 0
  | .running exposure => exposure.maintenanceMargin.asU64

def estRunningPl (pos : SimulatedCrossPosition) (marketPrice : Price) : ℤ :=
  match pos.exposure with
  | .neutral => 0
  | .running e => F64.floorI64 (sdk.estimatePl e.side e.quantity e.entryPrice marketPrice)

def estFreeMargin (pos : SimulatedCrossPosition) (marketPrice : Price) : ℕ :=
  let loss := (min (pos.estRunningPl sdk marketPrice) 0).natAbs
  let excessLoss := loss - pos.runningMargin
  pos.margin - pos.runningMargin - pos.maintenanceMargin - excessLoss

def isCoherent (pos : SimulatedCrossPosition) (marketPrice : Price) : Bool :=
  match pos.exposure with
  | .neutral => true
  | .running exposure =>
    let isLiquid := match exposure.side with
      | .buy => decide (marketPrice > exposure.liquidation)
      | .sell => decide (marketPrice < exposure.liquidation)
    isLiquid && decide (pos.estFreeMargin sdk marketPrice > 0)

def withMargin (pos : SimulatedCrossPosition) (newMargin : ℕ) :
    ExecutorResult ε SimulatedCrossPosition :=
  new sdk newMargin pos.leverage pos.exposure.asRunningParams pos.tradingFees
    pos.sessionFundingFees pos.realizedPl

def withLeverage (pos : SimulatedCrossPosition) (newLeverage : CrossLeverage) :
    ExecutorResult ε SimulatedCrossPosition :=
  new sdk pos.margin newLeverage pos.exposure.asRunningParams pos.tradingFees
    pos.sessionFundingFees pos.realizedPl

def close (pos : SimulatedCrossPosition) (closePrice : Price) (feePerc : PercentageCapped) :
    ExecutorResult ε SimulatedCrossPosition :=
  match pos.exposure with
  | .neutral => .ok pos
  | .running exposure => do
    let closeFee := sdk.evaluateOrderFee feePerc exposure.quantity closePrice
    let closeFeeI64 ← okOr (I64.tryFrom closeFee) .crossPositionOverflow
    let closePl := F64.floorI64
      (sdk.estimatePl exposure.side exposure.quantity exposure.entryPrice closePrice)
    let marginDelta ← okOr (I64.checkedSub closePl closeFeeI64) .crossPositionOverflow
    let remainingMargin ← applyAmountToMargin pos.margin marginDelta
    let tradingFees ← okOr (U64.checkedAdd pos.tradingFees closeFee) .crossPositionOverflow
    let realizedPl ← okOr (I64.checkedAdd pos.realizedPl closePl) .crossPositionOverflow
    new sdk remainingMargin pos.leverage none tradingFees pos.sessionFundingFees realizedPl

/-- `force_close` inside `apply_funding_settlement`: the position is closed at the market
and the fee taken from what is left. -/
def forceClose (pos : SimulatedCrossPosition) (marketPrice : Price) (feePerc : PercentageCapped)
    (fundingFee newSessionFundingFees : ℤ) :
    ExecutorResult ε (SimulatedCrossPosition × ℤ × Bool) := do
  let closedPosition ← pos.close sdk marketPrice feePerc
  let amount ← okOr (I64.checkedNeg fundingFee) .crossPositionOverflow
  let remainingMargin ← applyAmountToMargin closedPosition.margin amount
  let finalPosition ← new sdk remainingMargin closedPosition.leverage none
    closedPosition.tradingFees newSessionFundingFees closedPosition.realizedPl
  pure (finalPosition, fundingFee, true)

def applyFundingSettlement (pos : SimulatedCrossPosition) (marketPrice : F64)
    (settlement : FundingSettlementRow) (feePerc : PercentageCapped) :
    ExecutorResult ε (SimulatedCrossPosition × ℤ × Bool) :=
  match pos.exposure with
  | .neutral => .ok (pos, 0, false)
  | .running exposure => do
    let marketPrice := sdk.bounded marketPrice
    let fundingFee := settlement.fundingFee exposure.side exposure.quantity
    let newSessionFundingFees ←
      okOr (I64.checkedAdd pos.sessionFundingFees fundingFee) .crossPositionOverflow
    if fundingFee > 0 ∧ fundingFee ≥ pos.estFreeMargin sdk marketPrice then
      pos.forceClose sdk marketPrice feePerc fundingFee newSessionFundingFees
    else
      let amount ← okOr (I64.checkedNeg fundingFee) .crossPositionOverflow
      let newMargin ← applyAmountToMargin pos.margin amount
      match new sdk newMargin pos.leverage pos.exposure.asRunningParams pos.tradingFees
        newSessionFundingFees pos.realizedPl with
      | .error (.crossExposureValidation _) =>
        pos.forceClose sdk marketPrice feePerc fundingFee newSessionFundingFees
      | .error e => .error e
      | .ok newPosition =>
        if ¬ newPosition.isCoherent sdk marketPrice then
          pos.forceClose sdk marketPrice feePerc fundingFee newSessionFundingFees
        else pure (newPosition, fundingFee, false)

def liquidationReached (pos : SimulatedCrossPosition) (candle : OhlcCandleRow) : Bool :=
  match pos.exposure with
  | .neutral => false
  | .running exposure =>
    match exposure.side with
    | .buy => decide (candle.low ≤ exposure.liquidation.asF64)
    | .sell => decide (candle.high ≥ exposure.liquidation.asF64)

def liquidate (pos : SimulatedCrossPosition) (feePerc : PercentageCapped) :
    ExecutorResult ε SimulatedCrossPosition :=
  match pos.exposure with
  | .running exposure => pos.close sdk exposure.liquidation feePerc
  | .neutral => .ok pos

/-- The entry price a losing partial reduction carries into the rest of the position. -/
def carriedEntryPrice (side : TradeSide) (resultingQuantity : Quantity) (fullPositionPl : F64)
    (marketPrice : Price) : Price :=
  let inverseMarketPrice := SATS_PER_BTC / marketPrice.asF64
  let carriedInverseEntryPrice := match side with
    | .buy => inverseMarketPrice + fullPositionPl / resultingQuantity.asF64
    | .sell => inverseMarketPrice - fullPositionPl / resultingQuantity.asF64
  sdk.bounded (SATS_PER_BTC / carriedInverseEntryPrice)

def withMarketOrder (pos : SimulatedCrossPosition) (marketPrice : Price) (orderSide : TradeSide)
    (orderQuantity : Quantity) (feePerc : PercentageCapped) :
    ExecutorResult ε SimulatedCrossPosition := do
  let exactClose := match pos.exposure with
    | .neutral => false
    | .running curr => curr.side ≠ orderSide && orderQuantity == curr.quantity
  if exactClose then pos.close sdk marketPrice feePerc
  else
    let orderFee := sdk.evaluateOrderFee feePerc orderQuantity marketPrice
    let orderFeeI64 ← okOr (I64.tryFrom orderFee) .crossPositionOverflow
    let amount ← okOr (I64.checkedNeg orderFeeI64) .crossPositionOverflow
    let marginAfterOrderFee ← applyAmountToMargin pos.margin amount
    let cumulativeTradingFees ←
      okOr (U64.checkedAdd pos.tradingFees orderFee) .crossPositionOverflow
    let withRunningExposure (margin : ℕ) (side : TradeSide) (quantity : Quantity)
        (entryPrice : Price) (realizedPl : ℤ) : ExecutorResult ε SimulatedCrossPosition :=
      new sdk margin pos.leverage (some (side, quantity, entryPrice)) cumulativeTradingFees
        pos.sessionFundingFees realizedPl
    match pos.exposure with
    -- Opening from flat uses the execution price as the new entry price.
    | .neutral =>
      withRunningExposure marginAfterOrderFee orderSide orderQuantity marketPrice pos.realizedPl
    | .running curr =>
      if curr.side = orderSide then
        let resultingQuantity ← (sdk.quantityTryAdd curr.quantity orderQuantity).mapError
          .crossQuantityValidation
        let resultingEntryPrice := sdk.aggregateCrossEntryPrice curr.quantity curr.entryPrice
          orderQuantity marketPrice
        withRunningExposure marginAfterOrderFee orderSide resultingQuantity resultingEntryPrice
          pos.realizedPl
      else if curr.quantity < orderQuantity then
        let realizedPl := F64.floorI64
          (sdk.estimatePl curr.side curr.quantity curr.entryPrice marketPrice)
        let margin ← applyAmountToMargin marginAfterOrderFee realizedPl
        let resultingQuantity ← (sdk.quantityTrySub orderQuantity curr.quantity).mapError
          .crossQuantityValidation
        -- Reversals book the old position's P/L and start the residual at execution price.
        let newRealizedPl ←
          okOr (I64.checkedAdd pos.realizedPl realizedPl) .crossPositionOverflow
        withRunningExposure margin orderSide resultingQuantity marketPrice newRealizedPl
      else
        let resultingQuantity ← (sdk.quantityTrySub curr.quantity orderQuantity).mapError
          .crossQuantityValidation
        let realizedPl := F64.floorI64
          (sdk.estimatePl curr.side orderQuantity curr.entryPrice marketPrice)
        if realizedPl ≥ 0 then
          let margin ← applyAmountToMargin marginAfterOrderFee realizedPl
          let newRealizedPl ←
            okOr (I64.checkedAdd pos.realizedPl realizedPl) .crossPositionOverflow
          withRunningExposure margin curr.side resultingQuantity curr.entryPrice newRealizedPl
        else
          -- Losing reductions carry the loss in the remaining position's entry price.
          let fullPositionPl := sdk.estimatePl curr.side curr.quantity curr.entryPrice marketPrice
          withRunningExposure marginAfterOrderFee curr.side resultingQuantity
            (carriedEntryPrice sdk curr.side resultingQuantity fullPositionPl marketPrice)
            pos.realizedPl

end SimulatedCrossPosition

end Quantoxide
