import Quantoxide.Model.CrossPosition

/-! # Estimates for a target exposure

`CrossPositionCore` estimates what one market order to a target side and quantity would leave,
with its own copy of the order's accounting. A validation that fails gives no estimate. -/

namespace Quantoxide

open Result

variable {ε : Type}

/-- The functions of the SDK that only the estimates call. -/
structure CollateralSdk (ε : Type) extends LnmSdk ε where
  quantityTryFrom : ℕ → Except ε Quantity
  marginMax : Margin
  marginTryAdd : Margin → ℕ → Except ε Margin
  marginEstFromLiquidationPrice : TradeSide → Quantity → Price → Price → Except ε Margin
  crossExposureRunning : ℕ → CrossLeverage → TradeSide → Quantity → Price → Except ε CrossExposure

namespace SimulatedCrossPosition

variable (pos : SimulatedCrossPosition)

def estEntryPriceForExposure (sdk : LnmSdk ε) (newSide : TradeSide) (newQuantity : Quantity)
    (marketPrice : Price) : Option Price :=
  match pos.exposure with
  | .neutral => some marketPrice
  | .running exposure =>
    if exposure.side ≠ newSide then some marketPrice
    else if exposure.quantity < newQuantity then do
      let addedQuantity ← (sdk.quantityTrySub newQuantity exposure.quantity).toOption
      pure (sdk.aggregateCrossEntryPrice exposure.quantity exposure.entryPrice addedQuantity
        marketPrice)
    else if newQuantity = exposure.quantity then some exposure.entryPrice
    else do
      let reducedQuantity ← (sdk.quantityTrySub exposure.quantity newQuantity).toOption
      let realizedPl := F64.floorI64
        (sdk.estimatePl exposure.side reducedQuantity exposure.entryPrice marketPrice)
      if realizedPl ≥ 0 then pure exposure.entryPrice
      else
        let fullPositionPl :=
          sdk.estimatePl exposure.side exposure.quantity exposure.entryPrice marketPrice
        pure (carriedEntryPrice sdk exposure.side newQuantity fullPositionPl marketPrice)

def estMarginForExposure (sdk : LnmSdk ε) (newSide : TradeSide) (newQuantity : Quantity)
    (marketPrice : Price) : Option ℤ := do
  let currentMargin ← I64.tryFrom pos.margin
  match pos.exposure with
  | .neutral => pure currentMargin
  | .running exposure =>
    if exposure.side ≠ newSide then
      let realizedPl := F64.floorI64
        (sdk.estimatePl exposure.side exposure.quantity exposure.entryPrice marketPrice)
      I64.checkedAdd currentMargin realizedPl
    else if ¬ newQuantity < exposure.quantity then pure currentMargin
    else do
      let reducedQuantity ← (sdk.quantityTrySub exposure.quantity newQuantity).toOption
      let realizedPl := F64.floorI64
        (sdk.estimatePl exposure.side reducedQuantity exposure.entryPrice marketPrice)
      if realizedPl ≥ 0 then I64.checkedAdd currentMargin realizedPl else pure currentMargin

def estOrderFeeForExposure (sdk : CollateralSdk ε) (newSide : TradeSide) (newQuantity : Quantity)
    (marketPrice : Price) (feePerc : PercentageCapped) : Option ℕ := do
  let targetQuantity ← match newSide with
    | .buy => some (newQuantity.asU64 : ℤ)
    | .sell => I64.checkedNeg newQuantity.asU64
  let orderQuantity := (← I64.checkedSub targetQuantity pos.quantity).natAbs
  if orderQuantity = 0 then pure 0
  else do
    let orderQuantity ← (sdk.quantityTryFrom orderQuantity).toOption
    pure (sdk.evaluateOrderFee feePerc orderQuantity marketPrice)

/-- The deposit, or the withdrawal when negative, that a target exposure needs for a target
liquidation; a target with the largest margin tells the margins that it takes. -/
def estCollateralDiffForExposure (sdk : CollateralSdk ε) (newSide : TradeSide)
    (newQuantity : Quantity) (marketPrice newLiquidation : Price) (feePerc : PercentageCapped) :
    Option ℤ := do
  let newEntryPrice ← pos.estEntryPriceForExposure sdk.toLnmSdk newSide newQuantity marketPrice
  match ← (sdk.crossExposureRunning sdk.marginMax.asU64 pos.leverage newSide newQuantity
    newEntryPrice).toOption with
  -- `unreachable!("running exposure requested")`
  | .neutral => none
  | .running targetExposure =>
    let projectedOrderFee ←
      pos.estOrderFeeForExposure sdk newSide newQuantity marketPrice feePerc
    let projectedMargin ← I64.checkedSub
      (← pos.estMarginForExposure sdk.toLnmSdk newSide newQuantity marketPrice)
      (← I64.tryFrom projectedOrderFee)
    let projectedPl := sdk.estimatePl newSide newQuantity newEntryPrice marketPrice
    let projectedNetValue ← I64.checkedAdd projectedMargin (F64.floorI64 projectedPl)
    let marginFloor ← (sdk.marginTryAdd targetExposure.runningMargin
      targetExposure.maintenanceMargin.asU64).toOption
    let minimumCoherentMargin ← (sdk.marginTryAdd marginFloor 1).toOption
    let coherenceDelta ← I64.checkedSub minimumCoherentMargin.asI64 projectedMargin
    let estMargin ← (sdk.marginEstFromLiquidationPrice newSide newQuantity marketPrice
      newLiquidation).toOption
    let targetNetCollateral ←
      (sdk.marginTryAdd estMargin targetExposure.maintenanceMargin.asU64).toOption
    let liquidationDelta ← I64.checkedSub targetNetCollateral.asI64 projectedNetValue
    pure (max liquidationDelta coherenceDelta)

end SimulatedCrossPosition

end Quantoxide
