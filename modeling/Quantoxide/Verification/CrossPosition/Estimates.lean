import Quantoxide.Verification.CrossPosition.Orders
import Quantoxide.Verification.Sdk.Collateral

/-! # The estimates agree with the orders

The estimates take the target exposure, the order takes the difference to it. Each of the
order's five transitions is one branch of the estimates. -/

namespace Quantoxide

/-- A quantity with the sign of its side. -/
def TradeSide.signed (side : TradeSide) (quantity : Quantity) : ℤ :=
  match side with
  | .buy => quantity.asU64
  | .sell => -quantity.asU64

/-- The side and the quantity of a signed quantity. -/
def netExposure (n : ℤ) : TradeSide × Quantity := (if 0 < n then .buy else .sell, ⟨n.natAbs⟩)

theorem netExposure_signed {side : TradeSide} {q : Quantity} (h : 0 < q.asU64) :
    netExposure (side.signed q) = (side, q) := by
  cases side
  · have hpos : (0 : ℤ) < q.asU64 := by omega
    simp [netExposure, TradeSide.signed, h]
  · simp [netExposure, TradeSide.signed]

theorem signed_opposite {s t : TradeSide} (h : s ≠ t) (q : Quantity) :
    t.signed q = -s.signed q := by
  revert h
  cases s <;> cases t <;> simp [TradeSide.signed]

theorem signed_add {q r t : Quantity} (side : TradeSide) (h : q.asU64 + r.asU64 = t.asU64) :
    side.signed t = side.signed q + side.signed r := by
  cases side <;> simp only [TradeSide.signed] <;> omega

namespace CrossPosition

open SimulatedCrossPosition Result

variable {ε : Type} {sdk : CollateralSdk ε} {feePerc : PercentageCapped} {marketPrice : Price}
  {side newSide : TradeSide} {quantity newQuantity : Quantity} {p : Price} {booked : Option ℤ}
  {pos pos' : SimulatedCrossPosition}

@[simp] theorem quantity_neutral (he : pos.exposure = .neutral) : pos.quantity = 0 := by
  simp [SimulatedCrossPosition.quantity, he]

theorem quantity_running {e : CrossExposureRunning} (he : pos.exposure = .running e) :
    pos.quantity = e.side.signed e.quantity := by
  simp only [SimulatedCrossPosition.quantity, he]
  cases e.side <;> rfl

/-- An order moves the signed quantity by its own, and never to zero. -/
theorem orders_moves (hl : QuantityLaws sdk) (hq : 0 < quantity.asU64)
    (h : Orders sdk.toLnmSdk marketPrice side quantity pos.exposure (newSide, newQuantity, p)
      booked) :
    newSide.signed newQuantity = pos.quantity + side.signed quantity ∧
      0 < newQuantity.asU64 := by
  generalize he : pos.exposure = exposure at h
  cases h with
  | opened =>
      rw [quantity_neutral he, zero_add]
      exact ⟨rfl, hq⟩
  | @increased e r hs hadd =>
      have hval := hl.tryAdd hadd
      rw [quantity_running he, hs]
      exact ⟨signed_add _ hval, by omega⟩
  | @reversed e r hs hlt hsub =>
      have hval := hl.trySub hsub
      have hpos : e.quantity.asU64 < quantity.asU64 := hlt
      rw [quantity_running he, signed_add side hval, signed_opposite hs e.quantity]
      exact ⟨by omega, by omega⟩
  | @reduced e r hs hlt hsub hpl =>
      have hval := hl.trySub hsub
      have hpos : quantity.asU64 < e.quantity.asU64 := hlt
      rw [quantity_running he, signed_add e.side hval, signed_opposite hs quantity]
      exact ⟨by omega, by omega⟩
  | @carried e r hs hlt hsub hpl =>
      have hval := hl.trySub hsub
      have hpos : quantity.asU64 < e.quantity.asU64 := hlt
      rw [quantity_running he, signed_add e.side hval, signed_opposite hs quantity]
      exact ⟨by omega, by omega⟩

/-! ### The three estimates at the target -/

/-- The quantity of the order is one that the SDK accepts. -/
def Accepted (sdk : CollateralSdk ε) (quantity : Quantity) : Prop :=
  sdk.quantityTryFrom quantity.asU64 = .ok quantity

/-- A reduction leaves a smaller quantity, and takes off what lies between the two. -/
theorem reduced_quantity {e r : Quantity} (hl : QuantityLaws sdk) (hq : Accepted sdk quantity)
    (hpos : 0 < quantity.asU64) (hsub : sdk.quantityTrySub e quantity = .ok r) :
    r < e ∧ sdk.quantityTrySub e r = .ok quantity := by
  have hval := hl.trySub hsub
  refine ⟨?_, hl.sub_isOk hq (by omega)⟩
  show r.asU64 < e.asU64
  omega

theorem reducedPl_of_lt {e : CrossExposureRunning} (h : quantity < e.quantity) :
    reducedPl sdk.toLnmSdk e marketPrice quantity =
      F64.floorI64 (sdk.estimatePl e.side quantity e.entryPrice marketPrice) := by
  have hge : ¬ e.quantity < quantity := Nat.lt_asymm h
  rw [reducedPl, if_neg hge]

theorem estEntry_of_orders (hl : QuantityLaws sdk) (hq : Accepted sdk quantity)
    (hpos : 0 < quantity.asU64)
    (h : Orders sdk.toLnmSdk marketPrice side quantity pos.exposure (newSide, newQuantity, p)
      booked) :
    pos.estEntryPriceForExposure sdk.toLnmSdk newSide newQuantity marketPrice = some p := by
  generalize he : pos.exposure = exposure at h
  cases h with
  | opened => simp [estEntryPriceForExposure, he]
  | @increased e r hs hadd =>
      have hval := hl.tryAdd hadd
      have hlt : e.quantity < newQuantity := by
        show e.quantity.asU64 < newQuantity.asU64
        omega
      have hsub : sdk.quantityTrySub newQuantity e.quantity = .ok quantity :=
        hl.sub_isOk hq (by omega)
      simp [estEntryPriceForExposure, he, hs, hlt, hsub, Except.toOption]
  | @reversed e r hs hlt hsub => simp [estEntryPriceForExposure, he, hs]
  | @reduced e r hs hlt hsub hpl =>
      obtain ⟨hless, hback⟩ := reduced_quantity hl hq hpos hsub
      rw [reducedPl_of_lt hlt] at hpl
      have hge : ¬ e.quantity < newQuantity := Nat.lt_asymm hless
      have hne : newQuantity ≠ e.quantity := fun heq => Nat.lt_irrefl _ (heq ▸ hless)
      simp [estEntryPriceForExposure, he, hge, hne, hback, hpl, Except.toOption]
  | @carried e r hs hlt hsub hpl =>
      obtain ⟨hless, hback⟩ := reduced_quantity hl hq hpos hsub
      rw [reducedPl_of_lt hlt] at hpl
      have hge : ¬ e.quantity < newQuantity := Nat.lt_asymm hless
      have hne : newQuantity ≠ e.quantity := fun heq => Nat.lt_irrefl _ (heq ▸ hless)
      simp [estEntryPriceForExposure, he, hge, hne, hback, hpl.not_ge, Except.toOption]

theorem estMargin_of_orders (hl : QuantityLaws sdk) (hq : Accepted sdk quantity)
    (hpos : 0 < quantity.asU64)
    (h : Orders sdk.toLnmSdk marketPrice side quantity pos.exposure (newSide, newQuantity, p)
      booked) :
    pos.estMarginForExposure sdk.toLnmSdk newSide newQuantity marketPrice =
      (I64.tryFrom pos.margin).bind fun margin =>
        booked.elim (some margin) fun pl => I64.checkedAdd margin pl := by
  generalize he : pos.exposure = exposure at h
  cases h with
  | opened => simp [estMarginForExposure, he]
  | @increased e r hs hadd =>
      have hval := hl.tryAdd hadd
      have hge : ¬ newQuantity < e.quantity := by
        show ¬ newQuantity.asU64 < e.quantity.asU64
        omega
      simp [estMarginForExposure, he, hs, hge]
  | @reversed e r hs hlt hsub =>
      have hpl : reducedPl sdk.toLnmSdk e marketPrice quantity =
          F64.floorI64 (sdk.estimatePl e.side e.quantity e.entryPrice marketPrice) := by
        rw [reducedPl, if_pos hlt]
      simp [estMarginForExposure, he, hs, hpl]
  | @reduced e r hs hlt hsub hpl =>
      obtain ⟨hless, hback⟩ := reduced_quantity hl hq hpos hsub
      rw [reducedPl_of_lt hlt] at hpl ⊢
      simp [estMarginForExposure, he, hless, hback, hpl, Except.toOption]
  | @carried e r hs hlt hsub hpl =>
      obtain ⟨hless, hback⟩ := reduced_quantity hl hq hpos hsub
      rw [reducedPl_of_lt hlt] at hpl
      simp [estMarginForExposure, he, hless, hback, hpl.not_ge, Except.toOption]

theorem natAbs_signed (side : TradeSide) (q : Quantity) : (side.signed q).natAbs = q.asU64 := by
  cases side <;> simp [TradeSide.signed]

theorem estOrderFee_of_moves {fee : ℕ} (hl : QuantityLaws sdk) (hpos : 0 < quantity.asU64)
    (hmoves : newSide.signed newQuantity = pos.quantity + side.signed quantity)
    (h : pos.estOrderFeeForExposure sdk newSide newQuantity marketPrice feePerc = some fee) :
    Accepted sdk quantity ∧ sdk.evaluateOrderFee feePerc quantity marketPrice = fee := by
  have hdelta : ∃ delta, I64.checkedSub (newSide.signed newQuantity) pos.quantity = some delta ∧
      (if delta.natAbs = 0 then some 0
        else (sdk.quantityTryFrom delta.natAbs).toOption.bind fun q =>
          some (sdk.evaluateOrderFee feePerc q marketPrice)) = some fee := by
    cases newSide with
    | buy => exact Option.bind_eq_some_iff.mp h
    | sell =>
        obtain ⟨target, htarget, h⟩ := Option.bind_eq_some_iff.mp h
        obtain rfl := (I64.checked_eq_some.mp htarget).2
        exact Option.bind_eq_some_iff.mp h
  obtain ⟨delta, hdelta, h⟩ := hdelta
  have hdelta' : delta = side.signed quantity := by
    have hval := (I64.checked_eq_some.mp hdelta).2
    omega
  have habs : delta.natAbs = quantity.asU64 := by rw [hdelta', natAbs_signed]
  rw [habs, if_neg hpos.ne', Option.bind_eq_some_iff] at h
  obtain ⟨q, hq, h⟩ := h
  cases hfrom : sdk.quantityTryFrom quantity.asU64 with
  | error e => simp [hfrom, Except.toOption] at hq
  | ok q' =>
      obtain rfl : q' = q := by simpa [hfrom, Except.toOption] using hq
      obtain rfl : q' = quantity := quantity_ext (hl.tryFrom hfrom)
      exact ⟨hfrom, Option.some.inj h⟩

/-- The order to a target agrees with the estimates for it: the new exposure has the target's
side and quantity at the estimated entry price, on the estimated margin less the fee. -/
structure AgreesWithEstimates (sdk : CollateralSdk ε) (marketPrice : Price)
    (pos : SimulatedCrossPosition) (target : TradeSide × Quantity)
    (pos' : SimulatedCrossPosition) (margin : ℤ) (fee : ℕ) : Prop where
  exposure : ∃ e, pos'.exposure = .running e ∧ e.side = target.1 ∧ e.quantity = target.2 ∧
    pos.estEntryPriceForExposure sdk.toLnmSdk target.1 target.2 marketPrice = some e.entryPrice
  margin : (pos'.margin : ℤ) = margin - fee

/-- The signed quantity an order leads to. -/
def orderedQuantity (pos : SimulatedCrossPosition) (side : TradeSide) (quantity : Quantity) : ℤ :=
  pos.quantity + side.signed quantity

/-- The margin an order leaves when the fee and the P/L it books are covered. -/
theorem margin_of_ordered {params : TradeSide × Quantity × Price} {margin fee : ℤ}
    (h : Ordered sdk.toLnmSdk feePerc marketPrice side quantity pos params booked pos')
    (hcovered : sdk.evaluateOrderFee feePerc quantity marketPrice ≤ pos.margin)
    (hfee : (sdk.evaluateOrderFee feePerc quantity marketPrice : ℤ) = fee)
    (hest : ((I64.tryFrom pos.margin).bind fun m =>
      booked.elim (some m) fun pl => I64.checkedAdd m pl) = some margin)
    (hle : 0 ≤ margin - fee) : (pos'.margin : ℤ) = margin - fee := by
  obtain ⟨m, m', r', hm, hbooks, hnew⟩ := h.built
  obtain ⟨x, -, rfl⟩ := new_eq_ok.mp hnew
  have hafter := applyAmount_eq_ok hm
  rw [hfee, Netting.book] at hafter
  rw [Option.bind_eq_some_iff] at hest
  obtain ⟨current, hcurrent, hest⟩ := hest
  obtain rfl := I64.eq_of_tryFrom hcurrent
  cases booked with
  | none =>
      obtain rfl : (pos.margin : ℤ) = margin := Option.some.inj hest
      obtain ⟨rfl, -⟩ := hbooks
      show (m' : ℤ) = _
      omega
  | some pl =>
      have hsum := I64.eq_of_checkedAdd hest
      have hbooked := applyAmount_eq_ok hbooks.1
      rw [Netting.book] at hbooked
      show (m' : ℤ) = _
      omega

/-- Whatever an order does short of an exact close, the estimates for its target tell. -/
theorem estimates_agree (sdk : CollateralSdk ε) (feePerc : PercentageCapped) (marketPrice : Price)
    (pos pos' : SimulatedCrossPosition) (side : TradeSide) (quantity : Quantity)
    (hl : QuantityLaws sdk) (hx : ExposureParams sdk.toLnmSdk)
    (hpos : 0 < quantity.asU64) (hclose : ¬ ClosesExactly pos side quantity)
    (horder : pos.withMarketOrder sdk.toLnmSdk marketPrice side quantity feePerc = .ok pos')
    (hcovered : sdk.evaluateOrderFee feePerc quantity marketPrice ≤ pos.margin)
    {target : TradeSide × Quantity}
    (htarget : target = netExposure (orderedQuantity pos side quantity))
    {margin : ℤ} {fee : ℕ}
    (hm : pos.estMarginForExposure sdk.toLnmSdk target.1 target.2 marketPrice = some margin)
    (hf : pos.estOrderFeeForExposure sdk target.1 target.2 marketPrice feePerc = some fee)
    (hle : 0 ≤ margin - fee) :
    AgreesWithEstimates sdk marketPrice pos target pos' margin fee := by
  obtain ⟨⟨newSide, newQuantity, p⟩, booked, hordered⟩ := order_of_ok hclose horder
  obtain ⟨hmoves, hnew⟩ := orders_moves hl hpos hordered.orders
  obtain rfl : target = (newSide, newQuantity) := by
    rw [htarget, orderedQuantity, ← hmoves, netExposure_signed hnew]
  obtain ⟨haccepted, hfee⟩ := estOrderFee_of_moves hl hpos hmoves hf
  refine ⟨?_, ?_⟩
  · obtain ⟨m, m', r', -, -, hbuilt⟩ := hordered.built
    obtain ⟨x, hexposure, rfl⟩ := new_eq_ok.mp hbuilt
    have hparams := hx.asked hexposure
    cases x with
    | neutral => simp [CrossExposure.asRunningParams] at hparams
    | running e =>
        simp only [CrossExposure.asRunningParams, Option.some.injEq, Prod.mk.injEq] at hparams
        obtain ⟨rfl, rfl, rfl⟩ := hparams
        exact ⟨e, rfl, rfl, rfl, estEntry_of_orders hl haccepted hpos hordered.orders⟩
  · rw [estMargin_of_orders hl haccepted hpos hordered.orders] at hm
    exact margin_of_ordered hordered hcovered (by rw [hfee]) hm hle

/-! ### A reversal, estimated and done -/

open ReferenceSdk

/-- 100 dollars long from 10000 at 100x, with a margin of 100000 satoshis. -/
def openWide : ExecutorResult Refusal SimulatedCrossPosition :=
  new collateralSdk.toLnmSdk 100000 ⟨100⟩ (some (.buy, ⟨100⟩, price 10000)) 1000 0 0

theorem openWide_isOk : openWide.isOk = true := by decide +kernel

def wideLong : SimulatedCrossPosition := get openWide openWide_isOk

/-- Selling 3000 dollars at 20000. -/
def reverseWide : ExecutorResult Refusal SimulatedCrossPosition :=
  wideLong.withMarketOrder collateralSdk.toLnmSdk (price 20000) .sell ⟨3000⟩ tenthPercent

theorem reverseWide_isOk : reverseWide.isOk = true := by decide +kernel

theorem wideLong_exposure : wideLong.exposure = .running ⟨.buy, ⟨100⟩, price 10000,
    crossLiquidation .buy ⟨100⟩ (price 10000) 98500, ReferenceSdk.margin 10000,
    ReferenceSdk.margin 1500⟩ := by
  decide +kernel

theorem reversal_not_exact : ¬ ClosesExactly wideLong .sell ⟨3000⟩ := by
  rintro ⟨e, he, -, hq⟩
  rw [wideLong_exposure] at he
  obtain rfl := CrossExposure.running.inj he
  cases hq

theorem estimates_agree_reversed :
    AgreesWithEstimates collateralSdk (price 20000) wideLong (.sell, ⟨2900⟩)
      (get reverseWide reverseWide_isOk) 600000 15000 :=
  estimates_agree collateralSdk tenthPercent (price 20000) wideLong _ .sell ⟨3000⟩ quantityLaws
    exposureParams (by decide) reversal_not_exact (eq_ok_get reverseWide_isOk)
    (by decide +kernel) (by decide +kernel) (by decide +kernel) (by decide +kernel) (by decide)

end CrossPosition

end Quantoxide
