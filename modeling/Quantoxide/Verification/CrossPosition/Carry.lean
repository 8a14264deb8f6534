import Quantoxide.Verification.CrossPosition.Orders
import Quantoxide.Verification.Sdk.Collateral

/-! # Losses carried by partial reductions

A losing reduction books no P/L. It moves the entry price of the rest of the position, in
inverse prices, so that the rest has the loss of the whole. The SDK bounds that price. -/

namespace Quantoxide

namespace CrossPosition

open SimulatedCrossPosition Result InverseGain

variable {ε : Type} {sdk : CollateralSdk ε} {tick : ℚ} {feePerc : PercentageCapped}
  {marketPrice : Price} {side : TradeSide} {quantity : Quantity} {pos pos' : SimulatedCrossPosition}

/-! ### Exact arithmetic -/

/-- `carriedEntryPrice` over exact rationals; an inverse price of zero divides to infinity. -/
def exactCarriedEntryPrice (sdk : LnmSdk ε) (side : TradeSide) (resultingQuantity : Quantity)
    (fullPositionPl : F64) (marketPrice : Price) : Price :=
  let inverseMarketPrice := satsPerBtc / marketPrice.asF64.val
  let carriedInverseEntryPrice := match side with
    | .buy => inverseMarketPrice + fullPositionPl.val / resultingQuantity.asU64
    | .sell => inverseMarketPrice - fullPositionPl.val / resultingQuantity.asU64
  sdk.bounded (if carriedInverseEntryPrice = 0 then ⊤
    else F64.clamp (satsPerBtc / carriedInverseEntryPrice))

/-- How the entry price of a losing reduction is computed. -/
abbrev Carry := TradeSide → Quantity → F64 → Price → Price

/-- The branch of `with_market_order` that a losing reduction takes. -/
def losingReduction (sdk : LnmSdk ε) (carry : Carry) (pos : SimulatedCrossPosition)
    (curr : CrossExposureRunning) (marketPrice : Price) (orderQuantity : Quantity)
    (feePerc : PercentageCapped) : ExecutorResult ε SimulatedCrossPosition := do
  let orderFee := sdk.evaluateOrderFee feePerc orderQuantity marketPrice
  let orderFeeI64 ← okOr (I64.tryFrom orderFee) .crossPositionOverflow
  let amount ← okOr (I64.checkedNeg orderFeeI64) .crossPositionOverflow
  let marginAfterOrderFee ← applyAmountToMargin pos.margin amount
  let cumulativeTradingFees ←
    okOr (U64.checkedAdd pos.tradingFees orderFee) .crossPositionOverflow
  let resultingQuantity ← (sdk.quantityTrySub curr.quantity orderQuantity).mapError
    .crossQuantityValidation
  let fullPositionPl := sdk.estimatePl curr.side curr.quantity curr.entryPrice marketPrice
  new sdk marginAfterOrderFee pos.leverage
    (some (curr.side, resultingQuantity, carry curr.side resultingQuantity fullPositionPl
      marketPrice)) cumulativeTradingFees pos.sessionFundingFees pos.realizedPl

/-- The order takes a losing part off the exposure and leaves the rest. -/
structure LosingReduction (sdk : LnmSdk ε) (marketPrice : Price) (side : TradeSide)
    (quantity : Quantity) (e : CrossExposureRunning) : Prop where
  opposite : e.side ≠ side
  smaller : quantity < e.quantity
  loses : F64.floorI64 (sdk.estimatePl e.side quantity e.entryPrice marketPrice) < 0

instance (sdk : LnmSdk ε) (marketPrice : Price) (side : TradeSide) (quantity : Quantity)
    (e : CrossExposureRunning) : Decidable (LosingReduction sdk marketPrice side quantity e) :=
  decidable_of_iff (e.side ≠ side ∧ quantity < e.quantity ∧
    F64.floorI64 (sdk.estimatePl e.side quantity e.entryPrice marketPrice) < 0)
    ⟨fun h => ⟨h.1, h.2.1, h.2.2⟩, fun h => ⟨h.1, h.2, h.3⟩⟩

/-- `with_market_order` with the arithmetic of the carried entry price left open. -/
def withMarketOrderIn (sdk : LnmSdk ε) (carry : Carry) (pos : SimulatedCrossPosition)
    (marketPrice : Price) (orderSide : TradeSide) (orderQuantity : Quantity)
    (feePerc : PercentageCapped) : ExecutorResult ε SimulatedCrossPosition :=
  match pos.exposure with
  | .neutral => pos.withMarketOrder sdk marketPrice orderSide orderQuantity feePerc
  | .running curr =>
    if LosingReduction sdk marketPrice orderSide orderQuantity curr then
      losingReduction sdk carry pos curr marketPrice orderQuantity feePerc
    else pos.withMarketOrder sdk marketPrice orderSide orderQuantity feePerc

/-- With the arithmetic of the source it is `with_market_order`. -/
theorem withMarketOrderIn_source (sdk : LnmSdk ε) (pos : SimulatedCrossPosition)
    (marketPrice : Price) (side : TradeSide) (quantity : Quantity) (feePerc : PercentageCapped) :
    withMarketOrderIn sdk (carriedEntryPrice sdk) pos marketPrice side quantity feePerc =
      pos.withMarketOrder sdk marketPrice side quantity feePerc := by
  unfold withMarketOrderIn
  cases he : pos.exposure with
  | neutral => rfl
  | running e =>
      simp only
      split_ifs with h
      · have hne : quantity ≠ e.quantity := by
          rintro rfl
          exact Nat.lt_irrefl _ h.smaller
        have hge : ¬ e.quantity < quantity := Nat.lt_asymm h.smaller
        have hloses := not_le.mpr h.loses
        simp [losingReduction, withMarketOrder, he, h.opposite, hne, hge, hloses]
      · rfl

/-! ### The carried price -/

/-- The P/L of `r` from the entry price is a given loss, up to flooring and a tick of the
price, and no profit. -/
structure CarriedTo (tick : ℚ) (side : TradeSide) (r : Quantity) (marketPrice : Price) (loss : ℚ)
    (entry : Price) : Prop where
  reached : ∃ p, |p - entry.asF64.val| ≤ tick ∧
    ⌊exactPl side r p marketPrice.asF64.val⌋ = ⌊loss⌋
  noProfit : exactPl side r entry.asF64.val marketPrice.asF64.val ≤ 0

/-- A tick beyond the price from which a position loses most. -/
def farEnd (sdk : LnmSdk ε) (tick : ℚ) : TradeSide → ℚ
  | .buy => sdk.priceMax.asF64.val + tick
  | .sell => sdk.priceMin.asF64.val - tick

/-- Some price carries the loss: a long loses less than its worth at the market, and from the
far end of the prices `r` loses as much. -/
structure LossFits (sdk : LnmSdk ε) (tick : ℚ) (side : TradeSide) (r : Quantity)
    (marketPrice : Price) (loss : ℚ) : Prop where
  long : side = .buy → -(r.asU64 * satsPerBtc / marketPrice.asF64.val) ≤ loss
  farEnd : ⌊exactPl side r (farEnd sdk tick side) marketPrice.asF64.val⌋ ≤ ⌊loss⌋

section Carried

variable {r : Quantity} {full : F64}

/-- The carried entry price, over the signed satoshis of the contract. -/
theorem carried_eq (side : TradeSide) (hr : 0 < r.asU64) :
    exactCarriedEntryPrice sdk.toLnmSdk side r full marketPrice =
      sdk.bounded (if contractSats side r / marketPrice.asF64.val + full.val = 0 then ⊤
        else F64.clamp (entryFor (contractSats side r) marketPrice.asF64.val full.val)) := by
  have hr' : (r.asU64 : ℚ) ≠ 0 := by exact_mod_cast hr.ne'
  cases side with
  | buy =>
      have heq : contractSats .buy r / marketPrice.asF64.val + full.val =
          r.asU64 * (satsPerBtc / marketPrice.asF64.val + full.val / r.asU64) := by
        rw [contractSats, mul_add, mul_div_cancel₀ _ hr', mul_div_assoc]
      have hinv : entryFor (contractSats .buy r) marketPrice.asF64.val full.val =
          satsPerBtc / (satsPerBtc / marketPrice.asF64.val + full.val / r.asU64) := by
        rw [entryFor, heq, contractSats, mul_div_mul_left _ _ hr']
      simp only [exactCarriedEntryPrice, hinv, heq, mul_eq_zero, hr', false_or]
  | sell =>
      have hneg := neg_ne_zero.mpr hr'
      have heq : contractSats .sell r / marketPrice.asF64.val + full.val =
          -r.asU64 * (satsPerBtc / marketPrice.asF64.val - full.val / r.asU64) := by
        rw [contractSats, neg_mul, mul_sub, mul_div_cancel₀ _ hr', neg_div, mul_div_assoc]
        ring
      have hinv : entryFor (contractSats .sell r) marketPrice.asF64.val full.val =
          satsPerBtc / (satsPerBtc / marketPrice.asF64.val - full.val / r.asU64) := by
        rw [entryFor, heq, contractSats, ← neg_mul, mul_div_mul_left _ _ hneg]
      simp only [exactCarriedEntryPrice, hinv, heq, mul_eq_zero, hneg, false_or]

theorem contractSats_buy_pos (hr : 0 < r.asU64) : 0 < contractSats .buy r := by
  have hr' : (0 : ℚ) < r.asU64 := by exact_mod_cast hr
  exact mul_pos hr' satsPerBtc_pos

theorem contractSats_sell_neg (hr : 0 < r.asU64) : contractSats .sell r < 0 :=
  neg_neg_of_pos (contractSats_buy_pos hr)

theorem clamp_val_of_range {x : ℚ} {lo hi : Price} (hlo : lo.asF64.val ≤ x)
    (hhi : x ≤ hi.asF64.val) : (F64.clamp x).val = x :=
  F64.clamp_val (lo.asF64.ge_min.trans hlo) (hhi.trans hi.asF64.le_max)

theorem le_clamp {x : ℚ} {q : Price} (h : q.asF64.val ≤ x) : q.asF64 ≤ F64.clamp x :=
  le_max_of_le_right (le_min q.asF64.le_max h)

theorem clamp_le {x : ℚ} {q : Price} (h : x ≤ q.asF64.val) : F64.clamp x ≤ q.asF64 :=
  max_le q.asF64.ge_min (min_le_of_right_le h)

/-- A carried price within the range carries the loss. -/
theorem reached_of_range {side : TradeSide} {x : ℚ} (hp : PriceRange sdk.toLnmSdk tick)
    (hmin : sdk.priceMin.asF64.val ≤ x) (hmax : x ≤ sdk.priceMax.asF64.val)
    (hx : exactPl side r x marketPrice.asF64.val = full.val) :
    ∃ p, |p - (sdk.bounded (F64.clamp x)).asF64.val| ≤ tick ∧
      ⌊exactPl side r p marketPrice.asF64.val⌋ = ⌊full.val⌋ := by
  have hval := clamp_val_of_range hmin hmax
  have hnear := hp.near (x := F64.clamp x) (by rw [F64.le_iff, hval]; exact hmin)
    (by rw [F64.le_iff, hval]; exact hmax)
  rw [hval, abs_sub_comm] at hnear
  exact ⟨x, hnear, by rw [hx]⟩

/-- A carried price that is clamped to the end of the range carries what its far end does. -/
theorem carriedTo_clamped {side : TradeSide} {q : Price} {loss : ℚ}
    (hno : exactPl side r q.asF64.val marketPrice.asF64.val ≤ 0)
    (hlong : side = .buy → -(r.asU64 * satsPerBtc / marketPrice.asF64.val) ≤ loss)
    (hfar : |farEnd sdk.toLnmSdk tick side - q.asF64.val| ≤ tick)
    (hleast : ∀ p, |p - q.asF64.val| ≤ tick →
      exactPl side r (farEnd sdk.toLnmSdk tick side) marketPrice.asF64.val ≤
        exactPl side r p marketPrice.asF64.val)
    (hreach : loss ≤ exactPl side r (farEnd sdk.toLnmSdk tick side) marketPrice.asF64.val ∨
      ∃ p, |p - q.asF64.val| ≤ tick ∧ exactPl side r p marketPrice.asF64.val = loss) :
    CarriedTo tick side r marketPrice loss q ↔
      LossFits sdk.toLnmSdk tick side r marketPrice loss := by
  have hiff := floor_reached_iff (f := fun p => exactPl side r p marketPrice.asF64.val)
    (w := fun p => |p - q.asF64.val| ≤ tick) hfar hleast hreach
  constructor
  · intro h
    exact ⟨hlong, hiff.mp h.reached⟩
  · intro h
    exact ⟨hiff.mpr h.farEnd, hno⟩

theorem carriedTo_buy_iff (hp : PriceRange sdk.toLnmSdk tick)
    (hm : IsPrice sdk.toLnmSdk marketPrice) (hr : 0 < r.asU64) (hloss : full.val < 0) :
    CarriedTo tick .buy r marketPrice full.val
        (exactCarriedEntryPrice sdk.toLnmSdk .buy r full marketPrice) ↔
      LossFits sdk.toLnmSdk tick .buy r marketPrice full.val := by
  have hn := contractSats_buy_pos hr
  have hmpos := hp.pos hm
  have hmax := hp.le_max hm
  have htick := hp.tick_nonneg
  have hmin := hp.tick_lt_min
  have hends : sdk.priceMin.asF64.val ≤ sdk.priceMax.asF64.val := hp.min_le_max
  have hfar : |farEnd sdk.toLnmSdk tick .buy - sdk.priceMax.asF64.val| ≤ tick := by
    rw [farEnd, add_sub_cancel_left, abs_of_nonneg htick]
  have hleast : ∀ p, |p - sdk.priceMax.asF64.val| ≤ tick →
      exactPl .buy r (farEnd sdk.toLnmSdk tick .buy) marketPrice.asF64.val ≤
        exactPl .buy r p marketPrice.asF64.val := by
    intro p hwin
    rw [abs_le] at hwin
    apply exactPl_buy_anti
    · linarith
    · rw [farEnd]
      linarith
  have hnoProfit : ∀ q : Price, marketPrice ≤ q →
      exactPl .buy r q.asF64.val marketPrice.asF64.val ≤ 0 := by
    intro q hq
    rw [← exactPl_self .buy r marketPrice.asF64.val]
    exact exactPl_buy_anti hmpos hq
  have hlongIff : -(r.asU64 * satsPerBtc / marketPrice.asF64.val) ≤ full.val ↔
      0 ≤ contractSats .buy r / marketPrice.asF64.val + full.val := by
    rw [contractSats]
    constructor <;> intro h <;> linarith
  rw [carried_eq .buy hr]
  rcases lt_trichotomy (contractSats .buy r / marketPrice.asF64.val + full.val) 0 with
    hneg | hzero | hpos
  · -- The loss exceeds the worth of the rest: the price turns negative and is clamped to the
    -- lowest one, a profit.
    rw [if_neg hneg.ne, hp.of_le_min]
    · constructor
      · intro h
        obtain ⟨p, hwin, hfloor⟩ := h.reached
        rw [abs_le] at hwin
        have hppos : 0 < p := by linarith
        have hp' : p ≤ satsPerBtc := by
          have hle := hp.min_add_tick_le
          unfold satsPerBtc
          linarith
        have hone : 1 ≤ contractSats .buy r / p := by
          have hr' : (1 : ℚ) ≤ r.asU64 := by exact_mod_cast hr
          rw [le_div_iff₀ hppos, contractSats]
          nlinarith [satsPerBtc_pos]
        have habove : full.val + 1 ≤ exactPl .buy r p marketPrice.asF64.val := by
          rw [exactPl_eq_gain, gain]
          linarith
        have hmono := Int.floor_le_floor habove
        rw [Int.floor_add_one, hfloor] at hmono
        omega
      · intro h
        exact absurd (hlongIff.mp (h.long rfl)) (not_le.mpr hneg)
    · apply clamp_le
      have hdiv := div_neg_of_pos_of_neg hn hneg
      unfold entryFor
      linarith [hp.min_pos]
  · -- An inverse price of zero: the highest price, where the loss is all of the worth.
    rw [if_pos hzero, hp.of_max_le le_top]
    apply carriedTo_clamped (hnoProfit _ hmax) (fun _ => hlongIff.mpr hzero.ge) hfar hleast
    left
    have hpos : 0 < contractSats .buy r / farEnd sdk.toLnmSdk tick .buy := by
      apply div_pos hn
      rw [farEnd]
      linarith
    rw [exactPl_eq_gain, gain]
    linarith
  · rw [if_neg hpos.ne']
    have hx : exactPl .buy r (entryFor (contractSats .buy r) marketPrice.asF64.val full.val)
        marketPrice.asF64.val = full.val := by
      rw [exactPl_eq_gain]
      exact gain_entryFor hn.ne' hpos.ne'
    have hxpos : 0 < entryFor (contractSats .buy r) marketPrice.asF64.val full.val :=
      div_pos hn hpos
    generalize entryFor (contractSats .buy r) marketPrice.asF64.val full.val = x at hx hxpos
    have hmx : marketPrice.asF64.val ≤ x := by
      apply le_of_gain_nonpos hn hxpos
      rw [← exactPl_eq_gain, hx]
      exact hloss.le
    rcases le_or_gt x sdk.priceMax.asF64.val with hin | hout
    · have hup : marketPrice ≤ sdk.bounded (F64.clamp x) := by
        rw [← hm]
        exact hp.mono (le_clamp hmx)
      refine ⟨fun _ => ⟨fun _ => hlongIff.mpr hpos.le, Int.floor_le_floor ?_⟩,
        fun _ => ⟨reached_of_range hp ((hp.min_le hm).trans hmx) hin hx, hnoProfit _ hup⟩⟩
      rw [← hx]
      apply exactPl_buy_anti hxpos
      rw [farEnd]
      linarith
    · rw [hp.of_max_le (le_clamp hout.le)]
      apply carriedTo_clamped (hnoProfit _ hmax) (fun _ => hlongIff.mpr hpos.le) hfar hleast
      rcases le_or_gt x (farEnd sdk.toLnmSdk tick .buy) with hwin | hbeyond
      · rw [farEnd] at hwin
        refine Or.inr ⟨x, ?_, hx⟩
        rw [abs_le]
        constructor <;> linarith
      · left
        rw [← hx]
        apply exactPl_buy_anti _ hbeyond.le
        rw [farEnd]
        linarith

theorem carriedTo_sell_iff (hp : PriceRange sdk.toLnmSdk tick)
    (hm : IsPrice sdk.toLnmSdk marketPrice) (hr : 0 < r.asU64) (hloss : full.val < 0) :
    CarriedTo tick .sell r marketPrice full.val
        (exactCarriedEntryPrice sdk.toLnmSdk .sell r full marketPrice) ↔
      LossFits sdk.toLnmSdk tick .sell r marketPrice full.val := by
  have hn := contractSats_sell_neg hr
  have hmpos := hp.pos hm
  have hmin := hp.min_le hm
  have htick := hp.tick_nonneg
  have hfarpos : 0 < farEnd sdk.toLnmSdk tick .sell := sub_pos.mpr hp.tick_lt_min
  have hfar : |farEnd sdk.toLnmSdk tick .sell - sdk.priceMin.asF64.val| ≤ tick := by
    rw [farEnd, sub_sub_cancel_left, abs_neg, abs_of_nonneg htick]
  have hleast : ∀ p, |p - sdk.priceMin.asF64.val| ≤ tick →
      exactPl .sell r (farEnd sdk.toLnmSdk tick .sell) marketPrice.asF64.val ≤
        exactPl .sell r p marketPrice.asF64.val := by
    intro p hwin
    rw [abs_le] at hwin
    apply exactPl_sell_mono hfarpos
    rw [farEnd]
    linarith
  have hnoProfit : ∀ q : Price, 0 < q.asF64.val → q ≤ marketPrice →
      exactPl .sell r q.asF64.val marketPrice.asF64.val ≤ 0 := by
    intro q hq hle
    rw [← exactPl_self .sell r marketPrice.asF64.val]
    exact exactPl_sell_mono hq hle
  have hneg : contractSats .sell r / marketPrice.asF64.val + full.val < 0 := by
    have hdiv := div_neg_of_neg_of_pos hn hmpos
    linarith
  rw [carried_eq .sell hr, if_neg hneg.ne]
  have hx : exactPl .sell r (entryFor (contractSats .sell r) marketPrice.asF64.val full.val)
      marketPrice.asF64.val = full.val := by
    rw [exactPl_eq_gain]
    exact gain_entryFor hn.ne hneg.ne
  have hxpos : 0 < entryFor (contractSats .sell r) marketPrice.asF64.val full.val :=
    div_pos_of_neg_of_neg hn hneg
  generalize entryFor (contractSats .sell r) marketPrice.asF64.val full.val = x at hx hxpos
  have hxm : x ≤ marketPrice.asF64.val := by
    apply ge_of_gain_nonpos hn hmpos
    rw [← exactPl_eq_gain, hx]
    exact hloss.le
  have hlong : TradeSide.sell = .buy →
      -(r.asU64 * satsPerBtc / marketPrice.asF64.val) ≤ full.val := by
    intro h
    cases h
  rcases le_or_gt sdk.priceMin.asF64.val x with hin | hout
  · have hdown : sdk.bounded (F64.clamp x) ≤ marketPrice := by
      rw [← hm]
      exact hp.mono (clamp_le hxm)
    have hpos : 0 < (sdk.bounded (F64.clamp x)).asF64.val :=
      hp.min_pos.trans_le (hp.min_le_bounded _)
    refine ⟨fun _ => ⟨hlong, Int.floor_le_floor ?_⟩,
      fun _ => ⟨reached_of_range hp hin (hxm.trans (hp.le_max hm)) hx, hnoProfit _ hpos hdown⟩⟩
    rw [← hx]
    apply exactPl_sell_mono hfarpos
    rw [farEnd]
    linarith
  · rw [hp.of_le_min (clamp_le hout.le)]
    apply carriedTo_clamped (hnoProfit _ hp.min_pos hmin) hlong hfar hleast
    rcases le_or_gt (farEnd sdk.toLnmSdk tick .sell) x with hwin | hbeyond
    · rw [farEnd] at hwin
      refine Or.inr ⟨x, ?_, hx⟩
      rw [abs_le]
      constructor <;> linarith
    · left
      rw [← hx]
      exact exactPl_sell_mono hxpos hbeyond.le

theorem carriedTo_iff (side : TradeSide) (hp : PriceRange sdk.toLnmSdk tick)
    (hm : IsPrice sdk.toLnmSdk marketPrice) (hr : 0 < r.asU64) (hloss : full.val < 0) :
    CarriedTo tick side r marketPrice full.val
        (exactCarriedEntryPrice sdk.toLnmSdk side r full marketPrice) ↔
      LossFits sdk.toLnmSdk tick side r marketPrice full.val := by
  cases side with
  | buy => exact carriedTo_buy_iff hp hm hr hloss
  | sell => exact carriedTo_sell_iff hp hm hr hloss

end Carried

/-! ### Losing reductions -/

theorem exactPl_eq_mul (side : TradeSide) (q : Quantity) (x y : ℚ) :
    exactPl side q x y = q.asU64 * exactPl side ⟨1⟩ x y := by
  cases side <;> simp [exactPl]

/-- Where a part of a position loses, the whole loses. -/
theorem exactPl_neg_of_part {side : TradeSide} {q part : Quantity} {x y : ℚ}
    (h : exactPl side part x y < 0) (hlt : part < q) : exactPl side q x y < 0 := by
  have hlt' : part.asU64 < q.asU64 := hlt
  have hq : (0 : ℚ) < q.asU64 := by exact_mod_cast Nat.zero_lt_of_lt hlt'
  rw [exactPl_eq_mul] at h ⊢
  apply mul_neg_of_pos_of_neg hq
  by_contra hge
  exact h.not_ge (mul_nonneg (Nat.cast_nonneg _) (not_lt.mp hge))

theorem neg_of_floorI64_neg {x : F64} (h : F64.floorI64 x < 0) : x.val < 0 := by
  by_contra hge
  have hfloor : 0 ≤ ⌊x.val⌋ := Int.floor_nonneg.mpr (not_lt.mp hge)
  unfold F64.floorI64 F64.saturateI64 at h
  omega

/-- What a losing reduction leaves. -/
theorem losingReduction_spec {carry : Carry} {e : CrossExposureRunning} (hl : QuantityLaws sdk)
    (hx : CrossMargins sdk.toLnmSdk)
    (h : losingReduction sdk.toLnmSdk carry pos e marketPrice quantity feePerc = .ok pos') :
    ∃ e', pos'.exposure = .running e' ∧ e'.side = e.side ∧
      e'.quantity = ⟨e.quantity.asU64 - quantity.asU64⟩ ∧
      e'.entryPrice = carry e.side e'.quantity
        (sdk.estimatePl e.side e.quantity e.entryPrice marketPrice) marketPrice ∧
      (pos'.margin : ℤ) = pos.margin - sdk.evaluateOrderFee feePerc quantity marketPrice ∧
      pos'.realizedPl = pos.realizedPl := by
  simp only [losingReduction, bind_eq_ok, okOr_eq_ok, mapError_eq_ok, I64.tryFrom,
    I64.checkedNeg, I64.checked_eq_some, U64.checkedAdd_eq_some, new_eq_ok] at h
  obtain ⟨_, ⟨-, rfl⟩, _, ⟨-, rfl⟩, m, hm, _, ⟨-, rfl⟩, r, hq, x, hnew, rfl⟩ := h
  have hparams := hx.asked hnew
  cases x with
  | neutral => simp [CrossExposure.asRunningParams] at hparams
  | running e' =>
      have hcover := hx.covered hnew
      have hbook := applyAmount_eq_ok hm
      have hsub := hl.trySub hq
      have hr : r = ⟨e.quantity.asU64 - quantity.asU64⟩ := by
        apply quantity_ext
        simp only
        omega
      simp only [CrossExposure.asRunningParams, Option.some.injEq, Prod.mk.injEq] at hparams
      obtain ⟨hside, hqty, hentry⟩ := hparams
      refine ⟨e', rfl, hside, hqty.trans hr, ?_, ?_, rfl⟩
      · rw [hentry, hqty]
      · unfold Netting.book at hbook
        simp only
        omega

/-- The rest of the position has the loss of the whole, and nothing else is booked. -/
structure CarriesLoss (sdk : LnmSdk ε) (tick : ℚ) (feePerc : PercentageCapped)
    (marketPrice : Price) (quantity : Quantity) (e : CrossExposureRunning)
    (pos pos' : SimulatedCrossPosition) : Prop where
  entry : ∃ e', pos'.exposure = .running e' ∧ e'.side = e.side ∧
    e'.quantity = ⟨e.quantity.asU64 - quantity.asU64⟩ ∧
    CarriedTo tick e.side e'.quantity marketPrice
      (exactPl e.side e.quantity e.entryPrice.asF64.val marketPrice.asF64.val) e'.entryPrice
  margin : (pos'.margin : ℤ) = pos.margin - sdk.evaluateOrderFee feePerc quantity marketPrice
  realizedPl : pos'.realizedPl = pos.realizedPl

/-- A losing reduction carries the whole loss exactly when a price can. -/
theorem losing_reduction_carries_iff (sdk : CollateralSdk ε) (tick : ℚ)
    (feePerc : PercentageCapped) (marketPrice : Price) (pos pos' : SimulatedCrossPosition)
    (e : CrossExposureRunning) (side : TradeSide) (quantity : Quantity) (hl : QuantityLaws sdk)
    (hx : CrossMargins sdk.toLnmSdk) (hp : PriceRange sdk.toLnmSdk tick)
    (hpl : ExactPl sdk.toLnmSdk) (hm : IsPrice sdk.toLnmSdk marketPrice)
    (hentry : IsPrice sdk.toLnmSdk e.entryPrice) (hq : e.quantity.asU64 < 2 ^ 64)
    (he : pos.exposure = .running e)
    (hred : LosingReduction sdk.toLnmSdk marketPrice side quantity e)
    (horder : withMarketOrderIn sdk.toLnmSdk (exactCarriedEntryPrice sdk.toLnmSdk) pos marketPrice
      side quantity feePerc = .ok pos') :
    CarriesLoss sdk.toLnmSdk tick feePerc marketPrice quantity e pos pos' ↔
      LossFits sdk.toLnmSdk tick e.side ⟨e.quantity.asU64 - quantity.asU64⟩ marketPrice
        (exactPl e.side e.quantity e.entryPrice.asF64.val marketPrice.asF64.val) := by
  rw [withMarketOrderIn, he] at horder
  simp only [hred, if_true] at horder
  obtain ⟨e', hrunning, hside, hrest, hprice, hmargin, hrealized⟩ :=
    losingReduction_spec hl hx horder
  have hlt : quantity.asU64 < e.quantity.asU64 := hred.smaller
  have hfull := hpl.exact e.side hq hentry hm
  have hloss : (sdk.estimatePl e.side e.quantity e.entryPrice marketPrice).val < 0 := by
    have hpart := neg_of_floorI64_neg hred.loses
    rw [hpl.exact e.side (hlt.trans hq) hentry hm] at hpart
    rw [hfull]
    exact exactPl_neg_of_part hpart hred.smaller
  have hr : 0 < (⟨e.quantity.asU64 - quantity.asU64⟩ : Quantity).asU64 := Nat.sub_pos_of_lt hlt
  have hcarried : CarriedTo tick e.side ⟨e.quantity.asU64 - quantity.asU64⟩ marketPrice
        (sdk.estimatePl e.side e.quantity e.entryPrice marketPrice).val e'.entryPrice ↔
      LossFits sdk.toLnmSdk tick e.side ⟨e.quantity.asU64 - quantity.asU64⟩ marketPrice
        (sdk.estimatePl e.side e.quantity e.entryPrice marketPrice).val := by
    rw [hprice, hrest]
    exact carriedTo_iff e.side hp hm hr hloss
  rw [← hfull]
  constructor
  · intro h
    obtain ⟨e'', hrunning', -, hrest', hto⟩ := h.entry
    obtain rfl := CrossExposure.running.inj (hrunning.symm.trans hrunning')
    rw [hrest', ← hfull] at hto
    exact hcarried.mp hto
  · intro h
    refine ⟨⟨e', hrunning, hside, hrest, ?_⟩, hmargin, hrealized⟩
    rw [hrest, ← hfull]
    exact hcarried.mpr h

/-! ### A loss that an entry price carries, and one that none does -/

open ReferenceSdk

/-- 100 dollars long at 100x. -/
def longFrom (entry : ℚ) (margin : ℕ) : ExecutorResult Refusal SimulatedCrossPosition :=
  new collateralSdk.toLnmSdk margin ⟨100⟩ (some (.buy, ⟨100⟩, price entry)) 0 0 0

/-- Selling a part of it, with the exact carried price. -/
def sellPart (pos : SimulatedCrossPosition) (market : ℚ) (quantity : ℕ) :
    ExecutorResult Refusal SimulatedCrossPosition :=
  withMarketOrderIn collateralSdk.toLnmSdk (exactCarriedEntryPrice collateralSdk.toLnmSdk) pos
    (price market) .sell ⟨quantity⟩ tenthPercent

theorem shallowLong_isOk : (longFrom 10000 500000).isOk = true := by decide +kernel

def shallowLong : SimulatedCrossPosition := get (longFrom 10000 500000) shallowLong_isOk

def shallowExposure : CrossExposureRunning :=
  ⟨.buy, ⟨100⟩, price 10000, crossLiquidation .buy ⟨100⟩ (price 10000) 498500,
    ReferenceSdk.margin 10000, ReferenceSdk.margin 1500⟩

theorem shallowRest_isOk : (sellPart shallowLong 8000 50).isOk = true := by decide +kernel

def shallowRest : SimulatedCrossPosition := get (sellPart shallowLong 8000 50) shallowRest_isOk

theorem shallow_reduction :
    LosingReduction collateralSdk.toLnmSdk (price 8000) .sell ⟨50⟩ shallowExposure := by
  decide +kernel

theorem shallow_fits : LossFits collateralSdk.toLnmSdk halfTick .buy ⟨50⟩ (price 8000)
    (exactPl .buy ⟨100⟩ (price 10000).asF64.val (price 8000).asF64.val) :=
  ⟨fun _ => by decide +kernel, by decide +kernel⟩

theorem losing_reduction_carries_iff_shallow :
    CarriesLoss collateralSdk.toLnmSdk halfTick tenthPercent (price 8000) ⟨50⟩ shallowExposure
        shallowLong shallowRest :=
  (losing_reduction_carries_iff collateralSdk halfTick tenthPercent (price 8000) shallowLong
    shallowRest shallowExposure .sell ⟨50⟩ quantityLaws crossMargins priceRange plExact
    (by decide +kernel) (by decide +kernel) (by decide) (by decide +kernel) shallow_reduction
    (eq_ok_get shallowRest_isOk)).mpr shallow_fits

theorem deepLong_isOk : (longFrom 100000 2000000).isOk = true := by decide +kernel

def deepLong : SimulatedCrossPosition := get (longFrom 100000 2000000) deepLong_isOk

def deepExposure : CrossExposureRunning :=
  ⟨.buy, ⟨100⟩, price 100000, crossLiquidation .buy ⟨100⟩ (price 100000) 1999850,
    ReferenceSdk.margin 1000, ReferenceSdk.margin 150⟩

theorem deepRest_isOk : (sellPart deepLong 50000 99).isOk = true := by decide +kernel

def deepRest : SimulatedCrossPosition := get (sellPart deepLong 50000 99) deepRest_isOk

/-- The inverse price turns negative, is bounded to the lowest price, and the loss of a
thousandth of a bitcoin is a profit of almost one. -/
theorem carried_loss_turns_profit :
    deepLong.exposure = .running deepExposure ∧
      deepLong.withMarketOrder collateralSdk.toLnmSdk (price 50000) .sell ⟨99⟩ tenthPercent =
        .ok deepRest ∧
      deepLong.estRunningPl collateralSdk.toLnmSdk (price 50000) = -100000 ∧
      deepRest.estRunningPl collateralSdk.toLnmSdk (price 50000) = 99998000 ∧
      ¬ CarriesLoss collateralSdk.toLnmSdk halfTick tenthPercent (price 50000) ⟨99⟩ deepExposure
        deepLong deepRest := by
  refine ⟨by decide +kernel, by decide +kernel, by decide +kernel, by decide +kernel, ?_⟩
  intro h
  obtain ⟨e', hrunning, hside, -, hto⟩ := h.entry
  have hrest : deepRest.exposure = .running ⟨.buy, ⟨1⟩, price 1,
      crossLiquidation .buy ⟨1⟩ (price 1) (deepRest.margin - 150000),
      ReferenceSdk.margin 1000000, ReferenceSdk.margin 150000⟩ := by
    decide +kernel
  obtain rfl := CrossExposure.running.inj (hrunning.symm.trans hrest)
  exact absurd hto.noProfit (by decide +kernel)

end CrossPosition

end Quantoxide
