import Quantoxide.Verification.CrossPosition.Estimates

/-! # Collateral sizing

The estimate of the collateral a target needs runs the order ahead of time. With that much
deposited the order goes through, and liquidates where it was asked to or farther away. -/

namespace Quantoxide

namespace CrossPosition

open SimulatedCrossPosition Result

variable {ε : Type} {sdk : CollateralSdk ε} {tick err slack : ℚ} {feePerc : PercentageCapped}
  {marketPrice newLiquidation : Price} {side newSide : TradeSide}
  {quantity newQuantity : Quantity} {p : Price} {booked : Option ℤ}
  {pos pos' : SimulatedCrossPosition}

/-! ### The order to a target -/

/-- The side and the quantity of the order that moves a position to a target. -/
def orderTo (pos : SimulatedCrossPosition) (newSide : TradeSide) (newQuantity : Quantity) :
    TradeSide × Quantity :=
  netExposure (newSide.signed newQuantity - pos.quantity)

theorem signed_netExposure (n : ℤ) : (netExposure n).1.signed (netExposure n).2 = n := by
  unfold netExposure
  split_ifs with h <;> simp only [TradeSide.signed] <;> omega

theorem orderTo_moves (pos : SimulatedCrossPosition) (newSide : TradeSide)
    (newQuantity : Quantity) : newSide.signed newQuantity = pos.quantity +
      (orderTo pos newSide newQuantity).1.signed (orderTo pos newSide newQuantity).2 := by
  rw [orderTo, signed_netExposure]
  omega

/-- A position moves by growing, by shrinking, or through zero. -/
theorem moves_cases {s t u : TradeSide} {n q r : Quantity} (hn : 0 < n.asU64)
    (h : t.signed n = s.signed q + u.signed r) :
    (s = t ∧ s = u ∧ q.asU64 + r.asU64 = n.asU64) ∨
      (s = t ∧ s ≠ u ∧ n.asU64 + r.asU64 = q.asU64) ∨
      (s ≠ t ∧ u = t ∧ n.asU64 + q.asU64 = r.asU64) := by
  cases s <;> cases t <;> cases u <;> simp only [TradeSide.signed] at h <;> simp <;> omega

/-- The order to a target takes the transition that the estimates follow. -/
theorem orders_of_estEntry (hl : QuantityLaws sdk) (hnew : Accepted sdk newQuantity)
    (hnewPos : 0 < newQuantity.asU64) (hq : Accepted sdk quantity) (hpos : 0 < quantity.asU64)
    (hmoves : newSide.signed newQuantity = pos.quantity + side.signed quantity)
    (hentry : pos.estEntryPriceForExposure sdk.toLnmSdk newSide newQuantity marketPrice = some p) :
    ∃ booked, Orders sdk.toLnmSdk marketPrice side quantity pos.exposure
      (newSide, newQuantity, p) booked := by
  cases he : pos.exposure with
  | neutral =>
      rw [quantity_neutral he, zero_add] at hmoves
      have htarget : (newSide, newQuantity) = (side, quantity) := by
        rw [← netExposure_signed hnewPos, hmoves, netExposure_signed hpos]
      cases htarget
      simp only [estEntryPriceForExposure, he, Option.some.injEq] at hentry
      subst hentry
      exact ⟨none, .opened⟩
  | running e =>
      rw [quantity_running he] at hmoves
      rcases moves_cases hnewPos hmoves with ⟨rfl, rfl, hsum⟩ | ⟨rfl, hs, hsum⟩ | ⟨hs, rfl, hsum⟩
      · have hlt : e.quantity < newQuantity := by
          show e.quantity.asU64 < newQuantity.asU64
          omega
        have hsub : sdk.quantityTrySub newQuantity e.quantity = .ok quantity :=
          hl.sub_isOk hq (by omega)
        simp only [estEntryPriceForExposure, he, hlt, hsub, Except.toOption, ne_eq,
          not_true_eq_false, if_false, if_true, Option.bind_eq_bind, Option.bind_some,
          Option.pure_def, Option.some.injEq] at hentry
        subst hentry
        exact ⟨none, .increased rfl (hl.add_isOk hnew hsum)⟩
      · have hlt : quantity < e.quantity := by
          show quantity.asU64 < e.quantity.asU64
          omega
        have hsub : sdk.quantityTrySub e.quantity quantity = .ok newQuantity :=
          hl.sub_isOk hnew hsum
        obtain ⟨hless, hback⟩ := reduced_quantity hl hq hpos hsub
        have hge : ¬ e.quantity < newQuantity := Nat.lt_asymm hless
        have hne : newQuantity ≠ e.quantity := fun heq => Nat.lt_irrefl _ (heq ▸ hless)
        simp only [estEntryPriceForExposure, he, hge, hne, hback, Except.toOption, ne_eq,
          not_true_eq_false, if_false, Option.bind_eq_bind, Option.bind_some] at hentry
        rw [← reducedPl_of_lt hlt] at hentry
        by_cases hpl : 0 ≤ reducedPl sdk.toLnmSdk e marketPrice quantity
        · simp only [ge_iff_le, hpl, if_true, Option.pure_def, Option.some.injEq] at hentry
          subst hentry
          exact ⟨_, .reduced hs hlt hsub hpl⟩
        · simp only [ge_iff_le, hpl, if_false, Option.pure_def, Option.some.injEq] at hentry
          subst hentry
          exact ⟨_, .carried hs hlt hsub (not_le.mp hpl)⟩
      · have hlt : e.quantity < quantity := by
          show e.quantity.asU64 < quantity.asU64
          omega
        simp only [estEntryPriceForExposure, he, ne_eq, hs, not_false_eq_true, if_true,
          Option.some.injEq] at hentry
        subst hentry
        exact ⟨_, .reversed hs hlt (hl.sub_isOk hnew hsum)⟩

/-! ### What the estimate says -/

/-- The deposit covers the margins of the target, and its liquidation. -/
structure Sized (sdk : CollateralSdk ε) (feePerc : PercentageCapped)
    (marketPrice newLiquidation : Price) (newSide : TradeSide) (newQuantity : Quantity)
    (pos : SimulatedCrossPosition) (deposit : ℤ) (p : Price) (target : CrossExposureRunning)
    (fee : ℕ) (margin : ℤ) (estMargin : Margin) : Prop where
  entryIs : pos.estEntryPriceForExposure sdk.toLnmSdk newSide newQuantity marketPrice = some p
  accepted : sdk.crossExposureNew sdk.marginMax.asU64 pos.leverage
    (some (newSide, newQuantity, p)) = .ok (.running target)
  feeIs : pos.estOrderFeeForExposure sdk newSide newQuantity marketPrice feePerc = some fee
  marginIs : pos.estMarginForExposure sdk.toLnmSdk newSide newQuantity marketPrice = some margin
  estimated : sdk.marginEstFromLiquidationPrice newSide newQuantity marketPrice newLiquidation =
    .ok estMargin
  feeFits : I64.InRange fee
  marginFits : I64.InRange (margin - fee)
  depositFits : I64.InRange deposit
  coherent : (target.runningMargin.asU64 : ℤ) + target.maintenanceMargin.asU64 + 1 ≤
    margin - fee + deposit
  liquidates : (estMargin.asU64 : ℤ) + target.maintenanceMargin.asU64 ≤ margin - fee +
    F64.floorI64 (sdk.estimatePl newSide newQuantity p marketPrice) + deposit

theorem toOption_eq_some {α : Type} {x : Except ε α} {a : α} : x.toOption = some a ↔ x = .ok a := by
  cases x <;> simp [Except.toOption]

theorem sized_of_some {deposit : ℤ} (hl : CollateralLaws sdk tick err)
    (h : pos.estCollateralDiffForExposure sdk newSide newQuantity marketPrice newLiquidation
      feePerc = some deposit) :
    ∃ p target fee margin estMargin, Sized sdk feePerc marketPrice newLiquidation newSide
      newQuantity pos deposit p target fee margin estMargin := by
  simp only [estCollateralDiffForExposure, Option.bind_eq_bind, Option.bind_eq_some_iff,
    toOption_eq_some, hl.running] at h
  obtain ⟨p, hentry, exposure, htarget, h⟩ := h
  cases exposure with
  | neutral => cases h
  | running target =>
      simp only [Option.bind_eq_some_iff, toOption_eq_some, Option.pure_def,
        Option.some.injEq, I64.checkedSub, I64.checkedAdd, I64.tryFrom, I64.checked_eq_some] at h
      obtain ⟨fee, hfee, margin, hmargin, _, ⟨hfeeFits, rfl⟩, _, ⟨hmarginFits, rfl⟩, _, ⟨-, rfl⟩,
        floor, hfloor, minimum, hminimum, _, ⟨hcoherence, rfl⟩, est, hest, net, hnet, _,
        ⟨hliquidation, rfl⟩, hmax⟩ := h
      have hfloor' := hl.marginTryAdd hfloor
      have hminimum' := hl.marginTryAdd hminimum
      have hnet' := hl.marginTryAdd hnet
      unfold Margin.asI64 at hcoherence hliquidation hmax
      obtain ⟨hleft, hright⟩ := max_le_iff.mp hmax.le
      have hdeposit : I64.InRange deposit := by
        rw [← hmax]
        exact max_rec' I64.InRange hliquidation hcoherence
      refine ⟨p, target, fee, margin, est, hentry, htarget, hfee, hmargin, hest, hfeeFits,
        hmarginFits, hdeposit, ?_, ?_⟩
      · rw [hminimum', hfloor'] at hright
        push_cast at hright
        linarith
      · rw [hnet'] at hleft
        push_cast at hleft
        linarith

/-! ### The order after the deposit -/

/-- The position was built by the SDK, which is how every position is made. -/
structure BuiltCross (sdk : LnmSdk ε) (pos : SimulatedCrossPosition) : Prop where
  built : sdk.crossExposureNew pos.margin pos.leverage pos.exposure.asRunningParams =
    .ok pos.exposure
  entryPrice : ∀ e, pos.exposure = .running e → IsPrice sdk e.entryPrice

/-- A deposit keeps the parameters of the exposure. -/
theorem withMargin_raised (hx : CrossMargins sdk.toLnmSdk) (hb : BuiltCross sdk.toLnmSdk pos)
    (deposit : ℕ) : ∃ exposure,
      pos.withMargin sdk.toLnmSdk (pos.margin + deposit) =
        .ok { pos with margin := pos.margin + deposit, exposure } ∧
      exposure.asRunningParams = pos.exposure.asRunningParams := by
  have hbuilt := hb.built
  cases he : pos.exposure with
  | neutral =>
      refine ⟨.neutral, ?_, rfl⟩
      rw [withMargin, he, new_eq_ok]
      exact ⟨_, hx.neutral, rfl⟩
  | running e =>
      rw [he] at hbuilt
      have hcover := hx.covered hbuilt
      obtain ⟨e', hnew, -, -⟩ := hx.accepts hbuilt (pos.margin + deposit) (by omega)
      refine ⟨.running e', ?_, hx.asked hnew⟩
      rw [withMargin, he, new_eq_ok]
      exact ⟨_, hnew, rfl⟩

/-- A transition depends on the parameters of the exposure alone. -/
theorem Orders.congr {x y : CrossExposure} {params : TradeSide × Quantity × Price}
    (hxy : x.asRunningParams = y.asRunningParams)
    (h : Orders sdk.toLnmSdk marketPrice side quantity x params booked) :
    Orders sdk.toLnmSdk marketPrice side quantity y params booked := by
  cases x with
  | neutral =>
      cases y with
      | neutral => exact h
      | running e => simp [CrossExposure.asRunningParams] at hxy
  | running e =>
      cases y with
      | neutral => simp [CrossExposure.asRunningParams] at hxy
      | running e' =>
          simp only [CrossExposure.asRunningParams, Option.some.injEq, Prod.mk.injEq] at hxy
          obtain ⟨hs, hq, hp⟩ := hxy
          have hpl : reducedPl sdk.toLnmSdk e marketPrice quantity =
              reducedPl sdk.toLnmSdk e' marketPrice quantity := by
            simp only [reducedPl, hs, hq, hp]
          cases h with
          | increased hside hadd =>
              rw [hq, hp]
              exact .increased (hs ▸ hside) (hq ▸ hadd)
          | reversed hside hlt hsub =>
              rw [hpl]
              exact .reversed (hs ▸ hside) (hq ▸ hlt) (hq ▸ hsub)
          | reduced hside hlt hsub hprofit =>
              rw [hs, hp, hpl]
              exact .reduced (hs ▸ hside) (hq ▸ hlt) (hq ▸ hsub) (hpl ▸ hprofit)
          | carried hside hlt hsub hloss =>
              rw [hs, hq, hp]
              exact .carried (hs ▸ hside) (hq ▸ hlt) (hq ▸ hsub) (hpl ▸ hloss)

/-- The P/L an order books. -/
def bookedPl (sdk : LnmSdk ε) (pos : SimulatedCrossPosition) (marketPrice : Price)
    (side : TradeSide) (quantity : Quantity) : ℤ :=
  match pos.exposure with
  | .neutral => 0
  | .running e =>
    if e.side = side then 0
    else if quantity < e.quantity ∧ reducedPl sdk e marketPrice quantity < 0 then 0
    else reducedPl sdk e marketPrice quantity

theorem bookedPl_of_orders {params : TradeSide × Quantity × Price}
    (h : Orders sdk.toLnmSdk marketPrice side quantity pos.exposure params booked) :
    booked.getD 0 = bookedPl sdk.toLnmSdk pos marketPrice side quantity := by
  generalize he : pos.exposure = exposure at h
  cases h with
  | opened => simp [bookedPl, he]
  | increased hs hq => simp [bookedPl, he, hs]
  | reversed hs hlt hq =>
      have hge := Nat.lt_asymm hlt
      have hge' : ¬ quantity < _ := hge
      simp [bookedPl, he, hs, hge']
  | reduced hs hlt hq hpl => simp [bookedPl, he, hs, hpl.not_gt]
  | carried hs hlt hq hpl => simp [bookedPl, he, hs, hlt, hpl]

/-- The counters have room for what the order books. -/
structure CountersFit (sdk : LnmSdk ε) (feePerc : PercentageCapped) (marketPrice : Price)
    (side : TradeSide) (quantity : Quantity) (pos : SimulatedCrossPosition) : Prop where
  tradingFees : pos.tradingFees + sdk.evaluateOrderFee feePerc quantity marketPrice < 2 ^ 64
  realizedPl : I64.InRange (pos.realizedPl + bookedPl sdk pos marketPrice side quantity)

theorem applyAmount_isOk {margin : ℕ} {a : ℤ} (h : 0 ≤ margin + a) (h' : margin + a < 2 ^ 64) :
    (applyAmountToMargin margin a : ExecutorResult ε ℕ) = .ok (margin + a).toNat := by
  unfold applyAmountToMargin
  split_ifs with hneg
  · congr 1
    omega
  · rw [okOr_eq_ok, U64.checkedAdd_eq_some]
    omega

theorem orders_isPrice {params : TradeSide × Quantity × Price} (hp : PriceResults sdk.toLnmSdk)
    (hm : IsPrice sdk.toLnmSdk marketPrice)
    (hentry : ∀ e, pos.exposure = .running e → IsPrice sdk.toLnmSdk e.entryPrice)
    (h : Orders sdk.toLnmSdk marketPrice side quantity pos.exposure params booked) :
    IsPrice sdk.toLnmSdk params.2.2 := by
  generalize he : pos.exposure = exposure at h
  cases h with
  | opened => exact hm
  | increased hs hq => exact hp.aggregate _ _ (hentry _ he) hm
  | reversed hs hlt hq => exact hm
  | reduced hs hlt hq hpl => exact hentry _ he
  | carried hs hlt hq hpl => exact hp.bounded _

/-- The margin that the deposit, the fee and the booked P/L leave. -/
theorem books_of_sized {deposit fee : ℕ} {margin : ℤ} {m : ℕ} {r : ℤ}
    (hest : ((I64.tryFrom m).bind fun current =>
      booked.elim (some current) fun pl => I64.checkedAdd current pl) = some margin)
    (hfee : fee ≤ m + deposit) (hfit : I64.InRange (margin - fee)) (hdeposit : I64.InRange deposit)
    (hpos : 0 ≤ margin - fee + deposit) (hr : I64.InRange (r + booked.getD 0)) :
    ∃ margin₁ margin' r', (applyAmountToMargin (m + deposit) (-(fee : ℤ)) : ExecutorResult ε ℕ) =
        .ok margin₁ ∧ Books ε booked margin₁ r margin' r' ∧
      (margin' : ℤ) = margin - fee + deposit := by
  rw [Option.bind_eq_some_iff] at hest
  obtain ⟨current, hcurrent, hest⟩ := hest
  obtain ⟨hm, rfl⟩ := I64.checked_eq_some.mp hcurrent
  have hafter : (applyAmountToMargin (m + deposit) (-(fee : ℤ)) : ExecutorResult ε ℕ) =
      .ok (m + deposit - fee) := by
    unfold I64.InRange at hm hdeposit
    rw [applyAmount_isOk (by omega) (by omega)]
    congr 1
    omega
  cases booked with
  | none =>
      obtain rfl : (m : ℤ) = margin := Option.some.inj hest
      exact ⟨_, _, r, hafter, ⟨rfl, rfl⟩, by omega⟩
  | some pl =>
      obtain rfl := I64.eq_of_checkedAdd hest
      refine ⟨_, _, r + pl, hafter, ⟨applyAmount_isOk ?_ ?_, hr, rfl⟩, ?_⟩
      · omega
      · unfold I64.InRange at hfit hdeposit
        omega
      · omega

/-- The liquidation is where it was asked to be or farther from the market, up to a tick of its
price and to a satoshi of P/L and some slack. -/
def NoNearer (tick slack : ℚ) (e : CrossExposureRunning) (newLiquidation : Price) : Prop :=
  exactPl e.side e.quantity newLiquidation.asF64.val
    (losing e.side tick e.liquidation.asF64.val) ≤ 1 + slack

/-- Net value left at the asked liquidation keeps the liquidation from being nearer. -/
theorem noNearer_of_net {margin : ℕ} {leverage : CrossLeverage}
    {params : TradeSide × Quantity × Price} {e : CrossExposureRunning}
    (hl : CollateralLaws sdk tick err) (hliq : IsPrice sdk.toLnmSdk newLiquidation)
    (hentry : IsPrice sdk.toLnmSdk e.entryPrice) (hslack : 0 ≤ slack)
    (h : sdk.crossExposureNew margin leverage (some params) = .ok (.running e))
    (hnet : -(1 + slack) ≤ (margin : ℚ) - e.maintenanceMargin.asU64 +
      exactPl e.side e.quantity e.entryPrice.asF64.val newLiquidation.asF64.val) :
    NoNearer tick slack e newLiquidation := by
  unfold NoNearer
  rcases hl.liquidation.within h hentry with hlast | hzero
  · -- No price is farther away than the last one.
    have htick := hl.range.tick_nonneg
    have hmin := hl.range.tick_lt_min
    have hlow := hl.range.min_le hliq
    have hhigh := hl.range.le_max hliq
    have hpos := hl.range.pos hliq
    cases hs : e.side with
    | buy =>
        simp only [hs, losing] at hlast ⊢
        rw [hlast]
        have hmono : exactPl .buy e.quantity newLiquidation.asF64.val
            (sdk.priceMin.asF64.val - tick) ≤ 0 := by
          rw [← exactPl_self .buy e.quantity (sdk.priceMin.asF64.val - tick)]
          exact exactPl_buy_anti (by linarith) (by linarith)
        linarith
    | sell =>
        simp only [hs, losing] at hlast ⊢
        rw [hlast]
        have hmono : exactPl .sell e.quantity newLiquidation.asF64.val
            (sdk.priceMax.asF64.val + tick) ≤ 0 := by
          rw [← exactPl_self .sell e.quantity (sdk.priceMax.asF64.val + tick)]
          exact exactPl_sell_mono hpos (by linarith)
        linarith
  · have hsplit := exactPl_add e.side e.quantity e.entryPrice.asF64.val
      newLiquidation.asF64.val (losing e.side tick e.liquidation.asF64.val)
    unfold netValue at hzero
    linarith

theorem floorI64_of_inRange {x : F64} (h : I64.InRange ⌊x.val⌋) : F64.floorI64 x = ⌊x.val⌋ := by
  unfold I64.InRange at h
  unfold F64.floorI64 F64.saturateI64
  omega

/-- The deposit is enough: the order to the target goes through, and the target's liquidation is
not nearer than asked, but for what `estimate_pl` is off by. -/
structure Suffices (sdk : CollateralSdk ε) (tick err : ℚ) (feePerc : PercentageCapped)
    (marketPrice newLiquidation : Price) (newSide : TradeSide) (newQuantity : Quantity)
    (pos : SimulatedCrossPosition) (deposit : ℕ) (raised pos' : SimulatedCrossPosition)
    (e : CrossExposureRunning) : Prop where
  deposited : pos.withMargin sdk.toLnmSdk (pos.margin + deposit) = .ok raised
  ordered : raised.withMarketOrder sdk.toLnmSdk marketPrice (orderTo pos newSide newQuantity).1
    (orderTo pos newSide newQuantity).2 feePerc = .ok pos'
  exposure : pos'.exposure = .running e
  side : e.side = newSide
  quantity : e.quantity = newQuantity
  liquidation : NoNearer tick (err * (worthAt e.quantity e.entryPrice.asF64.val +
    worthAt e.quantity marketPrice.asF64.val)) e newLiquidation

/-- What `est_collateral_diff_for_exposure` asks for is enough, unless a counter overflows. -/
theorem collateral_sufficient (sdk : CollateralSdk ε) (tick err : ℚ) (feePerc : PercentageCapped)
    (marketPrice newLiquidation : Price) (pos : SimulatedCrossPosition) (newSide : TradeSide)
    (newQuantity : Quantity) (deposit : ℕ) (hl : CollateralLaws sdk tick err)
    (hm : IsPrice sdk.toLnmSdk marketPrice) (hliq : IsPrice sdk.toLnmSdk newLiquidation)
    (hb : BuiltCross sdk.toLnmSdk pos) (hnew : Accepted sdk newQuantity)
    (hne : newSide.signed newQuantity ≠ pos.quantity)
    (hest : pos.estCollateralDiffForExposure sdk newSide newQuantity marketPrice newLiquidation
      feePerc = some (deposit : ℤ))
    (hfee : sdk.evaluateOrderFee feePerc (orderTo pos newSide newQuantity).2 marketPrice ≤
      pos.margin + deposit)
    (hfit : CountersFit sdk.toLnmSdk feePerc marketPrice (orderTo pos newSide newQuantity).1
      (orderTo pos newSide newQuantity).2 pos) :
    ∃ raised pos' e, Suffices sdk tick err feePerc marketPrice newLiquidation newSide newQuantity
      pos deposit raised pos' e := by
  have hmoves := orderTo_moves pos newSide newQuantity
  have hpos : 0 < (orderTo pos newSide newQuantity).2.asU64 := by
    show 0 < (newSide.signed newQuantity - pos.quantity).natAbs
    omega
  generalize hside : (orderTo pos newSide newQuantity).1 = side at hmoves hfit
  generalize hquantity : (orderTo pos newSide newQuantity).2 = quantity at hmoves hpos hfee hfit
  obtain ⟨p, target, fee, margin, est, hs⟩ := sized_of_some hl hest
  obtain ⟨hnewPos, hlt, -⟩ := hl.bounded newSide hnew hm hm
  obtain ⟨hq, rfl⟩ := estOrderFee_of_moves hl.quantity hpos hmoves hs.feeIs
  obtain ⟨booked, horders⟩ :=
    orders_of_estEntry hl.quantity hnew hnewPos hq hpos hmoves hs.entryIs
  have hentry : IsPrice sdk.toLnmSdk p := orders_isPrice hl.prices hm hb.entryPrice horders
  -- What is left of the raised margin is above the floor of the SDK.
  have hmarginIs := hs.marginIs
  rw [estMargin_of_orders hl.quantity hq hpos horders] at hmarginIs
  have hcoherent := hs.coherent
  have hrealized := hfit.realizedPl
  rw [← bookedPl_of_orders horders] at hrealized
  obtain ⟨margin₁, margin', r', hpaid, hbooks, hleft⟩ := books_of_sized hmarginIs hfee
    hs.marginFits hs.depositFits (by omega) hrealized
  obtain ⟨e, hbuilt, hrunning, hmaintenance⟩ :=
    hl.margins.accepts hs.accepted margin' (by omega)
  have hparams := hl.margins.asked hbuilt
  simp only [CrossExposure.asRunningParams, Option.some.injEq, Prod.mk.injEq] at hparams
  obtain ⟨hes, heq, hep⟩ := hparams
  obtain ⟨exposure, hraised, hsame⟩ := withMargin_raised hl.margins hb deposit
  have hordered : Ordered sdk.toLnmSdk feePerc marketPrice side quantity
      { pos with margin := pos.margin + deposit, exposure } (newSide, newQuantity, p) booked
      ⟨margin', pos.leverage, .running e, _, pos.sessionFundingFees, r'⟩ :=
    ⟨horders.congr hsame.symm, hs.feeFits, hfit.tradingFees, margin₁, margin', r', hpaid, hbooks,
      new_eq_ok.mpr ⟨_, hbuilt, rfl⟩⟩
  refine ⟨_, _, e, hraised, hside ▸ hquantity ▸ hordered.isOk, rfl, hes, heq, ?_⟩
  have hpl := hl.bounded newSide hnew hentry hm
  have hwithin := hl.pl.within newSide hlt hentry hm
  rw [heq, hep]
  -- The estimated margin stands for the P/L between the market and the asked liquidation.
  apply noNearer_of_net hl hliq (hep ▸ hentry) ((abs_nonneg _).trans hwithin) hbuilt
  have hover := (abs_le.mp hwithin).2
  have hfloor := Int.floor_le (sdk.estimatePl newSide newQuantity p marketPrice).val
  have hliquidates := hs.liquidates
  rw [floorI64_of_inRange hpl.2.2] at hliquidates
  have hnet : (est.asU64 : ℚ) + target.maintenanceMargin.asU64 ≤
      margin' + ⌊(sdk.estimatePl newSide newQuantity p marketPrice).val⌋ := by
    have hcast : (est.asU64 : ℤ) + target.maintenanceMargin.asU64 ≤
        margin' + ⌊(sdk.estimatePl newSide newQuantity p marketPrice).val⌋ := by omega
    exact_mod_cast hcast
  have hasked := hl.estMargin hm hliq hs.estimated
  have hsplit := exactPl_add newSide newQuantity p.asF64.val marketPrice.asF64.val
    newLiquidation.asF64.val
  rw [hes, heq, hep, hmaintenance]
  linarith

/-! ### A long tripled at 12000, to be liquidated at 8000 -/

open ReferenceSdk

/-- 100 dollars long from 10000 at 100x, with the given fees booked. -/
def openSized (tradingFees : ℕ) : ExecutorResult Refusal SimulatedCrossPosition :=
  new collateralSdk.toLnmSdk 100000 ⟨100⟩ (some (.buy, ⟨100⟩, price 10000)) tradingFees 0 0

theorem openSized_isOk : (openSized 1000).isOk = true := by decide +kernel

def sizedLong : SimulatedCrossPosition := get (openSized 1000) openSized_isOk

theorem sizedLong_built : BuiltCross collateralSdk.toLnmSdk sizedLong where
  built := by decide +kernel
  entryPrice := by
    intro e he
    have hexposure : sizedLong.exposure = .running ⟨.buy, ⟨100⟩, price 10000,
        crossLiquidation .buy ⟨100⟩ (price 10000) 98500, ReferenceSdk.margin 10000,
        ReferenceSdk.margin 1500⟩ := by
      decide +kernel
    obtain rfl := CrossExposure.running.inj (he.symm.trans hexposure)
    decide +kernel

theorem sizedLong_fit : CountersFit collateralSdk.toLnmSdk tenthPercent (price 12000)
    (orderTo sizedLong .buy ⟨300⟩).1 (orderTo sizedLong .buy ⟨300⟩).2 sizedLong :=
  ⟨by decide +kernel, by decide +kernel⟩

theorem collateral_sufficient_tripled : ∃ raised pos' e,
    Suffices collateralSdk halfTick 0 tenthPercent (price 12000) (price 8000) .buy ⟨300⟩ sizedLong
      989000 raised pos' e :=
  collateral_sufficient collateralSdk halfTick 0 tenthPercent (price 12000) (price 8000) sizedLong
    .buy ⟨300⟩ 989000 collateralLaws (by decide +kernel) (by decide +kernel) sizedLong_built
    (by unfold Accepted; decide +kernel) (by decide +kernel) (by decide +kernel)
    (by decide +kernel) sizedLong_fit

theorem openFull_isOk : (openSized (2 ^ 64 - 1)).isOk = true := by decide +kernel

/-- The same long with a full counter of trading fees. -/
def fullLong : SimulatedCrossPosition := get (openSized (2 ^ 64 - 1)) openFull_isOk

theorem full_counter_refuses :
    fullLong.isCoherent collateralSdk.toLnmSdk (price 12000) = true ∧
      fullLong.estCollateralDiffForExposure collateralSdk .buy ⟨300⟩ (price 12000) (price 8000)
        tenthPercent = some 989000 ∧
      collateralSdk.evaluateOrderFee tenthPercent (orderTo fullLong .buy ⟨300⟩).2 (price 12000) ≤
        fullLong.margin + 989000 ∧
      ((fullLong.withMargin collateralSdk.toLnmSdk (fullLong.margin + 989000)).bind fun raised =>
        raised.withMarketOrder collateralSdk.toLnmSdk (price 12000)
          (orderTo fullLong .buy ⟨300⟩).1 (orderTo fullLong .buy ⟨300⟩).2 tenthPercent) =
        .error .crossPositionOverflow := by
  decide +kernel

end CrossPosition

end Quantoxide
