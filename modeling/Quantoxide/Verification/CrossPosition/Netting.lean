import Mathlib.Algebra.Order.Group.Int
import Quantoxide.Library.Netting
import Quantoxide.Model.CrossPosition
import Quantoxide.Verification.Sdk.Reference

/-! # Netting in the cross ledger

Each step books P/L, fees and funding to the counters and to the margin. The margin is
floored at zero after every booking, so a step with two bookings can lose the difference. -/

namespace Quantoxide.CrossPosition

open SimulatedCrossPosition Result

variable {ε : Type} {sdk : LnmSdk ε} {feePerc : PercentageCapped}
  {pos pos' : SimulatedCrossPosition}

inductive CrossStep
  | marketOrder (marketPrice : Price) (side : TradeSide) (quantity : Quantity)
  | close (price : Price)
  | liquidate
  | fundingSettlement (marketPrice : F64) (settlement : FundingSettlementRow)

def CrossStep.apply (sdk : LnmSdk ε) (feePerc : PercentageCapped) (pos : SimulatedCrossPosition) :
    CrossStep → ExecutorResult ε SimulatedCrossPosition
  | marketOrder marketPrice side quantity =>
    pos.withMarketOrder sdk marketPrice side quantity feePerc
  | close price => pos.close sdk price feePerc
  | liquidate => pos.liquidate sdk feePerc
  | fundingSettlement marketPrice settlement =>
    (pos.applyFundingSettlement sdk marketPrice settlement feePerc).map (·.1)

/-- Every amount the counters book reaches the margin, which is floored once, at the net. -/
def Nets (pos pos' : SimulatedCrossPosition) : Prop :=
  (pos'.margin : ℤ) = max 0 (pos.margin + (pos'.realizedPl - pos.realizedPl) -
    (pos'.tradingFees - pos.tradingFees) - (pos'.sessionFundingFees - pos.sessionFundingFees))

/-! ### The amounts a step books -/

/-- The counters of `pos'` are those of `pos` with these amounts added. -/
structure Booked (pos pos' : SimulatedCrossPosition) (pl fee funding : ℤ) : Prop where
  realizedPl : pos'.realizedPl = pos.realizedPl + pl
  tradingFees : (pos'.tradingFees : ℤ) = pos.tradingFees + fee
  sessionFundingFees : pos'.sessionFundingFees = pos.sessionFundingFees + funding

theorem Booked.nets_iff {pl fee funding : ℤ} (h : Booked pos pos' pl fee funding) :
    Nets pos pos' ↔ (pos'.margin : ℤ) = Netting.book (pos.margin : ℤ) (pl - fee - funding) := by
  unfold Nets Netting.book
  rw [h.realizedPl, h.tradingFees, h.sessionFundingFees]
  constructor <;> intro he <;> omega

theorem nets_self : Nets pos pos := by
  simp [Nets]

theorem applyAmount_eq_ok {m m' : ℕ} {a : ℤ}
    (h : (applyAmountToMargin m a : ExecutorResult ε ℕ) = .ok m') :
    (m' : ℤ) = Netting.book (m : ℤ) a := by
  unfold applyAmountToMargin at h
  unfold Netting.book
  split_ifs at h with ha
  · cases h
    omega
  · simp only [okOr_eq_ok, U64.checkedAdd, Option.ite_none_right_eq_some, Option.some.injEq] at h
    omega

theorem new_eq_ok {m : ℕ} {l : CrossLeverage} {r : Option (TradeSide × Quantity × Price)} {t : ℕ}
    {s p : ℤ} : new sdk m l r t s p = .ok pos' ↔
      ∃ x, sdk.crossExposureNew m l r = .ok x ∧ pos' = ⟨m, l, x, t, s, p⟩ := by
  simp only [new, bind_eq_ok, mapError_eq_ok, pure_eq_ok, @eq_comm _ _ pos']

/-- The P/L and the fee of closing a whole exposure. -/
def closePl (sdk : LnmSdk ε) (e : CrossExposureRunning) (price : Price) : ℤ :=
  F64.floorI64 (sdk.estimatePl e.side e.quantity e.entryPrice price)

def closeFee (sdk : LnmSdk ε) (feePerc : PercentageCapped) (e : CrossExposureRunning)
    (price : Price) : ℕ := sdk.evaluateOrderFee feePerc e.quantity price

theorem close_running {e : CrossExposureRunning} {price : Price} (he : pos.exposure = .running e)
    (h : pos.close sdk price feePerc = .ok pos') :
    Booked pos pos' (closePl sdk e price) (closeFee sdk feePerc e price) 0 ∧
      (pos'.margin : ℤ) = Netting.book (pos.margin : ℤ)
        (closePl sdk e price - closeFee sdk feePerc e price) := by
  simp only [close, he, bind_eq_ok, okOr_eq_ok, I64.tryFrom, I64.checkedSub, I64.checkedAdd,
    I64.checked_eq_some, U64.checkedAdd_eq_some, new_eq_ok] at h
  obtain ⟨fee, ⟨-, rfl⟩, delta, ⟨-, rfl⟩, m, hm, t, ⟨-, rfl⟩, p, ⟨-, rfl⟩, x, -, rfl⟩ := h
  exact ⟨⟨rfl, by simp [closeFee], by simp⟩, applyAmount_eq_ok hm⟩

theorem close_nets {price : Price} (h : pos.close sdk price feePerc = .ok pos') :
    Nets pos pos' := by
  cases he : pos.exposure with
  | neutral =>
      simp only [close, he] at h
      cases h
      exact nets_self
  | running e =>
      obtain ⟨hb, hm⟩ := close_running he h
      rw [hb.nets_iff, hm, sub_zero]

theorem liquidate_nets (h : pos.liquidate sdk feePerc = .ok pos') : Nets pos pos' := by
  cases he : pos.exposure with
  | neutral =>
      simp only [liquidate, he] at h
      cases h
      exact nets_self
  | running e =>
      simp only [liquidate, he] at h
      exact close_nets h

/-! ### Orders -/

/-- The P/L of the part of the exposure that an opposite order takes off. -/
def reducedPl (sdk : LnmSdk ε) (e : CrossExposureRunning) (marketPrice : Price)
    (orderQuantity : Quantity) : ℤ :=
  F64.floorI64 (sdk.estimatePl e.side
    (if e.quantity < orderQuantity then e.quantity else orderQuantity) e.entryPrice marketPrice)

/-- An order that takes nothing off books its fee alone. -/
theorem order_extending {marketPrice : Price} {side : TradeSide} {quantity : Quantity}
    (hs : ∀ e, pos.exposure = .running e → e.side = side)
    (h : pos.withMarketOrder sdk marketPrice side quantity feePerc = .ok pos') : Nets pos pos' := by
  have hspec : Booked pos pos' 0 (sdk.evaluateOrderFee feePerc quantity marketPrice) 0 ∧
      (pos'.margin : ℤ) = Netting.book (pos.margin : ℤ)
        (-(sdk.evaluateOrderFee feePerc quantity marketPrice : ℤ)) := by
    cases he : pos.exposure with
    | neutral =>
        simp only [withMarketOrder, he, Bool.false_eq_true, if_false, bind_eq_ok, okOr_eq_ok,
          I64.tryFrom, I64.checkedNeg, I64.checked_eq_some, U64.checkedAdd_eq_some, new_eq_ok] at h
        obtain ⟨fee, ⟨-, rfl⟩, delta, ⟨-, rfl⟩, m, hm, t, ⟨-, rfl⟩, x, -, rfl⟩ := h
        exact ⟨⟨by simp, by simp, by simp⟩, applyAmount_eq_ok hm⟩
    | running e =>
        simp only [withMarketOrder, he, hs e he, ne_eq, not_true, decide_false, Bool.false_and,
          Bool.false_eq_true, if_false, if_true, bind_eq_ok, okOr_eq_ok, mapError_eq_ok,
          I64.tryFrom, I64.checkedNeg, I64.checked_eq_some, U64.checkedAdd_eq_some, new_eq_ok] at h
        obtain ⟨fee, ⟨-, rfl⟩, delta, ⟨-, rfl⟩, m, hm, t, ⟨-, rfl⟩, q, -, x, -, rfl⟩ := h
        exact ⟨⟨by simp, by simp, by simp⟩, applyAmount_eq_ok hm⟩
  obtain ⟨hb, hm⟩ := hspec
  rw [hb.nets_iff, hm]
  simp

/-- A reversal or a partial reduction books its fee, floors, and then books its P/L. -/
theorem order_reducing {marketPrice : Price} {side : TradeSide} {quantity : Quantity}
    {e : CrossExposureRunning} (he : pos.exposure = .running e) (hs : e.side ≠ side)
    (hq : quantity ≠ e.quantity)
    (h : pos.withMarketOrder sdk marketPrice side quantity feePerc = .ok pos') :
    ∃ pl, (pl ≤ 0 ↔ reducedPl sdk e marketPrice quantity ≤ 0) ∧
      Booked pos pos' pl (sdk.evaluateOrderFee feePerc quantity marketPrice) 0 ∧
      (pos'.margin : ℤ) = Netting.book (Netting.book (pos.margin : ℤ)
        (-(sdk.evaluateOrderFee feePerc quantity marketPrice : ℤ))) pl := by
  simp only [withMarketOrder, he, ne_eq, hs, not_false_eq_true, decide_true, Bool.true_and,
    beq_iff_eq, hq, if_false, bind_eq_ok, okOr_eq_ok, I64.tryFrom, I64.checkedNeg,
    I64.checked_eq_some, U64.checkedAdd_eq_some] at h
  obtain ⟨fee, ⟨-, rfl⟩, delta, ⟨-, rfl⟩, m, hm, t, ⟨-, rfl⟩, h⟩ := h
  have hfee := applyAmount_eq_ok hm
  by_cases hlt : e.quantity < quantity
  · simp only [hlt, if_true, bind_eq_ok, okOr_eq_ok, mapError_eq_ok, I64.checkedAdd,
      I64.checked_eq_some, new_eq_ok] at h
    obtain ⟨m', hm', q, -, p, ⟨-, rfl⟩, x, -, rfl⟩ := h
    refine ⟨reducedPl sdk e marketPrice quantity, Iff.rfl, ?_, ?_⟩
    · exact ⟨by simp [reducedPl, hlt], by simp, by simp⟩
    · rw [← hfee, reducedPl, if_pos hlt]
      exact applyAmount_eq_ok hm'
  · simp only [hlt, if_false, bind_eq_ok, mapError_eq_ok] at h
    obtain ⟨q, -, h⟩ := h
    by_cases hpl : F64.floorI64 (sdk.estimatePl e.side quantity e.entryPrice marketPrice) ≥ 0
    · simp only [hpl, if_true, bind_eq_ok, okOr_eq_ok, I64.checkedAdd, I64.checked_eq_some,
        new_eq_ok] at h
      obtain ⟨m', hm', p, ⟨-, rfl⟩, x, -, rfl⟩ := h
      refine ⟨reducedPl sdk e marketPrice quantity, Iff.rfl, ?_, ?_⟩
      · exact ⟨by simp [reducedPl, hlt], by simp, by simp⟩
      · rw [← hfee, reducedPl, if_neg hlt]
        exact applyAmount_eq_ok hm'
    · simp only [hpl, if_false, new_eq_ok] at h
      obtain ⟨x, -, rfl⟩ := h
      refine ⟨0, ?_, ⟨by simp, by simp, by simp⟩, ?_⟩
      · simp only [reducedPl, if_neg hlt]
        omega
      · rw [← hfee]
        simp [Netting.book]

theorem order_exact {marketPrice : Price} {side : TradeSide} {e : CrossExposureRunning}
    (he : pos.exposure = .running e) (hs : e.side ≠ side) :
    pos.withMarketOrder sdk marketPrice side e.quantity feePerc =
      pos.close sdk marketPrice feePerc := by
  simp [withMarketOrder, he, hs]

/-- When an order nets: unless it takes a profitable part off, its fee is covered. -/
def OrderNets (sdk : LnmSdk ε) (feePerc : PercentageCapped) (pos : SimulatedCrossPosition)
    (marketPrice : Price) (side : TradeSide) (quantity : Quantity) : Prop :=
  ∀ e, pos.exposure = .running e → e.side ≠ side → quantity ≠ e.quantity →
    0 < reducedPl sdk e marketPrice quantity →
    sdk.evaluateOrderFee feePerc quantity marketPrice ≤ pos.margin

theorem order_nets_iff {marketPrice : Price} {side : TradeSide} {quantity : Quantity}
    (h : pos.withMarketOrder sdk marketPrice side quantity feePerc = .ok pos') :
    Nets pos pos' ↔ OrderNets sdk feePerc pos marketPrice side quantity := by
  by_cases hs : ∀ e, pos.exposure = .running e → e.side = side
  · exact ⟨fun _ e he hne => absurd (hs e he) hne, fun _ => order_extending hs h⟩
  · simp only [not_forall] at hs
    obtain ⟨e, he, hne⟩ := hs
    by_cases hq : quantity = e.quantity
    · subst hq
      rw [order_exact he hne] at h
      refine ⟨fun _ e' he' _ hq => ?_, fun _ => close_nets h⟩
      obtain rfl := CrossExposure.running.inj (he.symm.trans he')
      exact absurd rfl hq
    · obtain ⟨pl, hpl, hb, hm⟩ := order_reducing he hne hq h
      rw [hb.nets_iff, hm, sub_zero, sub_eq_neg_add, Netting.book_book_iff, hpl]
      constructor
      · intro hor e' he' _ _ hpos
        obtain rfl := CrossExposure.running.inj (he.symm.trans he')
        omega
      · intro hn
        rcases le_or_gt (reducedPl sdk e marketPrice quantity) 0 with hle | hgt
        · exact Or.inr hle
        · have hfee := hn e he hne hq hgt
          omega

/-! ### Funding -/

/-- The exposure survives its margin after funding: the SDK accepts it and it is coherent. -/
def StaysOpen (sdk : LnmSdk ε) (pos : SimulatedCrossPosition) (marketPrice : Price) (fee : ℤ) :
    Prop :=
  ∃ p, new sdk (pos.margin + (-fee).natAbs) pos.leverage pos.exposure.asRunningParams
    pos.tradingFees (pos.sessionFundingFees + fee) pos.realizedPl = .ok p ∧
    p.isCoherent sdk marketPrice = true

/-- When a settlement nets: a forced closing that receives funding leaves nothing to floor
before the funding is booked. -/
def FundingNets (sdk : LnmSdk ε) (feePerc : PercentageCapped) (pos : SimulatedCrossPosition)
    (marketPrice : F64) (settlement : FundingSettlementRow) : Prop :=
  ∀ e, pos.exposure = .running e → settlement.fundingFee e.side e.quantity < 0 →
    ¬ StaysOpen sdk pos (sdk.bounded marketPrice) (settlement.fundingFee e.side e.quantity) →
    0 ≤ pos.margin + (closePl sdk e (sdk.bounded marketPrice) -
      closeFee sdk feePerc e (sdk.bounded marketPrice))

theorem forceClose_spec {e : CrossExposureRunning} {price : Price} {fee fees : ℤ}
    {out : SimulatedCrossPosition × ℤ × Bool} (he : pos.exposure = .running e)
    (hf : pos.sessionFundingFees + fee = fees)
    (h : pos.forceClose sdk price feePerc fee fees = .ok out) :
    Booked pos out.1 (closePl sdk e price) (closeFee sdk feePerc e price) fee ∧
      (out.1.margin : ℤ) = Netting.book (Netting.book (pos.margin : ℤ)
        (closePl sdk e price - closeFee sdk feePerc e price)) (-fee) := by
  simp only [forceClose, bind_eq_ok, okOr_eq_ok, I64.checkedNeg, I64.checked_eq_some, new_eq_ok,
    pure_eq_ok] at h
  obtain ⟨closed, hc, a, ⟨-, rfl⟩, m, hm, p, ⟨x, -, rfl⟩, rfl⟩ := h
  obtain ⟨hb, hcm⟩ := close_running he hc
  refine ⟨⟨hb.realizedPl, hb.tradingFees, hf.symm⟩, ?_⟩
  rw [← hcm]
  exact applyAmount_eq_ok hm

theorem forceClose_nets_iff {e : CrossExposureRunning} {price : Price} {fee fees : ℤ}
    {out : SimulatedCrossPosition × ℤ × Bool} (he : pos.exposure = .running e)
    (hf : pos.sessionFundingFees + fee = fees)
    (h : pos.forceClose sdk price feePerc fee fees = .ok out) :
    Nets pos out.1 ↔ 0 ≤ pos.margin + (closePl sdk e price - closeFee sdk feePerc e price) ∨
      0 ≤ fee := by
  obtain ⟨hb, hm⟩ := forceClose_spec he hf h
  rw [hb.nets_iff, hm, sub_eq_add_neg (_ - _) fee, Netting.book_book_iff, neg_nonpos]

/-- The margin a position would keep open with. -/
theorem received_margin {m m' : ℕ} {fee : ℤ} (hfee : fee < 0)
    (h : (applyAmountToMargin m (-fee) : ExecutorResult ε ℕ) = .ok m') :
    m' = m + (-fee).natAbs := by
  have hm := applyAmount_eq_ok h
  rw [Netting.book_of_nonneg (by omega)] at hm
  omega

/-- A settlement either forces the position closed or books the fee on an open position. -/
theorem funding_cases {e : CrossExposureRunning} {marketPrice : F64}
    {settlement : FundingSettlementRow} {fee : ℤ} {out : SimulatedCrossPosition × ℤ × Bool}
    (he : pos.exposure = .running e) (hfee : settlement.fundingFee e.side e.quantity = fee)
    (h : pos.applyFundingSettlement sdk marketPrice settlement feePerc = .ok out) :
    (pos.forceClose sdk (sdk.bounded marketPrice) feePerc fee (pos.sessionFundingFees + fee) =
        .ok out ∧ (fee < 0 → ¬ StaysOpen sdk pos (sdk.bounded marketPrice) fee)) ∨
    (Nets pos out.1 ∧ (fee < 0 → StaysOpen sdk pos (sdk.bounded marketPrice) fee)) := by
  simp only [applyFundingSettlement, he, hfee, bind_eq_ok, okOr_eq_ok, I64.checkedAdd,
    I64.checked_eq_some] at h
  obtain ⟨fees, ⟨-, rfl⟩, h⟩ := h
  split_ifs at h with hforce
  · exact Or.inl ⟨h, fun hneg => absurd hforce.1 hneg.not_gt⟩
  simp only [bind_eq_ok, okOr_eq_ok, I64.checkedNeg, I64.checked_eq_some] at h
  obtain ⟨a, ⟨-, rfl⟩, m, hm, h⟩ := h
  cases hn : new sdk m pos.leverage (CrossExposure.running e).asRunningParams pos.tradingFees
    (pos.sessionFundingFees + fee) pos.realizedPl with
  | error err =>
      rw [hn] at h
      have hstay : fee < 0 → ¬ StaysOpen sdk pos (sdk.bounded marketPrice) fee := by
        rintro hneg ⟨p, hp, -⟩
        rw [he, ← received_margin hneg hm, hn] at hp
        cases hp
      cases err with
      | crossExposureValidation v => exact Or.inl ⟨h, hstay⟩
      | _ => cases h
  | ok p =>
      rw [hn] at h
      simp only at h
      split_ifs at h with hc
      · cases h
        refine Or.inr ⟨?_, fun hneg => ⟨p, ?_, hc⟩⟩
        · obtain ⟨x, -, rfl⟩ := new_eq_ok.mp hn
          have hb : Booked pos ⟨m, pos.leverage, x, pos.tradingFees,
              pos.sessionFundingFees + fee, pos.realizedPl⟩ 0 0 fee :=
            ⟨by simp, by simp, rfl⟩
          rw [hb.nets_iff, applyAmount_eq_ok hm]
          simp
        · rw [he, ← received_margin hneg hm, hn]
      · refine Or.inl ⟨h, ?_⟩
        rintro hneg ⟨p', hp', hc'⟩
        rw [he, ← received_margin hneg hm, hn] at hp'
        cases hp'
        exact hc hc'

theorem funding_nets_iff {marketPrice : F64} {settlement : FundingSettlementRow}
    {out : SimulatedCrossPosition × ℤ × Bool}
    (h : pos.applyFundingSettlement sdk marketPrice settlement feePerc = .ok out) :
    Nets pos out.1 ↔ FundingNets sdk feePerc pos marketPrice settlement := by
  cases he : pos.exposure with
  | neutral =>
      simp only [applyFundingSettlement, he] at h
      cases h
      exact ⟨fun _ e he' => by simp [he] at he', fun _ => nets_self⟩
  | running e =>
      rcases funding_cases he rfl h with ⟨hc, hclosed⟩ | ⟨hn, hopen⟩
      · rw [forceClose_nets_iff he rfl hc]
        constructor
        · intro hor e' he' hneg _
          obtain rfl := CrossExposure.running.inj (he.symm.trans he')
          exact hor.resolve_right hneg.not_ge
        · intro hf
          rcases lt_or_ge (settlement.fundingFee e.side e.quantity) 0 with hneg | hpos
          · exact Or.inl (hf e he hneg (hclosed hneg))
          · exact Or.inr hpos
      · refine ⟨fun _ e' he' hneg hstay => ?_, fun _ => hn⟩
        obtain rfl := CrossExposure.running.inj (he.symm.trans he')
        exact absurd (hopen hneg) hstay

/-! ### Every step -/

/-- The condition on the position and the step under which the step nets. -/
def CrossStep.NetsWhen (sdk : LnmSdk ε) (feePerc : PercentageCapped)
    (pos : SimulatedCrossPosition) : CrossStep → Prop
  | marketOrder marketPrice side quantity => OrderNets sdk feePerc pos marketPrice side quantity
  | close _ => True
  | liquidate => True
  | fundingSettlement marketPrice settlement =>
    FundingNets sdk feePerc pos marketPrice settlement

/-- A successful step of the cross ledger nets exactly under its condition. -/
theorem cross_step_nets_iff (sdk : LnmSdk ε) (feePerc : PercentageCapped)
    (pos pos' : SimulatedCrossPosition) (step : CrossStep)
    (h : step.apply sdk feePerc pos = .ok pos') :
    Nets pos pos' ↔ step.NetsWhen sdk feePerc pos := by
  cases step with
  | marketOrder marketPrice side quantity => exact order_nets_iff h
  | close price => exact ⟨fun _ => trivial, fun _ => close_nets h⟩
  | liquidate => exact ⟨fun _ => trivial, fun _ => liquidate_nets h⟩
  | fundingSettlement marketPrice settlement =>
      cases hf : pos.applyFundingSettlement sdk marketPrice settlement feePerc with
      | error e => simp [CrossStep.apply, hf, Except.map] at h
      | ok out =>
          simp only [CrossStep.apply, hf, Except.map, Except.ok.injEq] at h
          subst h
          exact funding_nets_iff hf

/-! ### A reversal that loses a profit's worth of fee -/

/-- 100 dollars long from 10000 at 100x, with a margin of 12500 satoshis. -/
def thinLong : SimulatedCrossPosition where
  margin := 12500
  leverage := ⟨100⟩
  exposure := .running ⟨.buy, ⟨100⟩, ReferenceSdk.price 10000, ReferenceSdk.price 9891,
    ⟨10000, by decide⟩, ⟨1500, by decide⟩⟩
  tradingFees := 1000
  sessionFundingFees := 0
  realizedPl := 0

/-- Selling 3000 dollars at 20000: a fee of 15000 and a profit of 500000 satoshis. -/
def reversal : CrossStep := .marketOrder (ReferenceSdk.price 20000) .sell ⟨3000⟩

def reversed : SimulatedCrossPosition where
  margin := 500000
  leverage := ⟨100⟩
  exposure := .running ⟨.sell, ⟨2900⟩, ReferenceSdk.price 20000, ReferenceSdk.price 20682,
    ⟨145000, by decide⟩, ⟨21750, by decide⟩⟩
  tradingFees := 16000
  sessionFundingFees := 0
  realizedPl := 500000

theorem cross_step_nets_iff_reversal :
    Nets thinLong reversed ↔ reversal.NetsWhen referenceSdk ReferenceSdk.tenthPercent thinLong :=
  cross_step_nets_iff referenceSdk ReferenceSdk.tenthPercent thinLong reversed reversal
    (by decide +kernel)

/-- The fee of the reversal is floored away with the margin, and the profit kept whole. -/
theorem reversal_keeps_floored_fee :
    reversal.apply referenceSdk ReferenceSdk.tenthPercent thinLong = .ok reversed ∧
      ¬ (reversed.margin : ℤ) = max 0 (thinLong.margin +
        (reversed.realizedPl - thinLong.realizedPl) -
        (reversed.tradingFees - thinLong.tradingFees) -
        (reversed.sessionFundingFees - thinLong.sessionFundingFees)) :=
  ⟨by decide +kernel, by decide⟩

end Quantoxide.CrossPosition
