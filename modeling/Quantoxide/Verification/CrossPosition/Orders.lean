import Quantoxide.Verification.CrossPosition.Netting

/-! # What a market order does

An order that is not an exact close leads to one exposure by one of five transitions, two of
which book P/L. The rest of its accounting is the same for all of them. -/

namespace Quantoxide.CrossPosition

open SimulatedCrossPosition Result

variable {ε : Type} {sdk : LnmSdk ε} {feePerc : PercentageCapped} {marketPrice : Price}
  {side : TradeSide} {quantity : Quantity} {pos pos' : SimulatedCrossPosition}

/-- The order takes off the whole exposure and nothing more. -/
def ClosesExactly (pos : SimulatedCrossPosition) (side : TradeSide) (quantity : Quantity) : Prop :=
  ∃ e, pos.exposure = .running e ∧ e.side ≠ side ∧ quantity = e.quantity

/-- The parameters of the exposure that an order leads to, and the P/L it books. -/
inductive Orders (sdk : LnmSdk ε) (marketPrice : Price) (side : TradeSide) (quantity : Quantity) :
    CrossExposure → TradeSide × Quantity × Price → Option ℤ → Prop
  | opened : Orders sdk marketPrice side quantity .neutral (side, quantity, marketPrice) none
  | increased {e : CrossExposureRunning} {r : Quantity} (hs : e.side = side)
      (hq : sdk.quantityTryAdd e.quantity quantity = .ok r) :
      Orders sdk marketPrice side quantity (.running e)
        (side, r, sdk.aggregateCrossEntryPrice e.quantity e.entryPrice quantity marketPrice) none
  | reversed {e : CrossExposureRunning} {r : Quantity} (hs : e.side ≠ side)
      (hlt : e.quantity < quantity) (hq : sdk.quantityTrySub quantity e.quantity = .ok r) :
      Orders sdk marketPrice side quantity (.running e) (side, r, marketPrice)
        (some (reducedPl sdk e marketPrice quantity))
  | reduced {e : CrossExposureRunning} {r : Quantity} (hs : e.side ≠ side)
      (hlt : quantity < e.quantity) (hq : sdk.quantityTrySub e.quantity quantity = .ok r)
      (hpl : 0 ≤ reducedPl sdk e marketPrice quantity) :
      Orders sdk marketPrice side quantity (.running e) (e.side, r, e.entryPrice)
        (some (reducedPl sdk e marketPrice quantity))
  | carried {e : CrossExposureRunning} {r : Quantity} (hs : e.side ≠ side)
      (hlt : quantity < e.quantity) (hq : sdk.quantityTrySub e.quantity quantity = .ok r)
      (hpl : reducedPl sdk e marketPrice quantity < 0) :
      Orders sdk marketPrice side quantity (.running e)
        (e.side, r, carriedEntryPrice sdk e.side r
          (sdk.estimatePl e.side e.quantity e.entryPrice marketPrice) marketPrice) none

/-- Books a P/L, if there is one, to a margin and to the realized P/L. -/
def Books (ε : Type) (booked : Option ℤ) (margin : ℕ) (realizedPl : ℤ) (margin' : ℕ)
    (realizedPl' : ℤ) : Prop :=
  match booked with
  | none => margin' = margin ∧ realizedPl' = realizedPl
  | some pl => (applyAmountToMargin margin pl : ExecutorResult ε ℕ) = .ok margin' ∧
      I64.InRange (realizedPl + pl) ∧ realizedPl' = realizedPl + pl

/-- An order carried out: the fee leaves the margin, the P/L is booked, and the exposure is
built on what is left. -/
structure Ordered (sdk : LnmSdk ε) (feePerc : PercentageCapped) (marketPrice : Price)
    (side : TradeSide) (quantity : Quantity) (pos : SimulatedCrossPosition)
    (params : TradeSide × Quantity × Price) (booked : Option ℤ) (pos' : SimulatedCrossPosition) :
    Prop where
  orders : Orders sdk marketPrice side quantity pos.exposure params booked
  fee : I64.InRange (sdk.evaluateOrderFee feePerc quantity marketPrice)
  tradingFees : pos.tradingFees + sdk.evaluateOrderFee feePerc quantity marketPrice < 2 ^ 64
  built : ∃ margin margin' realizedPl',
    (applyAmountToMargin pos.margin (-(sdk.evaluateOrderFee feePerc quantity marketPrice : ℤ)) :
      ExecutorResult ε ℕ) = .ok margin ∧
    Books ε booked margin pos.realizedPl margin' realizedPl' ∧
    new sdk margin' pos.leverage (some params)
      (pos.tradingFees + sdk.evaluateOrderFee feePerc quantity marketPrice)
      pos.sessionFundingFees realizedPl' = .ok pos'

theorem quantity_ext {q r : Quantity} (h : q.asU64 = r.asU64) : q = r := by
  cases q
  cases r
  simpa using h

theorem quantity_ne_of_lt {q r : Quantity} (h : q < r) : q ≠ r := by
  intro he
  subst he
  exact Nat.lt_irrefl _ h

theorem quantity_lt_of_ne {q r : Quantity} (hne : q ≠ r) (h : ¬ r < q) : q < r := by
  have hval : q.asU64 ≠ r.asU64 := fun he => hne (quantity_ext he)
  have hle : ¬ r.asU64 < q.asU64 := h
  show q.asU64 < r.asU64
  omega

theorem order_of_ok (hclose : ¬ ClosesExactly pos side quantity)
    (h : pos.withMarketOrder sdk marketPrice side quantity feePerc = .ok pos') :
    ∃ params booked, Ordered sdk feePerc marketPrice side quantity pos params booked pos' := by
  cases he : pos.exposure with
  | neutral =>
      simp only [withMarketOrder, he, Bool.false_eq_true, if_false, bind_eq_ok, okOr_eq_ok,
        I64.tryFrom, I64.checkedNeg, I64.checked_eq_some, U64.checkedAdd_eq_some] at h
      obtain ⟨_, ⟨hfee, rfl⟩, _, ⟨-, rfl⟩, m, hm, _, ⟨hfees, rfl⟩, hnew⟩ := h
      have horders : Orders sdk marketPrice side quantity pos.exposure
          (side, quantity, marketPrice) none := by
        rw [he]
        exact .opened
      exact ⟨_, none, horders, hfee, hfees, m, m, _, hm, ⟨rfl, rfl⟩, hnew⟩
  | running e =>
      have hopen : (decide (e.side ≠ side) && quantity == e.quantity) = false := by
        rw [Bool.and_eq_false_iff, decide_eq_false_iff_not, beq_eq_false_iff_ne]
        by_cases hs : e.side ≠ side
        · exact Or.inr fun hq => hclose ⟨e, he, hs, hq⟩
        · exact Or.inl hs
      simp only [withMarketOrder, he, hopen, Bool.false_eq_true, if_false, bind_eq_ok, okOr_eq_ok,
        I64.tryFrom, I64.checkedNeg, I64.checked_eq_some, U64.checkedAdd_eq_some] at h
      obtain ⟨_, ⟨hfee, rfl⟩, _, ⟨-, rfl⟩, m, hm, _, ⟨hfees, rfl⟩, h⟩ := h
      -- Every branch builds its exposure with the same counters and its own parameters.
      have hbuilt {params : TradeSide × Quantity × Price} {booked : Option ℤ} {m' : ℕ} {r' : ℤ}
          (horders : Orders sdk marketPrice side quantity (.running e) params booked)
          (hbooks : Books ε booked m pos.realizedPl m' r')
          (hnew : new sdk m' pos.leverage (some params)
            (pos.tradingFees + sdk.evaluateOrderFee feePerc quantity marketPrice)
            pos.sessionFundingFees r' = .ok pos') :
          ∃ params booked, Ordered sdk feePerc marketPrice side quantity pos params booked pos' :=
        ⟨params, booked, he ▸ horders, hfee, hfees, m, m', r', hm, hbooks, hnew⟩
      by_cases hs : e.side = side
      · simp only [hs, if_true, bind_eq_ok, mapError_eq_ok] at h
        obtain ⟨r, hq, hnew⟩ := h
        exact hbuilt (.increased hs hq) ⟨rfl, rfl⟩ hnew
      simp only [hs, if_false] at h
      by_cases hlt : e.quantity < quantity
      · simp only [hlt, if_true, bind_eq_ok, okOr_eq_ok, mapError_eq_ok, I64.checkedAdd,
          I64.checked_eq_some] at h
        obtain ⟨m', hm', r, hq, _, ⟨hr, rfl⟩, hnew⟩ := h
        have hpl : reducedPl sdk e marketPrice quantity = F64.floorI64
            (sdk.estimatePl e.side e.quantity e.entryPrice marketPrice) := by
          rw [reducedPl, if_pos hlt]
        rw [← hpl] at hm' hr hnew
        exact hbuilt (.reversed hs hlt hq) ⟨hm', hr, rfl⟩ hnew
      · have hpl : reducedPl sdk e marketPrice quantity = F64.floorI64
            (sdk.estimatePl e.side quantity e.entryPrice marketPrice) := by
          rw [reducedPl, if_neg hlt]
        have hless : quantity < e.quantity :=
          quantity_lt_of_ne (fun hq => hclose ⟨e, he, hs, hq⟩) hlt
        simp only [hlt, if_false, bind_eq_ok, mapError_eq_ok, ← hpl] at h
        obtain ⟨r, hq, h⟩ := h
        by_cases hprofit : reducedPl sdk e marketPrice quantity ≥ 0
        · simp only [hprofit, if_true, bind_eq_ok, okOr_eq_ok, I64.checkedAdd,
            I64.checked_eq_some] at h
          obtain ⟨m', hm', _, ⟨hr, rfl⟩, hnew⟩ := h
          exact hbuilt (.reduced hs hless hq hprofit) ⟨hm', hr, rfl⟩ hnew
        · simp only [hprofit, if_false] at h
          exact hbuilt (.carried hs hless hq (not_le.mp hprofit)) ⟨rfl, rfl⟩ h

theorem Ordered.isOk {params : TradeSide × Quantity × Price} {booked : Option ℤ}
    (h : Ordered sdk feePerc marketPrice side quantity pos params booked pos') :
    pos.withMarketOrder sdk marketPrice side quantity feePerc = .ok pos' := by
  obtain ⟨horders, hfee, hfees, m, m', r', hm, hbooks, hnew⟩ := h
  have hneg : I64.InRange (-(sdk.evaluateOrderFee feePerc quantity marketPrice : ℤ)) := by
    unfold I64.InRange at hfee ⊢
    omega
  generalize he : pos.exposure = exposure at horders
  cases horders with
  | opened =>
      obtain ⟨rfl, rfl⟩ := hbooks
      simp only [withMarketOrder, he, Bool.false_eq_true, if_false, bind_eq_ok, okOr_eq_ok,
        I64.tryFrom, I64.checkedNeg, I64.checked_eq_some, U64.checkedAdd_eq_some]
      exact ⟨_, ⟨hfee, rfl⟩, _, ⟨hneg, rfl⟩, _, hm, _, ⟨hfees, rfl⟩, hnew⟩
  | @increased e r hs hq =>
      obtain ⟨rfl, rfl⟩ := hbooks
      simp only [withMarketOrder, he, hs, ne_eq, not_true, decide_false, Bool.false_and,
        Bool.false_eq_true, if_false, if_true, bind_eq_ok, okOr_eq_ok, mapError_eq_ok,
        I64.tryFrom, I64.checkedNeg, I64.checked_eq_some, U64.checkedAdd_eq_some]
      exact ⟨_, ⟨hfee, rfl⟩, _, ⟨hneg, rfl⟩, _, hm, _, ⟨hfees, rfl⟩, r, hq, hnew⟩
  | @reversed e r hs hlt hq =>
      obtain ⟨hm', hr, rfl⟩ := hbooks
      have hne := (quantity_ne_of_lt hlt).symm
      simp only [reducedPl, hlt, if_true] at hm' hr hnew
      simp only [withMarketOrder, he, hs, hne, hlt, ne_eq, not_false_eq_true, decide_true,
        Bool.true_and, beq_iff_eq, if_false, if_true, bind_eq_ok, okOr_eq_ok, mapError_eq_ok,
        I64.tryFrom, I64.checkedNeg, I64.checkedAdd, I64.checked_eq_some, U64.checkedAdd_eq_some]
      exact ⟨_, ⟨hfee, rfl⟩, _, ⟨hneg, rfl⟩, _, hm, _, ⟨hfees, rfl⟩, _, hm', r, hq, _, ⟨hr, rfl⟩,
        hnew⟩
  | @reduced e r hs hlt hq hpl =>
      obtain ⟨hm', hr, rfl⟩ := hbooks
      have hne := quantity_ne_of_lt hlt
      have hge : ¬ e.quantity < quantity := Nat.lt_asymm hlt
      simp only [reducedPl, hge, if_false] at hm' hr hnew hpl
      simp only [withMarketOrder, he, hs, hne, hge, ne_eq, not_false_eq_true, decide_true,
        Bool.true_and, beq_iff_eq, if_false, bind_eq_ok, okOr_eq_ok, mapError_eq_ok, I64.tryFrom,
        I64.checkedNeg, I64.checkedAdd, I64.checked_eq_some, U64.checkedAdd_eq_some]
      refine ⟨_, ⟨hfee, rfl⟩, _, ⟨hneg, rfl⟩, _, hm, _, ⟨hfees, rfl⟩, r, hq, ?_⟩
      simp only [ge_iff_le, hpl, if_true, bind_eq_ok, okOr_eq_ok, I64.checked_eq_some]
      exact ⟨_, hm', _, ⟨hr, rfl⟩, hnew⟩
  | @carried e r hs hlt hq hpl =>
      obtain ⟨rfl, rfl⟩ := hbooks
      have hne := quantity_ne_of_lt hlt
      have hge : ¬ e.quantity < quantity := Nat.lt_asymm hlt
      simp only [reducedPl, hge, if_false] at hpl
      simp only [withMarketOrder, he, hs, hne, hge, ne_eq, not_false_eq_true, decide_true,
        Bool.true_and, beq_iff_eq, if_false, bind_eq_ok, okOr_eq_ok, mapError_eq_ok, I64.tryFrom,
        I64.checkedNeg, I64.checked_eq_some, U64.checkedAdd_eq_some]
      refine ⟨_, ⟨hfee, rfl⟩, _, ⟨hneg, rfl⟩, _, hm, _, ⟨hfees, rfl⟩, r, hq, ?_⟩
      rw [if_neg (not_le.mpr hpl)]
      exact hnew

end Quantoxide.CrossPosition
