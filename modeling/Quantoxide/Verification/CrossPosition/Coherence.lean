import Quantoxide.Verification.CrossPosition.Orders
import Quantoxide.Verification.Sdk.Collateral

/-! # Coherence after a market order

An exposure the SDK accepts covers its margins, but a loss that its entry price carries is not
among them. An order leaves a coherent position when the margin it leaves covers that loss. The
SDK rounds the liquidation, so the loss is told only up to a tick of the market price. -/

namespace Quantoxide

namespace CrossPosition

open SimulatedCrossPosition Result

variable {ε : Type} {sdk : LnmSdk ε} {tick : ℚ} {feePerc : PercentageCapped}
  {marketPrice : Price} {side : TradeSide} {quantity : Quantity}
  {pos pos' : SimulatedCrossPosition}

/-- The laws of the SDK that coherence rests on. -/
structure CoherenceLaws (sdk : LnmSdk ε) (tick : ℚ) : Prop where
  margins : CrossMargins sdk
  prices : PriceResults sdk
  range : PriceRange sdk tick
  solvency : Solvency sdk tick

/-! ### Net value -/

/-- The market can still move against the exposure, and what the margin has above the maintenance
margin exceeds the loss: floored at the market price, and in full a tick beyond it. -/
structure LossCovered (sdk : LnmSdk ε) (tick : ℚ) (marketPrice : Price)
    (params : TradeSide × Quantity × Price) (margin maintenance : ℕ) : Prop where
  inside : Inside sdk params.1 marketPrice
  beyond : 0 < (margin : ℚ) - maintenance + exactPl params.1 params.2.1 params.2.2.asF64.val
    (losing params.1 tick marketPrice.asF64.val)
  floored : 0 < (margin : ℤ) - maintenance +
    F64.floorI64 (sdk.estimatePl params.1 params.2.1 params.2.2 marketPrice)

/-- Running margin absorbs losses first, but free margin is left only above all of them. -/
theorem freeMargin_pos_iff (sdk : LnmSdk ε) (marketPrice : Price) (pos : SimulatedCrossPosition)
    {e : CrossExposureRunning} (he : pos.exposure = .running e)
    (hcover : e.runningMargin.asU64 + e.maintenanceMargin.asU64 + 1 ≤ pos.margin) :
    0 < pos.estFreeMargin sdk marketPrice ↔
      0 < (pos.margin : ℤ) - e.maintenanceMargin.asU64 +
        F64.floorI64 (sdk.estimatePl e.side e.quantity e.entryPrice marketPrice) := by
  simp only [estFreeMargin, estRunningPl, runningMargin, maintenanceMargin, he]
  omega

/-- Coherent is solvent with free margin left. -/
theorem isCoherent_iff (sdk : LnmSdk ε) (marketPrice : Price) (pos : SimulatedCrossPosition)
    {e : CrossExposureRunning} (he : pos.exposure = .running e) :
    pos.isCoherent sdk marketPrice = true ↔
      Solvent e marketPrice ∧ 0 < pos.estFreeMargin sdk marketPrice := by
  cases hs : e.side <;> simp [isCoherent, Solvent, he, hs]

section Built

variable {params : TradeSide × Quantity × Price} {margin t : ℕ} {s p : ℤ}
  {leverage : CrossLeverage} {e : CrossExposureRunning}

/-- A running exposure is the one asked for. -/
theorem asked_params (hl : CrossMargins sdk)
    (hx : sdk.crossExposureNew margin leverage (some params) = .ok (.running e)) :
    params = (e.side, e.quantity, e.entryPrice) := by
  have hparams := hl.asked hx
  simp only [CrossExposure.asRunningParams, Option.some.injEq] at hparams
  exact hparams.symm

/-- A position built on its margin is coherent when the loss a tick on is covered. -/
theorem coherent_of_lossCovered (hl : CoherenceLaws sdk tick)
    (hnew : new sdk margin leverage (some params) t s p = .ok pos')
    (he : pos'.exposure = .running e) (hentry : IsPrice sdk params.2.2)
    (hm : IsPrice sdk marketPrice)
    (h : LossCovered sdk tick marketPrice params margin e.maintenanceMargin.asU64) :
    pos'.isCoherent sdk marketPrice = true := by
  obtain ⟨x, hx, rfl⟩ := new_eq_ok.mp hnew
  obtain rfl : x = .running e := he
  obtain rfl := asked_params hl.margins hx
  rw [isCoherent_iff sdk marketPrice _ rfl]
  constructor
  · exact hl.solvency.solvent hl.range hx hentry hm h.inside h.beyond
  · exact (freeMargin_pos_iff sdk marketPrice _ rfl (hl.margins.covered hx)).mpr h.floored

/-- A coherent position covers the loss a tick before. -/
theorem lossCovered_of_coherent (hl : CoherenceLaws sdk tick)
    (hnew : new sdk margin leverage (some params) t s p = .ok pos')
    (he : pos'.exposure = .running e) (hentry : IsPrice sdk params.2.2)
    (hm : IsPrice sdk marketPrice) (h : pos'.isCoherent sdk marketPrice = true) :
    LossCovered sdk (-tick) marketPrice params margin e.maintenanceMargin.asU64 := by
  obtain ⟨x, hx, rfl⟩ := new_eq_ok.mp hnew
  obtain rfl : x = .running e := he
  obtain rfl := asked_params hl.margins hx
  rw [isCoherent_iff sdk marketPrice _ rfl] at h
  have hnet := hl.solvency.net hl.range hl.margins hx hentry hm h.1
  have hfree := (freeMargin_pos_iff sdk marketPrice _ rfl (hl.margins.covered hx)).mp h.2
  exact ⟨hnet.1, hnet.2, hfree⟩

end Built

/-! ### Orders -/

/-- The margin left by the fee and the P/L that is booked. -/
def marginLeft (margin fee : ℕ) (booked : Option ℤ) : ℕ :=
  (Netting.book (Netting.book (margin : ℤ) (-fee)) (booked.getD 0)).toNat

/-- The maintenance margin that the SDK takes for an exposure on a margin. -/
def maintenanceFor (sdk : LnmSdk ε) (margin : ℕ) (leverage : CrossLeverage)
    (params : TradeSide × Quantity × Price) : ℕ :=
  match sdk.crossExposureNew margin leverage (some params) with
  | .ok (.running e) => e.maintenanceMargin.asU64
  | _ => 0

/-- When an order leaves a coherent position: always when it closes exactly, and else when the
margin it leaves covers the loss of the exposure it leads to. An order that opens, reverses or
takes off a profit leads to no loss at the market price; one that increases the position or
takes off a loss may. -/
def OrderCoherent (sdk : LnmSdk ε) (tick : ℚ) (feePerc : PercentageCapped) (marketPrice : Price)
    (side : TradeSide) (quantity : Quantity) (pos : SimulatedCrossPosition) : Prop :=
  ∀ params booked, Orders sdk marketPrice side quantity pos.exposure params booked →
    let margin := marginLeft pos.margin (sdk.evaluateOrderFee feePerc quantity marketPrice) booked
    LossCovered sdk tick marketPrice params margin (maintenanceFor sdk margin pos.leverage params)

/-- The exposure decides what an order leads to. -/
theorem Orders.unique {exposure : CrossExposure} {params params' : TradeSide × Quantity × Price}
    {booked booked' : Option ℤ} (h : Orders sdk marketPrice side quantity exposure params booked)
    (h' : Orders sdk marketPrice side quantity exposure params' booked') :
    params' = params ∧ booked' = booked := by
  cases h with
  | opened =>
      cases h'
      exact ⟨rfl, rfl⟩
  | increased hs hq =>
      cases h' with
      | increased _ hq' =>
          obtain rfl := Except.ok.inj (hq.symm.trans hq')
          exact ⟨rfl, rfl⟩
      | reversed hs' => exact absurd hs hs'
      | reduced hs' => exact absurd hs hs'
      | carried hs' => exact absurd hs hs'
  | reversed hs hlt hq =>
      cases h' with
      | increased hs' => exact absurd hs' hs
      | reversed _ _ hq' =>
          obtain rfl := Except.ok.inj (hq.symm.trans hq')
          exact ⟨rfl, rfl⟩
      | reduced _ hlt' => exact absurd hlt (Nat.lt_asymm hlt')
      | carried _ hlt' => exact absurd hlt (Nat.lt_asymm hlt')
  | reduced hs hlt hq hpl =>
      cases h' with
      | increased hs' => exact absurd hs' hs
      | reversed _ hlt' => exact absurd hlt (Nat.lt_asymm hlt')
      | reduced _ _ hq' =>
          obtain rfl := Except.ok.inj (hq.symm.trans hq')
          exact ⟨rfl, rfl⟩
      | carried _ _ _ hpl' => exact absurd hpl (not_le.mpr hpl')
  | carried hs hlt hq hpl =>
      cases h' with
      | increased hs' => exact absurd hs' hs
      | reversed _ hlt' => exact absurd hlt (Nat.lt_asymm hlt')
      | reduced _ _ _ hpl' => exact absurd hpl' (not_le.mpr hpl)
      | carried _ _ hq' =>
          obtain rfl := Except.ok.inj (hq.symm.trans hq')
          exact ⟨rfl, rfl⟩

/-- An exact close leads to no exposure. -/
theorem ClosesExactly.not_orders (h : ClosesExactly pos side quantity)
    {params : TradeSide × Quantity × Price} {booked : Option ℤ} :
    ¬ Orders sdk marketPrice side quantity pos.exposure params booked := by
  obtain ⟨e, he, hs, rfl⟩ := h
  intro horders
  rw [he] at horders
  cases horders with
  | increased hs' => exact hs hs'
  | reversed _ hlt => exact Nat.lt_irrefl _ hlt
  | reduced _ hlt => exact Nat.lt_irrefl _ hlt
  | carried _ hlt => exact Nat.lt_irrefl _ hlt

/-- Its entry price is a price. -/
theorem Orders.isPrice {params : TradeSide × Quantity × Price} {booked : Option ℤ}
    (h : Orders sdk marketPrice side quantity pos.exposure params booked)
    (hl : PriceResults sdk) (hentry : ∀ e, pos.exposure = .running e → IsPrice sdk e.entryPrice)
    (hm : IsPrice sdk marketPrice) : IsPrice sdk params.2.2 := by
  generalize he : pos.exposure = exposure at h
  cases h with
  | opened => exact hm
  | increased => exact hl.aggregate _ _ (hentry _ he) hm
  | reversed => exact hm
  | reduced => exact hentry _ he
  | carried => exact hl.bounded _

/-- What is booked is what is left. -/
theorem Books.marginLeft_eq {booked : Option ℤ} {margin m m' fee : ℕ} {r r' : ℤ}
    (hfee : (applyAmountToMargin margin (-(fee : ℤ)) : ExecutorResult ε ℕ) = .ok m)
    (h : Books ε booked m r m' r') : marginLeft margin fee booked = m' := by
  have hbook := applyAmount_eq_ok hfee
  unfold marginLeft
  rw [← hbook]
  cases booked with
  | none =>
      obtain ⟨rfl, -⟩ := h
      rw [Option.getD_none, Netting.book_of_nonneg (by omega)]
      omega
  | some pl =>
      rw [Option.getD_some, ← applyAmount_eq_ok h.1, Int.toNat_natCast]

/-- An order short of an exact close runs an exposure, built on the margin that it leaves. -/
theorem Ordered.running {params : TradeSide × Quantity × Price} {booked : Option ℤ}
    (h : Ordered sdk feePerc marketPrice side quantity pos params booked pos')
    (hl : CrossMargins sdk) :
    let margin := marginLeft pos.margin (sdk.evaluateOrderFee feePerc quantity marketPrice) booked
    ∃ e t s p, new sdk margin pos.leverage (some params) t s p = .ok pos' ∧
      pos'.exposure = .running e ∧
      maintenanceFor sdk margin pos.leverage params = e.maintenanceMargin.asU64 := by
  obtain ⟨m, m', r, hfee, hbooks, hnew⟩ := h.built
  rw [hbooks.marginLeft_eq hfee]
  obtain ⟨x, hx, hpos⟩ := new_eq_ok.mp hnew
  cases x with
  | neutral => cases hl.asked hx
  | running e =>
      refine ⟨e, _, _, _, hnew, by rw [hpos], ?_⟩
      rw [maintenanceFor, hx]

/-- An order that covers the loss a tick on leaves a coherent position, and one that leaves a
coherent position covers the loss a tick before. -/
theorem order_coherent_within (hl : CoherenceLaws sdk tick)
    (hentry : ∀ e, pos.exposure = .running e → IsPrice sdk e.entryPrice)
    (hm : IsPrice sdk marketPrice)
    (h : pos.withMarketOrder sdk marketPrice side quantity feePerc = .ok pos') :
    (OrderCoherent sdk tick feePerc marketPrice side quantity pos →
      pos'.isCoherent sdk marketPrice = true) ∧
    (pos'.isCoherent sdk marketPrice = true →
      OrderCoherent sdk (-tick) feePerc marketPrice side quantity pos) := by
  by_cases hclose : ClosesExactly pos side quantity
  · refine ⟨fun _ => ?_, fun _ _ _ horders => absurd horders hclose.not_orders⟩
    obtain ⟨e, he, hs, rfl⟩ := hclose
    rw [order_exact he hs] at h
    simp only [close, he, bind_eq_ok, okOr_eq_ok, new_eq_ok] at h
    obtain ⟨_, -, _, -, m, -, t, -, p, -, x, hx, rfl⟩ := h
    obtain rfl := Except.ok.inj (hl.margins.neutral.symm.trans hx)
    rfl
  · obtain ⟨params, booked, hordered⟩ := order_of_ok hclose h
    obtain ⟨e, t, s, p, hnew, he, hmaintenance⟩ := hordered.running hl.margins
    have hprice := hordered.orders.isPrice hl.prices hentry hm
    constructor
    · intro hcond
      have hcovered := hcond params booked hordered.orders
      simp only [hmaintenance] at hcovered
      exact coherent_of_lossCovered hl hnew he hprice hm hcovered
    · intro hcoherent params' booked' horders
      obtain ⟨rfl, rfl⟩ := hordered.orders.unique horders
      simp only [hmaintenance]
      exact lossCovered_of_coherent hl hnew he hprice hm hcoherent

end CrossPosition

end Quantoxide
