import Quantoxide.Library.InverseGain
import Quantoxide.Model.CrossEstimates

/-! # What is relied on of the SDK's cross exposures

Each law states documented behaviour of the SDK's quantities, exposures and prices. -/

namespace Quantoxide

variable {ε : Type}

/-- Quantities are validated whole numbers, and sums and differences are exact. -/
structure QuantityLaws (sdk : CollateralSdk ε) : Prop where
  tryFrom : ∀ {n q}, sdk.quantityTryFrom n = .ok q → q.asU64 = n
  tryAdd : ∀ {q r t}, sdk.quantityTryAdd q r = .ok t → q.asU64 + r.asU64 = t.asU64
  trySub : ∀ {q r t}, sdk.quantityTrySub q r = .ok t → t.asU64 + r.asU64 = q.asU64
  add_isOk : ∀ {q r t}, sdk.quantityTryFrom t.asU64 = .ok t → q.asU64 + r.asU64 = t.asU64 →
    sdk.quantityTryAdd q r = .ok t
  sub_isOk : ∀ {q r t}, sdk.quantityTryFrom t.asU64 = .ok t → t.asU64 + r.asU64 = q.asU64 →
    sdk.quantityTrySub q r = .ok t

/-- An exposure has the side, the quantity and the entry price it was asked for. -/
structure ExposureParams (sdk : LnmSdk ε) : Prop where
  asked : ∀ {margin leverage params x},
    sdk.crossExposureNew margin leverage (some params) = .ok x → x.asRunningParams = some params

/-- A running exposure takes a running and a maintenance margin, and is accepted from one
satoshi above the two. -/
structure CrossMargins (sdk : LnmSdk ε) : Prop extends ExposureParams sdk where
  neutral : ∀ {margin leverage}, sdk.crossExposureNew margin leverage none = .ok .neutral
  covered : ∀ {margin leverage params e},
    sdk.crossExposureNew margin leverage (some params) = .ok (.running e) →
      e.runningMargin.asU64 + e.maintenanceMargin.asU64 + 1 ≤ margin
  accepts : ∀ {margin leverage params e},
    sdk.crossExposureNew margin leverage (some params) = .ok (.running e) → ∀ margin',
      e.runningMargin.asU64 + e.maintenanceMargin.asU64 + 1 ≤ margin' →
      ∃ e', sdk.crossExposureNew margin' leverage (some params) = .ok (.running e') ∧
        e'.runningMargin = e.runningMargin ∧ e'.maintenanceMargin = e.maintenanceMargin

/-! ### Prices -/

/-- Every `Price` of the program has come out of the SDK, which bounds it. -/
def IsPrice (sdk : LnmSdk ε) (p : Price) : Prop := sdk.bounded p.asF64 = p

instance (sdk : LnmSdk ε) (p : Price) : Decidable (IsPrice sdk p) :=
  inferInstanceAs (Decidable (_ = _))

/-- `Price::bounded` clamps to the range of prices and rounds by at most a tick. -/
structure PriceRange (sdk : LnmSdk ε) (tick : ℚ) : Prop where
  tick_nonneg : 0 ≤ tick
  tick_lt_min : tick < sdk.priceMin.asF64.val
  min_add_tick_le : sdk.priceMin.asF64.val + tick ≤ 100000000
  min_le_max : sdk.priceMin ≤ sdk.priceMax
  mono : ∀ {x y}, x ≤ y → sdk.bounded x ≤ sdk.bounded y
  of_le_min : ∀ {x}, x ≤ sdk.priceMin.asF64 → sdk.bounded x = sdk.priceMin
  of_max_le : ∀ {x}, sdk.priceMax.asF64 ≤ x → sdk.bounded x = sdk.priceMax
  near : ∀ {x}, sdk.priceMin.asF64 ≤ x → x ≤ sdk.priceMax.asF64 →
    |(sdk.bounded x).asF64.val - x.val| ≤ tick

namespace PriceRange

variable {sdk : LnmSdk ε} {tick : ℚ} {p : Price} (h : PriceRange sdk tick)

include h

theorem min_le_bounded (x : F64) : sdk.priceMin ≤ sdk.bounded x := by
  rcases le_total x sdk.priceMin.asF64 with hx | hx
  · exact (h.of_le_min hx).ge
  · rw [← h.of_le_min le_rfl]
    exact h.mono hx

theorem bounded_le_max (x : F64) : sdk.bounded x ≤ sdk.priceMax := by
  rcases le_total sdk.priceMax.asF64 x with hx | hx
  · exact (h.of_max_le hx).le
  · rw [← h.of_max_le le_rfl]
    exact h.mono hx

theorem min_le (hp : IsPrice sdk p) : sdk.priceMin.asF64.val ≤ p.asF64.val := by
  rw [← hp]
  exact h.min_le_bounded p.asF64

theorem le_max (hp : IsPrice sdk p) : p.asF64.val ≤ sdk.priceMax.asF64.val := by
  rw [← hp]
  exact h.bounded_le_max p.asF64

theorem min_pos : 0 < sdk.priceMin.asF64.val := h.tick_nonneg.trans_lt h.tick_lt_min

theorem pos (hp : IsPrice sdk p) : 0 < p.asF64.val := h.min_pos.trans_le (h.min_le hp)

end PriceRange

/-! ### The P/L of inverse contracts -/

def satsPerBtc : ℚ := 100000000

/-- What a position gains between two prices, in satoshis. -/
def exactPl (side : TradeSide) (quantity : Quantity) (entry exit : ℚ) : ℚ :=
  match side with
  | .buy => quantity.asU64 * (satsPerBtc / entry - satsPerBtc / exit)
  | .sell => quantity.asU64 * (satsPerBtc / exit - satsPerBtc / entry)

/-- The dollars of a position, in satoshis at a price of one: those of a short are negative. -/
def contractSats (side : TradeSide) (quantity : Quantity) : ℚ :=
  match side with
  | .buy => quantity.asU64 * satsPerBtc
  | .sell => -(quantity.asU64 * satsPerBtc)

theorem exactPl_eq_gain (side : TradeSide) (quantity : Quantity) (entry exit : ℚ) :
    exactPl side quantity entry exit =
      InverseGain.gain (contractSats side quantity) entry exit := by
  unfold exactPl contractSats InverseGain.gain
  generalize satsPerBtc = sats
  cases side <;> simp only <;> ring

theorem satsPerBtc_pos : 0 < satsPerBtc := by norm_num [satsPerBtc]

theorem contractSats_buy_nonneg (q : Quantity) : 0 ≤ contractSats .buy q :=
  mul_nonneg (Nat.cast_nonneg _) satsPerBtc_pos.le

theorem contractSats_sell_nonpos (q : Quantity) : contractSats .sell q ≤ 0 :=
  neg_nonpos.mpr (contractSats_buy_nonneg q)

theorem exactPl_self (side : TradeSide) (q : Quantity) (x : ℚ) : exactPl side q x x = 0 := by
  rw [exactPl_eq_gain, InverseGain.gain_self]

theorem exactPl_add (side : TradeSide) (q : Quantity) (x y z : ℚ) :
    exactPl side q x y + exactPl side q y z = exactPl side q x z := by
  rw [exactPl_eq_gain, exactPl_eq_gain, exactPl_eq_gain, InverseGain.gain_add_gain]

theorem exactPl_buy_anti {q : Quantity} {x y z : ℚ} (hx : 0 < x) (h : x ≤ y) :
    exactPl .buy q y z ≤ exactPl .buy q x z := by
  rw [exactPl_eq_gain, exactPl_eq_gain]
  exact InverseGain.gain_anti_entry (contractSats_buy_nonneg q) hx h

theorem exactPl_sell_mono {q : Quantity} {x y z : ℚ} (hx : 0 < x) (h : x ≤ y) :
    exactPl .sell q x z ≤ exactPl .sell q y z := by
  rw [exactPl_eq_gain, exactPl_eq_gain]
  exact InverseGain.gain_mono_entry (contractSats_sell_nonpos q) hx h

theorem exactPl_buy_mono_exit {q : Quantity} {x y z : ℚ} (hy : 0 < y) (h : y ≤ z) :
    exactPl .buy q x y ≤ exactPl .buy q x z := by
  have hstep := exactPl_buy_anti (q := q) (z := z) hy h
  rw [exactPl_self] at hstep
  have hsplit := exactPl_add .buy q x y z
  linarith

theorem exactPl_sell_anti_exit {q : Quantity} {x y z : ℚ} (hz : 0 < z) (h : z ≤ y) :
    exactPl .sell q x y ≤ exactPl .sell q x z := by
  have hstep := exactPl_sell_mono (q := q) (z := z) hz h
  rw [exactPl_self] at hstep
  have hsplit := exactPl_add .sell q x y z
  linarith

/-- `estimate_pl` is exact on the quantities of a `u64`. -/
structure ExactPl (sdk : LnmSdk ε) : Prop where
  exact : ∀ side {quantity entry exit}, quantity.asU64 < 2 ^ 64 → IsPrice sdk entry →
    IsPrice sdk exit → (sdk.estimatePl side quantity entry exit).val =
      exactPl side quantity entry.asF64.val exit.asF64.val

/-- What a quantity is worth at a price, in satoshis. -/
def worthAt (quantity : Quantity) (x : ℚ) : ℚ := quantity.asU64 * satsPerBtc / x

/-- `estimate_pl` is off by no more than the rounding of the two worths it is the difference
of. -/
structure PlWithin (sdk : LnmSdk ε) (err : ℚ) : Prop where
  within : ∀ side {quantity entry exit}, quantity.asU64 < 2 ^ 64 → IsPrice sdk entry →
    IsPrice sdk exit → |(sdk.estimatePl side quantity entry exit).val -
      exactPl side quantity entry.asF64.val exit.asF64.val| ≤
        err * (worthAt quantity entry.asF64.val + worthAt quantity exit.asF64.val)

/-- What the SDK computes is a valid price, and rounding agrees with bounding where it does not
refuse. -/
structure PriceResults (sdk : LnmSdk ε) : Prop where
  bounded : ∀ x, IsPrice sdk (sdk.bounded x)
  round : ∀ {x p}, sdk.round x = .ok p → sdk.bounded x = p
  aggregate : ∀ q₁ q₂ {p₁ p₂}, IsPrice sdk p₁ → IsPrice sdk p₂ →
    IsPrice sdk (sdk.aggregateCrossEntryPrice q₁ p₁ q₂ p₂)

/-! ### Liquidation -/

/-- The price is strictly on the side of the liquidation where the exposure is solvent. -/
def Solvent (e : CrossExposureRunning) (x : Price) : Prop :=
  match e.side with
  | .buy => e.liquidation < x
  | .sell => x < e.liquidation

/-- The price is not the last one that a losing exposure of the side could reach. -/
def Inside (sdk : LnmSdk ε) (side : TradeSide) (x : Price) : Prop :=
  match side with
  | .buy => sdk.priceMin < x
  | .sell => x < sdk.priceMax

instance (sdk : LnmSdk ε) (side : TradeSide) (x : Price) : Decidable (Inside sdk side x) :=
  match side with
  | .buy => inferInstanceAs (Decidable (_ < _))
  | .sell => inferInstanceAs (Decidable (_ < _))

/-- A price moved to the side where an exposure loses. -/
def losing (side : TradeSide) (tick x : ℚ) : ℚ :=
  match side with
  | .buy => x - tick
  | .sell => x + tick

/-- Margin less maintenance margin plus P/L, if the market were at a price. -/
def netValue (margin : ℕ) (e : CrossExposureRunning) (x : ℚ) : ℚ :=
  margin - e.maintenanceMargin.asU64 + exactPl e.side e.quantity e.entryPrice.asF64.val x

/-- The liquidation is within a tick of the price where margin less maintenance margin plus P/L
is zero, or the last price that there is. -/
structure LiquidationWithin (sdk : LnmSdk ε) (tick : ℚ) : Prop where
  within : ∀ {margin leverage params e},
    sdk.crossExposureNew margin leverage (some params) = .ok (.running e) →
      IsPrice sdk e.entryPrice →
      e.liquidation = (match e.side with | .buy => sdk.priceMin | .sell => sdk.priceMax) ∨
        netValue margin e (losing e.side tick e.liquidation.asF64.val) ≤ 0

/-- Nor does the liquidation come more than a tick too early. -/
structure Solvency (sdk : LnmSdk ε) (tick : ℚ) : Prop extends LiquidationWithin sdk tick where
  isPrice : ∀ {margin leverage params e},
    sdk.crossExposureNew margin leverage (some params) = .ok (.running e) →
      IsPrice sdk e.entryPrice → IsPrice sdk e.liquidation
  lasts : ∀ {margin leverage params e},
    sdk.crossExposureNew margin leverage (some params) = .ok (.running e) →
      IsPrice sdk e.entryPrice →
      0 ≤ netValue margin e (losing e.side (-tick) e.liquidation.asF64.val)

section Solvent

variable {sdk : LnmSdk ε} {tick : ℚ} {margin : ℕ} {leverage : CrossLeverage}
  {params : TradeSide × Quantity × Price} {e : CrossExposureRunning} {x : Price}

/-- Where net value is left also a tick on, the exposure is solvent. -/
theorem Solvency.solvent (h : Solvency sdk tick) (hr : PriceRange sdk tick)
    (hnew : sdk.crossExposureNew margin leverage (some params) = .ok (.running e))
    (hentry : IsPrice sdk e.entryPrice) (hx : IsPrice sdk x) (hin : Inside sdk e.side x)
    (hnet : 0 < netValue margin e (losing e.side tick x.asF64.val)) : Solvent e x := by
  have hpos := hr.tick_lt_min.trans_le (hr.min_le hx)
  have hliq := hr.pos (h.isPrice hnew hentry)
  have htick := hr.tick_nonneg
  have hwithin := h.within hnew hentry
  unfold Solvent
  unfold Inside at hin
  by_contra hlt
  cases hs : e.side with
  | buy =>
      simp only [hs, losing, netValue, not_lt] at hin hnet hwithin hlt
      rcases hwithin with hlast | hzero
      · exact absurd hin (not_lt.mpr (hlast ▸ hlt))
      · have hle : x.asF64.val ≤ e.liquidation.asF64.val := hlt
        have hmono := exactPl_buy_mono_exit (q := e.quantity) (x := e.entryPrice.asF64.val)
          (show 0 < x.asF64.val - tick by linarith) (sub_le_sub_right hle tick)
        linarith
  | sell =>
      simp only [hs, losing, netValue, not_lt] at hin hnet hwithin hlt
      rcases hwithin with hlast | hzero
      · exact absurd hin (not_lt.mpr (hlast ▸ hlt))
      · have hle : e.liquidation.asF64.val ≤ x.asF64.val := hlt
        have hmono := exactPl_sell_anti_exit (q := e.quantity) (x := e.entryPrice.asF64.val)
          (show 0 < e.liquidation.asF64.val + tick by linarith) (add_le_add_left hle tick)
        linarith

/-- A solvent exposure has net value left a tick before the price. -/
theorem Solvency.net (h : Solvency sdk tick) (hr : PriceRange sdk tick) (hx : CrossMargins sdk)
    (hnew : sdk.crossExposureNew margin leverage (some params) = .ok (.running e))
    (hentry : IsPrice sdk e.entryPrice) (hprice : IsPrice sdk x) (hsolvent : Solvent e x) :
    Inside sdk e.side x ∧ 0 < netValue margin e (losing e.side (-tick) x.asF64.val) := by
  have hliq := h.isPrice hnew hentry
  have hlasts := h.lasts hnew hentry
  have htick := hr.tick_nonneg
  have hlow := hr.tick_lt_min.trans_le (hr.min_le hprice)
  have hpos := hr.pos hliq
  have hcover : (e.maintenanceMargin.asU64 : ℚ) < margin := by
    have hcovered := hx.covered hnew
    exact_mod_cast (show e.maintenanceMargin.asU64 < margin by omega)
  unfold Solvent at hsolvent
  unfold Inside
  rcases Nat.eq_zero_or_pos e.quantity.asU64 with hnone | hsome
  · -- Without a quantity nothing is lost at any price.
    have hzero : ∀ y, exactPl e.side e.quantity e.entryPrice.asF64.val y = 0 := by
      intro y
      unfold exactPl
      cases e.side <;> simp [hnone]
    have hnet : 0 < netValue margin e (losing e.side (-tick) x.asF64.val) := by
      rw [netValue, hzero]
      linarith
    refine ⟨?_, hnet⟩
    cases hs : e.side with
    | buy =>
        simp only [hs] at hsolvent
        exact lt_of_le_of_lt (hr.min_le hliq) hsolvent
    | sell =>
        simp only [hs] at hsolvent
        exact lt_of_lt_of_le hsolvent (hr.le_max hliq)
  · have hsats : 0 < (e.quantity.asU64 : ℚ) * satsPerBtc :=
      mul_pos (by exact_mod_cast hsome) satsPerBtc_pos
    cases hs : e.side with
    | buy =>
        simp only [hs, losing, netValue, exactPl_eq_gain, contractSats] at hsolvent hlasts ⊢
        have hlt : e.liquidation.asF64.val < x.asF64.val := hsolvent
        have hmono := InverseGain.gain_lt_gain (x := e.entryPrice.asF64.val) hsats
          (show 0 < e.liquidation.asF64.val - -tick by linarith) (sub_lt_sub_right hlt (-tick))
        exact ⟨lt_of_le_of_lt (hr.min_le hliq) hsolvent, by linarith⟩
    | sell =>
        simp only [hs, losing, netValue, exactPl_eq_gain, contractSats] at hsolvent hlasts ⊢
        have hlt : x.asF64.val < e.liquidation.asF64.val := hsolvent
        have hmono := InverseGain.gain_lt_gain_of_neg (x := e.entryPrice.asF64.val)
          (neg_neg_of_pos hsats) (show 0 < x.asF64.val + -tick by linarith)
          (add_lt_add_left hlt (-tick))
        exact ⟨lt_of_lt_of_le hsolvent (hr.le_max hliq), by linarith⟩

end Solvent

/-- What the collateral estimate rests on. -/
structure CollateralLaws (sdk : CollateralSdk ε) (tick err : ℚ) : Prop where
  quantity : QuantityLaws sdk
  margins : CrossMargins sdk.toLnmSdk
  prices : PriceResults sdk.toLnmSdk
  range : PriceRange sdk.toLnmSdk tick
  pl : PlWithin sdk.toLnmSdk err
  liquidation : LiquidationWithin sdk.toLnmSdk tick
  /-- Accepted quantities are bounded, and so is their P/L. -/
  bounded : ∀ side {q entry exit}, sdk.quantityTryFrom q.asU64 = .ok q →
    IsPrice sdk.toLnmSdk entry → IsPrice sdk.toLnmSdk exit →
      0 < q.asU64 ∧ q.asU64 < 2 ^ 64 ∧ I64.InRange ⌊(sdk.estimatePl side q entry exit).val⌋
  running : ∀ {margin leverage side q p}, sdk.crossExposureRunning margin leverage side q p =
    sdk.crossExposureNew margin leverage (some (side, q, p))
  marginTryAdd : ∀ {m n r}, sdk.marginTryAdd m n = .ok r → r.asU64 = m.asU64 + n
  /-- The margin that brings a position to a liquidation, up to flooring. -/
  estMargin : ∀ {side q market liquidation r}, IsPrice sdk.toLnmSdk market →
    IsPrice sdk.toLnmSdk liquidation →
    sdk.marginEstFromLiquidationPrice side q market liquidation = .ok r →
      -exactPl side q market.asF64.val liquidation.asF64.val - 1 ≤ r.asU64

end Quantoxide
