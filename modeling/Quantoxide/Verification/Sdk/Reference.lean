import Mathlib.Tactic.Linarith.Frontend
import Mathlib.Tactic.Positivity
import Quantoxide.Library.Result
import Quantoxide.Verification.Sdk.Laws

/-! # A reference SDK

A computable SDK with the exchange's inverse-contract formulas over exact rationals. It
meets the laws, and only witnesses and counterexamples run it. -/

namespace Quantoxide

/-- What a refused call objects to. -/
inductive Refusal
  | price
  | quantity
  | margin
  | leverage
  | stoploss
  | takeprofit
deriving DecidableEq, Repr

def Margin.ofInt (n : ℤ) : Except Refusal Margin :=
  if h : 1 ≤ n ∧ n < 2 ^ 63 then .ok ⟨n.toNat, by omega⟩ else .error .margin

namespace ReferenceSdk

def sats : ℚ := 100000000

theorem sats_pos : 0 < sats := by norm_num [sats]

def lowest : ℚ := 1

def highest : ℚ := 100000000

def price (x : ℚ) : Price := ⟨F64.clamp x⟩

def margin (n : ℕ) : Margin := ⟨n % 2 ^ 63, Nat.mod_lt n (by decide)⟩

/-- Prices move by half a dollar. -/
def tick (x : ℚ) : ℚ := ⌊2 * x⌋ / 2

def tickUp (x : ℚ) : ℚ := ⌈2 * x⌉ / 2

def nearest (x : ℚ) : ℚ := tick (x + 1 / 4)

def bound (x : ℚ) : ℚ := max lowest (min highest x)

def checked (x : ℚ) : Except Refusal Price :=
  if lowest ≤ x ∧ x ≤ highest then .ok (price x) else .error .price

/-- The value of a position in satoshis at a price. -/
def worth (q : Quantity) (p : ℚ) : ℚ := q.asU64 * sats / p

def leverageOf (q : Quantity) (m : ℕ) (p : Price) : ℚ := worth q p.asF64.val / m

/-- Where a position of the given leverage has lost its margin. -/
def liquidationAt (side : TradeSide) (p : Price) (lev : ℚ) : Price :=
  let x := p.asF64.val
  price (match side with
    | .buy => bound (nearest (x * lev / (lev + 1)))
    | .sell => if lev ≤ 1 then highest else bound (nearest (x * lev / (lev - 1))))

def orderFee (fee : PercentageCapped) (q : Quantity) (p : Price) : ℕ :=
  ⌊fee.asF64.val / 100 * worth q p.asF64.val⌋.toNat

def profit (side : TradeSide) (q : Quantity) (entry exit : Price) : ℚ :=
  match side with
  | .buy => worth q entry.asF64.val - worth q exit.asF64.val
  | .sell => worth q exit.asF64.val - worth q entry.asF64.val

/-- `low < x < high` on the side of the trade. -/
def between (side : TradeSide) (low x high : Price) : Bool :=
  match side with
  | .buy => decide (low < x) && decide (x < high)
  | .sell => decide (high < x) && decide (x < low)

def beyond (side : TradeSide) (entry x : Price) : Bool :=
  match side with
  | .buy => decide (entry < x)
  | .sell => decide (x < entry)

def sizeOf (size : TradeSize) (lev : Leverage) (entry : Price) : ℤ × ℤ :=
  match size with
  | .quantity q => (q.asU64, ⌈worth q entry.asF64.val / lev.asF64.val⌉)
  | .margin m => (⌊m.asU64 * lev.asF64.val * entry.asF64.val / sats⌋, m.asU64)

def openTrade (side : TradeSide) (size : TradeSize) (lev : Leverage) (entry : Price)
    (stoploss takeprofit : Option Price) (fee : PercentageCapped) :
    Except Refusal OpenTradeParams := do
  let (q, m) := sizeOf size lev entry
  if entry.asF64.val < lowest ∨ highest < entry.asF64.val ∨
      nearest entry.asF64.val ≠ entry.asF64.val then .error .price
  else if q < 1 then .error .quantity
  else
    let quantity : Quantity := ⟨q.toNat⟩
    let margin ← Margin.ofInt m
    let liquidation := liquidationAt side entry (leverageOf quantity margin.asU64 entry)
    if stoploss.any (fun s => !between side liquidation s entry) then .error .stoploss
    else if takeprofit.any (fun t => !beyond side entry t) then .error .takeprofit
    else
      .ok ⟨quantity, margin, liquidation, orderFee fee quantity entry,
        orderFee fee quantity liquidation⟩

def newStoploss (side : TradeSide) (liquidation : Price) (takeprofit : Option Price)
    (market stoploss : Price) : Except Refusal Unit :=
  if !between side liquidation stoploss market then .error .stoploss
  else if takeprofit.any (fun t => !beyond side stoploss t) then .error .takeprofit
  else .ok ()

def tryLeverage (q : Quantity) (m : Margin) (p : Price) : Except LeverageValidationError Leverage :=
  let lev := leverageOf q m.asU64 p
  if lev < 1 then .error .tooLow else if 100 < lev then .error .tooHigh else .ok ⟨F64.clamp lev⟩

def addMargin (side : TradeSide) (q : Quantity) (p : Price) (m : Margin) (amount : ℕ) :
    Except Refusal AddedMargin := do
  let margin ← Margin.ofInt (m.asU64 + amount)
  let lev := leverageOf q margin.asU64 p
  if lev < 1 ∨ 100 < lev then .error .leverage
  else .ok ⟨margin, ⟨F64.clamp lev⟩, liquidationAt side p lev⟩

/-- Profit is cashed in before margin; the entry moves by what the profit gave. -/
def cashIn (side : TradeSide) (q : Quantity) (m : Margin) (p : Price) (stoploss : Option Price)
    (market : Price) (amount : ℕ) : Except Refusal CashIn := do
  let gain : ℤ := min amount (max 0 ⌊profit side q p market⌋)
  let margin ← Margin.ofInt (m.asU64 + gain - amount)
  let newPrice := if gain = 0 then p else
    let w := worth q p.asF64.val
    let left := match side with
      | .buy => w - gain
      | .sell => w + gain
    price (bound (nearest (q.asU64 * sats / left)))
  let lev := leverageOf q margin.asU64 newPrice
  if lev < 1 ∨ 100 < lev then .error .leverage
  else .ok ⟨newPrice, margin, ⟨F64.clamp lev⟩, liquidationAt side newPrice lev, stoploss⟩

/-- The margins an exposure takes: what runs it at its leverage, and 0.15 % of its worth. -/
def runningMargin (lev : CrossLeverage) (q : Quantity) (p : Price) : ℤ :=
  ⌈worth q p.asF64.val / lev.asU64⌉

def maintenanceMargin (q : Quantity) (p : Price) : ℤ :=
  max 1 ⌊worth q p.asF64.val * 15 / 10000⌋

/-- Where the net value of an exposure has fallen to its maintenance margin. -/
def crossLiquidation (side : TradeSide) (q : Quantity) (p : Price) (free : ℕ) : Price :=
  liquidationAt side p (worth q p.asF64.val / free)

/-- An exposure is accepted from one satoshi above its margins. -/
def crossExposure (margin : ℕ) (lev : CrossLeverage) :
    Option (TradeSide × Quantity × Price) → Except Refusal CrossExposure
  | none => .ok .neutral
  | some (side, q, p) => do
    let running ← Margin.ofInt (runningMargin lev q p)
    let maintenance ← Margin.ofInt (maintenanceMargin q p)
    if margin < running.asU64 + maintenance.asU64 + 1 then .error .margin
    else
      .ok (.running ⟨side, q, p, crossLiquidation side q p (margin - maintenance.asU64), running,
        maintenance⟩)

def aggregate (q₁ : Quantity) (p₁ : Price) (q₂ : Quantity) (p₂ : Price) : Price :=
  price (bound (nearest ((q₁.asU64 + q₂.asU64) * sats /
    (worth q₁ p₁.asF64.val + worth q₂ p₂.asF64.val))))

def tenthPercent : PercentageCapped := ⟨F64.clamp (1 / 10)⟩

end ReferenceSdk

open ReferenceSdk in
def referenceSdk : LnmSdk Refusal where
  priceMin := price lowest
  priceMax := price highest
  bounded x := price (bound (nearest x.val))
  round x := checked (nearest x.val)
  roundUp x := checked (tickUp x.val)
  roundDown x := checked (tick x.val)
  applyGain p gain := checked (nearest (p.asF64.val * (1 + gain.asF64.val / 100)))
  applyDiscount p discount := checked (nearest (p.asF64.val * (1 - discount.asF64.val / 100)))
  leverageMin := ⟨1⟩
  leverageTryCalculate := tryLeverage
  marginTrySub m n := Margin.ofInt (m.asU64 - n)
  evaluateOpenTradeParams := openTrade
  evaluateNewStoploss := newStoploss
  evaluateAddedMargin := addMargin
  evaluateCashIn := cashIn
  estLiquidationFromLeverage side _ p lev := liquidationAt side p lev.asF64.val
  evaluateOrderFee := orderFee
  estimatePl side q entry exit := F64.clamp (profit side q entry exit)
  crossLeverageMin := ⟨1⟩
  crossExposureNew := crossExposure
  quantityTryAdd q₁ q₂ := .ok ⟨q₁.asU64 + q₂.asU64⟩
  quantityTrySub q₁ q₂ :=
    if q₂.asU64 < q₁.asU64 then .ok ⟨q₁.asU64 - q₂.asU64⟩ else .error .quantity
  aggregateCrossEntryPrice := aggregate

/-! ### Its numbers -/

theorem Margin.ofInt_eq_ok {n : ℤ} {m : Margin} (h : Margin.ofInt n = .ok m) :
    (m.asU64 : ℤ) = n ∧ 1 ≤ m.asU64 := by
  unfold Margin.ofInt at h
  split_ifs at h with hn
  cases h
  have hcast : (n.toNat : ℤ) = n := Int.toNat_of_nonneg (by omega)
  have hpos : 1 ≤ n.toNat := by omega
  exact ⟨hcast, hpos⟩

theorem F64.wide_lt_maxVal : (10 : ℚ) ^ 30 < F64.maxVal := by decide +kernel

theorem F64.clamp_val {q : ℚ} (h : -F64.maxVal ≤ q) (h' : q ≤ F64.maxVal) :
    (F64.clamp q).val = q := by
  simp only [clamp, min_eq_right h', max_eq_right h]

namespace ReferenceSdk

open Result

theorem highest_le_maxVal : highest ≤ F64.maxVal := by
  have hwide := F64.wide_lt_maxVal
  unfold highest
  linarith

theorem neg_maxVal_le_lowest : -F64.maxVal ≤ lowest := by
  have hwide := F64.wide_lt_maxVal
  unfold lowest
  linarith

theorem lowest_le_highest : lowest ≤ highest := by decide

theorem price_mono {x y : ℚ} (h : x ≤ y) : price x ≤ price y := by
  rw [Price.le_iff, F64.le_iff]
  exact max_le_max le_rfl (min_le_min le_rfl h)

theorem price_val {x : ℚ} (h : lowest ≤ x) (h' : x ≤ highest) : (price x).asF64.val = x :=
  F64.clamp_val (neg_maxVal_le_lowest.trans h) (h'.trans highest_le_maxVal)

theorem lowest_le_bound (x : ℚ) : lowest ≤ bound x := le_max_left _ _

theorem bound_le_highest (x : ℚ) : bound x ≤ highest :=
  max_le lowest_le_highest (min_le_left _ _)

theorem bound_mono {x y : ℚ} (h : x ≤ y) : bound x ≤ bound y :=
  max_le_max le_rfl (min_le_min le_rfl h)

theorem tick_mono {x y : ℚ} (h : x ≤ y) : tick x ≤ tick y := by
  have hfloor : (⌊2 * x⌋ : ℚ) ≤ ⌊2 * y⌋ := by exact_mod_cast Int.floor_le_floor (by linarith)
  unfold tick
  linarith

theorem nearest_mono {x y : ℚ} (h : x ≤ y) : nearest x ≤ nearest y := tick_mono (by linarith)

theorem nearest_le (x : ℚ) : nearest x ≤ x + 1 / 4 := by
  have hfloor := Int.floor_le (2 * (x + 1 / 4))
  unfold nearest tick
  linarith

theorem sub_le_nearest (x : ℚ) : x - 1 / 4 ≤ nearest x := by
  have hfloor := Int.lt_floor_add_one (2 * (x + 1 / 4))
  unfold nearest tick
  linarith

/-! ### Its grid of prices -/

/-- The prices are half dollars. -/
def OnGrid (x : ℚ) : Prop := ∃ n : ℤ, 2 * x = n

theorem tick_eq (n : ℤ) {x : ℚ} (h : (n : ℚ) ≤ 2 * x) (h' : 2 * x < n + 1) : tick x = n / 2 := by
  rw [tick, Int.floor_eq_iff.mpr ⟨h, h'⟩]

theorem nearest_of_onGrid {x : ℚ} (h : OnGrid x) : nearest x = x := by
  obtain ⟨n, hn⟩ := h
  rw [nearest, tick_eq n (by linarith) (by linarith)]
  linarith

theorem onGrid_nearest (x : ℚ) : OnGrid (nearest x) :=
  ⟨⌊2 * (x + 1 / 4)⌋, by unfold nearest tick; ring⟩

theorem onGrid_lowest : OnGrid lowest := ⟨2, by norm_num [lowest]⟩

theorem onGrid_highest : OnGrid highest := ⟨200000000, by norm_num [highest]⟩

theorem onGrid_bound {x : ℚ} (h : OnGrid x) : OnGrid (bound x) := by
  unfold bound
  rcases max_choice lowest (min highest x) with hmax | hmax
  · rw [hmax]
    exact onGrid_lowest
  · rw [hmax]
    rcases min_choice highest x with hmin | hmin
    · rw [hmin]
      exact onGrid_highest
    · rw [hmin]
      exact h

/-! ### Its liquidation prices -/

/-- A price of the exchange: a half dollar within its bounds. -/
structure Bounded (p : Price) : Prop where
  lowest_le : lowest ≤ p.asF64.val
  le_highest : p.asF64.val ≤ highest
  onGrid : OnGrid p.asF64.val

theorem Bounded.pos {p : Price} (h : Bounded p) : 0 < p.asF64.val :=
  lt_of_lt_of_le (by decide) h.lowest_le

theorem bounded_val (x : ℚ) : (price (bound x)).asF64.val = bound x :=
  price_val (lowest_le_bound x) (bound_le_highest x)

theorem bounded_price {x : ℚ} (h : OnGrid x) : Bounded (price (bound x)) := by
  refine ⟨?_, ?_, ?_⟩
  all_goals rw [bounded_val]
  · exact lowest_le_bound x
  · exact bound_le_highest x
  · exact onGrid_bound h

theorem worth_nonneg {p : Price} (h : Bounded p) (q : Quantity) : 0 ≤ worth q p.asF64.val := by
  have hpos := h.pos
  unfold worth sats
  positivity

/-- More leverage brings the liquidation closer. -/
theorem liquidationAt_mono (side : TradeSide) {p : Price} (hp : Bounded p) {l l' : ℚ}
    (hl : 0 < l) (h : l ≤ l') :
    side.NotBeyond (liquidationAt side p l) (liquidationAt side p l') := by
  have hx := hp.pos
  cases side with
  | buy =>
      apply price_mono
      apply bound_mono
      apply nearest_mono
      rw [div_le_div_iff₀ (by linarith) (by linarith)]
      have hmul := mul_le_mul_of_nonneg_left h hx.le
      nlinarith
  | sell =>
      apply price_mono
      simp only
      split_ifs with h1 h2 h2
      · exact le_rfl
      · linarith
      · exact bound_le_highest _
      · apply bound_mono
        apply nearest_mono
        rw [div_le_div_iff₀ (by linarith) (by linarith)]
        have hmul := mul_le_mul_of_nonneg_left h hx.le
        nlinarith

/-- The liquidation lies on the losing side of the entry price. -/
theorem liquidationAt_losing (side : TradeSide) {p : Price} (hp : Bounded p) {l : ℚ}
    (hl : 0 < l) : side.NotBeyond (liquidationAt side p l) p := by
  have hx := hp.pos
  cases side with
  | buy =>
      have hle : p.asF64.val * l / (l + 1) ≤ p.asF64.val := by
        rw [div_le_iff₀ (by linarith)]
        nlinarith
      have hnear := nearest_mono hle
      rw [nearest_of_onGrid hp.onGrid] at hnear
      have hbound : bound (nearest (p.asF64.val * l / (l + 1))) ≤ p.asF64.val :=
        max_le hp.lowest_le (min_le_of_right_le hnear)
      exact max_le p.asF64.ge_min (min_le_of_right_le hbound)
  | sell =>
      have hge : p.asF64.val ≤
          if l ≤ 1 then highest else bound (nearest (p.asF64.val * l / (l - 1))) := by
        split_ifs with h1
        · exact hp.le_highest
        · have hle : p.asF64.val ≤ p.asF64.val * l / (l - 1) := by
            rw [le_div_iff₀ (by linarith)]
            nlinarith
          have hnear := nearest_mono hle
          rw [nearest_of_onGrid hp.onGrid] at hnear
          exact le_max_of_le_right (le_min hp.le_highest hnear)
      exact le_max_of_le_right (le_min p.asF64.le_max hge)

/-- What the reference SDK's liquidation prices are: those of the position's leverage, which
a settlement clamps to one. -/
structure LiquidatesAt (side : TradeSide) (q : Quantity) (p : Price) (m : Margin)
    (liquidation : Price) : Prop where
  bounded : Bounded p
  margin_pos : 1 ≤ m.asU64
  quantity_pos : 1 ≤ q.asU64
  price : ∃ l, 0 < l ∧ liquidation = liquidationAt side p l ∧
    (l = leverageOf q m.asU64 p ∨ leverageOf q m.asU64 p < 1)

theorem leverageOf_pos {q : Quantity} {m : ℕ} {p : Price} (hp : Bounded p) (hm : 1 ≤ m)
    (hq : 1 ≤ q.asU64) : 0 < leverageOf q m p := by
  have hpos := hp.pos
  have hm' : (0 : ℚ) < m := by exact_mod_cast hm
  have hq' : (0 : ℚ) < q.asU64 := by exact_mod_cast hq
  unfold leverageOf worth sats
  positivity

theorem openTrade_spec {side : TradeSide} {size : TradeSize} {lev : Leverage} {entry : Price}
    {stoploss takeprofit : Option Price} {fee : PercentageCapped} {r : OpenTradeParams}
    (h : openTrade side size lev entry stoploss takeprofit fee = .ok r) :
    Bounded entry ∧ 1 ≤ r.quantity.asU64 ∧ 1 ≤ r.margin.asU64 ∧
      r.liquidation = liquidationAt side entry (leverageOf r.quantity r.margin.asU64 entry) ∧
      (∀ x ∈ stoploss, between side r.liquidation x entry = true) ∧
      ∀ x ∈ takeprofit, beyond side entry x = true := by
  unfold openTrade at h
  simp only at h
  by_cases hentry : entry.asF64.val < lowest ∨ highest < entry.asF64.val ∨
      nearest entry.asF64.val ≠ entry.asF64.val
  · simp [hentry] at h
  by_cases hq : (sizeOf size lev entry).1 < 1
  · simp [hentry, hq] at h
  rw [if_neg hentry, if_neg hq, bind_eq_ok] at h
  obtain ⟨m, hm, h⟩ := h
  split_ifs at h with hstop htake
  cases h
  simp only [not_or, not_lt, not_not] at hentry
  have hgrid : OnGrid entry.asF64.val := hentry.2.2 ▸ onGrid_nearest _
  refine ⟨⟨hentry.1, hentry.2.1, hgrid⟩, by simp only; omega, (Margin.ofInt_eq_ok hm).2, rfl,
    ?_, ?_⟩
  · intro x hx
    obtain rfl : stoploss = some x := hx
    simpa using hstop
  · intro x hx
    obtain rfl : takeprofit = some x := hx
    simpa using htake

theorem addMargin_spec {side : TradeSide} {q : Quantity} {p : Price} {m : Margin} {amount : ℕ}
    {r : AddedMargin} (h : addMargin side q p m amount = .ok r) :
    r.margin.asU64 = m.asU64 + amount ∧ 1 ≤ r.margin.asU64 ∧
      1 ≤ leverageOf q r.margin.asU64 p ∧
      r.liquidation = liquidationAt side p (leverageOf q r.margin.asU64 p) := by
  simp only [addMargin, bind_eq_ok] at h
  obtain ⟨m', hm, h⟩ := h
  split_ifs at h with hlev
  cases h
  rw [not_or, not_lt] at hlev
  have hm' := Margin.ofInt_eq_ok hm
  exact ⟨by simp only; omega, hm'.2, hlev.1, rfl⟩

theorem cashIn_spec {side : TradeSide} {q : Quantity} {m : Margin} {p : Price}
    {stoploss : Option Price} {market : Price} {amount : ℕ} {r : CashIn} (hp : Bounded p)
    (h : cashIn side q m p stoploss market amount = .ok r) :
    Bounded r.price ∧ 1 ≤ r.margin.asU64 ∧
      r.liquidation = liquidationAt side r.price (leverageOf q r.margin.asU64 r.price) := by
  simp only [cashIn, bind_eq_ok] at h
  obtain ⟨m', hm, h⟩ := h
  split_ifs at h with hlev hgain hgain
  · cases h
    exact ⟨hp, (Margin.ofInt_eq_ok hm).2, rfl⟩
  · cases h
    exact ⟨bounded_price (onGrid_nearest _), (Margin.ofInt_eq_ok hm).2, rfl⟩

theorem tryLeverage_spec {q : Quantity} {m : Margin} {p : Price} {l : Leverage}
    (h : tryLeverage q m p = .ok l) : l.asF64.val = leverageOf q m.asU64 p := by
  unfold tryLeverage at h
  simp only at h
  split_ifs at h with h1 h2
  cases h
  have hwide := F64.wide_lt_maxVal
  have hhigh : (100 : ℚ) ≤ F64.maxVal := by linarith
  have hlow : -F64.maxVal ≤ (1 : ℚ) := by linarith
  exact F64.clamp_val (hlow.trans (not_lt.mp h1)) ((not_lt.mp h2).trans hhigh)

theorem liquidatesAt {side : TradeSide} {q : Quantity} {p liquidation : Price} {m : Margin}
    (h : Liquidates referenceSdk side q p m liquidation) :
    LiquidatesAt side q p m liquidation := by
  induction h with
  | opened h =>
      obtain ⟨hp, hq, hm, hliq, -, -⟩ := openTrade_spec h
      exact ⟨hp, hm, hq, _, leverageOf_pos hp hm hq, hliq, Or.inl rfl⟩
  | added _ h ih =>
      obtain ⟨-, hm, -, hliq⟩ := addMargin_spec h
      exact ⟨ih.bounded, hm, ih.quantity_pos, _,
        leverageOf_pos ih.bounded hm ih.quantity_pos, hliq, Or.inl rfl⟩
  | cashedIn _ h ih =>
      obtain ⟨hp, hm, hliq⟩ := cashIn_spec ih.bounded h
      exact ⟨hp, hm, ih.quantity_pos, _, leverageOf_pos hp hm ih.quantity_pos, hliq, Or.inl rfl⟩
  | settled _ hsub hl ih =>
      have hm := (Margin.ofInt_eq_ok hsub).2
      rcases hl with hl | ⟨hl, rfl⟩
      · have hval := tryLeverage_spec hl
        refine ⟨ih.bounded, hm, ih.quantity_pos, _, ?_, rfl, Or.inl hval⟩
        rw [hval]
        exact leverageOf_pos ih.bounded hm ih.quantity_pos
      · refine ⟨ih.bounded, hm, ih.quantity_pos, _, by decide +kernel, rfl, Or.inr ?_⟩
        unfold referenceSdk tryLeverage at hl
        simp only at hl
        split_ifs at hl with h1 h2
        · exact h1
        · cases hl

/-! ### The laws -/

theorem marginLaws : MarginLaws referenceSdk where
  added h := (addMargin_spec h).1
  taken h := (Margin.ofInt_eq_ok h).1

theorem addedMarginLaw : AddedMarginLaw referenceSdk where
  away := by
    intro side q p m liquidation amount r hliq h
    obtain ⟨hp, hm, hq, l, hl, rfl, hcase⟩ := liquidatesAt hliq
    obtain ⟨hadd, -, hlev, hr⟩ := addMargin_spec h
    have hle : leverageOf q r.margin.asU64 p ≤ leverageOf q m.asU64 p := by
      apply div_le_div_of_nonneg_left (worth_nonneg hp q)
      · exact_mod_cast hm
      · have hamount : (0 : ℚ) ≤ amount := Nat.cast_nonneg amount
        rw [hadd]
        push_cast
        linarith
    rw [hr]
    rcases hcase with rfl | hlow
    · exact liquidationAt_mono side hp (by linarith) hle
    · linarith

theorem priceLaws : PriceLaws referenceSdk where
  liquidation h := by
    obtain ⟨hp, hm, hq, l, hl, rfl, -⟩ := liquidatesAt h
    exact liquidationAt_losing _ hp hl
  openedStoploss := by
    intro side size leverage entry stoploss takeprofit fee r h
    have hbetween := (openTrade_spec h).2.2.2.2.1 stoploss rfl
    cases side <;> simp only [between, Bool.and_eq_true, decide_eq_true_eq] at hbetween
    · exact hbetween.1.le
    · exact hbetween.2.le
  openedTakeprofit := by
    intro side size leverage entry stoploss takeprofit fee r h
    have hbeyond := (openTrade_spec h).2.2.2.2.2 takeprofit rfl
    cases side <;> simp only [beyond, decide_eq_true_eq] at hbeyond
    · exact hbeyond.le
    · exact hbeyond.le
  newStoploss := by
    intro side liquidation takeprofit market stoploss h
    simp only [referenceSdk, newStoploss] at h
    split_ifs at h with hstop
    cases side <;> simp only [between, Bool.not_eq_true', Bool.and_eq_false_iff, not_or,
      Bool.not_eq_false, decide_eq_true_eq] at hstop
    · exact hstop.1.le
    · exact hstop.2.le

end ReferenceSdk

end Quantoxide
