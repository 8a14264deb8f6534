import Quantoxide.Verification.Sdk.CrossLaws
import Quantoxide.Verification.Sdk.Reference

/-! # A reference SDK for collateral

The reference SDK with the functions the estimates call, and its cross exposures. -/

namespace Quantoxide

namespace ReferenceSdk

open Result

def hardMax : ℕ := 500000000

def quantityOf (n : ℕ) : Except Refusal Quantity :=
  if 1 ≤ n ∧ n ≤ hardMax then .ok ⟨n⟩ else .error .quantity

def estMargin (side : TradeSide) (q : Quantity) (market liquidation : Price) :
    Except Refusal Margin :=
  Margin.ofInt ⌊-profit side q market liquidation⌋

end ReferenceSdk

open ReferenceSdk in
def collateralSdk : CollateralSdk Refusal where
  toLnmSdk := referenceSdk
  quantityTryFrom := quantityOf
  marginMax := ReferenceSdk.margin (2 ^ 63 - 1)
  marginTryAdd m n := Margin.ofInt (m.asU64 + n)
  marginEstFromLiquidationPrice := estMargin
  crossExposureRunning margin lev side q p := crossExposure margin lev (some (side, q, p))

namespace ReferenceSdk

open Result

theorem quantityOf_eq_ok {n : ℕ} {q : Quantity} :
    quantityOf n = .ok q ↔ (1 ≤ n ∧ n ≤ hardMax) ∧ q = ⟨n⟩ := by
  unfold quantityOf
  split_ifs with h
  · simp [h, eq_comm]
  · simp [h]

theorem quantityLaws : QuantityLaws collateralSdk where
  tryFrom h := by
    rw [(quantityOf_eq_ok.mp h).2]
  tryAdd h := by
    cases h
    rfl
  trySub := by
    intro q r t h
    simp only [collateralSdk, referenceSdk] at h
    split_ifs at h with hlt
    cases h
    simp only
    omega
  add_isOk := by
    intro q r t _ hsum
    simp only [collateralSdk, referenceSdk, hsum]
  sub_isOk := by
    intro q r t ht hsum
    have hpos := (quantityOf_eq_ok.mp ht).1.1
    have hlt : r.asU64 < q.asU64 := by omega
    have hsub : q.asU64 - r.asU64 = t.asU64 := by omega
    simp only [collateralSdk, referenceSdk, hlt, if_true, hsub]

theorem crossExposure_eq_ok {margin : ℕ} {lev : CrossLeverage} {side : TradeSide}
    {q : Quantity} {p : Price} {x : CrossExposure}
    (h : crossExposure margin lev (some (side, q, p)) = .ok x) :
    ∃ running maintenance, Margin.ofInt (runningMargin lev q p) = .ok running ∧
      Margin.ofInt (maintenanceMargin q p) = .ok maintenance ∧
      running.asU64 + maintenance.asU64 + 1 ≤ margin ∧
      x = .running ⟨side, q, p, crossLiquidation side q p (margin - maintenance.asU64), running,
        maintenance⟩ := by
  simp only [crossExposure, bind_eq_ok] at h
  obtain ⟨running, hr, maintenance, hm, h⟩ := h
  split_ifs at h with hlt
  cases h
  exact ⟨running, maintenance, hr, hm, not_lt.mp hlt, rfl⟩

theorem exposureParams : ExposureParams collateralSdk.toLnmSdk where
  asked := by
    rintro margin leverage ⟨side, q, p⟩ x h
    obtain ⟨_, _, -, -, -, rfl⟩ := crossExposure_eq_ok h
    rfl

theorem crossMargins : CrossMargins collateralSdk.toLnmSdk where
  toExposureParams := exposureParams
  neutral := rfl
  covered := by
    rintro margin leverage ⟨side, q, p⟩ e h
    obtain ⟨running, maintenance, -, -, hcover, he⟩ := crossExposure_eq_ok h
    obtain rfl := CrossExposure.running.inj he
    exact hcover
  accepts := by
    rintro margin leverage ⟨side, q, p⟩ e h margin' hcover
    obtain ⟨running, maintenance, hr, hm, -, he⟩ := crossExposure_eq_ok h
    obtain rfl := CrossExposure.running.inj he
    refine ⟨⟨side, q, p, crossLiquidation side q p (margin' - maintenance.asU64), running,
      maintenance⟩, ?_, rfl, rfl⟩
    simp only [collateralSdk, referenceSdk, crossExposure, bind_eq_ok]
    exact ⟨running, hr, maintenance, hm, if_neg (not_lt.mpr hcover)⟩

/-! ### Its prices -/

def halfTick : ℚ := 1 / 2

theorem bounded_of_isPrice {p : Price} (h : IsPrice collateralSdk.toLnmSdk p) : Bounded p := by
  have heq : price (bound (nearest p.asF64.val)) = p := h
  rw [← heq]
  exact bounded_price (onGrid_nearest _)

theorem priceRange : PriceRange collateralSdk.toLnmSdk halfTick where
  tick_nonneg := by decide +kernel
  tick_lt_min := by decide +kernel
  min_add_tick_le := by decide +kernel
  min_le_max := price_mono lowest_le_highest
  mono h := by
    exact price_mono (bound_mono (nearest_mono (F64.le_iff.mp h)))
  of_le_min := by
    intro x h
    have hval : x.val ≤ 1 := by
      have hlow : (price lowest).asF64.val = 1 := price_val le_rfl lowest_le_highest
      rw [← hlow]
      exact h
    have hnear := nearest_mono (show x.val ≤ lowest from hval)
    rw [nearest_of_onGrid onGrid_lowest] at hnear
    show price (bound _) = price lowest
    rw [bound, max_eq_left (min_le_of_right_le hnear)]
  of_max_le := by
    intro x h
    have hval : highest ≤ x.val := by
      have hhigh : (price highest).asF64.val = highest := price_val lowest_le_highest le_rfl
      rw [← hhigh]
      exact h
    have hnear := nearest_mono hval
    rw [nearest_of_onGrid onGrid_highest] at hnear
    show price (bound _) = price highest
    rw [bound, min_eq_left hnear, max_eq_right lowest_le_highest]
  near := by
    intro x hlow hhigh
    have hx : lowest ≤ x.val := by
      rw [← price_val le_rfl lowest_le_highest]
      exact hlow
    have hx' : x.val ≤ highest := by
      rw [← price_val lowest_le_highest le_rfl]
      exact hhigh
    have hdown := sub_le_nearest x.val
    have hup := nearest_le x.val
    show |(price (bound (nearest x.val))).asF64.val - x.val| ≤ 1 / 2
    rw [bounded_val, abs_le]
    constructor
    · have hmin : x.val - 1 / 4 ≤ min highest (nearest x.val) := le_min (by linarith) hdown
      have hmax := hmin.trans (le_max_right lowest _)
      unfold bound
      linarith
    · have hmax : bound (nearest x.val) ≤ x.val + 1 / 4 :=
        max_le (by linarith) (min_le_of_right_le hup)
      linarith

/-! ### Its P/L -/

theorem exactPl_eq_worth (side : TradeSide) (q : Quantity) (x y : ℚ) :
    exactPl side q x y = match side with
      | .buy => worth q x - worth q y
      | .sell => worth q y - worth q x := by
  have hsats : satsPerBtc = sats := rfl
  unfold exactPl worth
  rw [hsats]
  generalize sats = s
  cases side <;> simp only <;> ring

theorem profit_eq (side : TradeSide) (q : Quantity) (entry exit : Price) :
    profit side q entry exit = exactPl side q entry.asF64.val exit.asF64.val := by
  rw [exactPl_eq_worth]
  rfl

theorem worth_le {q : Quantity} {p : Price} (hp : Bounded p) (hq : q.asU64 < 2 ^ 64) :
    worth q p.asF64.val ≤ F64.maxVal := by
  have hq' : (q.asU64 : ℚ) ≤ 2 ^ 64 := by exact_mod_cast hq.le
  have hle : (q.asU64 : ℚ) * sats ≤ 2 ^ 64 * sats :=
    mul_le_mul_of_nonneg_right hq' sats_pos.le
  have hone : worth q p.asF64.val ≤ q.asU64 * sats :=
    div_le_self (mul_nonneg (Nat.cast_nonneg _) sats_pos.le) hp.lowest_le
  have hwide := F64.wide_lt_maxVal
  have hmax : 2 ^ 64 * sats ≤ 10 ^ 30 := by norm_num [sats]
  linarith

theorem plExact : ExactPl collateralSdk.toLnmSdk where
  exact := by
    intro side q entry exit hq hentry hexit
    have hentry := bounded_of_isPrice hentry
    have hexit := bounded_of_isPrice hexit
    have h1 := worth_le hentry hq
    have h2 := worth_le hexit hq
    have h3 := worth_nonneg hentry q
    have h4 := worth_nonneg hexit q
    rw [← profit_eq]
    show (F64.clamp (profit side q entry exit)).val = _
    apply F64.clamp_val
    · cases side <;> simp only [profit] <;> linarith
    · cases side <;> simp only [profit] <;> linarith

theorem plWithin : PlWithin collateralSdk.toLnmSdk 0 where
  within side _ _ _ hq hentry hexit := by
    rw [plExact.exact side hq hentry hexit, sub_self, abs_zero, zero_mul]

theorem bound_of_range {x : ℚ} (h : lowest ≤ x) (h' : x ≤ highest) : bound x = x := by
  rw [bound, min_eq_right h', max_eq_right h]

theorem isPrice_bound {x : ℚ} (h : OnGrid x) :
    IsPrice collateralSdk.toLnmSdk (price (bound x)) := by
  show price (bound (nearest (price (bound x)).asF64.val)) = price (bound x)
  rw [bounded_val, nearest_of_onGrid (onGrid_bound h),
    bound_of_range (lowest_le_bound x) (bound_le_highest x)]

theorem priceResults : PriceResults collateralSdk.toLnmSdk where
  bounded x := isPrice_bound (onGrid_nearest _)
  round := by
    intro x p h
    have h : checked (nearest x.val) = .ok p := h
    unfold checked at h
    split_ifs at h with hrange
    cases h
    show price (bound _) = _
    rw [bound_of_range hrange.1 hrange.2]
  aggregate _ _ _ _ _ _ := isPrice_bound (onGrid_nearest _)

/-! ### Its liquidations -/

theorem price_mul_worth {p : Price} (hp : Bounded p) (q : Quantity) :
    p.asF64.val * worth q p.asF64.val = q.asU64 * sats := by
  have hpos := hp.pos
  unfold worth
  field_simp

theorem longLiquidation_eq {q : Quantity} {p : Price} {free : ℚ} (hp : Bounded p)
    (hfree : 0 < free) : liquidationAt .buy p (worth q p.asF64.val / free) =
      price (bound (nearest (q.asU64 * sats / (worth q p.asF64.val + free)))) := by
  have hw := worth_nonneg hp q
  have hexact : p.asF64.val * (worth q p.asF64.val / free) / (worth q p.asF64.val / free + 1) =
      q.asU64 * sats / (worth q p.asF64.val + free) := by
    rw [← price_mul_worth hp]
    field_simp
  simp only [liquidationAt, hexact]

theorem shortLiquidation_eq {q : Quantity} {p : Price} {free : ℚ} (hp : Bounded p)
    (hfree : 0 < free) (hlow : free < worth q p.asF64.val) :
    liquidationAt .sell p (worth q p.asF64.val / free) =
      price (bound (nearest (q.asU64 * sats / (worth q p.asF64.val - free)))) := by
  have hdiff : worth q p.asF64.val - free ≠ 0 := by linarith
  have hexact : p.asF64.val * (worth q p.asF64.val / free) / (worth q p.asF64.val / free - 1) =
      q.asU64 * sats / (worth q p.asF64.val - free) := by
    rw [← price_mul_worth hp]
    field_simp
  have hlev : ¬ worth q p.asF64.val / free ≤ 1 := by
    rw [div_le_one hfree]
    exact not_le.mpr hlow
  simp only [liquidationAt, hlev, if_false, hexact]

/-- Covering both margins leaves a position some free margin. -/
theorem free_margin {running maintenance margin : ℕ} (h : running + maintenance + 1 ≤ margin) :
    ((margin - maintenance : ℕ) : ℚ) = (margin : ℚ) - maintenance ∧
      (0 : ℚ) < (margin - maintenance : ℕ) := by
  have hlt : 0 < margin - maintenance := by omega
  exact ⟨Nat.cast_sub (by omega), by exact_mod_cast hlt⟩

/-- What is left at a price of a position whose net value is exhausted at another. -/
theorem worth_le_iff {q : Quantity} {w x y : ℚ} (hw : 0 < w) (hy : 0 < y)
    (hx : q.asU64 * sats / w = x) : worth q y ≤ w ↔ x ≤ y := by
  rw [worth, div_le_iff₀ hy, ← hx, div_le_iff₀ hw, mul_comm y w]

theorem le_worth_iff {q : Quantity} {w x y : ℚ} (hw : 0 < w) (hy : 0 < y)
    (hx : q.asU64 * sats / w = x) : w ≤ worth q y ↔ y ≤ x := by
  rw [worth, le_div_iff₀ hy, ← hx, le_div_iff₀ hw, mul_comm y w]

/-- A liquidation of the reference SDK: the last price or within half a dollar of where nothing
is left, and never more than that too early. -/
structure LiquidatesWithin (side : TradeSide) (q : Quantity) (p : Price) (free : ℚ) : Prop where
  within : liquidationAt side p (worth q p.asF64.val / free) =
      (match side with | .buy => price lowest | .sell => price highest) ∨
    free + exactPl side q p.asF64.val (losing side halfTick
      (liquidationAt side p (worth q p.asF64.val / free)).asF64.val) ≤ 0
  lasts : 0 ≤ free + exactPl side q p.asF64.val (losing side (-halfTick)
    (liquidationAt side p (worth q p.asF64.val / free)).asF64.val)

theorem longLiquidation {q : Quantity} {p : Price} {free : ℚ} (hp : Bounded p)
    (hfree : 0 < free) : LiquidatesWithin .buy q p free := by
  have hw := worth_nonneg hp q
  have hsum : 0 < worth q p.asF64.val + free := by linarith
  have hbelow : nearest (q.asU64 * sats / (worth q p.asF64.val + free)) ≤ highest := by
    have hle : q.asU64 * sats / (worth q p.asF64.val + free) ≤ p.asF64.val :=
      (worth_le_iff hsum hp.pos rfl).mp (by linarith)
    have hnear := nearest_mono hle
    rw [nearest_of_onGrid hp.onGrid] at hnear
    exact hnear.trans hp.le_highest
  have hhalf : halfTick = 1 / 2 := rfl
  have hlow := lowest_le_bound (nearest (q.asU64 * sats / (worth q p.asF64.val + free)))
  have hone : lowest = 1 := rfl
  constructor
  all_goals rw [longLiquidation_eq hp hfree]
  all_goals
    generalize hx : q.asU64 * sats / (worth q p.asF64.val + free) = x at hbelow hlow ⊢
  · rcases le_or_gt (nearest x) lowest with hlast | hin
    · left
      rw [bound, max_eq_left (min_le_of_right_le hlast)]
    · right
      have hnear := nearest_le x
      have hnet : worth q p.asF64.val + free ≤ worth q (nearest x - halfTick) :=
        (le_worth_iff hsum (by linarith) hx).mpr (by linarith)
      rw [bounded_val, bound_of_range hin.le hbelow, exactPl_eq_worth]
      simp only [losing]
      linarith
  · have hnear := sub_le_nearest x
    have hmax : nearest x ≤ bound (nearest x) := by
      rw [bound, min_eq_right hbelow]
      exact le_max_right _ _
    have hnet : worth q (bound (nearest x) - -halfTick) ≤ worth q p.asF64.val + free :=
      (worth_le_iff hsum (by linarith) hx).mpr (by linarith)
    rw [bounded_val, exactPl_eq_worth]
    simp only [losing]
    linarith

theorem shortLiquidation {q : Quantity} {p : Price} {free : ℚ} (hp : Bounded p)
    (hfree : 0 < free) : LiquidatesWithin .sell q p free := by
  have hhalf : halfTick = 1 / 2 := rfl
  have hone : lowest = 1 := rfl
  by_cases hoff : worth q p.asF64.val ≤ free
  · -- The margin outlasts every price.
    have hlast : liquidationAt .sell p (worth q p.asF64.val / free) = price highest := by
      simp only [liquidationAt, (div_le_one hfree).mpr hoff, if_true]
    refine ⟨Or.inl hlast, ?_⟩
    have hpos : 0 < highest + -halfTick := by norm_num [highest, halfTick]
    have hrest : 0 ≤ worth q (highest + -halfTick) :=
      div_nonneg (mul_nonneg (Nat.cast_nonneg _) sats_pos.le) hpos.le
    rw [hlast, price_val lowest_le_highest le_rfl, exactPl_eq_worth]
    simp only [losing]
    linarith
  have hdiff : 0 < worth q p.asF64.val - free := by linarith
  have habove : lowest ≤ nearest (q.asU64 * sats / (worth q p.asF64.val - free)) := by
    have hle : p.asF64.val ≤ q.asU64 * sats / (worth q p.asF64.val - free) :=
      (le_worth_iff hdiff hp.pos rfl).mp (by linarith)
    have hnear := nearest_mono hle
    rw [nearest_of_onGrid hp.onGrid] at hnear
    exact hp.lowest_le.trans hnear
  have hlow := lowest_le_bound (nearest (q.asU64 * sats / (worth q p.asF64.val - free)))
  constructor
  all_goals rw [shortLiquidation_eq hp hfree (not_le.mp hoff)]
  all_goals
    generalize hx : q.asU64 * sats / (worth q p.asF64.val - free) = x at habove hlow ⊢
  · rcases le_or_gt highest (nearest x) with hlast | hin
    · left
      rw [bound, min_eq_left hlast, max_eq_right lowest_le_highest]
    · right
      have hnear := sub_le_nearest x
      have hnet : worth q (nearest x + halfTick) ≤ worth q p.asF64.val - free :=
        (worth_le_iff hdiff (by linarith) hx).mpr (by linarith)
      rw [bounded_val, bound_of_range habove hin.le, exactPl_eq_worth]
      simp only [losing]
      linarith
  · have hnear := nearest_le x
    have hmin : bound (nearest x) ≤ nearest x := max_le habove (min_le_right _ _)
    have hnet : worth q p.asF64.val - free ≤ worth q (bound (nearest x) + -halfTick) :=
      (le_worth_iff hdiff (by linarith) hx).mpr (by linarith)
    rw [bounded_val, exactPl_eq_worth]
    simp only [losing]
    linarith

theorem liquidatesWithin (side : TradeSide) {q : Quantity} {p : Price} {free : ℚ}
    (hp : Bounded p) (hfree : 0 < free) : LiquidatesWithin side q p free := by
  cases side with
  | buy => exact longLiquidation hp hfree
  | sell => exact shortLiquidation hp hfree

theorem liquidationAt_isPrice (side : TradeSide) (p : Price) (lev : ℚ) :
    IsPrice collateralSdk.toLnmSdk (liquidationAt side p lev) := by
  have hhighest : price highest = price (bound highest) := by
    rw [bound_of_range lowest_le_highest le_rfl]
  unfold liquidationAt
  cases side with
  | buy => exact isPrice_bound (onGrid_nearest _)
  | sell =>
      simp only
      split_ifs
      · rw [hhighest]
        exact isPrice_bound onGrid_highest
      · exact isPrice_bound (onGrid_nearest _)

theorem liquidationWithin : LiquidationWithin collateralSdk.toLnmSdk halfTick where
  within := by
    rintro margin leverage ⟨side, q, p⟩ e h hentry
    obtain ⟨running, maintenance, -, -, hcover, he⟩ := crossExposure_eq_ok h
    obtain rfl := CrossExposure.running.inj he
    obtain ⟨hcast, hpos⟩ := free_margin hcover
    have hwithin := (liquidatesWithin side (bounded_of_isPrice hentry) hpos).within (q := q)
    rw [netValue, ← hcast]
    exact hwithin

theorem solvency : Solvency collateralSdk.toLnmSdk halfTick where
  toLiquidationWithin := liquidationWithin
  isPrice := by
    rintro margin leverage ⟨side, q, p⟩ e h -
    obtain ⟨running, maintenance, -, -, -, he⟩ := crossExposure_eq_ok h
    obtain rfl := CrossExposure.running.inj he
    exact liquidationAt_isPrice _ _ _
  lasts := by
    rintro margin leverage ⟨side, q, p⟩ e h hentry
    obtain ⟨running, maintenance, -, -, hcover, he⟩ := crossExposure_eq_ok h
    obtain rfl := CrossExposure.running.inj he
    obtain ⟨hcast, hpos⟩ := free_margin hcover
    have hlasts := (liquidatesWithin side (bounded_of_isPrice hentry) hpos).lasts (q := q)
    rw [netValue, ← hcast]
    exact hlasts

/-- Accepted quantities gain less than an `i64` between two prices. -/
theorem profit_inRange {side : TradeSide} {q : Quantity} {entry exit : Price}
    (hq : q.asU64 ≤ hardMax) (hentry : Bounded entry) (hexit : Bounded exit) :
    I64.InRange ⌊profit side q entry exit⌋ := by
  have hle : ∀ {p : Price}, Bounded p → worth q p.asF64.val ≤ 50000000000000000 := by
    intro p hp
    have hq' : (q.asU64 : ℚ) ≤ 500000000 := by exact_mod_cast hq
    have hone : worth q p.asF64.val ≤ q.asU64 * sats :=
      div_le_self (mul_nonneg (Nat.cast_nonneg _) sats_pos.le) hp.lowest_le
    unfold sats at hone
    linarith
  have h1 := hle hentry
  have h2 := hle hexit
  have h3 := worth_nonneg hentry q
  have h4 := worth_nonneg hexit q
  have hlow : (-50000000000000000 : ℤ) ≤ ⌊profit side q entry exit⌋ := by
    rw [Int.le_floor]
    push_cast
    cases side <;> simp only [profit] <;> linarith
  have hhigh : ⌊profit side q entry exit⌋ ≤ (50000000000000000 : ℤ) := by
    apply Int.floor_le_iff.mpr
    push_cast
    cases side <;> simp only [profit] <;> linarith
  unfold I64.InRange
  omega

theorem collateralLaws : CollateralLaws collateralSdk halfTick 0 where
  quantity := quantityLaws
  margins := crossMargins
  prices := priceResults
  range := priceRange
  pl := plWithin
  liquidation := liquidationWithin
  bounded := by
    intro side q entry exit hq hentry hexit
    obtain ⟨hpos, hq'⟩ : 1 ≤ q.asU64 ∧ q.asU64 ≤ hardMax := (quantityOf_eq_ok.mp hq).1
    have hlt : q.asU64 < 2 ^ 64 := lt_of_le_of_lt hq' (by decide)
    rw [plExact.exact side hlt hentry hexit, ← profit_eq]
    exact ⟨hpos, hlt, profit_inRange hq' (bounded_of_isPrice hentry) (bounded_of_isPrice hexit)⟩
  running := rfl
  marginTryAdd h := by
    have hval := (Margin.ofInt_eq_ok h).1
    omega
  estMargin := by
    intro side q market liquidation r _ _ h
    have hval := (Margin.ofInt_eq_ok h).1
    have hlt := Int.lt_floor_add_one (-profit side q market liquidation)
    rw [profit_eq] at hval hlt
    have hcast : (r.asU64 : ℚ) = ⌊-exactPl side q market.asF64.val liquidation.asF64.val⌋ := by
      exact_mod_cast hval
    rw [hcast]
    linarith

end ReferenceSdk

end Quantoxide
