import Quantoxide.Library.Rounding
import Quantoxide.Verification.Executor.Trigger
import Quantoxide.Verification.Sdk.Floats

/-! # Trailing stoplosses only tighten

The trigger divides the next stoploss by what the trailing distance leaves of a price, and
the stoploss a price is trailed by multiplies it back. With the outer value rounded towards
the market and the inner one to a tick, a moved stoploss reaches the next one. -/

namespace Quantoxide

open Result Rounding

variable {ε : Type} {sdk : LnmSdk ε} {slack : ℚ}

/-! ### What is relied on of ticks -/

namespace Executor

/-- The values of the prices that rounding leaves alone. -/
def ticks (sdk : LnmSdk ε) : Set ℚ := {x | ∃ v : F64, TickValid sdk v ∧ v.val = x}

theorem mem_ticks {x : F64} : x.val ∈ ticks sdk ↔ TickValid sdk x := by
  constructor
  · rintro ⟨v, hv, heq⟩
    rwa [← F64.ext_val heq]
  · intro h
    exact ⟨x, h, rfl⟩

/-- The range of `PercentageCapped`. -/
def IsCapped (d : PercentageCapped) : Prop := 0 ≤ d.asF64.val ∧ d.asF64.val < 100

instance (d : PercentageCapped) : Decidable (IsCapped d) := inferInstanceAs (Decidable (_ ∧ _))

/-- Prices are positive ticks: a value is rounded to one on the side the call names, and a
gain or discount to one with no other tick in between. -/
structure TickRounding (sdk : LnmSdk ε) (slack : ℚ) : Prop where
  slack_nonneg : 0 ≤ slack
  positive : ∀ {x}, TickValid sdk x → 0 < x.val
  finite : ∀ {x}, TickValid sdk x → x < ⊤
  round : ∀ {x p}, sdk.round x = .ok p → Rounds (ticks sdk) slack x.val p.asF64.val
  roundUp : ∀ {x p}, sdk.roundUp x = .ok p → TickValid sdk p.asF64 ∧ x ≤ p.asF64
  roundDown : ∀ {x p}, sdk.roundDown x = .ok p → TickValid sdk p.asF64 ∧ p.asF64 ≤ x
  gain : ∀ {p d q}, sdk.applyGain p d = .ok q →
    Rounds (ticks sdk) slack (p.asF64.val * (1 + d.asF64.val / 100)) q.asF64.val
  discount : ∀ {p d q}, sdk.applyDiscount p d = .ok q →
    Rounds (ticks sdk) slack (p.asF64.val * (1 - d.asF64.val / 100)) q.asF64.val

end Executor

/-! ### The two sides -/

namespace TradeSide

/-- Moves a price towards the winning side. -/
def advance (sdk : LnmSdk ε) : TradeSide → Price → PercentageCapped → Except ε Price
  | .buy => sdk.applyGain
  | .sell => sdk.applyDiscount

/-- Moves a price towards the losing side. -/
def retreat (sdk : LnmSdk ε) : TradeSide → Price → PercentageCapped → Except ε Price
  | .buy => sdk.applyDiscount
  | .sell => sdk.applyGain

/-- Rounds towards the winning side. -/
def roundOut (sdk : LnmSdk ε) : TradeSide → F64 → Except ε Price
  | .buy => sdk.roundUp
  | .sell => sdk.roundDown

/-- What a distance leaves of a price that it is taken from towards the losing side. -/
def left (side : TradeSide) (d : PercentageCapped) : ℚ :=
  match side with
  | .buy => 1 - d.asF64.val / 100
  | .sell => 1 + d.asF64.val / 100

/-- The end of a price range that a trailing stoploss follows. -/
def best (side : TradeSide) (low high : F64) : F64 :=
  match side with
  | .buy => high
  | .sell => low

theorem left_pos {side : TradeSide} {d : PercentageCapped} (h : Executor.IsCapped d) :
    0 < side.left d := by
  obtain ⟨hlow, hhigh⟩ := h
  cases side with
  | buy =>
      simp only [left]
      linarith
  | sell =>
      simp only [left]
      linarith

end TradeSide

namespace Executor.TickRounding

variable {side : TradeSide} {p q : Price} {d : PercentageCapped}

theorem retreat (h : TickRounding sdk slack) (hq : side.retreat sdk p d = .ok q) :
    Rounds (ticks sdk) slack (p.asF64.val * side.left d) q.asF64.val := by
  cases side with
  | buy => exact h.discount hq
  | sell => exact h.gain hq

theorem retreat_valid (h : TickRounding sdk slack) (hq : side.retreat sdk p d = .ok q) :
    TickValid sdk q.asF64 :=
  mem_ticks.mp (h.retreat hq).mem

theorem advance_valid (h : TickRounding sdk slack) (hq : side.advance sdk p d = .ok q) :
    TickValid sdk q.asF64 := by
  cases side with
  | buy => exact mem_ticks.mp (h.gain hq).mem
  | sell => exact mem_ticks.mp (h.discount hq).mem

theorem roundOut_valid (h : TickRounding sdk slack) {x : F64} (hq : side.roundOut sdk x = .ok q) :
    TickValid sdk q.asF64 := by
  cases side with
  | buy => exact (h.roundUp hq).1
  | sell => exact (h.roundDown hq).1

/-- A step never moves a price back. -/
theorem advance_notBeyond (h : TickRounding sdk slack) (hd : IsCapped d)
    (hp : TickValid sdk p.asF64) (hq : side.advance sdk p d = .ok q) : side.NotBeyond p q := by
  have hpos := h.positive hp
  have hstep : 0 ≤ d.asF64.val / 100 := div_nonneg hd.1 (by norm_num)
  have hmul : 0 ≤ p.asF64.val * (d.asF64.val / 100) := mul_nonneg hpos.le hstep
  cases side with
  | buy =>
      apply (h.gain hq).ge_of_le h.slack_nonneg (mem_ticks.mpr hp)
      linarith
  | sell =>
      apply (h.discount hq).le_of_ge h.slack_nonneg (mem_ticks.mpr hp)
      linarith

/-- A value that has passed a tick is rounded to no less. -/
theorem round_notBeyond (h : TickRounding sdk slack) {x : F64} (hp : TickValid sdk p.asF64)
    (hx : side.NotBeyond p ⟨x⟩) (hq : sdk.round x = .ok q) : side.NotBeyond p q := by
  cases side with
  | buy => exact (h.round hq).ge_of_le h.slack_nonneg (mem_ticks.mpr hp) hx
  | sell => exact (h.round hq).le_of_ge h.slack_nonneg (mem_ticks.mpr hp) hx

end Executor.TickRounding

namespace Executor

open SimulatedTradeExecutor

variable {ex : SimulatedTradeExecutor ε}

/-! ### The trigger by its quotient -/

/-- How the next stoploss is divided by what the trailing distance leaves. -/
abbrev Quotient := TradeSide → Price → PercentageCapped → F64

/-- As the code divides: each operation is rounded to a double. -/
def sourceQuotient : Quotient
  | .buy, next, tsl => next.asF64 / (1 - tsl.asF64 / (100 : ℕ))
  | .sell, next, tsl => next.asF64 / (1 + tsl.asF64 / (100 : ℕ))

/-- Over exact rationals. -/
def exactQuotient : Quotient := fun side next tsl => F64.clamp (next.asF64.val / side.left tsl)

/-- `next_stoploss_update_trigger` over a division. -/
def nextTriggerIn (quotient : Quotient) (sdk : LnmSdk ε) (t : SimulatedTradeRunning)
    (tslStepSize : PercentageCapped) (tradeTsl : TradeTrailingStoploss) :
    Except (TradeCoreError ε) Price :=
  let tsl := tradeTsl.perc
  if tsl < tslStepSize then
    .error (.invalidStoplossSmallerThanTrailingStepSize tsl tslStepSize)
  else do
    let currStoploss ← okOr t.stoploss (.noNextTriggerTradeStoplossNotSet t.id)
    match t.side with
    | .buy =>
      let nextStoploss ← (sdk.applyGain currStoploss tslStepSize).mapError
        (.invalidPriceApplyGain currStoploss tslStepSize)
      let triggerPrice := quotient .buy nextStoploss tsl
      (sdk.roundUp triggerPrice).mapError (.invalidPriceRounding triggerPrice)
    | .sell =>
      let nextStoploss ← (sdk.applyDiscount currStoploss tslStepSize).mapError
        (.invalidPriceApplyDiscount currStoploss tslStepSize)
      let triggerPrice := quotient .sell nextStoploss tsl
      (sdk.roundDown triggerPrice).mapError (.invalidPriceRounding triggerPrice)

theorem nextTriggerIn_source (t : SimulatedTradeRunning) (step : PercentageCapped)
    (tsl : TradeTrailingStoploss) :
    nextTriggerIn sourceQuotient sdk t step tsl = t.nextStoplossUpdateTrigger sdk step tsl := rfl

theorem nextTriggerIn_eq_ok {quotient : Quotient} {t : SimulatedTradeRunning}
    {step : PercentageCapped} {tsl : TradeTrailingStoploss} {trigger : Price} :
    nextTriggerIn quotient sdk t step tsl = .ok trigger ↔
      ¬ tsl.perc < step ∧ ∃ p next, t.stoploss = some p ∧ t.side.advance sdk p step = .ok next ∧
        t.side.roundOut sdk (quotient t.side next tsl.perc) = .ok trigger := by
  unfold nextTriggerIn
  simp only
  split_ifs with hstep
  · simp [hstep]
  cases t.stoploss with
  | none => simp [okOr, hstep, bind_eq_ok]
  | some p =>
      cases t.side with
      | buy => simp [okOr, hstep, bind_eq_ok, mapError_eq_ok, TradeSide.advance,
          TradeSide.roundOut]
      | sell => simp [okOr, hstep, bind_eq_ok, mapError_eq_ok, TradeSide.advance,
          TradeSide.roundOut]

/-- A price past the trigger trails to no less than the next stoploss. -/
def Tight (sdk : LnmSdk ε) (quotient : Quotient) (tsl : PercentageCapped) : Prop :=
  ∀ (side : TradeSide) (next trigger p new : Price), TickValid sdk next.asF64 →
    side.roundOut sdk (quotient side next tsl) = .ok trigger → side.NotBeyond trigger p →
      side.retreat sdk p tsl = .ok new → side.NotBeyond next new

/-- Over exact rationals any tick rounding is tight. -/
theorem exactQuotient_tight (h : TickRounding sdk slack) {tsl : PercentageCapped}
    (htsl : IsCapped tsl) : Tight sdk exactQuotient tsl := by
  intro side next trigger p new hnext htrigger hp hnew
  have hleft : 0 < side.left tsl := TradeSide.left_pos htsl
  have hzero : 0 * side.left tsl ≤ slack := by
    rw [zero_mul]
    exact h.slack_nonneg
  cases side with
  | buy =>
      obtain ⟨hvalid, hle⟩ := h.roundUp htrigger
      have hquot : next.asF64.val / TradeSide.buy.left tsl ≤ p.asF64.val :=
        (F64.le_clamp (lt_of_le_of_lt hle (h.finite hvalid))).trans (le_trans hle hp)
      apply (h.retreat hnew).ge_of_quotient_le (mem_ticks.mpr hnext) hleft hzero
      linarith
  | sell =>
      obtain ⟨hvalid, hle⟩ := h.roundDown htrigger
      have hquot : p.asF64.val ≤ next.asF64.val / TradeSide.sell.left tsl :=
        (le_trans hp hle : p.asF64.val ≤ _).trans
          (F64.clamp_le (lt_of_lt_of_le (h.positive hvalid) hle))
      apply (h.retreat hnew).le_of_le_quotient (mem_ticks.mpr hnext) hleft hzero
      linarith

/-! ### Candles and ranges -/

/-- The stoploss a candle moves a trailing one to, over a division. -/
def candleStoplossIn (quotient : Quotient) (ex : SimulatedTradeExecutor ε)
    (candle : OhlcCandleRow) (trade : SimulatedTradeRunning) (tsl : TradeTrailingStoploss) :
    ExecutorResult ε (Option Price) := do
  let nextTrigger ← (nextTriggerIn quotient ex.sdk trade ex.config.trailingStoplossStepSize
    tsl).mapError .stoplossEvaluation
  let marketPrice ← (ex.sdk.round candle.close).mapError .tickUpdatePriceValidation
  match ← ex.trailedStoploss candle trade.side tsl nextTrigger marketPrice with
  | some newStoploss => do
    let _ ← trade.withNewStoploss ex.sdk marketPrice newStoploss
    pure (some newStoploss)
  | none => pure none

/-- `eval_new_stoploss_on_range` over a division. -/
def rangeStoplossIn (quotient : Quotient) (sdk : LnmSdk ε) (tslStepSize : PercentageCapped)
    (t : SimulatedTradeRunning) (tsl : TradeTrailingStoploss) (rangeMin rangeMax : F64) :
    Except (TradeCoreError ε) (Option Price) := do
  let nextTrigger ← nextTriggerIn quotient sdk t tslStepSize tsl
  t.stoplossOnRange sdk tsl nextTrigger.asF64 rangeMin rangeMax

/-- What a trailing stoploss looks at: a candle of a replay or a price range of a session. -/
inductive Look
  | candle (candle : OhlcCandleRow)
  | range (min max : F64)

/-- The stoploss a look moves a trailing one to. -/
def newStoploss (quotient : Quotient) (ex : SimulatedTradeExecutor ε)
    (tsl : TradeTrailingStoploss) (t : SimulatedTradeRunning) : Look → Option Price
  | .candle candle => (candleStoplossIn quotient ex candle t tsl).toOption.join
  | .range min max =>
    (rangeStoplossIn quotient ex.sdk ex.config.trailingStoplossStepSize t tsl min
      max).toOption.join

def look (quotient : Quotient) (ex : SimulatedTradeExecutor ε) (tsl : TradeTrailingStoploss)
    (t : SimulatedTradeRunning) (l : Look) : SimulatedTradeRunning :=
  { t with stoploss := (newStoploss quotient ex tsl t l).or t.stoploss }

/-- The trade after a sequence of looks. -/
def lookAll (quotient : Quotient) (ex : SimulatedTradeExecutor ε) (tsl : TradeTrailingStoploss)
    (t : SimulatedTradeRunning) (looks : List Look) : SimulatedTradeRunning :=
  looks.foldl (look quotient ex tsl) t

theorem trailStoploss_source {candle : OhlcCandleRow} (t : SimulatedTradeRunning)
    (tsl : TradeTrailingStoploss) : ex.trailStoploss candle t (some tsl) =
      (candleStoplossIn sourceQuotient ex candle t tsl).map
        fun new => { t with stoploss := new.or t.stoploss } := by
  unfold trailStoploss candleStoplossIn
  simp only [nextTriggerIn_source]
  cases (t.nextStoplossUpdateTrigger ex.sdk ex.config.trailingStoplossStepSize tsl).mapError
    SimulatedTradeExecutorError.stoplossEvaluation with
  | error e => rfl
  | ok trigger =>
      cases (ex.sdk.round candle.close).mapError
        SimulatedTradeExecutorError.tickUpdatePriceValidation with
      | error e => rfl
      | ok market =>
          simp only [bind, Except.bind]
          cases ex.trailedStoploss candle t.side tsl trigger market with
          | error e => rfl
          | ok new =>
              cases new with
              | none => rfl
              | some new =>
                  simp only [SimulatedTradeRunning.withNewStoploss]
                  cases ex.sdk.evaluateNewStoploss t.side t.liquidation t.takeprofit market new with
                  | error e => rfl
                  | ok _ => rfl

theorem evalNewStoplossOnRange_source (t : SimulatedTradeRunning) (step : PercentageCapped)
    (tsl : TradeTrailingStoploss) (min max : F64) :
    t.evalNewStoplossOnRange sdk step tsl min max =
      rangeStoplossIn sourceQuotient sdk step t tsl min max := rfl

/-! ### A moved stoploss -/

/-- `x` lies strictly before `y` on the way from the losing side to the winning one. -/
def Before (side : TradeSide) (x y : Price) : Prop :=
  match side with
  | .buy => x < y
  | .sell => y < x

instance (side : TradeSide) (x y : Price) : Decidable (Before side x y) :=
  match side with
  | .buy => inferInstanceAs (Decidable (x < y))
  | .sell => inferInstanceAs (Decidable (y < x))

/-- A candle's best price moves a trailing stoploss alike on both sides. -/
theorem trailedStoploss_sided {candle : OhlcCandleRow} {side : TradeSide}
    {tsl : TradeTrailingStoploss} {trigger market : Price} :
    ex.trailedStoploss candle side tsl trigger market = (do
      let p ← (ex.sdk.round (side.best candle.low candle.high)).mapError
        .tickUpdatePriceValidation
      if side.NotBeyond trigger p then
        let new ← (side.retreat ex.sdk p tsl.perc).mapError .tickUpdatePriceValidation
        pure (if Before side new market then some new else none)
      else pure none) := by
  cases side <;> rfl

theorem trailedStoploss_some {candle : OhlcCandleRow} {side : TradeSide}
    {tsl : TradeTrailingStoploss} {trigger market new : Price}
    (h : ex.trailedStoploss candle side tsl trigger market = .ok (some new)) :
    ∃ p, ex.sdk.round (side.best candle.low candle.high) = .ok p ∧ side.NotBeyond trigger p ∧
      side.retreat ex.sdk p tsl.perc = .ok new := by
  simp only [trailedStoploss_sided, bind_eq_ok, mapError_eq_ok] at h
  obtain ⟨p, hp, h⟩ := h
  split_ifs at h with hmet
  · simp only [bind_eq_ok, mapError_eq_ok, pure_eq_ok] at h
    obtain ⟨q, hq, h⟩ := h
    split_ifs at h
    cases h
    exact ⟨p, hp, hmet, hq⟩
  · cases h

theorem stoplossOnRange_some {t : SimulatedTradeRunning} {tsl : TradeTrailingStoploss}
    {trigger min max : F64} {new : Price}
    (h : t.stoplossOnRange sdk tsl trigger min max = .ok (some new)) :
    ∃ p, sdk.round (t.side.best min max) = .ok p ∧
      t.side.NotBeyond ⟨trigger⟩ ⟨t.side.best min max⟩ ∧
      t.side.retreat sdk p tsl.perc = .ok new := by
  cases hside : t.side with
  | buy =>
      simp only [SimulatedTradeRunning.stoplossOnRange, hside] at h
      split_ifs at h with hmet
      · simp only [bind_eq_ok, mapError_eq_ok, pure_eq_ok, Option.filter_eq_some_iff] at h
        obtain ⟨p, hp, q, hq, _, rfl, hsome, -⟩ := h
        obtain rfl := Option.some.inj hsome
        exact ⟨p, hp, hmet, hq⟩
      · simp at h
  | sell =>
      simp only [SimulatedTradeRunning.stoplossOnRange, hside] at h
      split_ifs at h with hmet
      · simp only [bind_eq_ok, mapError_eq_ok, pure_eq_ok, Option.filter_eq_some_iff] at h
        obtain ⟨p, hp, q, hq, _, rfl, hsome, -⟩ := h
        obtain rfl := Option.some.inj hsome
        exact ⟨p, hp, hmet, hq⟩
      · simp at h

theorem toOption_join_eq_some {α E : Type} {x : Except E (Option α)} {a : α} :
    x.toOption.join = some a ↔ x = .ok (some a) := by
  cases x with
  | error e => simp [Except.toOption]
  | ok o => simp [Except.toOption]

/-- A look that moves a stoploss has met the trigger and retreats from a price past it. -/
theorem newStoploss_spec (hround : TickRounding ex.sdk slack) {quotient : Quotient}
    {tsl : TradeTrailingStoploss} {t : SimulatedTradeRunning} {l : Look} {new : Price}
    (h : newStoploss quotient ex tsl t l = some new) :
    ∃ trigger p, nextTriggerIn quotient ex.sdk t ex.config.trailingStoplossStepSize tsl =
        .ok trigger ∧
      t.side.NotBeyond trigger p ∧ t.side.retreat ex.sdk p tsl.perc = .ok new := by
  cases l with
  | candle candle =>
      simp only [newStoploss, toOption_join_eq_some, candleStoplossIn, bind_eq_ok,
        mapError_eq_ok] at h
      obtain ⟨trigger, htrigger, market, hmarket, o, ho, h⟩ := h
      cases o with
      | none => cases h
      | some p =>
          simp only [bind_eq_ok, pure_eq_ok, Option.some.injEq] at h
          obtain ⟨_, -, rfl⟩ := h
          obtain ⟨p, -, hmet, hretreat⟩ := trailedStoploss_some ho
          exact ⟨trigger, p, htrigger, hmet, hretreat⟩
  | range min max =>
      simp only [newStoploss, toOption_join_eq_some, rangeStoplossIn, bind_eq_ok] at h
      obtain ⟨trigger, htrigger, h⟩ := h
      obtain ⟨p, hp, hmet, hretreat⟩ := stoplossOnRange_some h
      obtain ⟨-, _, _, -, -, hout⟩ := nextTriggerIn_eq_ok.mp htrigger
      exact ⟨trigger, p, htrigger, hround.round_notBeyond (hround.roundOut_valid hout) hmet hp,
        hretreat⟩

/-- A moved stoploss is a tick and at least a step past the one it replaces. -/
theorem Tight.newStoploss (hround : TickRounding ex.sdk slack) {quotient : Quotient}
    {tsl : TradeTrailingStoploss} (htight : Tight ex.sdk quotient tsl.perc)
    {t : SimulatedTradeRunning} {p new : Price} {l : Look} (hp : t.stoploss = some p)
    (h : newStoploss quotient ex tsl t l = some new) :
    TickValid ex.sdk new.asF64 ∧ ∃ next,
      t.side.advance ex.sdk p ex.config.trailingStoplossStepSize = .ok next ∧
        t.side.NotBeyond next new := by
  obtain ⟨trigger, reached, htrigger, hmet, hnew⟩ := newStoploss_spec hround h
  obtain ⟨-, p', next, hp', hnext, hout⟩ := nextTriggerIn_eq_ok.mp htrigger
  obtain rfl : p = p' := Option.some.inj (hp.symm.trans hp')
  exact ⟨hround.retreat_valid hnew, next, hnext,
    htight _ _ _ _ _ (hround.advance_valid hnext) hout hmet hnew⟩

/-- The trade trails from a stoploss that is a tick. -/
def TrailsFrom (sdk : LnmSdk ε) (t : SimulatedTradeRunning) (p : Price) : Prop :=
  t.stoploss = some p ∧ TickValid sdk p.asF64

theorem look_side (quotient : Quotient) (tsl : TradeTrailingStoploss) (t : SimulatedTradeRunning)
    (l : Look) : (look quotient ex tsl t l).side = t.side := rfl

theorem lookAll_side (quotient : Quotient) (tsl : TradeTrailingStoploss)
    (t : SimulatedTradeRunning) (looks : List Look) :
    (lookAll quotient ex tsl t looks).side = t.side := by
  induction looks generalizing t with
  | nil => rfl
  | cons l looks ih => exact (ih _).trans (look_side quotient tsl t l)

/-- One look leaves a stoploss or tightens it. -/
theorem TrailsFrom.look (hround : TickRounding ex.sdk slack)
    (hstep : IsCapped ex.config.trailingStoplossStepSize) {quotient : Quotient}
    {tsl : TradeTrailingStoploss} (htight : Tight ex.sdk quotient tsl.perc)
    {t : SimulatedTradeRunning} {p : Price} (h : TrailsFrom ex.sdk t p) (l : Look) :
    ∃ q, TrailsFrom ex.sdk (look quotient ex tsl t l) q ∧ t.side.NotBeyond p q := by
  obtain ⟨hp, hvalid⟩ := h
  cases hnew : Executor.newStoploss quotient ex tsl t l with
  | none => exact ⟨p, ⟨by simp [Executor.look, hnew, hp], hvalid⟩, .refl _ _⟩
  | some new =>
      obtain ⟨hnewValid, next, hnext, hle⟩ := htight.newStoploss hround hp hnew
      exact ⟨new, ⟨by simp [Executor.look, hnew], hnewValid⟩,
        (hround.advance_notBeyond hstep hvalid hnext).trans hle⟩

theorem TrailsFrom.lookAll (hround : TickRounding ex.sdk slack)
    (hstep : IsCapped ex.config.trailingStoplossStepSize) {quotient : Quotient}
    {tsl : TradeTrailingStoploss} (htight : Tight ex.sdk quotient tsl.perc)
    {t : SimulatedTradeRunning} {p : Price} (h : TrailsFrom ex.sdk t p) (looks : List Look) :
    ∃ q, TrailsFrom ex.sdk (lookAll quotient ex tsl t looks) q ∧ t.side.NotBeyond p q := by
  induction looks generalizing t p with
  | nil => exact ⟨p, h, .refl _ _⟩
  | cons l looks ih =>
      obtain ⟨q, hq, hle⟩ := h.look hround hstep htight l
      obtain ⟨r, hr, hle'⟩ := ih hq
      exact ⟨r, hr, hle.trans hle'⟩

/-! ### The reference SDK's ticks -/

end Executor

namespace ReferenceSdk

open Executor

theorem checked_spec {x : ℚ} {p : Price} (h : checked x = .ok p) :
    lowest ≤ x ∧ x ≤ highest ∧ p.asF64.val = x := by
  unfold checked at h
  split_ifs at h with hx
  cases h
  exact ⟨hx.1, hx.2, price_val hx.1 hx.2⟩

/-- The valid values are the half dollars within the bounds. -/
theorem tickValid_iff {x : F64} : TickValid referenceSdk x ↔
    lowest ≤ x.val ∧ x.val ≤ highest ∧ ∃ n : ℤ, x.val = n / 2 := by
  constructor
  · intro h
    obtain ⟨hlow, hhigh, hval⟩ := checked_spec (h : checked _ = _)
    exact ⟨hval ▸ hlow, hval ▸ hhigh, ⌊2 * (x.val + 1 / 4)⌋, hval⟩
  · rintro ⟨hlow, hhigh, n, hn⟩
    have hround : nearest x.val = x.val := nearest_of_onGrid ⟨n, by linarith⟩
    have hprice : price x.val = ⟨x⟩ := by
      apply Price.ext_asF64
      exact F64.ext_val (price_val hlow hhigh)
    unfold TickValid referenceSdk
    simp only [hround, checked, hlow, hhigh, and_self, if_true, hprice]

/-- Rounding to the nearest half dollar takes what is within a quarter of it. -/
theorem rounds_checked {x : ℚ} {q : Price} (h : checked (nearest x) = .ok q) :
    Rounds (ticks referenceSdk) (1 / 8) x q.asF64.val := by
  obtain ⟨hlow, hhigh, hval⟩ := checked_spec h
  have htick : q.asF64.val = (⌊2 * (x + 1 / 4)⌋ : ℚ) / 2 := hval
  constructor
  · apply mem_ticks.mpr
    apply tickValid_iff.mpr
    rw [hval]
    exact ⟨hlow, hhigh, _, rfl⟩
  · rintro _ ⟨v, hv, rfl⟩ hx
    obtain ⟨-, -, n, hn⟩ := tickValid_iff.mp hv
    have hle : n ≤ ⌊2 * (x + 1 / 4)⌋ := by
      rw [Int.le_floor]
      linarith
    have hcast : (n : ℚ) ≤ ⌊2 * (x + 1 / 4)⌋ := by exact_mod_cast hle
    linarith
  · rintro _ ⟨v, hv, rfl⟩ hx
    obtain ⟨-, -, n, hn⟩ := tickValid_iff.mp hv
    have hlt : ⌊2 * (x + 1 / 4)⌋ < n + 1 := by
      rw [Int.floor_lt]
      push_cast
      linarith
    have hcast : (⌊2 * (x + 1 / 4)⌋ : ℚ) ≤ n := by exact_mod_cast Int.lt_add_one_iff.mp hlt
    linarith

theorem tick_le (x : ℚ) : tick x ≤ x := by
  have hfloor := Int.floor_le (2 * x)
  unfold tick
  linarith

theorem le_tickUp (x : ℚ) : x ≤ tickUp x := by
  have hceil := Int.le_ceil (2 * x)
  unfold tickUp
  linarith

theorem tickRounding : TickRounding referenceSdk (1 / 8) where
  slack_nonneg := by norm_num
  positive h := lt_of_lt_of_le (by decide) (tickValid_iff.mp h).1
  finite h := by
    have hwide := F64.wide_lt_maxVal
    have hhigh := (tickValid_iff.mp h).2.1
    have hlt : highest < F64.maxVal := by
      unfold highest
      linarith
    exact F64.lt_iff.mpr (lt_of_le_of_lt hhigh hlt)
  round h := rounds_checked h
  roundUp := by
    intro x p h
    obtain ⟨hlow, hhigh, hval⟩ := checked_spec h
    refine ⟨tickValid_iff.mpr ?_, ?_⟩
    · rw [hval]
      exact ⟨hlow, hhigh, _, rfl⟩
    · rw [F64.le_iff, hval]
      exact le_tickUp _
  roundDown := by
    intro x p h
    obtain ⟨hlow, hhigh, hval⟩ := checked_spec h
    refine ⟨tickValid_iff.mpr ?_, ?_⟩
    · rw [hval]
      exact ⟨hlow, hhigh, _, rfl⟩
    · rw [F64.le_iff, hval]
      exact tick_le _
  gain h := rounds_checked h
  discount h := rounds_checked h

end ReferenceSdk

namespace Executor

open SimulatedTradeExecutor

theorem TickRounding.of_slack_le {slack' : ℚ} (h : TickRounding sdk slack) (hs : slack' ≤ slack)
    (hpos : 0 ≤ slack') : TickRounding sdk slack' where
  slack_nonneg := hpos
  positive := h.positive
  finite := h.finite
  round hq := (h.round hq).of_slack_le hs
  roundUp := h.roundUp
  roundDown := h.roundDown
  gain hq := (h.gain hq).of_slack_le hs
  discount hq := (h.discount hq).of_slack_le hs

/-! ### Over any run -/

/-- Over exact rationals each update of a trailing stoploss is at least a step past the one
it replaces, and the stoploss only tightens over any sequence of candles and ranges. -/
theorem trailing_stoploss_only_tightens (hround : TickRounding ex.sdk 0)
    (hstep : IsCapped ex.config.trailingStoplossStepSize) {tsl : TradeTrailingStoploss}
    (htsl : IsCapped tsl.perc) {t : SimulatedTradeRunning} {p₀ : Price} (hp₀ : t.stoploss = some p₀)
    (hvalid : TickValid ex.sdk p₀.asF64) (looks more : List Look) :
    ∃ p q, (lookAll exactQuotient ex tsl t looks).stoploss = some p ∧
      (lookAll exactQuotient ex tsl t (looks ++ more)).stoploss = some q ∧
      t.side.NotBeyond p q ∧
      ∀ l new, newStoploss exactQuotient ex tsl (lookAll exactQuotient ex tsl t looks) l =
          some new →
        ∃ next, t.side.advance ex.sdk p ex.config.trailingStoplossStepSize = .ok next ∧
          t.side.NotBeyond next new := by
  have htight := exactQuotient_tight hround htsl
  obtain ⟨p, hp, -⟩ := TrailsFrom.lookAll hround hstep htight ⟨hp₀, hvalid⟩ looks
  obtain ⟨q, hq, hle⟩ := TrailsFrom.lookAll hround hstep htight hp more
  rw [lookAll_side] at hle
  refine ⟨p, q, hp.1, ?_, hle, ?_⟩
  · rw [lookAll, List.foldl_append]
    exact hq.1
  · intro l new hnew
    have hmoved := htight.newStoploss hround hp.1 hnew
    rw [lookAll_side] at hmoved
    exact hmoved.2

/-- A long trailed by two percent. -/
def trailedTrade : SimulatedTradeRunning where
  id := ⟨0⟩
  side := .buy
  openingFee := 0
  closingFeeReserved := 0
  quantity := ⟨500⟩
  margin := ReferenceSdk.margin 500000
  leverage := ⟨1⟩
  price := ReferenceSdk.price 100000
  liquidation := ReferenceSdk.price 50000
  stoploss := some (ReferenceSdk.price 98000)
  takeprofit := none
  entryTime := 0
  entryPrice := ReferenceSdk.price 100000

def twoPercent : TradeTrailingStoploss := ⟨⟨F64.clamp 2⟩⟩

def risingLook : Look := .candle (minuteCandle 1 100000 102000 100000 101000)

def risingRange : Look := .range (F64.clamp 101000) (F64.clamp 103500)

theorem trailing_stoploss_only_tightens_rising :
    newStoploss exactQuotient referenceExecutor twoPercent trailedTrade risingLook =
        some (ReferenceSdk.price 99960) ∧
      ∃ p q, (lookAll exactQuotient referenceExecutor twoPercent trailedTrade
          [risingLook]).stoploss = some p ∧
        (lookAll exactQuotient referenceExecutor twoPercent trailedTrade
          ([risingLook] ++ [risingRange])).stoploss = some q ∧
        trailedTrade.side.NotBeyond p q ∧
        ∀ l new, newStoploss exactQuotient referenceExecutor twoPercent
            (lookAll exactQuotient referenceExecutor twoPercent trailedTrade [risingLook]) l =
              some new →
          ∃ next, trailedTrade.side.advance referenceSdk p
              referenceExecutor.config.trailingStoplossStepSize = .ok next ∧
            trailedTrade.side.NotBeyond next new := by
  have hlaw : TickRounding referenceSdk 0 :=
    ReferenceSdk.tickRounding.of_slack_le (by norm_num) le_rfl
  have hvalid : IsCapped referenceExecutor.config.trailingStoplossStepSize ∧
      IsCapped twoPercent.perc ∧
      TickValid referenceSdk (ReferenceSdk.price 98000).asF64 ∧
      newStoploss exactQuotient referenceExecutor twoPercent trailedTrade risingLook =
        some (ReferenceSdk.price 99960) := by decide +kernel
  obtain ⟨hstep, htsl, htick, hmoved⟩ := hvalid
  exact ⟨hmoved, trailing_stoploss_only_tightens hlaw hstep htsl rfl htick [risingLook]
    [risingRange]⟩

end Executor

end Quantoxide
