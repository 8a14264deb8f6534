import Quantoxide.Verification.Executor.Atomicity
import Quantoxide.Verification.Executor.Clock
import Quantoxide.Verification.Executor.Trailing

/-! # Candles that cannot fail

On good data a candle update fails only where it moves a trailing stoploss to a price the
SDK refuses. It retreats from the candle's best price, so it is on the right side of the
market and of the takeprofit, and past the liquidation when the old stoploss was. -/

namespace Quantoxide.Executor

open Result SimulatedTradeExecutor Runs Rounding

variable {ε : Type} {sdk : LnmSdk ε} {ex : SimulatedTradeExecutor ε}
variable {s s' : SimulatedTradeExecutorState}

/-! ### Dividing doubles is tight -/

/-- The documented range of a `PercentageCapped`. -/
def IsPercentage (d : PercentageCapped) : Prop := 0 ≤ d.asF64.val ∧ d.asF64.val ≤ 999 / 10

instance (d : PercentageCapped) : Decidable (IsPercentage d) :=
  inferInstanceAs (Decidable (_ ∧ _))

theorem IsPercentage.isCapped {d : PercentageCapped} (h : IsPercentage d) : IsCapped d :=
  ⟨h.1, lt_of_le_of_lt h.2 (by norm_num)⟩

/-- Prices go up to a hundred million and gains and discounts to the nearest tick. -/
structure NearestTick (sdk : LnmSdk ε) : Prop extends TickRounding sdk (1 / 8) where
  price_le : ∀ {x}, TickValid sdk x → x.val ≤ 100000000

theorem left_range {d : PercentageCapped} (h : IsPercentage d) (side : TradeSide) :
    1 / 1000 ≤ side.left d ∧ side.left d ≤ 2 := by
  obtain ⟨hlow, hhigh⟩ := h
  cases side with
  | buy =>
      simp only [TradeSide.left]
      constructor <;> linarith
  | sell =>
      simp only [TradeSide.left]
      constructor <;> linarith

/-- The quotient by a double close to what the distance leaves. -/
theorem quotient_of_near {n left y : ℚ} {next b : F64} (hn : next.val = n) (hn0 : 0 ≤ n)
    (hn' : n ≤ 100000000) (hleft : 1 / 1000 ≤ left) (hleft' : left ≤ 2) (hb : b = F64.ofRat y)
    (hy : |y| ≤ 3) (hnear : |y - left| ≤ 1 / 2 ^ 52) :
    |(next / b).val - n / left| * left ≤ 1 / 8 := by
  have hround : |b.val - y| ≤ 1 / 2 ^ 51 := by
    rw [hb]
    refine (F64.ofRat_near (hy.trans (by norm_num))).trans ?_
    calc |y| / 2 ^ 53 + 1 / 2 ^ 200 ≤ 3 / 2 ^ 53 + 1 / 2 ^ 200 := by gcongr
      _ ≤ 1 / 2 ^ 51 := by norm_num
  have hdivisor : |b.val - left| ≤ 1 / 2 ^ 50 := by
    calc |b.val - left| ≤ |b.val - y| + |y - left| := abs_sub_le _ _ _
      _ ≤ 1 / 2 ^ 51 + 1 / 2 ^ 52 := by gcongr
      _ ≤ 1 / 2 ^ 50 := by norm_num
  have hne : b.val ≠ 0 := by
    intro hzero
    rw [hzero, zero_sub, abs_neg, abs_of_pos (by linarith)] at hdivisor
    have hsmall : (1 : ℚ) / 2 ^ 50 < 1 / 1000 := by norm_num
    linarith
  exact F64.quotient_near hn0 hn' hleft hleft' hdivisor (hn ▸ F64.div_of_ne hne)

/-- The quotient the code computes is off by less than the rounding absorbs. -/
theorem sourceQuotient_near (h : NearestTick sdk) {tsl : PercentageCapped}
    (htsl : IsPercentage tsl) (side : TradeSide) {next : Price}
    (hnext : TickValid sdk next.asF64) :
    |(sourceQuotient side next tsl).val - next.asF64.val / side.left tsl| * side.left tsl ≤
      1 / 8 := by
  obtain ⟨hleft, hleft'⟩ := left_range htsl side
  have hpos := (h.positive hnext).le
  have hprice := h.price_le hnext
  have hdist := F64.hundredth_near htsl.1 (htsl.2.trans (by norm_num))
  obtain ⟨hlow, hhigh⟩ := abs_le.mp hdist
  have hshare : 0 ≤ tsl.asF64.val / 100 := div_nonneg htsl.1 (by norm_num)
  have hshare' : tsl.asF64.val / 100 ≤ 1 := by
    have hle := htsl.2
    linarith
  have hsmall : (1 : ℚ) / 2 ^ 52 ≤ 1 := by norm_num
  cases side with
  | buy =>
      apply quotient_of_near (y := 1 - (tsl.asF64 / 100).val) rfl hpos hprice hleft hleft'
      · change F64.ofRat ((1 : F64).val - (tsl.asF64 / 100).val) = _
        rw [F64.one_val]
      · rw [abs_le]
        constructor <;> linarith
      · rw [TradeSide.left, abs_le]
        constructor <;> linarith
  | sell =>
      apply quotient_of_near (y := 1 + (tsl.asF64 / 100).val) rfl hpos hprice hleft hleft'
      · change F64.ofRat ((1 : F64).val + (tsl.asF64 / 100).val) = _
        rw [F64.one_val]
      · rw [abs_le]
        constructor <;> linarith
      · rw [TradeSide.left, abs_le]
        constructor <;> linarith

/-- Over doubles rounding to the nearest tick is tight. -/
theorem sourceQuotient_tight (h : NearestTick sdk) {tsl : PercentageCapped}
    (htsl : IsPercentage tsl) : Tight sdk sourceQuotient tsl := by
  intro side next trigger p new hnext htrigger hp hnew
  have hleft : 0 < side.left tsl := TradeSide.left_pos htsl.isCapped
  have hnear := sourceQuotient_near h htsl side hnext
  have hround := h.retreat hnew
  cases side with
  | buy =>
      obtain ⟨-, hle⟩ := h.roundUp htrigger
      have hreached : (sourceQuotient .buy next tsl).val ≤ p.asF64.val := le_trans hle hp
      have hquot := neg_abs_le
        ((sourceQuotient .buy next tsl).val - next.asF64.val / TradeSide.buy.left tsl)
      apply hround.ge_of_quotient_le (mem_ticks.mpr hnext) hleft hnear
      linarith
  | sell =>
      obtain ⟨-, hle⟩ := h.roundDown htrigger
      have hreached : p.asF64.val ≤ (sourceQuotient .sell next tsl).val := le_trans hp hle
      have hquot := le_abs_self
        ((sourceQuotient .sell next tsl).val - next.asF64.val / TradeSide.sell.left tsl)
      apply hround.le_of_le_quotient (mem_ticks.mpr hnext) hleft hnear
      linarith

/-! ### Isolated trading -/

theorem Before.trans_notBeyond {side : TradeSide} {p q r : Price} (h : Before side p q)
    (h' : side.NotBeyond q r) : Before side p r := by
  cases side with
  | buy => exact lt_of_lt_of_le h h'
  | sell => exact lt_of_le_of_lt h' h

theorem Before.of_notBeyond {side : TradeSide} {p q r : Price} (h : Before side q r)
    (h' : side.NotBeyond p q) : Before side p r := by
  cases side with
  | buy => exact lt_of_le_of_lt h' h
  | sell => exact lt_of_lt_of_le h h'

theorem Before.notBeyond {side : TradeSide} {p q : Price} (h : Before side p q) :
    side.NotBeyond p q := by
  cases side with
  | buy => exact le_of_lt h
  | sell => exact le_of_lt h

/-- The SDK takes a stoploss strictly between the liquidation and the market, and before the
takeprofit. -/
structure StoplossLaws (sdk : LnmSdk ε) : Prop where
  opened : ∀ {side size leverage entry stoploss takeprofit fee r},
    sdk.evaluateOpenTradeParams side size leverage entry (some stoploss) takeprofit fee = .ok r →
      Before side r.liquidation stoploss
  rejects : ∀ {side liquidation takeprofit market stoploss},
    sdk.evaluateNewStoploss side liquidation takeprofit market stoploss = .ok () →
      Before side liquidation stoploss
  accepts : ∀ {side liquidation takeprofit market stoploss}, Before side liquidation stoploss →
    Before side stoploss market → (∀ p ∈ takeprofit, Before side stoploss p) →
      sdk.evaluateNewStoploss side liquidation takeprofit market stoploss = .ok ()

/-- The operations of isolated trading but a cash-in. -/
def Op.Isolated : Op → Prop
  | .call (.isolatedOrder request) =>
    ∀ d, request.stoploss = some (.trailing d) → IsPercentage d
  | .call (.isolatedTradeAddMargin _ _) => True
  | .call (.isolatedOrderClose _) => True
  | .call .isolatedOrderCloseLongs => True
  | .call .isolatedOrderCloseShorts => True
  | .call .isolatedOrderCloseAll => True
  | .candleUpdate _ => True
  | .applyFundingSettlement _ => True
  | _ => False

/-- A trade with a trailing stoploss has one, a tick, and trails by no less than a step. -/
def WellTrailed (ex : SimulatedTradeExecutor ε) (entry : RunningEntry) : Prop :=
  ∀ tsl ∈ entry.2, ¬ tsl.perc < ex.config.trailingStoplossStepSize ∧ IsPercentage tsl.perc ∧
    ∃ p, TrailsFrom ex.sdk entry.1 p

theorem closeRunning_crossPosition (close : Close) :
    (ex.closeRunning s close).1.crossPosition = s.crossPosition := by
  unfold closeRunning
  cases ex.closePass s close <;> rfl

theorem isolatedOrder_crossPosition (ex : SimulatedTradeExecutor ε)
    (s : SimulatedTradeExecutorState) (request : IsolatedOrderRequest) :
    (ex.isolatedOrder s request).1.crossPosition = s.crossPosition := by
  unfold isolatedOrder createRunning
  cases ex.openTrade s request.side request.size request.leverage request.stoploss
      request.takeprofit with
  | error e => rfl
  | ok entry =>
      simp only
      split_ifs
      · rfl
      · rfl
      · cases s.trigger.update ex.sdk ex.config.trailingStoplossStepSize entry.1 entry.2 <;> rfl

theorem addMargin_crossPosition (ex : SimulatedTradeExecutor ε)
    (s : SimulatedTradeExecutorState) (id : Uuid) (amount : ℕ) :
    (ex.isolatedTradeAddMargin s id amount).1.crossPosition = s.crossPosition := by
  unfold isolatedTradeAddMargin
  split_ifs
  · rfl
  cases s.runningMap.getById id with
  | none => rfl
  | some found =>
      simp only
      cases found.2.1.withAddedMargin ex.sdk amount <;> rfl

/-- Isolated trading opens no cross position. -/
theorem Op.Isolated.neutral {op : Op} (hop : op.Isolated)
    (h : s.crossPosition.exposure = .neutral) :
    (op.perform ex s).1.crossPosition.exposure = .neutral := by
  cases op with
  | call c =>
      cases c with
      | isolatedOrder request =>
          have hsame := isolatedOrder_crossPosition ex s request
          exact (congrArg _ hsame).trans h
      | isolatedTradeAddMargin id amount =>
          have hsame := addMargin_crossPosition ex s id amount
          exact (congrArg _ hsame).trans h
      | isolatedOrderClose id =>
          exact (congrArg _ (closeRunning_crossPosition (.single id))).trans h
      | isolatedOrderCloseLongs =>
          exact (congrArg _ (closeRunning_crossPosition (.side .buy))).trans h
      | isolatedOrderCloseShorts =>
          exact (congrArg _ (closeRunning_crossPosition (.side .sell))).trans h
      | isolatedOrderCloseAll => exact (congrArg _ (closeRunning_crossPosition .all)).trans h
      | _ => exact absurd hop (by simp [Op.Isolated])
  | candleUpdate candle => exact candleUpdate_neutral candle h
  | applyFundingSettlement settlement => exact settlement_neutral settlement h
  | updateTime time => exact absurd hop (by simp [Op.Isolated])

/-! ### Trailing stoplosses stay ticks -/

/-- An order with a trailing stoploss starts it at the distance from the market. -/
theorem openTrade_trailing {request : IsolatedOrderRequest} {entry : RunningEntry}
    (h : ex.openTrade s request.side request.size request.leverage request.stoploss
      request.takeprofit = .ok entry) {tsl : TradeTrailingStoploss} (htsl : tsl ∈ entry.2) :
    request.stoploss = some (.trailing tsl.perc) ∧
      ¬ tsl.perc < ex.config.trailingStoplossStepSize ∧
      ∃ market p, request.side.retreat ex.sdk market tsl.perc = .ok p ∧
        entry.1.stoploss = some p := by
  simp only [openTrade, SimulatedTradeRunning.new, bind_eq_ok, mapError_eq_ok, pure_eq_ok] at h
  obtain ⟨market, -, ⟨price, trailing⟩, hstop, trade, ⟨p, hp, rfl⟩, rfl⟩ := h
  obtain rfl : trailing = some tsl := htsl
  cases hrequest : request.stoploss with
  | none => simp [orderStoploss, hrequest] at hstop
  | some stoploss =>
      simp only [orderStoploss, hrequest, bind_eq_ok, mapError_eq_ok, pure_eq_ok,
        Prod.mk.injEq] at hstop
      obtain ⟨⟨first, trailing'⟩, heval, rfl, rfl⟩ := hstop
      cases stoploss with
      | fixed price => simp [Stoploss.evaluate] at heval
      | trailing d =>
          unfold Stoploss.evaluate at heval
          simp only at heval
          split_ifs at heval with hstep
          cases hside : request.side with
          | buy =>
              simp only [hside, bind_eq_ok, mapError_eq_ok, pure_eq_ok, Prod.mk.injEq,
                Option.some.injEq] at heval
              obtain ⟨initial, hinitial, rfl, rfl⟩ := heval
              exact ⟨rfl, hstep, market, initial, hinitial, rfl⟩
          | sell =>
              simp only [hside, bind_eq_ok, mapError_eq_ok, pure_eq_ok, Prod.mk.injEq,
                Option.some.injEq] at heval
              obtain ⟨initial, hinitial, rfl, rfl⟩ := heval
              exact ⟨rfl, hstep, market, initial, hinitial, rfl⟩

theorem trailStoploss_look {candle : OhlcCandleRow} {t t' : SimulatedTradeRunning}
    {tsl : TradeTrailingStoploss} (h : ex.trailStoploss candle t (some tsl) = .ok t') :
    t' = look sourceQuotient ex tsl t (.candle candle) := by
  rw [trailStoploss_source] at h
  cases hnew : candleStoplossIn sourceQuotient ex candle t tsl with
  | error e =>
      rw [hnew] at h
      cases h
  | ok new =>
      rw [hnew] at h
      cases h
      simp [look, newStoploss, hnew, Except.toOption]

theorem TrailsFrom.look_valid {slack : ℚ} (hround : TickRounding ex.sdk slack)
    {quotient : Quotient} {tsl : TradeTrailingStoploss} {t : SimulatedTradeRunning} {p : Price}
    (h : TrailsFrom ex.sdk t p) (l : Look) :
    ∃ q, TrailsFrom ex.sdk (Executor.look quotient ex tsl t l) q := by
  cases hnew : newStoploss quotient ex tsl t l with
  | none => exact ⟨p, by simp [Executor.look, hnew, h.1], h.2⟩
  | some new =>
      obtain ⟨_, _, -, -, hretreat⟩ := newStoploss_spec hround hnew
      exact ⟨new, by simp [Executor.look, hnew], hround.retreat_valid hretreat⟩

theorem WellTrailed.step (hround : NearestTick ex.sdk) {op : Op} (hop : op.Isolated)
    (hi : ∀ key entry, (key, entry) ∈ s.runningMap.trades → WellTrailed ex entry)
    (h : Effect ex s op s') :
    ∀ key entry, (key, entry) ∈ s'.runningMap.trades → WellTrailed ex entry := by
  refine h.entries hi ?_ ?_ ?_ ?_ ?_
  · intro request entry heq hopen tsl htsl
    subst heq
    obtain ⟨hrequest, hstep, market, p, hp, hstop⟩ := openTrade_trailing hopen htsl
    exact ⟨hstep, hop _ hrequest, p, hstop, hround.retreat_valid hp⟩
  · intro entry t' amount hp hadd tsl htsl
    obtain ⟨r, -, rfl⟩ := withAddedMargin_eq_ok.mp hadd
    exact hp tsl htsl
  · intro id amount key entry t' heq
    subst heq
    exact absurd hop (by simp [Op.Isolated])
  · intro candle entry t' hp htrail tsl htsl
    obtain ⟨hstep, hperc, p, hfrom⟩ := hp tsl htsl
    have hentry : entry.2 = some tsl := htsl
    rw [hentry] at htrail
    rw [trailStoploss_look htrail]
    exact ⟨hstep, hperc, hfrom.look_valid hround.toTickRounding _⟩
  · intro settlement entry t' fee _ _ hp hset
    rcases (settled_cases hset).2 with ⟨-, rfl⟩ | ⟨-, m, l, -, -, rfl⟩
    · exact hp
    · exact hp

/-- What isolated trading keeps over a run. -/
theorem run_wellTrailed (hround : NearestTick ex.sdk) {ops : List Op}
    (hrun : ((system ex).restrict fun _ op => op.Isolated).Run ops s) :
    s.crossPosition.exposure = .neutral ∧
      ∀ entry ∈ s.runningMap.tradesDesc, WellTrailed ex entry := by
  have hinv : s.crossPosition.exposure = .neutral ∧
      ∀ key entry, (key, entry) ∈ s.runningMap.trades → WellTrailed ex entry := by
    apply hrun.invariant
    · rintro s ⟨startCandle, startBalance, rfl⟩
      refine ⟨rfl, ?_⟩
      simp [SimulatedTradeExecutor.new, RunningTradesMap.new, OrdMap.empty, OrdMap.mem_def]
    · rintro s op _ ⟨hneutral, hi⟩ ⟨hop, rfl⟩
      exact ⟨hop.neutral hneutral, WellTrailed.step hround hop hi op.effect⟩
  refine ⟨hinv.1, ?_⟩
  intro entry he
  obtain ⟨key, hmem⟩ := mem_tradesDesc.mp he
  exact hinv.2 key entry hmem

/-! ### Good candles -/

/-- A candle in time, with prices of ticks and the close between the ends. -/
structure GoodCandle (ex : SimulatedTradeExecutor ε) (s : SimulatedTradeExecutorState)
    (candle : OhlcCandleRow) : Prop where
  inTime : s.time ≤ candle.time + Duration.seconds 59
  low : TickValid ex.sdk candle.low
  close : TickValid ex.sdk candle.close
  high : TickValid ex.sdk candle.high
  low_le : candle.low ≤ candle.close
  le_high : candle.close ≤ candle.high

/-- The step from a stoploss to the price that triggers it stays in range. -/
def StepsFrom (ex : SimulatedTradeExecutor ε) (side : TradeSide) (tsl : TradeTrailingStoploss)
    (p : Price) : Prop :=
  (do let next ← side.advance ex.sdk p ex.config.trailingStoplossStepSize
      side.roundOut ex.sdk (sourceQuotient side next tsl.perc)).isOk = true

/-- The steps from a trailing stoploss, and from the one the candle's best price trails, stay
in range. -/
def InRange (ex : SimulatedTradeExecutor ε) (candle : OhlcCandleRow) (entry : RunningEntry) :
    Prop :=
  ∀ tsl ∈ entry.2, (∀ p ∈ entry.1.stoploss, StepsFrom ex entry.1.side tsl p) ∧
    ∃ new, entry.1.side.retreat ex.sdk ⟨entry.1.side.best candle.low candle.high⟩ tsl.perc =
        .ok new ∧
      StepsFrom ex entry.1.side tsl new

/-- The candle keeps the trade, meets its trigger and would move its stoploss to a price before
the market that is not past its liquidation. -/
def Strands (ex : SimulatedTradeExecutor ε) (candle : OhlcCandleRow) (entry : RunningEntry) :
    Prop :=
  candleExit candle entry.1 = none ∧ ∃ tsl ∈ entry.2, ∃ trigger new,
    entry.1.nextStoplossUpdateTrigger ex.sdk ex.config.trailingStoplossStepSize tsl =
      .ok trigger ∧
    entry.1.side.NotBeyond trigger ⟨entry.1.side.best candle.low candle.high⟩ ∧
    entry.1.side.retreat ex.sdk ⟨entry.1.side.best candle.low candle.high⟩ tsl.perc = .ok new ∧
    Before entry.1.side new ⟨candle.close⟩ ∧ ¬ Before entry.1.side entry.1.liquidation new

namespace GoodCandle

variable {candle : OhlcCandleRow}

theorem best (h : GoodCandle ex s candle) (side : TradeSide) :
    TickValid ex.sdk (side.best candle.low candle.high) := by
  cases side with
  | buy => exact h.high
  | sell => exact h.low

theorem close_notBeyond (h : GoodCandle ex s candle) (side : TradeSide) :
    side.NotBeyond ⟨candle.close⟩ ⟨side.best candle.low candle.high⟩ := by
  cases side with
  | buy => exact h.le_high
  | sell => exact h.low_le

end GoodCandle

theorem next_isOk {t : SimulatedTradeRunning} {tsl : TradeTrailingStoploss} {p : Price}
    (hstep : ¬ tsl.perc < ex.config.trailingStoplossStepSize) (hp : t.stoploss = some p)
    (h : StepsFrom ex t.side tsl p) :
    ∃ trigger, t.nextStoplossUpdateTrigger ex.sdk ex.config.trailingStoplossStepSize tsl =
      .ok trigger := by
  have hok := eq_ok_get h
  simp only [bind_eq_ok] at hok
  obtain ⟨next, hnext, hround⟩ := hok
  exact ⟨_, nextTriggerIn_eq_ok.mpr ⟨hstep, p, next, hp, hnext, hround⟩⟩

/-- A kept trade's takeprofit lies past the candle's best price. -/
theorem takeprofit_past {candle : OhlcCandleRow} {t : SimulatedTradeRunning}
    (h : candleExit candle t = none) {p : Price} (hp : p ∈ t.takeprofit) :
    Before t.side ⟨t.side.best candle.low candle.high⟩ p := by
  have htake : t.takeprofit = some p := hp
  unfold candleExit at h
  cases hside : t.side with
  | buy =>
      simp only [hside, htake] at h
      cases hmin : (some t.exitBound).filter (fun p => candle.low ≤ p.asF64) with
      | some q => simp [hmin] at h
      | none =>
          simp only [hmin, Option.filter_eq_none_iff] at h
          have hlt : ¬ candle.high ≥ p.asF64 := by simpa using h p rfl
          exact not_le.mp hlt
  | sell =>
      simp only [hside, htake] at h
      cases hmin : (some p).filter (fun p => candle.low ≤ p.asF64) with
      | some q => simp [hmin] at h
      | none =>
          rw [Option.filter_eq_none_iff] at hmin
          have hlt : ¬ candle.low ≤ p.asF64 := by simpa using hmin p rfl
          exact not_le.mp hlt

theorem trailedStoploss_eq {candle : OhlcCandleRow} {side : TradeSide}
    {tsl : TradeTrailingStoploss} {trigger market new : Price}
    (hbest : TickValid ex.sdk (side.best candle.low candle.high))
    (hnew : side.retreat ex.sdk ⟨side.best candle.low candle.high⟩ tsl.perc = .ok new) :
    ex.trailedStoploss candle side tsl trigger market =
      .ok (if side.NotBeyond trigger ⟨side.best candle.low candle.high⟩ ∧ Before side new market
        then some new else none) := by
  simp only [trailedStoploss_sided, bind_eq_ok, mapError_eq_ok]
  refine ⟨_, hbest, ?_⟩
  split_ifs with hmet hmoved hmoved
  · simp only [bind_eq_ok, mapError_eq_ok, pure_eq_ok]
    exact ⟨new, hnew, if_pos hmoved.2⟩
  · simp only [bind_eq_ok, mapError_eq_ok, pure_eq_ok]
    exact ⟨new, hnew, if_neg fun h => hmoved ⟨hmet, h⟩⟩
  · exact absurd hmoved.1 hmet
  · rfl

/-- What a candle makes of a trailing stoploss whose steps are in range. -/
theorem trailStoploss_eq {candle : OhlcCandleRow} (hgood : GoodCandle ex s candle)
    {t : SimulatedTradeRunning} {tsl : TradeTrailingStoploss} {trigger new : Price}
    (htrigger : t.nextStoplossUpdateTrigger ex.sdk ex.config.trailingStoplossStepSize tsl =
      .ok trigger)
    (hnew : t.side.retreat ex.sdk ⟨t.side.best candle.low candle.high⟩ tsl.perc = .ok new) :
    ex.trailStoploss candle t (some tsl) =
      if t.side.NotBeyond trigger ⟨t.side.best candle.low candle.high⟩ ∧
          Before t.side new ⟨candle.close⟩
        then t.withNewStoploss ex.sdk ⟨candle.close⟩ new else .ok t := by
  have hmarket : ex.sdk.round candle.close = .ok ⟨candle.close⟩ := hgood.close
  simp only [trailStoploss, htrigger, hmarket, mapError_ok]
  change (ex.trailedStoploss candle t.side tsl trigger ⟨candle.close⟩ >>= _) = _
  rw [trailedStoploss_eq (hgood.best t.side) hnew]
  split_ifs with hmoves
  · rfl
  · rfl

/-- A good candle gets past a trade unless it strands it. -/
theorem candlePasses_iff (laws : StoplossLaws ex.sdk) {candle : OhlcCandleRow}
    (hgood : GoodCandle ex s candle) {entry : RunningEntry} (hw : WellTrailed ex entry)
    (hr : InRange ex candle entry) : CandlePasses ex candle entry ↔ ¬ Strands ex candle entry := by
  obtain ⟨t, tsl⟩ := entry
  unfold CandlePasses Strands
  by_cases hexit : candleExit candle t = none
  swap
  · simp [hexit]
  simp only [hexit, true_imp_iff, true_and]
  cases tsl with
  | none =>
      simp only [trailStoploss, Except.ok.injEq, exists_eq_left', hasBounds_iff_next]
      simp
  | some tsl =>
      obtain ⟨hstep, -, p, hp, -⟩ := hw tsl rfl
      obtain ⟨hfrom, new, hnew, hnewFrom⟩ := hr tsl rfl
      obtain ⟨trigger, htrigger⟩ := next_isOk hstep hp (hfrom p hp)
      rw [trailStoploss_eq hgood htrigger hnew]
      constructor
      · rintro ⟨t', ht', -⟩ ⟨tsl', htsl, trigger', new', htrigger', hmet, hnew', hbefore, hstuck⟩
        obtain rfl := Option.some.inj htsl
        obtain rfl := Except.ok.inj (htrigger.symm.trans htrigger')
        obtain rfl := Except.ok.inj (hnew.symm.trans hnew')
        rw [if_pos ⟨hmet, hbefore⟩] at ht'
        exact hstuck (laws.rejects (withNewStoploss_eq_ok.mp ht').1)
      · intro hfree
        split_ifs with hmoves
        · have htake : ∀ q ∈ t.takeprofit, Before t.side new q := fun q hq =>
            (hmoves.2.trans_notBeyond (hgood.close_notBeyond t.side)).trans_notBeyond
              (takeprofit_past hexit hq).notBeyond
          have hpast : Before t.side t.liquidation new := by
            by_contra hstuck
            exact hfree ⟨tsl, rfl, trigger, new, htrigger, hmoves.1, hnew, hmoves.2, hstuck⟩
          refine ⟨_, withNewStoploss_eq_ok.mpr ⟨laws.accepts hpast hmoves.2 htake, rfl⟩, ?_⟩
          apply hasBounds_iff_next.mpr
          intro tsl' htsl
          obtain rfl := Option.some.inj htsl
          exact next_isOk hstep rfl hnewFrom
        · refine ⟨t, rfl, hasBounds_iff_next.mpr ?_⟩
          intro tsl' htsl
          obtain rfl := Option.some.inj htsl
          exact ⟨trigger, htrigger⟩

/-- Without a cross position a candle in time fails at a trade it cannot get past. -/
theorem candleUpdate_succeeds_iff {candle : OhlcCandleRow}
    (htime : s.time ≤ candle.time + Duration.seconds 59)
    (hneutral : s.crossPosition.exposure = .neutral) :
    Succeeds ex s (.candleUpdate candle) ↔
      (s.trigger.wasReached candle.low = true ∨ s.trigger.wasReached candle.high = true →
        ∀ entry ∈ s.runningMap.tradesDesc, CandlePasses ex candle entry) := by
  have hcross : ex.crossAfterCandle s candle = .ok (s.crossPosition, s.lastTradeTime) := by
    simp [crossAfterCandle, SimulatedCrossPosition.liquidationReached, hneutral]
  have hloop := candleLoop_isOk ex s candle
    { startPass s with lastTradeTime := s.lastTradeTime }
  simp only [Succeeds, Op.perform, candleUpdate, not_lt.mpr htime, if_false, hcross]
  by_cases hreached : s.trigger.wasReached candle.low = true ∨
      s.trigger.wasReached candle.high = true
  · have hskip : (!s.trigger.wasReached candle.low && !s.trigger.wasReached candle.high) =
        false := by
      rcases hreached with h | h <;> simp [h]
    simp only [hskip, Bool.false_eq_true, if_false, hreached, true_imp_iff, ← hloop]
    cases ex.candleLoop s candle { startPass s with lastTradeTime := s.lastTradeTime } with
    | error e => simp
    | ok acc => simp [addClosed_eq]
  · have hskip : (!s.trigger.wasReached candle.low && !s.trigger.wasReached candle.high) =
        true := by
      rw [not_or] at hreached
      simp [hreached]
    simp only [hskip, if_true, hreached, false_imp_iff]

/-! ### Settlements that keep trailing stoplosses past the liquidation -/

/-- The stoploss of a trade that trails one lies past its liquidation. -/
def PastLiquidation (entry : RunningEntry) : Prop :=
  entry.2.isSome = true →
    ∀ p ∈ entry.1.stoploss, Before entry.1.side entry.1.liquidation p

/-- A settlement leaves every trailing stoploss past the liquidation. -/
def KeepsTrails (ex : SimulatedTradeExecutor ε) (s : SimulatedTradeExecutorState) : Op → Prop
  | .applyFundingSettlement settlement =>
    ∀ entry ∈ s.runningMap.tradesDesc,
      ∀ settled ∈ (entry.1.applyFundingSettlement ex.sdk settlement).toOption,
        ∀ t' ∈ settled.1, PastLiquidation (t', entry.2)
  | _ => True

/-- The liquidation is the SDK's, and a trailing stoploss lies past it. -/
def SafelyTrailed (sdk : LnmSdk ε) (entry : RunningEntry) : Prop :=
  Liquidates sdk entry.1.side entry.1.quantity entry.1.price entry.1.margin
    entry.1.liquidation ∧ PastLiquidation entry

theorem SafelyTrailed.step (away : AddedMarginLaw ex.sdk) (laws : StoplossLaws ex.sdk)
    {op : Op} (hop : op.Isolated) (hkeeps : KeepsTrails ex s op)
    (hi : ∀ key entry, (key, entry) ∈ s.runningMap.trades → SafelyTrailed ex.sdk entry)
    (h : Effect ex s op s') :
    ∀ key entry, (key, entry) ∈ s'.runningMap.trades → SafelyTrailed ex.sdk entry := by
  refine h.entries hi ?_ ?_ ?_ ?_ ?_
  · intro request entry _ hopen
    obtain ⟨market, stoploss, r, hr, hentry⟩ := openTrade_spec hopen
    unfold SafelyTrailed PastLiquidation
    rw [hentry]
    refine ⟨.opened hr, ?_⟩
    intro _ p hp
    obtain rfl : stoploss = some p := hp
    exact laws.opened hr
  · intro entry t' amount ⟨hliq, hpast⟩ hadd
    obtain ⟨r, hr, rfl⟩ := withAddedMargin_eq_ok.mp hadd
    refine ⟨.added hliq hr, ?_⟩
    intro htsl p hp
    exact (hpast htsl p hp).of_notBeyond (away.away hliq hr)
  · intro id amount key entry t' heq
    subst heq
    exact absurd hop (by simp [Op.Isolated])
  · intro candle entry t' hp htrail
    rcases trailStoploss_cases htrail with rfl | ⟨m, p, hnew⟩
    · exact hp
    obtain ⟨hvalid, rfl⟩ := withNewStoploss_eq_ok.mp hnew
    refine ⟨hp.1, ?_⟩
    intro _ q hq
    obtain rfl := Option.some.inj hq
    exact laws.rejects hvalid
  · intro settlement entry t' fee heq hmem hp hset
    subst heq
    have hpast := hkeeps entry hmem (some t', fee) (by rw [hset]; rfl) t' rfl
    rcases (settled_cases hset).2 with ⟨-, rfl⟩ | ⟨-, m, l, hsub, hl, rfl⟩
    · exact hp
    · exact ⟨.settled hp.1 hsub hl, hpast⟩

theorem run_safelyTrailed (away : AddedMarginLaw ex.sdk) (laws : StoplossLaws ex.sdk)
    {ops : List Op}
    (hrun : ((system ex).restrict fun s op => op.Isolated ∧ KeepsTrails ex s op).Run ops s) :
    ∀ entry ∈ s.runningMap.tradesDesc, PastLiquidation entry := by
  have hinv : ∀ key entry, (key, entry) ∈ s.runningMap.trades → SafelyTrailed ex.sdk entry := by
    apply hrun.invariant
    · rintro s ⟨startCandle, startBalance, rfl⟩
      simp [SimulatedTradeExecutor.new, RunningTradesMap.new, OrdMap.empty, OrdMap.mem_def]
    · rintro s op _ hi ⟨⟨hop, hkeeps⟩, rfl⟩
      exact SafelyTrailed.step away laws hop hkeeps hi op.effect
  intro entry he
  obtain ⟨key, hmem⟩ := mem_tradesDesc.mp he
  exact (hinv key entry hmem).2

/-- A stoploss past the liquidation is trailed to one past it. -/
theorem PastLiquidation.not_strands (hround : NearestTick ex.sdk)
    (hstep : IsPercentage ex.config.trailingStoplossStepSize) {candle : OhlcCandleRow}
    {entry : RunningEntry} (hw : WellTrailed ex entry) (h : PastLiquidation entry) :
    ¬ Strands ex candle entry := by
  rintro ⟨-, tsl, htsl, trigger, new, htrigger, hmet, hnew, -, hstuck⟩
  obtain ⟨-, hperc, p, hp, hvalid⟩ := hw tsl htsl
  have hsome : entry.2.isSome = true := Option.isSome_iff_exists.mpr ⟨tsl, htsl⟩
  rw [← nextTriggerIn_source, nextTriggerIn_eq_ok] at htrigger
  obtain ⟨-, p', next, hp', hnext, hout⟩ := htrigger
  obtain rfl : p = p' := Option.some.inj (hp.symm.trans hp')
  have hadvance := hround.advance_notBeyond hstep.isCapped hvalid hnext
  have htight := sourceQuotient_tight hround hperc _ _ _ _ _ (hround.advance_valid hnext) hout
    hmet hnew
  exact hstuck ((h hsome p hp).trans_notBeyond (hadvance.trans htight))

/-! ### The reference SDK's stoplosses -/

theorem nearestTick_reference : NearestTick referenceSdk where
  toTickRounding := ReferenceSdk.tickRounding
  price_le h := (ReferenceSdk.tickValid_iff.mp h).2.1

theorem between_iff {side : TradeSide} {low x high : Price} :
    ReferenceSdk.between side low x high = true ↔ Before side low x ∧ Before side x high := by
  cases side with
  | buy => simp [ReferenceSdk.between, Before]
  | sell => simp [ReferenceSdk.between, Before, and_comm]

theorem beyond_iff {side : TradeSide} {x y : Price} :
    ReferenceSdk.beyond side x y = true ↔ Before side x y := by
  cases side with
  | buy => simp [ReferenceSdk.beyond, Before]
  | sell => simp [ReferenceSdk.beyond, Before]

theorem stoplossLaws_reference : StoplossLaws referenceSdk where
  opened := by
    intro side size leverage entry stoploss takeprofit fee r h
    exact (between_iff.mp ((ReferenceSdk.openTrade_spec h).2.2.2.2.1 stoploss rfl)).1
  rejects := by
    intro side liquidation takeprofit market stoploss h
    simp only [referenceSdk, ReferenceSdk.newStoploss] at h
    split_ifs at h with hstop
    exact (between_iff.mp (by simpa using hstop)).1
  accepts := by
    intro side liquidation takeprofit market stoploss hlow hhigh htake
    have hstop : ReferenceSdk.between side liquidation stoploss market = true :=
      between_iff.mpr ⟨hlow, hhigh⟩
    have hfree : takeprofit.any (fun p => !ReferenceSdk.beyond side stoploss p) = false := by
      cases takeprofit with
      | none => rfl
      | some p => simp [beyond_iff.mpr (htake p rfl)]
    simp [referenceSdk, ReferenceSdk.newStoploss, hstop, hfree]

/-! ### Good data never fails -/

/-- In every state that isolated trading reaches a good candle succeeds unless it strands a
trade, and it does in every run whose settlements leave the trailing stoplosses past the
liquidations. -/
theorem good_candle_succeeds_iff (hround : NearestTick ex.sdk) (laws : StoplossLaws ex.sdk)
    (away : AddedMarginLaw ex.sdk) (hstep : IsPercentage ex.config.trailingStoplossStepSize) :
    (∀ ops s, ((system ex).restrict fun _ op => op.Isolated).Run ops s →
      ∀ candle, GoodCandle ex s candle →
        (∀ entry ∈ s.runningMap.tradesDesc, InRange ex candle entry) →
        (Succeeds ex s (.candleUpdate candle) ↔
          (s.trigger.wasReached candle.low = true ∨ s.trigger.wasReached candle.high = true →
            ∀ entry ∈ s.runningMap.tradesDesc, ¬ Strands ex candle entry))) ∧
    ∀ ops s, ((system ex).restrict fun s op => op.Isolated ∧ KeepsTrails ex s op).Run ops s →
      ∀ candle, GoodCandle ex s candle →
        (∀ entry ∈ s.runningMap.tradesDesc, InRange ex candle entry) →
        Succeeds ex s (.candleUpdate candle) := by
  have hiff : ∀ ops s, ((system ex).restrict fun _ op => op.Isolated).Run ops s →
      ∀ candle, GoodCandle ex s candle →
        (∀ entry ∈ s.runningMap.tradesDesc, InRange ex candle entry) →
        (Succeeds ex s (.candleUpdate candle) ↔
          (s.trigger.wasReached candle.low = true ∨ s.trigger.wasReached candle.high = true →
            ∀ entry ∈ s.runningMap.tradesDesc, ¬ Strands ex candle entry)) := by
    intro ops s hrun candle hgood hr
    obtain ⟨hneutral, hw⟩ := run_wellTrailed hround hrun
    rw [candleUpdate_succeeds_iff hgood.inTime hneutral]
    refine imp_congr_right fun _ => forall₂_congr fun entry he => ?_
    exact candlePasses_iff laws hgood (hw entry he) (hr entry he)
  refine ⟨hiff, ?_⟩
  intro ops s hrun candle hgood hr
  have hisolated := hrun.restrict_imp (Q := fun _ op => op.Isolated) fun _ _ h => h.1
  obtain ⟨-, hw⟩ := run_wellTrailed hround hisolated
  rw [hiff ops s hisolated candle hgood hr]
  intro _ entry he
  exact PastLiquidation.not_strands hround hstep (hw entry he)
    (run_safelyTrailed away laws hrun entry he)

instance (ex : SimulatedTradeExecutor ε) (side : TradeSide) (tsl : TradeTrailingStoploss) :
    DecidablePred (StepsFrom ex side tsl) :=
  fun _ => inferInstanceAs (Decidable (_ = _))

instance [DecidableEq ε] (ex : SimulatedTradeExecutor ε) (candle : OhlcCandleRow)
    (entry : RunningEntry) : Decidable (InRange ex candle entry) := by
  unfold InRange
  infer_instance

/-- A long at leverage two, stopped one percent below the market. -/
def trailedOps : List Op := [.call (.isolatedOrder (trailingLong 1000 2 1))]

def trailedState : SimulatedTradeExecutorState :=
  performAll referenceExecutor flatStart trailedOps

theorem trailingLong_isolated {quantity : ℕ} {leverage perc : ℚ}
    (h : IsPercentage ⟨F64.clamp perc⟩) :
    (Op.call (.isolatedOrder (trailingLong quantity leverage perc))).Isolated := by
  intro d hd
  obtain rfl := Stoploss.trailing.inj (Option.some.inj hd)
  exact h

theorem good_candle_succeeds_iff_trailed :
    Succeeds referenceExecutor trailedState (.candleUpdate risingCandle) := by
  have hvalid : IsPercentage referenceExecutor.config.trailingStoplossStepSize ∧
      IsPercentage ⟨F64.clamp 1⟩ ∧
      trailedState.time ≤ risingCandle.time + Duration.seconds 59 ∧
      (TickValid referenceSdk risingCandle.low ∧ TickValid referenceSdk risingCandle.close ∧
        TickValid referenceSdk risingCandle.high) ∧
      (risingCandle.low ≤ risingCandle.close ∧ risingCandle.close ≤ risingCandle.high) ∧
      ∀ entry ∈ trailedState.runningMap.tradesDesc,
        InRange referenceExecutor risingCandle entry := by decide +kernel
  obtain ⟨hstep, hperc, htime, ⟨hlow, hclose, hhigh⟩, ⟨hle, hle'⟩, hrange⟩ := hvalid
  have hkeeps : System.Along (fun s op => (op.perform referenceExecutor s).1)
      (fun s op => op.Isolated ∧ KeepsTrails referenceExecutor s op) flatStart trailedOps :=
    ⟨⟨trailingLong_isolated hperc, trivial⟩, trivial⟩
  exact (good_candle_succeeds_iff nearestTick_reference stoplossLaws_reference
    ReferenceSdk.addedMarginLaw hstep).2 trailedOps trailedState
    (performAll_run ⟨_, _, rfl⟩ (fun _ _ h => ⟨h, rfl⟩) hkeeps) risingCandle
    ⟨htime, hlow, hclose, hhigh, hle, hle'⟩ hrange

/-- The settlement has brought the liquidation of the long stopped at 91000 to 91157.5, and
the candle trails the stoploss to 91091. -/
theorem good_candle_fails_stranded :
    ((system referenceExecutor).restrict fun _ op => op.Isolated).Run strandedOps
        strandedState ∧
      NearestTick referenceSdk ∧ StoplossLaws referenceSdk ∧ AddedMarginLaw referenceSdk ∧
      GoodCandle referenceExecutor strandedState risingCandle ∧
      (∀ entry ∈ strandedState.runningMap.tradesDesc,
        InRange referenceExecutor risingCandle entry) ∧
      ¬ Succeeds referenceExecutor strandedState (.candleUpdate risingCandle) := by
  have hvalid : (IsPercentage ⟨F64.clamp 1⟩ ∧ IsPercentage ⟨F64.clamp 9⟩) ∧
      strandedState.time ≤ risingCandle.time + Duration.seconds 59 ∧
      (TickValid referenceSdk risingCandle.low ∧ TickValid referenceSdk risingCandle.close ∧
        TickValid referenceSdk risingCandle.high) ∧
      (risingCandle.low ≤ risingCandle.close ∧ risingCandle.close ≤ risingCandle.high) ∧
      (∀ entry ∈ strandedState.runningMap.tradesDesc,
        InRange referenceExecutor risingCandle entry) ∧
      ¬ Succeeds referenceExecutor strandedState (.candleUpdate risingCandle) := by
    decide +kernel
  obtain ⟨⟨hone, hnine⟩, htime, ⟨hlow, hclose, hhigh⟩, ⟨hle, hle'⟩, hrange, hfails⟩ := hvalid
  have hisolated : System.Along (fun s op => (op.perform referenceExecutor s).1)
      (fun _ op => op.Isolated) flatStart strandedOps :=
    ⟨trailingLong_isolated hnine, trailingLong_isolated hone, trivial, trivial⟩
  exact ⟨performAll_run ⟨_, _, rfl⟩ (fun _ _ h => ⟨h, rfl⟩) hisolated, nearestTick_reference,
    stoplossLaws_reference, ReferenceSdk.addedMarginLaw,
    ⟨htime, hlow, hclose, hhigh, hle, hle'⟩, hrange, hfails⟩

end Quantoxide.Executor
