import Quantoxide.Verification.Executor.Invariants

/-! # The cached price trigger

A candle that reaches neither bound of the cached trigger is not looked at. That loses
nothing as long as the trigger's bounds lie within the bounds of every running trade. -/

namespace Quantoxide

namespace SimulatedTradeRunning

open Result

variable {ε : Type} {sdk : LnmSdk ε} {t : SimulatedTradeRunning} {step : PercentageCapped}
  {tsl : Option TradeTrailingStoploss} {lower upper : Price}

theorem nextTrigger_of_mapM {next : Option Price}
    (h : tsl.mapM (t.nextStoplossUpdateTrigger sdk step) = .ok next)
    {trailing : TradeTrailingStoploss} (htsl : trailing ∈ tsl) :
    ∃ n, t.nextStoplossUpdateTrigger sdk step trailing = .ok n ∧ next = some n := by
  rw [Option.mem_def.mp htsl, Option.mapM_some, map_eq_ok] at h
  obtain ⟨n, hn, rfl⟩ := h
  exact ⟨n, hn, rfl⟩

/-- A long trade is stopped at its lower bound, and its upper one is not above its takeprofit
or its next trigger. -/
theorem bounds_buy (hside : t.side = .buy)
    (h : t.evalTriggerBounds sdk step tsl = .ok (lower, upper)) :
    lower = t.exitBound ∧ (∀ p ∈ t.takeprofit, upper ≤ p) ∧
      ∀ trailing ∈ tsl, ∃ n, t.nextStoplossUpdateTrigger sdk step trailing = .ok n ∧
        upper ≤ n := by
  simp only [evalTriggerBounds, hside, bind_eq_ok, pure_eq_ok, Prod.mk.injEq] at h
  obtain ⟨next, hnext, rfl, rfl⟩ := h
  refine ⟨rfl, ?_, ?_⟩
  · intro p hp
    rw [Option.mem_def.mp hp]
    exact min_le_left _ _
  · intro trailing htsl
    obtain ⟨n, hn, rfl⟩ := nextTrigger_of_mapM hnext htsl
    exact ⟨n, hn, min_le_right _ _⟩

theorem bounds_sell (hside : t.side = .sell)
    (h : t.evalTriggerBounds sdk step tsl = .ok (lower, upper)) :
    upper = t.exitBound ∧ (∀ p ∈ t.takeprofit, p ≤ lower) ∧
      ∀ trailing ∈ tsl, ∃ n, t.nextStoplossUpdateTrigger sdk step trailing = .ok n ∧
        n ≤ lower := by
  simp only [evalTriggerBounds, hside, bind_eq_ok, pure_eq_ok, Prod.mk.injEq] at h
  obtain ⟨next, hnext, rfl, rfl⟩ := h
  refine ⟨rfl, ?_, ?_⟩
  · intro p hp
    rw [Option.mem_def.mp hp]
    exact le_max_left _ _
  · intro trailing htsl
    obtain ⟨n, hn, rfl⟩ := nextTrigger_of_mapM hnext htsl
    exact ⟨n, hn, le_max_right _ _⟩

end SimulatedTradeRunning

namespace Executor

open Result SimulatedTradeExecutor Runs

variable {ε : Type} {ex : SimulatedTradeExecutor ε} {s s' : SimulatedTradeExecutorState}

/-- A price that reaches neither bound of the trigger reaches neither bound of the trade. -/
def Within (ex : SimulatedTradeExecutor ε) (trigger : PriceTrigger) (entry : RunningEntry) :
    Prop :=
  match entry.1.evalTriggerBounds ex.sdk ex.config.trailingStoplossStepSize entry.2, trigger with
  | .ok (lower, upper), .set min max => lower ≤ min ∧ max ≤ upper
  | _, _ => False

instance (trigger : PriceTrigger) (entry : RunningEntry) : Decidable (Within ex trigger entry) := by
  unfold Within
  split <;> infer_instance

theorem within_iff {trigger : PriceTrigger} {entry : RunningEntry} : Within ex trigger entry ↔
    ∃ lower upper min max,
      entry.1.evalTriggerBounds ex.sdk ex.config.trailingStoplossStepSize entry.2 =
        .ok (lower, upper) ∧
      trigger = .set min max ∧ lower ≤ min ∧ max ≤ upper := by
  unfold Within
  cases entry.1.evalTriggerBounds ex.sdk ex.config.trailingStoplossStepSize entry.2 with
  | error e => simp
  | ok bounds =>
      obtain ⟨lower, upper⟩ := bounds
      cases trigger with
      | notSet => simp
      | set min max => simp [and_assoc]

/-! ### Updating the trigger -/

theorem update_within {trigger trigger' : PriceTrigger} {t : SimulatedTradeRunning}
    {tsl : Option TradeTrailingStoploss}
    (h : trigger.update ex.sdk ex.config.trailingStoplossStepSize t tsl = .ok trigger') :
    Within ex trigger' (t, tsl) ∧
      ∀ entry, Within ex trigger entry → Within ex trigger' entry := by
  simp only [PriceTrigger.update, bind_eq_ok, pure_eq_ok] at h
  obtain ⟨⟨lower, upper⟩, hb, rfl⟩ := h
  cases trigger with
  | notSet =>
      refine ⟨within_iff.mpr ⟨lower, upper, lower, upper, hb, rfl, le_rfl, le_rfl⟩, ?_⟩
      intro entry hw
      obtain ⟨_, _, _, _, _, hset, _⟩ := within_iff.mp hw
      cases hset
  | set min max =>
      refine ⟨within_iff.mpr ⟨lower, upper, _, _, hb, rfl, le_max_left _ _, min_le_left _ _⟩, ?_⟩
      intro entry hw
      obtain ⟨l, u, _, _, hbounds, hset, hl, hu⟩ := within_iff.mp hw
      cases hset
      exact within_iff.mpr ⟨l, u, _, _, hbounds, rfl, hl.trans (le_max_right _ _),
        (min_le_right _ _).trans hu⟩

/-- An update succeeds when the trade's bounds can be evaluated. -/
theorem update_of_within {trigger₀ : PriceTrigger} (trigger : PriceTrigger)
    {entry : RunningEntry} (h : Within ex trigger₀ entry) : ∃ trigger',
      trigger.update ex.sdk ex.config.trailingStoplossStepSize entry.1 entry.2 = .ok trigger' := by
  obtain ⟨lower, upper, _, _, hb, -⟩ := within_iff.mp h
  exact ⟨_, by simp only [PriceTrigger.update, hb]; rfl⟩

/-- A liquidation that moved away only widens the bounds. -/
theorem Within.of_away {trigger : PriceTrigger} {t t' : SimulatedTradeRunning}
    {tsl : Option TradeTrailingStoploss} (h : Within ex trigger (t, tsl)) (hsame : SameTrade t t')
    (hstop : t'.stoploss = t.stoploss)
    (haway : t.side.NotBeyond t'.liquidation t.liquidation) : Within ex trigger (t', tsl) := by
  obtain ⟨lower, upper, min, max, hb, rfl, hl, hu⟩ := within_iff.mp h
  have hnext : ∀ step, t'.nextStoplossUpdateTrigger ex.sdk step =
      t.nextStoplossUpdateTrigger ex.sdk step := by
    intro step
    funext trailing
    simp only [SimulatedTradeRunning.nextStoplossUpdateTrigger, hstop, hsame.id, hsame.side]
  simp only [SimulatedTradeRunning.evalTriggerBounds, bind_eq_ok] at hb
  obtain ⟨next, hn, hb⟩ := hb
  apply within_iff.mpr
  simp only [SimulatedTradeRunning.evalTriggerBounds, bind_eq_ok, hnext, hn, hsame.side,
    hsame.takeprofit]
  have hexit : t.side.NotBeyond t'.exitBound t.exitBound := by
    unfold SimulatedTradeRunning.exitBound
    rw [hstop]
    cases t.stoploss with
    | none => exact haway
    | some stoploss => exact .refl _ _
  cases hside : t.side with
  | buy =>
      simp only [hside, pure_eq_ok, Prod.mk.injEq] at hb hexit
      obtain ⟨rfl, rfl⟩ := hb
      exact ⟨_, _, min, max, ⟨next, rfl, rfl⟩, rfl, le_trans hexit hl, hu⟩
  | sell =>
      simp only [hside, pure_eq_ok, Prod.mk.injEq] at hb hexit
      obtain ⟨rfl, rfl⟩ := hb
      exact ⟨_, _, min, max, ⟨next, rfl, rfl⟩, rfl, hl, le_trans hu hexit⟩

/-! ### Every operation but a cash-in keeps the trigger conservative -/

/-- The trigger's bounds lie within those of every running trade. -/
def Covers (ex : SimulatedTradeExecutor ε) (trigger : PriceTrigger) (m : RunningTradesMap) : Prop :=
  ∀ key entry, (key, entry) ∈ m.trades → Within ex trigger entry

theorem covers_new (trigger : PriceTrigger) : Covers ex trigger .new := by
  intro key entry h
  simp [RunningTradesMap.new, OrdMap.empty, OrdMap.mem_def] at h

theorem Covers.add {trigger trigger' : PriceTrigger} {m : RunningTradesMap}
    {t : SimulatedTradeRunning} {tsl : Option TradeTrailingStoploss} (h : Covers ex trigger m)
    (hup : trigger.update ex.sdk ex.config.trailingStoplossStepSize t tsl = .ok trigger') :
    Covers ex trigger' (m.add t tsl) := by
  intro k e he
  rcases OrdMap.mem_of_mem_insert he with heq | hold
  · obtain ⟨rfl, rfl⟩ := Prod.mk.inj heq
    exact (update_within hup).1
  · exact (update_within hup).2 e (h k e hold)

theorem Passes.covers {fates : Fates ε} {entries : List RunningEntry} {acc acc' : Pass}
    (h : Passes ex fates entries acc acc') (hc : Covers ex acc.trigger acc.runningMap) :
    Covers ex acc'.trigger acc'.runningMap := by
  induction h with
  | nil acc => exact hc
  | keep fee trigger _ htrigger _ ih => exact ih (hc.add htrigger)
  | close fee last _ _ ih => exact ih hc

/-- The operation keeps the trigger's bounds within those of the trades it rewrites: a cash-in
at the trade it reduces, a candle whose loop fails at the trades it has reached. -/
def KeepsTrigger (ex : SimulatedTradeExecutor ε) (s : SimulatedTradeExecutorState) : Op → Prop
  | .call (.isolatedTradeCashIn id amount) =>
    ∀ found ∈ s.runningMap.getById id,
      ∀ t' ∈ (found.2.1.withCashIn ex.sdk (ex.sdk.bounded s.marketPrice) amount).toOption,
        Within ex s.trigger (t', found.2.2)
  | .candleUpdate candle =>
    LoopFails ex s candle →
      ∀ entry ∈ ex.candleWrites candle s.runningMap.tradesDesc, Within ex s.trigger entry
  | _ => True

theorem Covers.step (law : AddedMarginLaw ex.sdk) {op : Op} (hp : Priced ex s)
    (hi : Covers ex s.trigger s.runningMap) (hkeeps : KeepsTrigger ex s op)
    (h : Effect ex s op s') : Covers ex s'.trigger s'.runningMap := by
  cases h with
  | quiet htrigger hmap hdrawn hbooks =>
      rw [htrigger, hmap]
      exact hi
  | opened request entry trigger hop hopen htrigger hs' =>
      subst hs'
      exact hi.add htrigger
  | marginAdded id amount key entry trade hop hget hadd hs' =>
      subst hs'
      intro k e he
      obtain ⟨d, hd, heq⟩ := OrdMap.mem_set.mp he
      obtain ⟨rfl, rfl⟩ := Prod.mk.inj heq
      split_ifs with hk
      · have hmem := getById_mem hget
        have hsame := withAddedMargin_same hadd
        obtain ⟨r, hr, rfl⟩ := withAddedMargin_eq_ok.mp hadd
        exact (hi key entry hmem).of_away hsame rfl (law.away (hp key entry hmem) hr)
      · exact hi d.1 d.2 hd
  | cashedIn id amount key entry trade hop hget hcash hs' =>
      subst hop hs'
      intro k e he
      obtain ⟨d, hd, heq⟩ := OrdMap.mem_set.mp he
      obtain ⟨rfl, rfl⟩ := Prod.mk.inj heq
      split_ifs with hk
      · exact hkeeps (key, entry) hget trade (by rw [hcash]; rfl)
      · exact hi d.1 d.2 hd
  | passed fates acc last hfates hpass hcommit =>
      rw [hcommit.trigger, hcommit.runningMap]
      exact hpass.covers (covers_new _)
  | interrupted candle hop hs' hfail hloop =>
      subst hop hs'
      intro k e he
      exact hkeeps hloop e (OrdMap.value_mem_of_mem_withValuesDesc he)

/-- Along a run of such operations the trigger covers every running trade. -/
theorem run_covers (law : AddedMarginLaw ex.sdk) {ops : List Op}
    (hrun : ((system ex).restrict (KeepsTrigger ex)).Run ops s) :
    Keyed ex s ∧ Priced ex s ∧ Covers ex s.trigger s.runningMap := by
  apply hrun.invariant
  · rintro s ⟨startCandle, startBalance, rfl⟩
    exact ⟨keyed_start, priced_start, covers_new _⟩
  · rintro s op _ ⟨hk, hp, hc⟩ ⟨hkeeps, rfl⟩
    exact ⟨hk.step op.effect, hp.step op.effect, hc.step law hp hkeeps op.effect⟩

/-! ### A candle that reaches nothing changes nothing -/

/-- A price of a tick: rounding leaves it alone. -/
def TickValid (sdk : LnmSdk ε) (x : F64) : Prop := sdk.round x = .ok ⟨x⟩

instance [DecidableEq ε] (sdk : LnmSdk ε) (x : F64) : Decidable (TickValid sdk x) :=
  inferInstanceAs (Decidable (_ = _))

theorem wasReached_set {min max : Price} {x : F64}
    (h : (PriceTrigger.set min max).wasReached x = false) : min.asF64 < x ∧ x < max.asF64 := by
  simpa [PriceTrigger.wasReached] using h

theorem candleExit_buy {candle : OhlcCandleRow} {t : SimulatedTradeRunning} (hside : t.side = .buy)
    (hexit : t.exitBound.asF64 < candle.low) (htake : ∀ p ∈ t.takeprofit, candle.high < p.asF64) :
    candleExit candle t = none := by
  have hfilter : t.takeprofit.filter (fun p => candle.high ≥ p.asF64) = none := by
    rw [Option.filter_eq_none_iff]
    intro p hp
    simpa using htake p hp
  have hmin : (some t.exitBound).filter (fun p => candle.low ≤ p.asF64) = none := by
    simpa [Option.filter_eq_none_iff] using hexit
  simp only [candleExit, hside, hmin, hfilter]

theorem candleExit_sell {candle : OhlcCandleRow} {t : SimulatedTradeRunning}
    (hside : t.side = .sell) (htake : ∀ p ∈ t.takeprofit, p.asF64 < candle.low)
    (hexit : candle.high < t.exitBound.asF64) : candleExit candle t = none := by
  have hfilter : t.takeprofit.filter (fun p => candle.low ≤ p.asF64) = none := by
    rw [Option.filter_eq_none_iff]
    intro p hp
    simpa using htake p hp
  have hmax : (some t.exitBound).filter (fun p => candle.high ≥ p.asF64) = none := by
    simpa [Option.filter_eq_none_iff] using hexit
  simp only [candleExit, hside, hfilter, hmax]

/-- A trailing stoploss whose next trigger is not met stays. -/
theorem trailStoploss_unmet {candle : OhlcCandleRow} {t : SimulatedTradeRunning}
    {tsl : TradeTrailingStoploss} {next : Price}
    (hnext : t.nextStoplossUpdateTrigger ex.sdk ex.config.trailingStoplossStepSize tsl = .ok next)
    (hlow : TickValid ex.sdk candle.low) (hhigh : TickValid ex.sdk candle.high)
    (hclose : TickValid ex.sdk candle.close)
    (hunmet : match t.side with
      | .buy => candle.high < next.asF64
      | .sell => next.asF64 < candle.low) :
    ex.trailStoploss candle t (some tsl) = .ok t := by
  have hkept : ex.trailedStoploss candle t.side tsl next ⟨candle.close⟩ = .ok none := by
    cases hside : t.side with
    | buy =>
        rw [hside] at hunmet
        simp only [trailedStoploss, bind_eq_ok, mapError_eq_ok]
        exact ⟨_, hhigh, if_neg (not_le.mpr hunmet)⟩
    | sell =>
        rw [hside] at hunmet
        simp only [trailedStoploss, bind_eq_ok, mapError_eq_ok]
        exact ⟨_, hlow, if_neg (not_le.mpr hunmet)⟩
  simp only [trailStoploss, bind_eq_ok, mapError_eq_ok]
  exact ⟨next, hnext, _, hclose, none, hkept, rfl⟩

/-- The loop leaves a trade alone when the candle's ends stay within its bounds. -/
theorem candleTrade_untouched {trigger : PriceTrigger} {entry : RunningEntry}
    {candle : OhlcCandleRow} (hw : Within ex trigger entry) (hlow : TickValid ex.sdk candle.low)
    (hhigh : TickValid ex.sdk candle.high) (hclose : TickValid ex.sdk candle.close)
    (hl : trigger.wasReached candle.low = false) (hh : trigger.wasReached candle.high = false) :
    candleExit candle entry.1 = none ∧ ex.trailStoploss candle entry.1 entry.2 = .ok entry.1 := by
  obtain ⟨t, tsl⟩ := entry
  obtain ⟨lower, upper, min, max, hb, rfl, hmin, hmax⟩ := within_iff.mp hw
  have hlower : lower < ⟨candle.low⟩ := lt_of_le_of_lt hmin (wasReached_set hl).1
  have hupper : (⟨candle.high⟩ : Price) < upper := lt_of_lt_of_le (wasReached_set hh).2 hmax
  cases hside : t.side with
  | buy =>
      obtain ⟨rfl, htake, htrail⟩ := SimulatedTradeRunning.bounds_buy hside hb
      refine ⟨candleExit_buy hside hlower fun p hp => hupper.trans_le (htake p hp), ?_⟩
      cases tsl with
      | none => rfl
      | some trailing =>
          obtain ⟨n, hn, hle⟩ := htrail trailing rfl
          apply trailStoploss_unmet hn hlow hhigh hclose
          rw [hside]
          exact hupper.trans_le hle
  | sell =>
      obtain ⟨rfl, htake, htrail⟩ := SimulatedTradeRunning.bounds_sell hside hb
      refine ⟨candleExit_sell hside (fun p hp => (htake p hp).trans_lt hlower) hupper, ?_⟩
      cases tsl with
      | none => rfl
      | some trailing =>
          obtain ⟨n, hn, hle⟩ := htrail trailing rfl
          apply trailStoploss_unmet hn hlow hhigh hclose
          rw [hside]
          exact hle.trans_lt hlower

/-- Over untouched trades the loop only rebuilds the map and the trigger. -/
theorem candleLoop_untouched {trigger : PriceTrigger} {candle : OhlcCandleRow}
    {entries : List RunningEntry} (hw : ∀ entry ∈ entries, Within ex trigger entry)
    (hlow : TickValid ex.sdk candle.low) (hhigh : TickValid ex.sdk candle.high)
    (hclose : TickValid ex.sdk candle.close) (hl : trigger.wasReached candle.low = false)
    (hh : trigger.wasReached candle.high = false) (acc : Pass) :
    ∃ acc', entries.foldlM (ex.candleTrade candle) acc = .ok acc' ∧
      acc'.closedTrades = acc.closedTrades ∧
      acc'.runningMap.trades =
        entries.foldl (fun m entry => m.insert entry.1.reference entry) acc.runningMap.trades := by
  induction entries generalizing acc with
  | nil => exact ⟨acc, rfl, rfl, rfl⟩
  | cons entry rest ih =>
      have hentry := hw entry List.mem_cons_self
      obtain ⟨hexit, htrail⟩ := candleTrade_untouched hentry hlow hhigh hclose hl hh
      obtain ⟨trigger', hup⟩ := update_of_within acc.trigger hentry
      obtain ⟨acc', hfold, hclosed, hmap⟩ := ih (fun e he => hw e (List.mem_cons_of_mem _ he))
        { acc with trigger := trigger', runningMap := acc.runningMap.add entry.1 entry.2 }
      refine ⟨acc', ?_, hclosed, hmap⟩
      have hkeep : ex.candleTrade candle acc entry = .ok { acc with
          trigger := trigger', runningMap := acc.runningMap.add entry.1 entry.2 } := by
        simp only [candleTrade, hexit, htrail, bind_eq_ok, keepRunning_eq_ok]
        exact ⟨_, rfl, trigger', hup, rfl⟩
      rw [List.foldlM_cons, hkeep]
      exact hfold

/-- A candle that the cached trigger skips closes no trade and moves no stoploss, in every run
whose operations keep the trigger conservative. -/
theorem skipped_candle_changes_nothing (law : AddedMarginLaw ex.sdk) {ops : List Op}
    (hrun : ((system ex).restrict (KeepsTrigger ex)).Run ops s) {candle : OhlcCandleRow}
    (hlow : TickValid ex.sdk candle.low) (hclose : TickValid ex.sdk candle.close)
    (hhigh : TickValid ex.sdk candle.high) (hl : s.trigger.wasReached candle.low = false)
    (hh : s.trigger.wasReached candle.high = false) (lastTradeTime : Option ℤ) :
    ∃ acc, ex.candleLoop s candle { startPass s with lastTradeTime } = .ok acc ∧
      acc.closedTrades = [] ∧ acc.runningMap.trades = s.runningMap.trades := by
  obtain ⟨hkeyed, -, hcovers⟩ := run_covers law hrun
  have hw : ∀ entry ∈ s.runningMap.tradesDesc, Within ex s.trigger entry := by
    intro entry he
    obtain ⟨key, hmem⟩ := mem_tradesDesc.mp he
    exact hcovers key entry hmem
  obtain ⟨acc, hloop, hclosed, hmap⟩ := candleLoop_untouched hw hlow hhigh hclose hl hh
    { startPass s with lastTradeTime }
  refine ⟨acc, hloop, hclosed, hmap.trans ?_⟩
  exact OrdMap.foldl_insert_valuesDesc (fun entry => entry.1.reference)
    fun e he => (hkeyed e.1 e.2 he).1

/-- A long stopped at 70000 that has margin added and cashed in above its stoploss. -/
def stoppedOps : List Op :=
  [.call (.isolatedOrder (longOrder 500 2 (some 70000))),
    .call (.isolatedTradeAddMargin ⟨0⟩ 1000), .call (.isolatedTradeCashIn ⟨0⟩ 20000)]

def flatStart : SimulatedTradeExecutorState :=
  referenceExecutor.new (minuteCandle 0 100000 100000 100000 100000) 10000000

def stoppedState : SimulatedTradeExecutorState :=
  performAll referenceExecutor flatStart stoppedOps

theorem skipped_candle_changes_nothing_stopped :
    ∃ acc, referenceExecutor.candleLoop stoppedState (minuteCandle 1 100000 100100 71000 90000)
        { startPass stoppedState with lastTradeTime := none } = .ok acc ∧
      acc.closedTrades = [] ∧ acc.runningMap.trades = stoppedState.runningMap.trades := by
  have hkeeps : System.Along (fun s op => (op.perform referenceExecutor s).1)
      (KeepsTrigger referenceExecutor) flatStart stoppedOps :=
    ⟨trivial, trivial, by unfold KeepsTrigger; decide +kernel, trivial⟩
  exact skipped_candle_changes_nothing ReferenceSdk.addedMarginLaw
    (performAll_run ⟨_, _, rfl⟩ (fun _ _ h => ⟨h, rfl⟩) hkeeps)
    (by decide +kernel) (by decide +kernel) (by decide +kernel) (by decide +kernel)
    (by decide +kernel) none

/-! ### A cash-in leaves the trigger behind -/

/-- A long liquidated at 66666.5, then half its margin cashed in. -/
def cashInOps : List Op :=
  [.call (.isolatedOrder (longOrder 500 2 none)), .call (.isolatedTradeCashIn ⟨0⟩ 125000)]

def cashedInState : SimulatedTradeExecutorState :=
  performAll referenceExecutor flatStart cashInOps

/-- It falls to 79000: below the liquidation at 80000, above the cached 66666.5. -/
def fallingCandle : OhlcCandleRow := minuteCandle 1 100000 100000 79000 90000

theorem cash_in_skips_liquidation :
    (system referenceExecutor).Run cashInOps cashedInState ∧ AddedMarginLaw referenceSdk ∧
      TickValid referenceSdk fallingCandle.low ∧ TickValid referenceSdk fallingCandle.close ∧
      TickValid referenceSdk fallingCandle.high ∧ fallingCandle.low ≤ fallingCandle.close ∧
      fallingCandle.close ≤ fallingCandle.high ∧
      cashedInState.trigger.wasReached fallingCandle.low = false ∧
      cashedInState.trigger.wasReached fallingCandle.high = false ∧
      (referenceExecutor.candleLoop cashedInState fallingCandle (startPass cashedInState)).map
        (fun acc => acc.closedTrades.map (·.id)) = .ok [⟨0⟩] := by
  have hrun : (system referenceExecutor).Run cashInOps cashedInState :=
    performAll_run ⟨_, _, rfl⟩ (fun _ _ (_ : True) => rfl) ⟨trivial, trivial, trivial⟩
  exact ⟨hrun, ReferenceSdk.addedMarginLaw, by decide +kernel⟩

end Executor

end Quantoxide
