import Quantoxide.Library.Matching
import Quantoxide.Verification.Executor.Conservation
import Quantoxide.Verification.Executor.Liquidation
import Quantoxide.Verification.Executor.Trailing
import Quantoxide.Verification.Live.SkippedEvaluations

/-! # A trade in the backtest and in the live session

A candle of a replay and the price range of a live session close the same trades. They move the
same trailing stoplosses too, up to one case: the replay leaves a stoploss where it is that
would move to the candle's close or beyond. -/

namespace Quantoxide.Live

open Executor Matching Result Runs SimulatedTradeExecutor LiveTradingSession

variable {ε : Type} {ex : SimulatedTradeExecutor ε} {sdk : LnmSdk ε} {step : PercentageCapped}
  {candle : OhlcCandleRow} {rangeMin rangeMax : F64}

/-! ### One trade -/

/-- Trades that the same prices close and trail. -/
structure Alike (t u : SimulatedTradeRunning) : Prop where
  id : t.id = u.id
  side : t.side = u.side
  stoploss : t.stoploss = u.stoploss
  takeprofit : t.takeprofit = u.takeprofit
  liquidation : t.liquidation = u.liquidation

variable {t u u' : SimulatedTradeRunning} {tsl : TradeTrailingStoploss}

theorem Alike.refl (t : SimulatedTradeRunning) : Alike t t := ⟨rfl, rfl, rfl, rfl, rfl⟩

theorem Alike.symm (h : Alike t u) : Alike u t :=
  ⟨h.id.symm, h.side.symm, h.stoploss.symm, h.takeprofit.symm, h.liquidation.symm⟩

theorem Alike.trans (h : Alike t u) (h' : Alike u u') : Alike t u' :=
  ⟨h.id.trans h'.id, h.side.trans h'.side, h.stoploss.trans h'.stoploss,
    h.takeprofit.trans h'.takeprofit, h.liquidation.trans h'.liquidation⟩

theorem Alike.withStoploss (h : Alike t u) (stoploss : Option Price) :
    Alike { t with stoploss := stoploss.or t.stoploss }
      { u with stoploss := stoploss.or u.stoploss } := by
  refine ⟨h.id, h.side, ?_, h.takeprofit, h.liquidation⟩
  rw [h.stoploss]

theorem Alike.wasClosedOnRange (h : Alike t u) :
    t.wasClosedOnRange rangeMin rangeMax = u.wasClosedOnRange rangeMin rangeMax := by
  simp only [SimulatedTradeRunning.wasClosedOnRange, h.side, h.stoploss, h.takeprofit,
    h.liquidation]

theorem Alike.evalNewStoplossOnRange (h : Alike t u) :
    t.evalNewStoplossOnRange sdk step tsl rangeMin rangeMax =
      u.evalNewStoplossOnRange sdk step tsl rangeMin rangeMax := by
  simp only [SimulatedTradeRunning.evalNewStoplossOnRange,
    SimulatedTradeRunning.nextStoplossUpdateTrigger, SimulatedTradeRunning.stoplossOnRange, h.id,
    h.side, h.stoploss]

theorem candleExit_eq_none_buy (hside : t.side = .buy) :
    candleExit candle t = none ↔
      t.exitBound.asF64 < candle.low ∧ ∀ p ∈ t.takeprofit, candle.high < p.asF64 := by
  constructor
  · intro hopen
    simp only [candleExit, hside] at hopen
    split at hopen
    · cases hopen
    case h_2 hbound =>
      refine ⟨?_, ?_⟩
      · simpa [Option.filter] using hbound
      · simpa [Option.filter_eq_none_iff] using hopen
  · rintro ⟨hexit, htake⟩
    exact candleExit_buy hside hexit htake

theorem candleExit_eq_none_sell (hside : t.side = .sell) :
    candleExit candle t = none ↔
      candle.high < t.exitBound.asF64 ∧ ∀ p ∈ t.takeprofit, p.asF64 < candle.low := by
  constructor
  · intro hopen
    simp only [candleExit, hside] at hopen
    split at hopen
    · cases hopen
    case h_2 htake =>
      refine ⟨?_, ?_⟩
      · simpa [Option.filter] using hopen
      · simpa [Option.filter_eq_none_iff] using htake
  · rintro ⟨hexit, htake⟩
    exact candleExit_sell hside htake hexit

theorem not_closed_buy (hstops : t.StopsFirst) (hside : t.side = .buy) :
    t.wasClosedOnRange rangeMin rangeMax = false ↔
      t.exitBound.asF64 < rangeMin ∧ ∀ p ∈ t.takeprofit, rangeMax < p.asF64 := by
  obtain ⟨hstoploss, hliquidation⟩ := hstops.le_exitBound hside
  simp only [SimulatedTradeRunning.wasClosedOnRange, hside, Bool.or_eq_false_iff,
    Option.any_eq_false, decide_eq_false_iff_not, ge_iff_le, not_le]
  refine and_congr_left fun _ => ⟨fun hopen => ?_, fun hopen => ⟨fun p hp => ?_, ?_⟩⟩
  · unfold SimulatedTradeRunning.exitBound
    cases hstop : t.stoploss with
    | none => exact hopen.2
    | some p => exact hopen.1 p hstop
  · exact (Price.le_iff.mp (hstoploss p hp)).trans_lt hopen
  · exact (Price.le_iff.mp hliquidation).trans_lt hopen

theorem not_closed_sell (hstops : t.StopsFirst) (hside : t.side = .sell) :
    t.wasClosedOnRange rangeMin rangeMax = false ↔
      rangeMax < t.exitBound.asF64 ∧ ∀ p ∈ t.takeprofit, p.asF64 < rangeMin := by
  obtain ⟨hstoploss, hliquidation⟩ := hstops.exitBound_le hside
  simp only [SimulatedTradeRunning.wasClosedOnRange, hside, Bool.or_eq_false_iff,
    Option.any_eq_false, decide_eq_false_iff_not, ge_iff_le, not_le]
  refine and_congr_left fun _ => ⟨fun hopen => ?_, fun hopen => ⟨fun p hp => ?_, ?_⟩⟩
  · unfold SimulatedTradeRunning.exitBound
    cases hstop : t.stoploss with
    | none => exact hopen.2
    | some p => exact hopen.1 p hstop
  · exact hopen.trans_le (Price.le_iff.mp (hstoploss p hp))
  · exact hopen.trans_le (Price.le_iff.mp hliquidation)

/-- A candle closes the trades that its range closes. -/
theorem candleExit_eq_none_iff (hstops : t.StopsFirst) :
    candleExit candle t = none ↔ t.wasClosedOnRange candle.low candle.high = false := by
  cases hside : t.side with
  | buy => rw [candleExit_eq_none_buy hside, not_closed_buy hstops hside]
  | sell => rw [candleExit_eq_none_sell hside, not_closed_sell hstops hside]

/-- A range's best price moves a trailing stoploss alike on both sides. -/
theorem stoplossOnRange_sided {trigger : F64} :
    t.stoplossOnRange sdk tsl trigger rangeMin rangeMax = (do
      let new ← if t.side.NotBeyond ⟨trigger⟩ ⟨t.side.best rangeMin rangeMax⟩ then do
          let p ← (sdk.round (t.side.best rangeMin rangeMax)).mapError
            (.invalidPriceRounding (t.side.best rangeMin rangeMax))
          let new ← (t.side.retreat sdk p tsl.perc).mapError fun e => match t.side with
            | .buy => .invalidPriceApplyDiscount p tsl.perc e
            | .sell => .invalidPriceApplyGain p tsl.perc e
          pure (some new)
        else pure none
      pure (new.filter fun p => some p ≠ t.stoploss)) := by
  unfold SimulatedTradeRunning.stoplossOnRange
  cases hside : t.side <;> rfl

/-- Rounding leaves the prices of the candle alone. -/
structure TickCandle (sdk : LnmSdk ε) (candle : OhlcCandleRow) : Prop where
  low : TickValid sdk candle.low
  high : TickValid sdk candle.high
  close : TickValid sdk candle.close

theorem TickCandle.best (h : TickCandle sdk candle) (side : TradeSide) :
    sdk.round (side.best candle.low candle.high) = .ok ⟨side.best candle.low candle.high⟩ := by
  cases side with
  | buy => exact h.high
  | sell => exact h.low

/-- The candle moves a trailing stoploss where its range does, when that is before the close,
and leaves the trade as it was when it is not. -/
theorem trailStoploss_cases {new : Option Price} (htick : TickCandle ex.sdk candle)
    (hnew : t.evalNewStoplossOnRange ex.sdk ex.config.trailingStoplossStepSize tsl candle.low
      candle.high = .ok new)
    (htrail : ex.trailStoploss candle t (some tsl) = .ok u) :
    (Alike { t with stoploss := new.or t.stoploss } u ∧
      ∀ p ∈ new, Before t.side p ⟨candle.close⟩) ∨
    (u = t ∧ ∃ p, new = some p ∧ some p ≠ t.stoploss ∧ ¬ Before t.side p ⟨candle.close⟩) := by
  simp only [SimulatedTradeRunning.evalNewStoplossOnRange, bind_eq_ok] at hnew
  obtain ⟨trigger, htrigger, hnew⟩ := hnew
  simp only [trailStoploss, bind_eq_ok, mapError_eq_ok] at htrail
  obtain ⟨_, htrigger', market, hmarket, moved, hmoved, htrail⟩ := htrail
  obtain rfl := Except.ok.inj (htrigger.symm.trans htrigger')
  obtain rfl := Except.ok.inj (htick.close.symm.trans hmarket)
  simp only [trailedStoploss_sided, bind_eq_ok, mapError_eq_ok, htick.best, Except.ok.injEq,
    exists_eq_left'] at hmoved
  simp only [stoplossOnRange_sided] at hnew
  by_cases hmet : t.side.NotBeyond trigger ⟨t.side.best candle.low candle.high⟩
  · simp only [hmet, if_true, bind_eq_ok, mapError_eq_ok, htick.best, Except.ok.injEq,
      exists_eq_left', pure_eq_ok] at hmoved hnew
    obtain ⟨q, hq, rfl⟩ := hmoved
    obtain ⟨_, hq', rfl⟩ := hnew
    obtain rfl := Except.ok.inj (hq.symm.trans hq')
    have hsame : some q = t.stoploss → Option.filter (fun p => some p ≠ t.stoploss) (some q) =
        none := by
      intro hstop
      simp [Option.filter, hstop]
    have hother : some q ≠ t.stoploss → Option.filter (fun p => some p ≠ t.stoploss) (some q) =
        some q := by
      intro hstop
      simp [Option.filter, hstop]
    by_cases hbefore : Before t.side q ⟨candle.close⟩
    · -- Both sides move the stoploss, or find it there already.
      rw [if_pos hbefore] at htrail
      obtain ⟨-, rfl⟩ := withNewStoploss_eq_ok.mp htrail
      left
      by_cases hstop : some q = t.stoploss
      · rw [hsame hstop]
        exact ⟨⟨rfl, rfl, hstop.symm, rfl, rfl⟩, by simp⟩
      · rw [hother hstop]
        refine ⟨⟨rfl, rfl, rfl, rfl, rfl⟩, ?_⟩
        rintro p ⟨⟩
        exact hbefore
    · rw [if_neg hbefore] at htrail
      obtain rfl := pure_eq_ok.mp htrail
      by_cases hstop : some q = t.stoploss
      · rw [hsame hstop]
        exact Or.inl ⟨⟨rfl, rfl, rfl, rfl, rfl⟩, by simp⟩
      · exact Or.inr ⟨rfl, q, hother hstop, hstop, hbefore⟩
  · rw [if_neg hmet] at hmoved hnew
    obtain rfl := pure_eq_ok.mp hmoved
    obtain rfl := pure_eq_ok.mp hnew
    obtain rfl := pure_eq_ok.mp htrail
    exact Or.inl ⟨⟨rfl, rfl, rfl, rfl, rfl⟩, by simp⟩

theorem trailStoploss_alike_iff {new : Option Price} (htick : TickCandle ex.sdk candle)
    (hnew : t.evalNewStoplossOnRange ex.sdk ex.config.trailingStoplossStepSize tsl candle.low
      candle.high = .ok new)
    (htrail : ex.trailStoploss candle t (some tsl) = .ok u) :
    Alike { t with stoploss := new.or t.stoploss } u ↔
      ∀ p ∈ new, Before t.side p ⟨candle.close⟩ := by
  rcases trailStoploss_cases htick hnew htrail with ⟨halike, hbefore⟩ | ⟨rfl, p, rfl, hne, hbeyond⟩
  · exact iff_of_true halike hbefore
  · exact iff_of_false (fun halike => hne halike.stoploss) fun hall => hbeyond (hall p rfl)

/-! ### The replay -/

variable {s s' : SimulatedTradeExecutorState}

theorem mem_tradesDesc_add {m : RunningTradesMap} {e e' : RunningEntry}
    (hnew : ∀ a, (e.1.reference, a) ∉ m.trades) :
    e' ∈ (m.add e.1 e.2).tradesDesc ↔ e' ∈ m.tradesDesc ∨ e' = e := by
  rw [mem_tradesDesc, mem_tradesDesc]
  constructor
  · rintro ⟨key, hmem⟩
    rcases OrdMap.mem_of_mem_insert hmem with heq | hold
    · exact Or.inr (Prod.mk.inj heq).2
    · exact Or.inl ⟨key, hold⟩
  · rintro (⟨key, hmem⟩ | rfl)
    · refine ⟨key, OrdMap.mem_insert_of_ne hmem ?_⟩
      rintro rfl
      exact hnew e' hmem
    · exact ⟨_, OrdMap.mem_insert_self⟩

/-- The trades after a pass are what the kept ones become. -/
theorem mem_of_passes {fates : Fates ε} {P : RunningEntry → RunningEntry → Prop}
    (hkeep : ∀ e t fee, fates.keeps e t fee →
      t.reference = e.1.reference ∧ ∀ e', P e e' ↔ e' = (t, e.2))
    (hclose : ∀ e c fee, fates.closes e c fee → ∀ e', ¬ P e e') {entries : List RunningEntry}
    {acc acc' : Pass} (h : Passes ex fates entries acc acc')
    (hnodup : (entries.map fun e => e.1.reference).Nodup)
    (hnew : ∀ e ∈ entries, ∀ a, (e.1.reference, a) ∉ acc.runningMap.trades) (e' : RunningEntry) :
    e' ∈ acc'.runningMap.tradesDesc ↔
      e' ∈ acc.runningMap.tradesDesc ∨ ∃ e ∈ entries, P e e' := by
  induction h with
  | nil acc => simp
  | @keep entry trade rest acc acc' fee trigger hfate _ _ ih =>
      obtain ⟨hentry, hrest⟩ := List.nodup_cons.mp hnodup
      obtain ⟨href, hbecomes⟩ := hkeep entry trade fee hfate
      have hfresh : ∀ a, (trade.reference, a) ∉ acc.runningMap.trades := by
        rw [href]
        exact hnew entry List.mem_cons_self
      rw [ih hrest ?_, List.exists_mem_cons_iff, hbecomes,
        mem_tradesDesc_add (e := (trade, entry.2)) hfresh, or_assoc]
      intro e he a hmem
      rcases OrdMap.mem_of_mem_insert hmem with heq | hmem
      · have hkey : e.1.reference = trade.reference := congrArg Prod.fst heq
        exact hentry (List.mem_map.mpr ⟨e, he, hkey.trans href⟩)
      · exact hnew e (List.mem_cons_of_mem _ he) a hmem
  | @close entry closed rest acc acc' fee last hfate _ ih =>
      obtain ⟨-, hrest⟩ := List.nodup_cons.mp hnodup
      rw [ih hrest fun e he => hnew e (List.mem_cons_of_mem _ he), List.exists_mem_cons_iff,
        or_iff_right (a := P entry e') (hclose entry closed fee hfate e')]
      rfl

theorem becomes_of_passes {op : Op} {fates : Fates ε} {P : RunningEntry → RunningEntry → Prop}
    (hfates : op.fates ex s = some fates) (hi : Executor.Keyed ex s)
    (hkeep : ∀ e t fee, fates.keeps e t fee → ∀ e', P e e' ↔ e' = (t, e.2))
    (hclose : ∀ e c fee, fates.closes e c fee → ∀ e', ¬ P e e') {last : Option ℤ} {acc : Pass}
    (h : Passes ex fates s.runningMap.tradesDesc { startPass s with lastTradeTime := last } acc) :
    Becomes P s.runningMap.tradesDesc acc.runningMap.tradesDesc := by
  have hmem := mem_of_passes (P := P)
    (fun e t fee hk => ⟨(keeps_same hfates hk).1.reference, hkeep e t fee hk⟩) hclose h hi.nodup
    (fun e _ a hmem => by
      simp [startPass, RunningTradesMap.new, OrdMap.empty, OrdMap.mem_def] at hmem)
  have hempty : ∀ e', e' ∉ RunningTradesMap.new.tradesDesc := by
    intro e' he'
    simp [RunningTradesMap.new, RunningTradesMap.tradesDesc, OrdMap.empty,
      OrdMap.valuesDesc] at he'
  constructor
  · rintro e he ⟨e', hP⟩
    exact ⟨e', (hmem e').mpr (Or.inr ⟨e, he, hP⟩), hP⟩
  · intro e' he'
    exact ((hmem e').mp he').resolve_left (hempty e')

/-- The candle leaves the trade running, with its stoploss trailed. -/
def Replays (ex : SimulatedTradeExecutor ε) (candle : OhlcCandleRow) (e e' : RunningEntry) : Prop :=
  candleExit candle e.1 = none ∧ ex.trailStoploss candle e.1 e.2 = .ok e'.1 ∧ e'.2 = e.2

/-- Every trade has met one of the two fates. -/
theorem fate_of_passes {fates : Fates ε} {entries : List RunningEntry} {acc acc' : Pass}
    (h : Passes ex fates entries acc acc') {e : RunningEntry} (he : e ∈ entries) :
    (∃ t fee, fates.keeps e t fee) ∨ ∃ c fee, fates.closes e c fee := by
  induction h with
  | nil acc => cases he
  | @keep entry trade rest acc acc' fee trigger hfate _ _ ih =>
      rcases List.mem_cons.mp he with rfl | he
      · exact Or.inl ⟨trade, fee, hfate⟩
      · exact ih he
  | @close entry closed rest acc acc' fee last hfate _ ih =>
      rcases List.mem_cons.mp he with rfl | he
      · exact Or.inr ⟨closed, fee, hfate⟩
      · exact ih he

theorem candle_becomes (hi : Executor.Keyed ex s) (hcovers : Covers ex s.trigger s.runningMap)
    (htick : TickCandle ex.sdk candle) (h : ex.candleUpdate s candle = (s', .ok ())) :
    Becomes (Replays ex candle) s.runningMap.tradesDesc s'.runningMap.tradesDesc ∧
      ∀ e ∈ s.runningMap.tradesDesc, candleExit candle e.1 = none →
        ∃ e', Replays ex candle e e' := by
  rcases candleUpdate_cases h with ⟨hlow, hhigh, pos, last, rfl⟩ | ⟨-, acc, last, hpass, hcommit⟩
  · have hsame : ∀ e ∈ s.runningMap.tradesDesc, Replays ex candle e e := by
      intro e he
      obtain ⟨key, hmem⟩ := mem_tradesDesc.mp he
      obtain ⟨hexit, htrail⟩ := candleTrade_untouched (hcovers key e hmem) htick.low htick.high
        htick.close hlow hhigh
      exact ⟨hexit, htrail, rfl⟩
    exact ⟨⟨fun e he _ => ⟨e, he, hsame e he⟩, fun e he => ⟨e, he, hsame e he⟩⟩,
      fun e he _ => ⟨e, hsame e he⟩⟩
  · rw [hcommit.runningMap]
    have hfates : (Op.candleUpdate candle).fates ex s = some (candleFates ex candle) := rfl
    refine ⟨becomes_of_passes hfates hi ?_ ?_ hpass, fun e he hopen => ?_⟩
    · rintro e t fee ⟨-, hexit, htrail⟩ ⟨t', tsl'⟩
      constructor
      · rintro ⟨-, htrail', rfl⟩
        exact congrArg (·, e.2) (Except.ok.inj (htrail'.symm.trans htrail))
      · rintro ⟨⟩
        exact ⟨hexit, htrail, rfl⟩
    · rintro e c fee ⟨-, price, hexit, -⟩ e' ⟨hopen, -⟩
      rw [hopen] at hexit
      cases hexit
    · rcases fate_of_passes hpass he with ⟨t, _, -, -, htrail⟩ | ⟨_, _, -, price, hexit, -⟩
      · exact ⟨(t, e.2), hopen, htrail, rfl⟩
      · rw [hopen] at hexit
        cases hexit

theorem close_becomes {op : Op} {close : Close} {acc : Pass} {last : Option ℤ}
    (hi : Executor.Keyed ex s) (hfates : op.fates ex s = some (closeFates ex s.time close))
    (hpass : Passes ex (closeFates ex s.time close) s.runningMap.tradesDesc
      { startPass s with lastTradeTime := last } acc) :
    Becomes (fun e e' => close.selects e.1 = false ∧ e' = e) s.runningMap.tradesDesc
      acc.runningMap.tradesDesc := by
  refine becomes_of_passes hfates hi ?_ ?_ hpass
  · rintro e t fee ⟨-, hkept, rfl⟩ e'
    exact ⟨fun h => h.2, fun h => ⟨hkept, h⟩⟩
  · rintro e c fee ⟨-, hselected, -⟩ e' ⟨hkept, -⟩
    rw [hselected] at hkept
    cases hkept

/-! ### The live session -/

variable {session session' : LiveTradingSession} {sources : EvaluationSources ε} {e e' : TradeEntry}
  {closed : List Trade} {checks : RangeChecks}

/-- The stoploss that a range moves a trade to. -/
def MovesTo (sdk : LnmSdk ε) (step : PercentageCapped) (rangeMin rangeMax : F64)
    (e : RunningEntry) (new : Option Price) : Prop :=
  match e.2 with
  | none => new = none
  | some tsl => e.1.evalNewStoplossOnRange sdk step tsl rangeMin rangeMax = .ok new

/-- The trade as the methods of `TradeRunning` read it, with its trailing stoploss. -/
def asEntry (e : TradeEntry) : RunningEntry := (e.1.asRunning, e.2)

/-- The range leaves the trade running, with its stoploss moved. -/
def Evaluates (sdk : LnmSdk ε) (step : PercentageCapped) (rangeMin rangeMax : F64)
    (e e' : TradeEntry) : Prop :=
  e.1.wasClosedOnRange rangeMin rangeMax = false ∧ e'.2 = e.2 ∧ ∃ new,
    MovesTo sdk step rangeMin rangeMax (asEntry e) new ∧
    Alike e'.1.asRunning { e.1.asRunning with stoploss := new.or e.1.asRunning.stoploss }

/-- An update of a stoploss is answered with the trade, its stoploss moved. -/
def MovesStoplosses (session : LiveTradingSession) (sources : EvaluationSources ε) : Prop :=
  ∀ id p t, sources.updateStoploss id p = .ok t → ∀ e ∈ session.runningMap.tradesDesc,
    e.1.id = id → Alike t.asRunning { e.1.asRunning with stoploss := some p }

/-- What the loop over the running trades has found. -/
structure Checked (sdk : LnmSdk ε) (step : PercentageCapped) (rangeMin rangeMax : F64)
    (entries : List TradeEntry) (checks : RangeChecks) : Prop where
  closes : ∀ id, id ∈ checks.toConfirmClosed ↔
    ∃ e ∈ entries, e.1.wasClosedOnRange rangeMin rangeMax = true ∧ e.1.id = id
  moves : ∀ e ∈ entries, e.1.wasClosedOnRange rangeMin rangeMax = false →
    ∃ new, MovesTo sdk step rangeMin rangeMax (asEntry e) new
  updates : ∀ id p, (id, p) ∈ checks.toUpdate ↔
    ∃ e ∈ entries, e.1.wasClosedOnRange rangeMin rangeMax = false ∧ e.1.id = id ∧
      MovesTo sdk step rangeMin rangeMax (asEntry e) (some p)

theorem MovesTo.unique {e : RunningEntry} {new new' : Option Price}
    (h : MovesTo sdk step rangeMin rangeMax e new)
    (h' : MovesTo sdk step rangeMin rangeMax e new') : new = new' := by
  unfold MovesTo at h h'
  cases htsl : e.2 with
  | none =>
      simp only [htsl] at h h'
      rw [h, h']
  | some tsl =>
      simp only [htsl] at h h'
      exact Except.ok.inj (h.symm.trans h')

/-- One more trade, which is closed or asks for the stoploss it moves to. -/
theorem checkOnRange_eq_ok {acc : RangeChecks}
    (h : session.checkOnRange sdk rangeMin rangeMax acc e = .ok checks) :
    (e.1.wasClosedOnRange rangeMin rangeMax = true ∧
      checks = { acc with toConfirmClosed := acc.toConfirmClosed.insert e.1.id }) ∨
    (e.1.wasClosedOnRange rangeMin rangeMax = false ∧ ∃ new,
      MovesTo sdk session.tslStepSize rangeMin rangeMax (asEntry e) new ∧
      checks = { acc with toUpdate := acc.toUpdate ++ new.toList.map (e.1.id, ·) }) := by
  obtain ⟨t, tsl⟩ := e
  unfold LiveTradingSession.checkOnRange at h
  dsimp only at h
  split_ifs at h with hclosed
  · obtain rfl := Except.ok.inj h
    exact Or.inl ⟨hclosed, rfl⟩
  · refine Or.inr ⟨by simpa using hclosed, ?_⟩
    cases tsl with
    | none =>
        obtain rfl := Except.ok.inj h
        exact ⟨none, rfl, by simp⟩
    | some tsl =>
        simp only [bind_eq_ok, mapError_eq_ok] at h
        obtain ⟨new, hnew, h⟩ := h
        refine ⟨new, hnew, ?_⟩
        cases new with
        | none =>
            obtain rfl := pure_eq_ok.mp h
            simp
        | some p =>
            obtain rfl := pure_eq_ok.mp h
            rfl

theorem exists_mem_concat {α : Type*} {Q : α → Prop} {done : List α} {a : α} :
    (∃ e ∈ done ++ [a], Q e) ↔ (∃ e ∈ done, Q e) ∨ Q a := by
  simp [or_and_right, exists_or]

theorem checked_of_ok {entries : List TradeEntry}
    (h : entries.foldlM (session.checkOnRange sdk rangeMin rangeMax) ⟨[], []⟩ = .ok checks) :
    Checked sdk session.tslStepSize rangeMin rangeMax entries checks := by
  refine foldlM_invariant (P := Checked sdk session.tslStepSize rangeMin rangeMax) h
    ⟨by simp, by simp, by simp⟩ ?_
  intro done e rest acc acc' _ hacc hstep
  rcases checkOnRange_eq_ok hstep with ⟨hclosed, rfl⟩ | ⟨hopen, new, hnew, rfl⟩
  · refine ⟨fun id => ?_, ?_, fun id p => ?_⟩
    · rw [List.mem_insert_iff, hacc.closes, exists_mem_concat, or_comm, eq_comm]
      simp [hclosed]
    · intro e' he' hopen
      rcases List.mem_append.mp he' with he' | he'
      · exact hacc.moves e' he' hopen
      · obtain rfl := List.mem_singleton.mp he'
        rw [hclosed] at hopen
        cases hopen
    · rw [hacc.updates, exists_mem_concat]
      simp [hclosed]
  · refine ⟨fun id => ?_, ?_, fun id p => ?_⟩
    · rw [hacc.closes, exists_mem_concat]
      simp [hopen]
    · intro e' he' hopen'
      rcases List.mem_append.mp he' with he' | he'
      · exact hacc.moves e' he' hopen'
      · obtain rfl := List.mem_singleton.mp he'
        exact ⟨new, hnew⟩
    · have hlast : (id, p) ∈ new.toList.map (e.1.id, ·) ↔ e.1.id = id ∧
          MovesTo sdk session.tslStepSize rangeMin rangeMax (asEntry e) (some p) := by
        rw [List.mem_map]
        constructor
        · rintro ⟨q, hq, ⟨⟩⟩
          obtain rfl := Option.mem_toList.mp hq
          exact ⟨rfl, hnew⟩
        · rintro ⟨rfl, hp⟩
          obtain rfl := hnew.unique hp
          exact ⟨p, by simp, rfl⟩
      rw [List.mem_append, hacc.updates, exists_mem_concat, hlast]
      simp [hopen]

/-- The page that confirms closures is of exactly the trades that were to be confirmed. -/
theorem confirmClosures_ids {ids : List Uuid}
    (h : (confirmClosures sources ids : ActionResult ε _) = .ok closed) :
    ∀ id, id ∈ closed.map (·.id) ↔ id ∈ ids := by
  unfold confirmClosures at h
  split_ifs at h with hempty
  · obtain rfl := Except.ok.inj h
    rw [List.isEmpty_iff.mp hempty]
    simp
  · simp only [bind_eq_ok, mapError_eq_ok] at h
    obtain ⟨page, -, unconfirmed, hfold, h⟩ := h
    cases unconfirmed with
    | cons id rest => cases h
    | nil =>
        obtain rfl := pure_eq_ok.mp h
        have hperm : (page.map Trade.id ++ []).Perm ids := by
          refine foldlM_invariant (P := fun done acc => (done.map Trade.id ++ acc).Perm ids) hfold
            (.refl _) ?_
          intro done t rest acc acc' _ hacc hstep
          unfold confirmOne at hstep
          split_ifs at hstep with hmem
          obtain rfl := Except.ok.inj hstep
          have herase := List.perm_cons_erase (List.contains_iff_mem.mp hmem)
          rw [List.map_append, List.map_singleton, List.append_assoc]
          exact (herase.symm.append_left _).trans hacc
        intro id
        rw [← hperm.mem_iff, List.append_nil]

/-- The answers to the updates rewrite the trades that asked for one, to where they move. -/
theorem rewritten_alike {updated : List Trade} (hs : session.Sound sdk)
    (hmoves : MovesStoplosses session sources)
    (hchecked : Checked sdk step rangeMin rangeMax session.runningMap.tradesDesc checks)
    (hupdated : (checks.toUpdate.mapM fun update => (sources.updateStoploss update.1
      update.2).mapError .restApi : ActionResult ε _) = .ok updated)
    (he : e ∈ session.runningMap.tradesDesc)
    (hopen : e.1.wasClosedOnRange rangeMin rangeMax = false) :
    Evaluates sdk step rangeMin rangeMax e (rewritten (tradesById updated) e) := by
  obtain ⟨new, hnew⟩ := hchecked.moves e he hopen
  refine ⟨hopen, rfl, new, hnew, ?_⟩
  -- An answer under the id of the trade is the one to its own update.
  have hown : ∀ t ∈ updated, t.id = e.1.id → ∃ p, new = some p ∧
      Alike t.asRunning { e.1.asRunning with stoploss := some p } := by
    intro t ht hid
    obtain ⟨⟨id, p⟩, hasked, hanswer⟩ := (mem_of_mapM hupdated).mp ht
    obtain ⟨c, hc, -, rfl, hcmoves⟩ := (hchecked.updates id p).mp hasked
    have halike := hmoves _ _ _ (mapError_eq_ok.mp hanswer) c hc rfl
    obtain rfl := hs.consistent.eq_of_id hc he (halike.id.symm.trans hid)
    exact ⟨p, hnew.unique hcmoves, halike⟩
  unfold rewritten
  cases hget : (tradesById updated).get e.1.id with
  | some t =>
      obtain ⟨ht, hid⟩ := mem_of_get_tradesById hget
      obtain ⟨p, rfl, halike⟩ := hown t ht hid
      exact halike
  | none =>
      cases new with
      | none => exact .refl _
      | some p =>
          have hasked := (hchecked.updates e.1.id p).mpr ⟨e, he, hopen, rfl, hnew⟩
          obtain ⟨t, hanswer⟩ := mapM_isOk.mp ⟨updated, hupdated⟩ _ hasked
          have ht : t ∈ updated := (mem_of_mapM hupdated).mpr ⟨_, hasked, hanswer⟩
          have halike := hmoves _ _ _ (mapError_eq_ok.mp hanswer) e he rfl
          have hid : t.id ∈ updated.map (·.id) := List.mem_map_of_mem ht
          rw [show t.id = e.1.id from halike.id] at hid
          exact absurd hid (get_tradesById_eq_none.mp hget)

/-- The session goes on as it was set up: sound, and with the trigger of its trades. -/
structure Carries (sdk : LnmSdk ε) (session session' : LiveTradingSession) : Prop where
  tslStepSize : session'.tslStepSize = session.tslStepSize
  sound : session'.Sound sdk
  summarised : Summarised sdk session'

theorem refreshOnLiquidation_same
    (h : session.refreshOnLiquidation sources rangeMin rangeMax = .ok session')
    (hs : session.Sound sdk) (hsummarised : Summarised sdk session) :
    SameTrades session session' ∧ session'.Sound sdk ∧ Summarised sdk session' := by
  unfold refreshOnLiquidation at h
  split_ifs at h
  · simp only [LiveTradingSession.refreshCrossPosition, bind_eq_ok] at h
    obtain ⟨raw, -, hreplaced⟩ := h
    have hsame := sameTrades_replaceCrossPosition hreplaced
    exact ⟨hsame, hsame.sound hs, summarised_replaceCrossPosition hsummarised hreplaced⟩
  · obtain rfl := Except.ok.inj h
    exact ⟨.refl _, hs, hsummarised⟩

/-- What an evaluation leaves of the running trades. -/
theorem evaluation_becomes (hs : session.Sound sdk) (hsummarised : Summarised sdk session)
    (hstops : ∀ e ∈ session.runningMap.tradesDesc, e.1.asRunning.StopsFirst)
    (hmoves : MovesStoplosses session sources)
    (h : session.evaluateOnRange sdk sources rangeMin rangeMax = .ok (session', closed)) :
    Carries sdk session session' ∧
    Becomes (Evaluates sdk session.tslStepSize rangeMin rangeMax) session.runningMap.tradesDesc
      session'.runningMap.tradesDesc ∧
    ∀ e ∈ session.runningMap.tradesDesc, e.1.wasClosedOnRange rangeMin rangeMax = false →
      ∃ e', Evaluates sdk session.tslStepSize rangeMin rangeMax e e' := by
  simp only [evaluateOnRange, bind_eq_ok] at h
  obtain ⟨refreshed, hrefresh, h⟩ := h
  obtain ⟨hsame, hs, hsummarised⟩ := refreshOnLiquidation_same hrefresh hs hsummarised
  suffices hfrom : Carries sdk refreshed session' ∧
      Becomes (Evaluates sdk refreshed.tslStepSize rangeMin rangeMax)
        refreshed.runningMap.tradesDesc session'.runningMap.tradesDesc ∧
      ∀ e ∈ refreshed.runningMap.tradesDesc, e.1.wasClosedOnRange rangeMin rangeMax = false →
        ∃ e', Evaluates sdk refreshed.tslStepSize rangeMin rangeMax e e' by
    rw [hsame.runningMap, hsame.tslStepSize] at hfrom
    exact ⟨⟨hfrom.1.tslStepSize.trans hsame.tslStepSize, hfrom.1.sound, hfrom.1.summarised⟩,
      hfrom.2⟩
  rw [← hsame.runningMap] at hstops
  have hmoves : MovesStoplosses refreshed sources := by
    unfold MovesStoplosses
    rw [hsame.runningMap]
    exact hmoves
  clear hsame hrefresh
  split_ifs at h with hskip
  · obtain ⟨rfl, -⟩ := Prod.mk.inj (pure_eq_ok.mp h)
    rw [Bool.and_eq_true, Bool.not_eq_true', Bool.not_eq_true'] at hskip
    have hstays : ∀ e ∈ refreshed.runningMap.tradesDesc,
        Evaluates sdk refreshed.tslStepSize rangeMin rangeMax e e := by
      intro e he
      obtain ⟨hopen, hkept⟩ :=
        unreached_entry hsummarised hskip.1 hskip.2 he (hstops e he)
      refine ⟨hopen, rfl, none, ?_, .refl _⟩
      cases htsl : e.2 with
      | none => simp [MovesTo, asEntry, htsl]
      | some tsl =>
          simp only [MovesTo, asEntry, htsl]
          exact hkept tsl htsl
    exact ⟨⟨rfl, hs, hsummarised⟩, ⟨fun e he _ => ⟨e, he, hstays e he⟩,
      fun e he => ⟨e, he, hstays e he⟩⟩, fun e he _ => ⟨e, hstays e he⟩⟩
  · simp only [bind_eq_ok, pure_eq_ok] at h
    obtain ⟨checks, hchecks, confirmed, hconfirmed, updated, hupdated, moved, hmoved, left, hleft,
      heq⟩ := h
    obtain ⟨rfl, rfl⟩ := Prod.mk.inj heq
    have hchecked := checked_of_ok hchecks
    have hkeyed := keyed_tradesById updated
    obtain ⟨hupdates, hs'⟩ := updates_of_ok hs hkeyed hmoved
    obtain ⟨hcloses, hs'', -⟩ := closes_of_ok hs' hleft
    have hsummarised' := summarised_close hs' (summarised_update hs hkeyed hsummarised hmoved) hleft
    refine ⟨⟨hcloses.tslStepSize.trans hupdates.tslStepSize, hs'', hsummarised'⟩, ?_,
      fun e he hopen => ⟨_, rewritten_alike hs hmoves hchecked hupdated he hopen⟩⟩
    have hmem : ∀ e', e' ∈ left.runningMap.tradesDesc ↔ ∃ e ∈ refreshed.runningMap.tradesDesc,
        e.1.wasClosedOnRange rangeMin rangeMax = false ∧ e' = rewritten (tradesById updated) e := by
      have hkept : ∀ e ∈ refreshed.runningMap.tradesDesc, e.1.id ∉ confirmed.map (·.id) ↔
          e.1.wasClosedOnRange rangeMin rangeMax = false := by
        intro e he
        rw [confirmClosures_ids hconfirmed, hchecked.closes, ← Bool.not_eq_true, not_iff_not]
        constructor
        · rintro ⟨c, hc, hclosed, hid⟩
          rwa [hs.consistent.eq_of_id hc he hid] at hclosed
        · exact fun hclosed => ⟨e, he, hclosed, rfl⟩
      intro e'
      rw [hcloses.mem_iff, hupdates.mem_iff]
      constructor
      · rintro ⟨⟨e, he, rfl⟩, hleft⟩
        rw [rewritten_id hkeyed] at hleft
        exact ⟨e, he, (hkept e he).mp hleft, rfl⟩
      · rintro ⟨e, he, hopen, rfl⟩
        refine ⟨⟨e, he, rfl⟩, ?_⟩
        rw [rewritten_id hkeyed]
        exact (hkept e he).mpr hopen
    constructor
    · rintro e he ⟨e', hopen, -⟩
      exact ⟨_, (hmem _).mpr ⟨e, he, hopen, rfl⟩,
        rewritten_alike hs hmoves hchecked hupdated he hopen⟩
    · intro e' he'
      obtain ⟨e, he, hopen, rfl⟩ := (hmem e').mp he'
      exact ⟨e, he, rewritten_alike hs hmoves hchecked hupdated he hopen⟩

end Quantoxide.Live
