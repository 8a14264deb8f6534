import Quantoxide.Verification.Executor.Trigger

/-! # Liquidation

A trade is stopped at its stoploss, or at its liquidation when it has none. A candle that
reaches the liquidation of a trade closes it, as long as no settlement has moved the
liquidation past the stoploss. -/

namespace Quantoxide.Executor

open Result SimulatedTradeExecutor Runs

variable {ε : Type} {ex : SimulatedTradeExecutor ε} {s s' : SimulatedTradeExecutorState}

/-! ### The prices of a trade stay in order -/

/-- No price of the trade lies beyond its liquidation. -/
structure PricesOrdered (sdk : LnmSdk ε) (t : SimulatedTradeRunning) : Prop where
  liquidates : Liquidates sdk t.side t.quantity t.price t.margin t.liquidation
  stoploss : ∀ p ∈ t.stoploss, t.side.NotBeyond t.liquidation p
  takeprofit : ∀ p ∈ t.takeprofit, t.side.NotBeyond t.price p

def AllOrdered (ex : SimulatedTradeExecutor ε) (s : SimulatedTradeExecutorState) : Prop :=
  ∀ key entry, (key, entry) ∈ s.runningMap.trades → PricesOrdered ex.sdk entry.1

/-- The operation is no cash-in, and a settlement leaves no trade with a liquidation past its
stoploss. -/
def KeepsStops (ex : SimulatedTradeExecutor ε) (s : SimulatedTradeExecutorState) (op : Op) :
    Prop :=
  op.isCashIn = false ∧
    match op with
    | .applyFundingSettlement settlement =>
      ∀ entry ∈ s.runningMap.tradesDesc,
        ∀ settled ∈ (entry.1.applyFundingSettlement ex.sdk settlement).toOption,
          ∀ t' ∈ settled.1, ∀ p ∈ t'.stoploss, t'.side.NotBeyond t'.liquidation p
    | _ => True

theorem PricesOrdered.exitBound {t : SimulatedTradeRunning} (h : PricesOrdered ex.sdk t) :
    t.side.NotBeyond t.liquidation t.exitBound := by
  unfold SimulatedTradeRunning.exitBound
  cases hstop : t.stoploss with
  | none => exact .refl _ _
  | some p => exact h.stoploss p hstop

theorem PricesOrdered.opened (laws : PriceLaws ex.sdk) {request : IsolatedOrderRequest}
    {entry : RunningEntry}
    (h : ex.openTrade s request.side request.size request.leverage request.stoploss
      request.takeprofit = .ok entry) : PricesOrdered ex.sdk entry.1 := by
  obtain ⟨market, stoploss, r, hr, hentry⟩ := openTrade_spec h
  rw [hentry]
  refine ⟨.opened hr, ?_, ?_⟩
  · intro p hp
    obtain rfl : stoploss = some p := hp
    exact laws.openedStoploss hr
  · intro p hp
    have htake : request.takeprofit = some p := hp
    rw [htake] at hr
    exact laws.openedTakeprofit hr

theorem AllOrdered.step (away : AddedMarginLaw ex.sdk) (laws : PriceLaws ex.sdk) {op : Op}
    (hi : AllOrdered ex s) (hkeeps : KeepsStops ex s op) (h : Effect ex s op s') :
    AllOrdered ex s' := by
  obtain ⟨hcashIn, hsettle⟩ := hkeeps
  refine h.entries (P := fun e => PricesOrdered ex.sdk e.1) hi ?_ ?_ ?_ ?_ ?_
  · intro request entry _ hopen
    exact .opened laws hopen
  · intro entry t' amount hp hadd
    obtain ⟨r, hr, rfl⟩ := withAddedMargin_eq_ok.mp hadd
    have haway := away.away hp.liquidates hr
    exact ⟨.added hp.liquidates hr, fun p hs => haway.trans (hp.stoploss p hs), hp.takeprofit⟩
  · intro id amount key entry t' hop _ _ _
    rw [hop] at hcashIn
    simp [Op.isCashIn] at hcashIn
  · intro candle entry t' hp htrail
    rcases trailStoploss_cases htrail with rfl | ⟨m, p, hnew⟩
    · exact hp
    obtain ⟨hvalid, rfl⟩ := withNewStoploss_eq_ok.mp hnew
    refine ⟨hp.liquidates, ?_, hp.takeprofit⟩
    intro q hq
    obtain rfl := Option.some.inj hq
    exact laws.newStoploss hvalid
  · intro settlement entry t' fee hop hmem hp hset
    subst hop
    have hstop := hsettle entry hmem (some t', fee) (by rw [hset]; rfl) t' rfl
    rcases (settled_cases hset).2 with ⟨-, rfl⟩ | ⟨-, m, l, hsub, hl, rfl⟩
    · exact hp
    · exact ⟨.settled hp.liquidates hsub hl, hstop, hp.takeprofit⟩

/-! ### The trigger fires before a liquidation -/

/-- The cached trigger is reached by any price that reaches the liquidation. -/
def Guards (trigger : PriceTrigger) (t : SimulatedTradeRunning) : Prop :=
  ∃ min max, trigger = .set min max ∧
    t.side.NotBeyond t.liquidation (match t.side with
      | .buy => min
      | .sell => max)

def AllGuarded (s : SimulatedTradeExecutorState) : Prop :=
  ∀ key entry, (key, entry) ∈ s.runningMap.trades → Guards s.trigger entry.1

theorem Within.guards {trigger : PriceTrigger} {entry : RunningEntry}
    (h : Within ex trigger entry) (ho : PricesOrdered ex.sdk entry.1) : Guards trigger entry.1 := by
  obtain ⟨lower, upper, min, max, hb, rfl, hl, hu⟩ := within_iff.mp h
  refine ⟨min, max, rfl, ho.exitBound.trans ?_⟩
  cases hside : entry.1.side with
  | buy =>
      obtain ⟨rfl, -, -⟩ := SimulatedTradeRunning.bounds_buy hside hb
      exact hl
  | sell =>
      obtain ⟨rfl, -, -⟩ := SimulatedTradeRunning.bounds_sell hside hb
      exact hu

theorem Guards.update {trigger trigger' : PriceTrigger} {t u : SimulatedTradeRunning}
    {tsl : Option TradeTrailingStoploss} (h : Guards trigger t)
    (hup : trigger.update ex.sdk ex.config.trailingStoplossStepSize u tsl = .ok trigger') :
    Guards trigger' t := by
  obtain ⟨min, max, rfl, hliq⟩ := h
  simp only [PriceTrigger.update, bind_eq_ok, pure_eq_ok] at hup
  obtain ⟨⟨lower, upper⟩, -, rfl⟩ := hup
  refine ⟨_, _, rfl, hliq.trans ?_⟩
  cases t.side with
  | buy => exact le_max_right _ _
  | sell => exact min_le_right _ _

/-- The liquidation of a trade rewritten in place has not come closer. -/
theorem Guards.of_away {trigger : PriceTrigger} {t t' : SimulatedTradeRunning}
    (h : Guards trigger t) (hsame : SameTrade t t')
    (haway : t.side.NotBeyond t'.liquidation t.liquidation) : Guards trigger t' := by
  obtain ⟨min, max, rfl, hliq⟩ := h
  refine ⟨min, max, rfl, ?_⟩
  rw [hsame.side]
  exact haway.trans hliq

theorem AllGuarded.step (away : AddedMarginLaw ex.sdk) {op : Op} (hi : AllGuarded s)
    (ho : AllOrdered ex s) (ho' : AllOrdered ex s') (hcashIn : op.isCashIn = false)
    (h : Effect ex s op s') : AllGuarded s' := by
  intro k e he
  cases h with
  | quiet htrigger hmap hdrawn hbooks =>
      rw [hmap] at he
      rw [htrigger]
      exact hi k e he
  | opened request entry trigger hop hopen htrigger hs' =>
      have hordered := ho' k e he
      subst hs'
      rcases OrdMap.mem_of_mem_insert he with heq | hold
      · obtain ⟨rfl, rfl⟩ := Prod.mk.inj heq
        exact (update_within htrigger).1.guards hordered
      · exact (hi k e hold).update htrigger
  | marginAdded id amount key entry trade hop hget hadd hs' =>
      subst hs'
      obtain ⟨d, hd, heq⟩ := OrdMap.mem_set.mp he
      obtain ⟨rfl, rfl⟩ := Prod.mk.inj heq
      split_ifs with hk
      · have hmem := getById_mem hget
        have hsame := withAddedMargin_same hadd
        obtain ⟨r, hr, rfl⟩ := withAddedMargin_eq_ok.mp hadd
        exact (hi key entry hmem).of_away hsame (away.away (ho key entry hmem).liquidates hr)
      · exact hi d.1 d.2 hd
  | cashedIn id amount key entry trade hop hget hcash hs' =>
      rw [hop] at hcashIn
      simp [Op.isCashIn] at hcashIn
  | passed fates acc last hfates hpass hcommit =>
      have hordered := ho' k e he
      rw [hcommit.runningMap] at he
      rw [hcommit.trigger]
      exact (hpass.covers (covers_new _) k e he).guards hordered
  | interrupted candle hop hs' hfail hloop =>
      subst hs'
      obtain ⟨⟨key, entry⟩, hd, -, -, hwrite⟩ :=
        OrdMap.mem_withValuesDesc (candleWrites_forall₂ ex) he
      have hguards := hi key entry hd
      rcases hwrite with hsame | htrail
      · rw [hsame]
        exact hguards
      · refine hguards.of_away (trailStoploss_same htrail) ?_
        rcases trailStoploss_cases htrail with hsame | ⟨m, p, hnew⟩
        · rw [hsame]
          exact .refl _ _
        · obtain ⟨-, hwritten⟩ := withNewStoploss_eq_ok.mp hnew
          rw [hwritten]
          exact .refl _ _

theorem run_guarded (away : AddedMarginLaw ex.sdk) (laws : PriceLaws ex.sdk) {ops : List Op}
    (hrun : ((system ex).restrict (KeepsStops ex)).Run ops s) :
    Keyed ex s ∧ AllOrdered ex s ∧ AllGuarded s := by
  apply hrun.invariant
  · rintro s ⟨startCandle, startBalance, rfl⟩
    have hempty : ∀ key entry, (key, entry) ∉
        (ex.new startCandle startBalance).runningMap.trades := by
      simp [SimulatedTradeExecutor.new, RunningTradesMap.new, OrdMap.empty, OrdMap.mem_def]
    exact ⟨keyed_start, fun k e he => absurd he (hempty k e), fun k e he => absurd he (hempty k e)⟩
  · rintro s op _ ⟨hk, ho, hg⟩ ⟨hkeeps, rfl⟩
    have ho' := ho.step away laws hkeeps op.effect
    exact ⟨hk.step op.effect, ho', hg.step away ho ho' hkeeps.1 op.effect⟩

/-! ### A reached liquidation closes the trade -/

/-- The candle has traded at the trade's liquidation or beyond. -/
def LiquidationReached (candle : OhlcCandleRow) (t : SimulatedTradeRunning) : Prop :=
  match t.side with
  | .buy => candle.low ≤ t.liquidation.asF64
  | .sell => t.liquidation.asF64 ≤ candle.high

instance (candle : OhlcCandleRow) (t : SimulatedTradeRunning) :
    Decidable (LiquidationReached candle t) := by
  unfold LiquidationReached
  cases t.side <;> infer_instance

theorem Guards.reached {trigger : PriceTrigger} {t : SimulatedTradeRunning}
    {candle : OhlcCandleRow} (h : Guards trigger t) (hr : LiquidationReached candle t) :
    trigger.wasReached candle.low = true ∨ trigger.wasReached candle.high = true := by
  obtain ⟨min, max, rfl, hliq⟩ := h
  unfold LiquidationReached at hr
  cases hside : t.side with
  | buy =>
      rw [hside] at hr hliq
      have hle : candle.low ≤ min.asF64 := le_trans hr hliq
      exact Or.inl (by simp [PriceTrigger.wasReached, hle])
  | sell =>
      rw [hside] at hr hliq
      have hle : max.asF64 ≤ candle.high := le_trans hliq hr
      exact Or.inr (by simp [PriceTrigger.wasReached, hle])

/-- The candle's exit price is not beyond the liquidation it reached. -/
theorem candleExit_of_reached (laws : PriceLaws ex.sdk) {t : SimulatedTradeRunning}
    {candle : OhlcCandleRow} (ho : PricesOrdered ex.sdk t) (hr : LiquidationReached candle t) :
    ∃ price, candleExit candle t = some price ∧ t.side.NotBeyond t.liquidation price := by
  have hexit := ho.exitBound
  unfold LiquidationReached at hr
  cases hside : t.side with
  | buy =>
      rw [hside] at hr hexit
      have hle : candle.low ≤ t.exitBound.asF64 := le_trans hr hexit
      exact ⟨t.exitBound, by simp [candleExit, hside, Option.filter, hle], hexit⟩
  | sell =>
      have hlosing := laws.liquidation ho.liquidates
      have htake := ho.takeprofit
      rw [hside] at hr hexit hlosing htake
      have hle : t.exitBound.asF64 ≤ candle.high := le_trans hexit hr
      cases hfilter : t.takeprofit.filter (fun p => candle.low ≤ p.asF64) with
      | some p =>
          refine ⟨p, by simp [candleExit, hside, hfilter], ?_⟩
          exact hlosing.trans (htake p (Option.filter_eq_some_iff.mp hfilter).1)
      | none =>
          have hmax : (some t.exitBound).filter (fun p => candle.high ≥ p.asF64) =
              some t.exitBound := by simp [Option.filter, hle]
          exact ⟨t.exitBound, by simp only [candleExit, hside, hfilter, hmax], hexit⟩

/-- A closed trade is in the history under its reference. -/
theorem addClosed_get {history history' : ClosedTradeHistory} {closed : List SimulatedTradeClosed}
    {c : SimulatedTradeClosed}
    (h : (addClosed history closed : ExecutorResult ε _) = .ok history')
    (huniq : ∀ d ∈ closed, d.reference = c.reference → d = c)
    (hc : history.trades.get c.reference = some c ∨ c ∈ closed) :
    history'.trades.get c.reference = some c := by
  induction closed generalizing history with
  | nil =>
      simp only [addClosed, List.foldlM_nil, pure_eq_ok] at h
      subst h
      exact hc.resolve_right (by simp)
  | cons d rest ih =>
      simp only [addClosed, List.foldlM_cons, bind_eq_ok, mapError_eq_ok] at h
      obtain ⟨history₁, hd, hrest⟩ := h
      have hadd : history₁.trades = history.trades.insert d.reference d := by
        simp only [ClosedTradeHistory.add, SimulatedTradeClosed.closed,
          SimulatedTradeClosed.exitPrice, SimulatedTradeClosed.closedAt] at hd
        simp at hd
        rw [← hd]
      apply ih hrest fun e he => huniq e (List.mem_cons_of_mem d he)
      rw [hadd]
      by_cases href : d.reference = c.reference
      · have hdc := huniq d List.mem_cons_self href
        exact Or.inl (by rw [hdc, OrdMap.get_insert_self])
      · rw [OrdMap.get_insert_of_ne (Ne.symm href)]
        refine hc.imp_right fun hmem => ?_
        exact (List.mem_cons.mp hmem).resolve_left fun heq => href (heq ▸ rfl)

/-- A candle update that reaches a trade's liquidation moves the trade to the closed history,
at a price not beyond the liquidation, in every run whose settlements keep the liquidations
from passing the stoplosses. -/
theorem liquidation_reached_closes (away : AddedMarginLaw ex.sdk) (laws : PriceLaws ex.sdk)
    {ops : List Op} (hrun : ((system ex).restrict (KeepsStops ex)).Run ops s)
    {candle : OhlcCandleRow} (hsuc : ex.candleUpdate s candle = (s', .ok ()))
    {entry : RunningEntry} (hentry : entry ∈ s.runningMap.tradesDesc)
    (hr : LiquidationReached candle entry.1) :
    s'.runningMap.trades.get entry.1.reference = none ∧
      ∃ price, s'.closedHistory.trades.get entry.1.reference =
          some (entry.1.toClosed ex.sdk ex.config.feePerc candle.time price) ∧
        entry.1.side.NotBeyond entry.1.liquidation price := by
  obtain ⟨hkeyed, hordered, hguarded⟩ := run_guarded away laws hrun
  obtain ⟨key, hmem⟩ := mem_tradesDesc.mp hentry
  obtain ⟨price, hexit, hprice⟩ := candleExit_of_reached laws (hordered key entry hmem) hr
  have hreached := (hguarded key entry hmem).reached hr
  rcases candleUpdate_cases hsuc with ⟨hl, hh, -⟩ | ⟨-, acc, last, hpass, hcommit⟩
  · simp [hl, hh] at hreached
  refine ⟨?_, price, ?_, hprice⟩
  · rw [hcommit.runningMap, OrdMap.get_eq_none]
    intro e he
    rcases hpass.mem_running he with hnil | ⟨kept, hin, t', fee, hk, heq⟩
    · simp [startPass, RunningTradesMap.new, OrdMap.empty, OrdMap.mem_def] at hnil
    have hfates : (Op.candleUpdate candle).fates ex s = some (candleFates ex candle) := rfl
    have href : entry.1.reference = kept.1.reference :=
      (congrArg Prod.fst heq).trans (keeps_same hfates hk).1.reference
    obtain rfl := hkeyed.eq_of_reference hentry hin href
    rw [hk.2.1] at hexit
    cases hexit
  · have hclosed : ∀ e ∈ s.runningMap.tradesDesc, e.1.reference = entry.1.reference →
        ∀ c fee, (candleFates ex candle).closes e c fee →
          c = entry.1.toClosed ex.sdk ex.config.feePerc candle.time price := by
      rintro e he href c fee ⟨-, price', hexit', rfl⟩
      obtain rfl := hkeyed.eq_of_reference he hentry href
      rw [hexit] at hexit'
      rw [Option.some.inj hexit']
    rcases hpass.fate hentry with ⟨t', fee, hk⟩ | ⟨c, fee, hc, hin⟩
    · rw [hk.2.1] at hexit
      cases hexit
    obtain rfl := hclosed entry hentry rfl c fee hc
    refine addClosed_get hcommit.history ?_ (Or.inr hin)
    intro d hd href
    rcases hpass.mem_closed hd with hnil | ⟨e, he, fee', hce⟩
    · simp [startPass] at hnil
    · refine hclosed e he ?_ d fee' hce
      obtain ⟨-, price', -, rfl⟩ := hce
      exact href

/-- A long at leverage ten, liquidated at 90909 and stopped at 90950. -/
def tightOps : List Op :=
  [.call (.isolatedOrder (longOrder 1000 10 (some 90950)))]

def tightTrade : SimulatedTradeRunning where
  id := ⟨0⟩
  side := .buy
  openingFee := 1000
  closingFeeReserved := 1100
  quantity := ⟨1000⟩
  margin := ⟨100000, by decide⟩
  leverage := ⟨10⟩
  price := ReferenceSdk.price 100000
  liquidation := ReferenceSdk.price 90909
  stoploss := some (ReferenceSdk.price 90950)
  takeprofit := none
  entryTime := 0
  entryPrice := ReferenceSdk.price 100000

def tightState : SimulatedTradeExecutorState :=
  performAll referenceExecutor flatStart tightOps

def droppingCandle : OhlcCandleRow := minuteCandle 1 100000 100000 90500 95000

theorem liquidation_reached_closes_tight :
    (referenceExecutor.candleUpdate tightState droppingCandle).1.runningMap.trades.get
        tightTrade.reference = none ∧
      ∃ price, (referenceExecutor.candleUpdate tightState droppingCandle).1.closedHistory.trades.get
          tightTrade.reference = some (tightTrade.toClosed referenceSdk ReferenceSdk.tenthPercent
            droppingCandle.time price) ∧
        tightTrade.side.NotBeyond tightTrade.liquidation price := by
  have hkeeps : System.Along (fun s op => (op.perform referenceExecutor s).1)
      (KeepsStops referenceExecutor) flatStart tightOps := ⟨⟨rfl, trivial⟩, trivial⟩
  have hmem : (tightTrade, none) ∈ tightState.runningMap.tradesDesc := by decide +kernel
  have hsuc : (referenceExecutor.candleUpdate tightState droppingCandle).2 = .ok () := by
    decide +kernel
  exact liquidation_reached_closes ReferenceSdk.addedMarginLaw ReferenceSdk.priceLaws
    (performAll_run ⟨_, _, rfl⟩ (fun _ _ h => ⟨h, rfl⟩) hkeeps) (Prod.ext rfl hsuc) hmem
    (by decide +kernel)

/-! ### A settlement moves a liquidation past a stoploss -/

/-- The fee of a settlement at 0.1 % brings the same long's liquidation to 90992. -/
def settledOps : List Op :=
  tightOps ++ [.applyFundingSettlement
    ⟨Duration.minutes 1, F64.clamp 100000, F64.clamp (1 / 1000)⟩]

def settledState : SimulatedTradeExecutorState :=
  performAll referenceExecutor flatStart settledOps

/-- It falls to 90980: through the liquidation, not to the stoploss. -/
def throughLiquidation : OhlcCandleRow := minuteCandle 2 100000 100000 90980 95000

theorem settlement_strands_stoploss :
    (system referenceExecutor).Run settledOps settledState ∧ AddedMarginLaw referenceSdk ∧
      PriceLaws referenceSdk ∧
      (referenceExecutor.candleUpdate settledState throughLiquidation).2 = .ok () ∧
      ∃ entry ∈ settledState.runningMap.tradesDesc, entry.1.side = .buy ∧
        throughLiquidation.low ≤ entry.1.liquidation.asF64 ∧
        (referenceExecutor.candleUpdate settledState throughLiquidation).1.runningMap.trades.get
          entry.1.reference = some entry := by
  have hrun : (system referenceExecutor).Run settledOps settledState :=
    performAll_run ⟨_, _, rfl⟩ (fun _ _ (_ : True) => rfl) ⟨trivial, trivial, trivial⟩
  exact ⟨hrun, ReferenceSdk.addedMarginLaw, ReferenceSdk.priceLaws, by decide +kernel⟩

end Quantoxide.Executor
