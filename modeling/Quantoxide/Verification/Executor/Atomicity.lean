import Quantoxide.Verification.Executor.Liquidation

/-! # What a failed operation leaves behind

A candle writes each moved stoploss into the running trades as it goes, a settlement records
its closures before the cross position is charged, and an order is paid for before its
trigger is known. Each is undone by no later failure. -/

namespace Quantoxide.Executor

open Result SimulatedTradeExecutor Runs

variable {ε : Type} {ex : SimulatedTradeExecutor ε} {s : SimulatedTradeExecutorState}

/-- The bounds of the trade can be evaluated. -/
def HasBounds (ex : SimulatedTradeExecutor ε) (entry : RunningEntry) : Prop :=
  ∃ bounds, entry.1.evalTriggerBounds ex.sdk ex.config.trailingStoplossStepSize entry.2 =
    .ok bounds

theorem hasBounds_iff (trigger : PriceTrigger) {trade : SimulatedTradeRunning}
    {tsl : Option TradeTrailingStoploss} : HasBounds ex (trade, tsl) ↔
      ∃ trigger', trigger.update ex.sdk ex.config.trailingStoplossStepSize trade tsl =
        .ok trigger' := by
  simp only [PriceTrigger.update, bind_eq_ok, pure_eq_ok, HasBounds]
  constructor
  · rintro ⟨bounds, hb⟩
    exact ⟨_, bounds, hb, rfl⟩
  · rintro ⟨_, bounds, hb, -⟩
    exact ⟨bounds, hb⟩

theorem keepRunning_isOk (acc : Pass) {trade : SimulatedTradeRunning}
    {tsl : Option TradeTrailingStoploss} :
    (∃ acc', ex.keepRunning acc trade tsl = .ok acc') ↔ HasBounds ex (trade, tsl) := by
  rw [hasBounds_iff acc.trigger]
  simp only [keepRunning_eq_ok]
  constructor
  · rintro ⟨_, trigger, htrigger, -⟩
    exact ⟨trigger, htrigger⟩
  · rintro ⟨trigger, htrigger⟩
    exact ⟨_, trigger, htrigger, rfl⟩

/-- A list reaches an element that meets `Q` past elements that meet `P`. -/
def Reaches {α : Type} (P Q : α → Prop) (xs : List α) : Prop :=
  ∃ before x after, xs = before ++ x :: after ∧ (∀ y ∈ before, P y) ∧ Q x

/-! ### A candle whose loop fails -/

/-- The candle closes the trade, or keeps it with a stoploss the SDK accepts and bounds that
can be evaluated. -/
def CandlePasses (ex : SimulatedTradeExecutor ε) (candle : OhlcCandleRow)
    (entry : RunningEntry) : Prop :=
  candleExit candle entry.1 = none →
    ∃ trade, ex.trailStoploss candle entry.1 entry.2 = .ok trade ∧ HasBounds ex (trade, entry.2)

/-- The candle keeps the trade and moves its stoploss. -/
def CandleMoves (ex : SimulatedTradeExecutor ε) (candle : OhlcCandleRow)
    (entry : RunningEntry) : Prop :=
  candleExit candle entry.1 = none ∧
    ∃ trade, ex.trailStoploss candle entry.1 entry.2 = .ok trade ∧
      trade.stoploss ≠ entry.1.stoploss

/-- The candle is in time, its cross liquidation succeeds and the trigger is reached; past
trades it gets past it moves a stoploss, and there is a trade it cannot get past. -/
structure LeavesMoved (ex : SimulatedTradeExecutor ε) (s : SimulatedTradeExecutorState)
    (candle : OhlcCandleRow) : Prop where
  inTime : s.time ≤ candle.time + Duration.seconds 59
  liquidates : s.crossPosition.liquidationReached candle = true →
    ∃ position, s.crossPosition.liquidate ex.sdk ex.config.feePerc = .ok position
  reached : s.trigger.wasReached candle.low = true ∨ s.trigger.wasReached candle.high = true
  moved : Reaches (CandlePasses ex candle) (CandleMoves ex candle) s.runningMap.tradesDesc
  stops : ∃ entry ∈ s.runningMap.tradesDesc, ¬ CandlePasses ex candle entry

theorem candleTrade_isOk {candle : OhlcCandleRow} (acc : Pass) (entry : RunningEntry) :
    (∃ acc', ex.candleTrade candle acc entry = .ok acc') ↔ CandlePasses ex candle entry := by
  obtain ⟨trade, tsl⟩ := entry
  simp only [candleTrade, CandlePasses]
  cases hexit : candleExit candle trade with
  | some price => simp
  | none =>
      simp only [bind_eq_ok, true_imp_iff, ← keepRunning_isOk acc]
      constructor
      · rintro ⟨acc', t, ht, hkeep⟩
        exact ⟨t, ht, acc', hkeep⟩
      · rintro ⟨t, ht, acc', hkeep⟩
        exact ⟨acc', t, ht, hkeep⟩

theorem candleLoop_isOk (ex : SimulatedTradeExecutor ε) (s : SimulatedTradeExecutorState)
    (candle : OhlcCandleRow) (acc : Pass) :
    (∃ acc', ex.candleLoop s candle acc = .ok acc') ↔
      ∀ entry ∈ s.runningMap.tradesDesc, CandlePasses ex candle entry :=
  foldlM_isOk_iff candleTrade_isOk

theorem crossAfterCandle_isOk {candle : OhlcCandleRow} :
    (∃ found, ex.crossAfterCandle s candle = .ok found) ↔
      (s.crossPosition.liquidationReached candle = true →
        ∃ position, s.crossPosition.liquidate ex.sdk ex.config.feePerc = .ok position) := by
  unfold crossAfterCandle
  split_ifs with hreached
  · cases s.crossPosition.liquidate ex.sdk ex.config.feePerc <;> simp [Except.map, hreached]
  · simp [hreached]

/-- A trade is written back with its moved stoploss or as it was. -/
theorem trailStoploss_stoploss {candle : OhlcCandleRow} {t t' : SimulatedTradeRunning}
    {tsl : Option TradeTrailingStoploss} (h : ex.trailStoploss candle t tsl = .ok t') :
    t' = t ↔ t'.stoploss = t.stoploss := by
  constructor
  · rintro rfl
    rfl
  · intro hstop
    rcases trailStoploss_cases h with heq | ⟨m, p, hnew⟩
    · exact heq
    · obtain ⟨-, rfl⟩ := withNewStoploss_eq_ok.mp hnew
      simp only at hstop
      rw [hstop]

theorem reaches_cons {α : Type} {P Q : α → Prop} {x : α} {xs : List α} :
    Reaches P Q (x :: xs) ↔ Q x ∨ P x ∧ Reaches P Q xs := by
  constructor
  · rintro ⟨before, y, after, heq, hbefore, hy⟩
    cases before with
    | nil =>
        obtain ⟨rfl, -⟩ := List.cons.inj heq
        exact Or.inl hy
    | cons z before =>
        obtain ⟨rfl, hxs⟩ := List.cons.inj heq
        obtain ⟨hz, hbefore⟩ := List.forall_mem_cons.mp hbefore
        exact Or.inr ⟨hz, before, y, after, hxs, hbefore, hy⟩
  · rintro (hx | ⟨hx, before, y, after, rfl, hbefore, hy⟩)
    · exact ⟨[], x, xs, rfl, by simp, hx⟩
    · exact ⟨x :: before, y, after, rfl, List.forall_mem_cons.mpr ⟨hx, hbefore⟩, hy⟩

/-- What a failed loop has written differs from what it found when it got as far as a trade
it moved. -/
theorem candleWrites_ne {candle : OhlcCandleRow} {entries : List RunningEntry} :
    ex.candleWrites candle entries ≠ entries ↔
      Reaches (CandlePasses ex candle) (CandleMoves ex candle) entries := by
  induction entries with
  | nil => simp [candleWrites, Reaches]
  | cons entry rest ih =>
      obtain ⟨trade, tsl⟩ := entry
      rw [reaches_cons, ← ih]
      simp only [candleWrites, CandlePasses, CandleMoves]
      cases hexit : candleExit candle trade with
      | some price => simp
      | none =>
          cases htrail : ex.trailStoploss candle trade tsl with
          | error e => simp
          | ok trade' =>
              have hsame := trailStoploss_stoploss htrail
              cases hbounds : trade'.evalTriggerBounds ex.sdk
                  ex.config.trailingStoplossStepSize tsl with
              | error e => simp [HasBounds, hbounds, hsame]
              | ok bounds =>
                  simp [HasBounds, hbounds, hsame]
                  tauto

theorem candleWrites_length {candle : OhlcCandleRow} {entries : List RunningEntry} :
    (ex.candleWrites candle entries).length = entries.length :=
  (candleWrites_forall₂ ex).length_eq.symm

theorem loopFails_iff {candle : OhlcCandleRow} : LoopFails ex s candle ↔
    s.time ≤ candle.time + Duration.seconds 59 ∧
    (s.trigger.wasReached candle.low = true ∨ s.trigger.wasReached candle.high = true) ∧
    (s.crossPosition.liquidationReached candle = true →
      ∃ position, s.crossPosition.liquidate ex.sdk ex.config.feePerc = .ok position) ∧
    ∃ entry ∈ s.runningMap.tradesDesc, ¬ CandlePasses ex candle entry := by
  have hloop : ∀ lastTradeTime,
      (!(ex.candleLoop s candle { startPass s with lastTradeTime }).isOk) = true ↔
        ∃ entry ∈ s.runningMap.tradesDesc, ¬ CandlePasses ex candle entry := by
    intro lastTradeTime
    have hok := candleLoop_isOk ex s candle { startPass s with lastTradeTime }
    rw [← not_iff_not]
    push Not
    rw [← hok]
    cases ex.candleLoop s candle { startPass s with lastTradeTime } <;>
      simp [Except.isOk, Except.toBool]
  unfold LoopFails
  rw [← crossAfterCandle_isOk]
  cases hcross : ex.crossAfterCandle s candle with
  | error e => simp
  | ok found =>
      obtain ⟨position, lastTradeTime⟩ := found
      simp only [hloop lastTradeTime, Except.ok.injEq, exists_eq', true_and]

/-- The state a failed loop leaves. -/
def written (ex : SimulatedTradeExecutor ε) (s : SimulatedTradeExecutorState)
    (candle : OhlcCandleRow) : SimulatedTradeExecutorState :=
  { s with runningMap := { s.runningMap with
    trades := s.runningMap.trades.withValuesDesc
      (ex.candleWrites candle s.runningMap.tradesDesc) } }

theorem candleUpdate_of_loopFails {candle : OhlcCandleRow} (h : LoopFails ex s candle) :
    ∃ e, ex.candleUpdate s candle = (written ex s candle, .error e) := by
  obtain ⟨htime, hreached, hloop⟩ := h
  unfold candleUpdate
  simp only [not_lt.mpr htime, if_false]
  cases hcross : ex.crossAfterCandle s candle with
  | error e => simp [hcross] at hloop
  | ok found =>
      obtain ⟨position, lastTradeTime⟩ := found
      have hskip : (!s.trigger.wasReached candle.low && !s.trigger.wasReached candle.high) =
          false := by
        rcases hreached with h | h <;> simp [h]
      simp only [hcross] at hloop
      simp only [hskip, Bool.false_eq_true, if_false]
      cases hpass : ex.candleLoop s candle { startPass s with lastTradeTime } with
      | error e => exact ⟨e, rfl⟩
      | ok acc => simp [hpass, Except.isOk, Except.toBool] at hloop

theorem written_eq_self {candle : OhlcCandleRow} : written ex s candle = s ↔
    ¬ Reaches (CandlePasses ex candle) (CandleMoves ex candle) s.runningMap.tradesDesc := by
  have hlen : (ex.candleWrites candle s.runningMap.tradesDesc).length =
      s.runningMap.trades.valuesDesc.length := candleWrites_length
  have hself := OrdMap.withValuesDesc_eq_self hlen
  rw [← candleWrites_ne, not_not]
  refine Iff.trans ?_ hself
  constructor
  · intro h
    exact congrArg (fun s => s.runningMap.trades) h
  · intro h
    unfold written
    rw [h]

/-- A candle update that fails leaves the executor's state as it was, unless it has moved a
stoploss before it met a trade it could not get past. -/
theorem candle_update_atomic_iff (candle : OhlcCandleRow) :
    (∀ e, (ex.candleUpdate s candle).2 = .error e → (ex.candleUpdate s candle).1 = s) ↔
      ¬ LeavesMoved ex s candle := by
  constructor
  · intro hatomic h
    have hfails := loopFails_iff.mpr ⟨h.inTime, h.reached, h.liquidates, h.stops⟩
    obtain ⟨e, hout⟩ := candleUpdate_of_loopFails hfails
    have hsame := hatomic e (by rw [hout])
    rw [hout] at hsame
    exact written_eq_self.mp hsame h.moved
  · intro hleaves e hfail
    have hne : (ex.candleUpdate s candle).2 ≠ .ok () := by
      rw [hfail]
      simp
    rcases candleUpdate_failed hne with hsame | ⟨hloop, hwritten⟩
    · exact hsame
    · obtain ⟨htime, hreached, hcross, hstops⟩ := loopFails_iff.mp hloop
      have hmoved := fun hm => hleaves ⟨htime, hcross, hreached, hm, hstops⟩
      exact hwritten.trans (written_eq_self.mpr hmoved)

/-- A long with a trailing stoploss. -/
def trailingLong (quantity : ℕ) (leverage perc : ℚ) : IsolatedOrderRequest where
  side := .buy
  size := .quantity ⟨quantity⟩
  leverage := ⟨F64.clamp leverage⟩
  stoploss := some (.trailing ⟨F64.clamp perc⟩)
  takeprofit := none
  ordered := rfl

/-- Two trailing longs, stopped at 91000 and 99000. The settlement brings the first one's
liquidation to 91157.5. -/
def strandedOps : List Op :=
  [.call (.isolatedOrder (trailingLong 1000 10 9)), .call (.isolatedOrder (trailingLong 1000 2 1)),
    .applyFundingSettlement ⟨Duration.minutes 1, F64.clamp 100000, F64.clamp (3 / 1000)⟩]

def strandedState : SimulatedTradeExecutorState :=
  performAll referenceExecutor flatStart strandedOps

/-- It rises to 100100, which moves the stoplosses to 99099 and to 91091. -/
def risingCandle : OhlcCandleRow := minuteCandle 2 100000 100100 99500 100050

theorem stoploss_moved_by_failed_candle :
    (system referenceExecutor).Run strandedOps strandedState ∧
      (referenceExecutor.candleUpdate strandedState risingCandle).2 =
        .error (.tradeValidation .stoploss) ∧
      (referenceExecutor.candleUpdate strandedState risingCandle).1 ≠ strandedState := by
  have hrun : (system referenceExecutor).Run strandedOps strandedState :=
    performAll_run ⟨_, _, rfl⟩ (fun _ _ (_ : True) => rfl) ⟨trivial, trivial, trivial, trivial⟩
  exact ⟨hrun, by decide +kernel⟩

/-! ### A settlement whose cross charge fails -/

/-- The settlement keeps the trade with bounds that can be evaluated, or closes it at a
market price that can be rounded. -/
def Settles (ex : SimulatedTradeExecutor ε) (s : SimulatedTradeExecutorState)
    (settlement : FundingSettlementRow) (entry : RunningEntry) : Prop :=
  ∃ updated fee, entry.1.applyFundingSettlement ex.sdk settlement = .ok (updated, fee) ∧
    (∀ trade ∈ updated, HasBounds ex (trade, entry.2)) ∧
    (updated = none → ∃ price, ex.sdk.round s.marketPrice = .ok price)

/-- The closed trade the settlement makes of a running one, if it does. -/
def settledClosure (ex : SimulatedTradeExecutor ε) (s : SimulatedTradeExecutorState)
    (settlement : FundingSettlementRow) (entry : RunningEntry) : Option SimulatedTradeClosed := do
  let (updated, _) ← (entry.1.applyFundingSettlement ex.sdk settlement).toOption
  let price ← (ex.sdk.round s.marketPrice).toOption
  if updated.isSome then none
  else some (entry.1.toClosed ex.sdk ex.config.feePerc settlement.time price)

/-- The history holds the trades already, the last under each reference and id. -/
def Recorded (history : ClosedTradeHistory) (closed : List SimulatedTradeClosed) : Prop :=
  (∀ key, ∀ c ∈ OrdMap.lastWith SimulatedTradeClosed.reference key closed,
    history.trades.get key = some c) ∧
  ∀ id, ∀ c ∈ OrdMap.lastWith SimulatedTradeClosed.id id closed,
    history.idToTime.get id = some c.entryTime

/-- The settlement gets past every running trade and closes one that the history does not
hold, and charging the cross position fails. -/
structure LeavesClosed (ex : SimulatedTradeExecutor ε) (s : SimulatedTradeExecutorState)
    (settlement : FundingSettlementRow) : Prop where
  settles : ∀ entry ∈ s.runningMap.tradesDesc, Settles ex s settlement entry
  closes : ¬ Recorded s.closedHistory
    (s.runningMap.tradesDesc.filterMap (settledClosure ex s settlement))
  charge : ∃ e, s.crossPosition.applyFundingSettlement ex.sdk s.marketPrice settlement
    ex.config.feePerc = .error e

/-- The history with closed trades added to it. -/
def recorded (history : ClosedTradeHistory) (closed : List SimulatedTradeClosed) :
    ClosedTradeHistory where
  trades := closed.foldl (fun m c => m.insert c.reference c) history.trades
  idToTime := closed.foldl (fun m c => m.insert c.id c.entryTime) history.idToTime

theorem addClosed_eq (history : ClosedTradeHistory) (closed : List SimulatedTradeClosed) :
    (addClosed history closed : ExecutorResult ε _) = .ok (recorded history closed) := by
  induction closed generalizing history with
  | nil => rfl
  | cons c closed ih =>
      rw [addClosed, List.foldlM_cons]
      exact ih _

theorem recorded_eq_self {history : ClosedTradeHistory} {closed : List SimulatedTradeClosed} :
    recorded history closed = history ↔ Recorded history closed := by
  have htrades := OrdMap.foldl_insert_eq_self SimulatedTradeClosed.reference id closed
    history.trades
  have hids := OrdMap.foldl_insert_eq_self SimulatedTradeClosed.id
    SimulatedTradeClosed.entryTime closed history.idToTime
  unfold Recorded
  rw [← hids]
  simp only [id] at htrades
  rw [← htrades]
  cases history
  simp [recorded]

theorem settleTrade_isOk {settlement : FundingSettlementRow} (acc : Pass)
    (entry : RunningEntry) : (∃ acc', ex.settleTrade s settlement acc entry = .ok acc') ↔
      Settles ex s settlement entry := by
  obtain ⟨trade, tsl⟩ := entry
  simp only [settleTrade, Settles, bind_isOk, Prod.exists]
  refine exists_congr fun updated => exists_congr fun fee => and_congr_right fun _ => ?_
  cases updated with
  | some trade' => simp [keepRunning_isOk]
  | none => simp

theorem settleTrade_closed {settlement : FundingSettlementRow} (acc : Pass)
    (entry : RunningEntry) (acc' : Pass) (h : ex.settleTrade s settlement acc entry = .ok acc') :
    acc'.closedTrades = acc.closedTrades ++ (settledClosure ex s settlement entry).toList := by
  obtain ⟨trade, tsl⟩ := entry
  simp only [settleTrade, bind_eq_ok] at h
  obtain ⟨⟨updated, fee⟩, hsettled, h⟩ := h
  unfold settledClosure
  rw [hsettled]
  cases updated with
  | some trade' =>
      simp only [keepRunning_eq_ok] at h
      obtain ⟨trigger, -, rfl⟩ := h
      cases (ex.sdk.round s.marketPrice).toOption <;> split_ifs <;> simp [Except.toOption]
  | none =>
      simp only [bind_eq_ok, mapError_eq_ok, pure_eq_ok] at h
      obtain ⟨price, hprice, rfl⟩ := h
      rw [hprice]
      rfl

theorem recorded_nil (history : ClosedTradeHistory) : Recorded history [] := by
  simp [Recorded, OrdMap.lastWith]

/-- What a settlement does once its loop passes. -/
theorem applyFundingSettlement_of_settles {settlement : FundingSettlementRow}
    (hbusy : s.runningMap.isEmpty = false)
    (hsettles : ∀ entry ∈ s.runningMap.tradesDesc, Settles ex s settlement entry)
    {e : SimulatedTradeExecutorError ε}
    (hcharge : s.crossPosition.applyFundingSettlement ex.sdk s.marketPrice settlement
      ex.config.feePerc = .error e) :
    ex.applyFundingSettlement s settlement = ({ s with
      closedHistory := recorded s.closedHistory
        (s.runningMap.tradesDesc.filterMap (settledClosure ex s settlement)) }, .error e) := by
  obtain ⟨acc, hloop⟩ := (foldlM_isOk_iff settleTrade_isOk (b := startPass s)).mpr hsettles
  have hclosed := foldlM_filterMap settleTrade_closed hloop
  simp only [startPass, List.nil_append] at hclosed
  unfold applyFundingSettlement
  simp only [hbusy, Bool.false_and, Bool.false_eq_true, if_false, hloop, addClosed_eq, hcharge,
    hclosed]

/-- A settlement that fails leaves the executor's state as it was, unless it has closed a trade
before the cross position could not be charged. -/
theorem apply_funding_settlement_atomic_iff (settlement : FundingSettlementRow) :
    (∀ e, (ex.applyFundingSettlement s settlement).2 = .error e →
      (ex.applyFundingSettlement s settlement).1 = s) ↔ ¬ LeavesClosed ex s settlement := by
  constructor
  · intro hatomic h
    have hbusy : s.runningMap.isEmpty = false := by
      by_contra hempty
      have hnil : s.runningMap.trades.entries = [] :=
        OrdMap.isEmpty_iff.mp (Bool.not_eq_false _ ▸ hempty)
      apply h.closes
      simp only [RunningTradesMap.tradesDesc, OrdMap.valuesDesc, hnil]
      exact recorded_nil _
    obtain ⟨e, hcharge⟩ := h.charge
    have hout := applyFundingSettlement_of_settles hbusy h.settles hcharge
    have hsame := hatomic e (by rw [hout])
    rw [hout] at hsame
    exact h.closes (recorded_eq_self.mp (congrArg (fun s => s.closedHistory) hsame))
  · intro hleaves e hfail
    unfold applyFundingSettlement at hfail ⊢
    split_ifs at hfail ⊢ with hidle
    cases hloop : s.runningMap.tradesDesc.foldlM (ex.settleTrade s settlement) (startPass s) with
    | error e => rfl
    | ok acc =>
        have hsettles := (foldlM_isOk_iff settleTrade_isOk).mp ⟨acc, hloop⟩
        have hclosed := foldlM_filterMap settleTrade_closed hloop
        simp only [startPass, List.nil_append] at hclosed
        simp only [hloop, addClosed_eq] at hfail ⊢
        cases hcharge : s.crossPosition.applyFundingSettlement ex.sdk s.marketPrice settlement
            ex.config.feePerc with
        | ok found => simp [hcharge] at hfail
        | error e' =>
            have hrecorded := not_not.mp fun h => hleaves ⟨hsettles, h, e', hcharge⟩
            simp only [hclosed, recorded_eq_self.mpr hrecorded]

/-- A long, and a short cross position. -/
def hedgedOps : List Op :=
  [.call (.isolatedOrder (longOrder 1000 10 none)), .call (.crossDeposit 5000000),
    .call (.crossOrder ⟨.sell, ⟨1000⟩⟩)]

def hedgedState : SimulatedTradeExecutorState :=
  performAll referenceExecutor flatStart hedgedOps

/-- A rate at which the long owes more than its margin, and what the short is paid has no
opposite in an `i64`. -/
def steepSettlement : FundingSettlementRow :=
  ⟨Duration.minutes 1, F64.clamp 100000, F64.clamp (10 ^ 13)⟩

theorem trade_recorded_by_failed_settlement :
    (system referenceExecutor).Run hedgedOps hedgedState ∧
      (referenceExecutor.applyFundingSettlement hedgedState steepSettlement).2 =
        .error .crossPositionOverflow ∧
      (referenceExecutor.applyFundingSettlement hedgedState steepSettlement).1 ≠ hedgedState := by
  have hrun : (system referenceExecutor).Run hedgedOps hedgedState :=
    performAll_run ⟨_, _, rfl⟩ (fun _ _ (_ : True) => rfl) ⟨trivial, trivial, trivial, trivial⟩
  exact ⟨hrun, by decide +kernel⟩

/-! ### An order whose trigger fails -/

/-- What an order is to leave alone when it fails. -/
structure SameAccount (s s' : SimulatedTradeExecutorState) : Prop where
  balance : s'.balance = s.balance
  lastTradeTime : s'.lastTradeTime = s.lastTradeTime
  trigger : s'.trigger = s.trigger
  runningMap : s'.runningMap = s.runningMap

/-- The order is valid, affordable and below the cap, and the price that would move its
trailing stoploss cannot be evaluated. -/
def LeavesPaid (ex : SimulatedTradeExecutor ε) (s : SimulatedTradeExecutorState)
    (request : IsolatedOrderRequest) : Prop :=
  ∃ trade tsl e, ex.openTrade s request.side request.size request.leverage request.stoploss
      request.takeprofit = .ok (trade, some tsl) ∧
    trade.margin.asI64 + trade.maintenanceMargin ≤ s.balance ∧
    s.runningMap.len < ex.config.tradeMaxRunningQtd ∧
    trade.nextStoplossUpdateTrigger ex.sdk ex.config.trailingStoplossStepSize tsl = .error e ∧
    -- the payment or its time shows
    (trade.margin.asI64 + trade.maintenanceMargin + trade.openingFee ≠ 0 ∨
      s.lastTradeTime ≠ some trade.entryTime)

/-- The bounds of a trade fail with its next trigger alone. -/
theorem hasBounds_iff_next {trade : SimulatedTradeRunning} {tsl : Option TradeTrailingStoploss} :
    HasBounds ex (trade, tsl) ↔ ∀ t ∈ tsl, ∃ next, trade.nextStoplossUpdateTrigger ex.sdk
      ex.config.trailingStoplossStepSize t = .ok next := by
  unfold HasBounds SimulatedTradeRunning.evalTriggerBounds
  rw [bind_isOk]
  cases tsl with
  | none => cases trade.side <;> simp
  | some t => cases trade.side <;> simp

/-- A new trade's bounds fail with the price that would move its trailing stoploss. -/
theorem not_hasBounds {trade : SimulatedTradeRunning} {tsl : Option TradeTrailingStoploss} :
    ¬ HasBounds ex (trade, tsl) ↔ ∃ t e, tsl = some t ∧
      trade.nextStoplossUpdateTrigger ex.sdk ex.config.trailingStoplossStepSize t = .error e := by
  rw [hasBounds_iff_next]
  cases tsl with
  | none => simp
  | some t =>
      cases hnext : trade.nextStoplossUpdateTrigger ex.sdk ex.config.trailingStoplossStepSize t with
      | ok next => simp [hnext]
      | error e => simp [hnext]

/-- The state once an order has been paid for. -/
def paid (s : SimulatedTradeExecutorState) (trade : SimulatedTradeRunning) :
    SimulatedTradeExecutorState :=
  { s with
    drawn := s.drawn + 1
    balance := s.balance - (trade.margin.asI64 + trade.maintenanceMargin + trade.openingFee)
    lastTradeTime := some trade.entryTime }

/-- What an order does once it is valid, affordable and below the cap. -/
theorem isolatedOrder_paid {request : IsolatedOrderRequest} {trade : SimulatedTradeRunning}
    {tsl : Option TradeTrailingStoploss}
    (hopen : ex.openTrade s request.side request.size request.leverage request.stoploss
      request.takeprofit = .ok (trade, tsl))
    (hbalance : trade.margin.asI64 + trade.maintenanceMargin ≤ s.balance)
    (hroom : s.runningMap.len < ex.config.tradeMaxRunningQtd) :
    (HasBounds ex (trade, tsl) ∧ ∃ trigger, ex.isolatedOrder s request = ({ paid s trade with
      trigger
      runningMap := s.runningMap.add trade tsl }, .ok trade.id)) ∨
    (¬ HasBounds ex (trade, tsl) ∧ ∃ e, ex.isolatedOrder s request = (paid s trade, .error e)) := by
  unfold isolatedOrder createRunning
  rw [hopen, hasBounds_iff s.trigger]
  simp only [not_lt.mpr hbalance, not_le.mpr hroom, if_false]
  cases s.trigger.update ex.sdk ex.config.trailingStoplossStepSize trade tsl with
  | ok trigger => exact Or.inl ⟨⟨trigger, rfl⟩, trigger, rfl⟩
  | error e => exact Or.inr ⟨by simp, _, rfl⟩

/-- An order is refused, or it is valid, affordable and below the cap. -/
theorem isolatedOrder_cases (ex : SimulatedTradeExecutor ε) (s : SimulatedTradeExecutorState)
    (request : IsolatedOrderRequest) :
    (∃ drawn e, ex.isolatedOrder s request = ({ s with drawn }, .error e)) ∨
      ∃ trade tsl, ex.openTrade s request.side request.size request.leverage request.stoploss
          request.takeprofit = .ok (trade, tsl) ∧
        trade.margin.asI64 + trade.maintenanceMargin ≤ s.balance ∧
        s.runningMap.len < ex.config.tradeMaxRunningQtd := by
  unfold isolatedOrder createRunning
  cases hopen : ex.openTrade s request.side request.size request.leverage request.stoploss
      request.takeprofit with
  | error e => exact Or.inl ⟨s.drawn, e, rfl⟩
  | ok opened =>
      obtain ⟨trade, tsl⟩ := opened
      by_cases hbalance : trade.margin.asI64 + trade.maintenanceMargin > s.balance
      · simp only [if_pos hbalance]
        exact Or.inl ⟨_, _, rfl⟩
      by_cases hroom : s.runningMap.len ≥ ex.config.tradeMaxRunningQtd
      · simp only [if_neg hbalance, if_pos hroom]
        exact Or.inl ⟨_, _, rfl⟩
      · exact Or.inr ⟨trade, tsl, rfl, not_lt.mp hbalance, not_le.mp hroom⟩

/-- An order that fails leaves the account as it was, unless it has been paid for before its
trailing stoploss could not be triggered. -/
theorem isolated_order_atomic_iff (request : IsolatedOrderRequest) :
    (∀ e, (ex.isolatedOrder s request).2 = .error e →
      SameAccount s (ex.isolatedOrder s request).1) ↔ ¬ LeavesPaid ex s request := by
  constructor
  · rintro hatomic ⟨trade, tsl, e, hopen, hbalance, hroom, hnext, hshows⟩
    have hbounds := not_hasBounds.mpr ⟨tsl, e, rfl, hnext⟩
    rcases isolatedOrder_paid hopen hbalance hroom with ⟨hok, -⟩ | ⟨-, e', hout⟩
    · exact hbounds hok
    · have hsame := hatomic e' (by rw [hout])
      rw [hout] at hsame
      have hcost := hsame.balance
      have hlast := hsame.lastTradeTime
      simp only [paid] at hcost hlast
      rcases hshows with hcost' | hlast'
      · omega
      · exact hlast' hlast.symm
  · intro hleaves e hfail
    rcases isolatedOrder_cases ex s request with
      ⟨drawn, e', hout⟩ | ⟨trade, tsl, hopen, hbalance, hroom⟩
    · rw [hout]
      exact ⟨rfl, rfl, rfl, rfl⟩
    · rcases isolatedOrder_paid hopen hbalance hroom with ⟨-, trigger, hout⟩ | ⟨hbounds, e', hout⟩
      · simp [hout] at hfail
      · obtain ⟨t, e'', rfl, hnext⟩ := not_hasBounds.mp hbounds
        have hhidden := fun hshows =>
          hleaves ⟨trade, t, e'', hopen, hbalance, hroom, hnext, hshows⟩
        obtain ⟨hcost, hlast⟩ := not_or.mp hhidden
        rw [hout]
        exact ⟨by simp only [paid]; omega, (not_not.mp hlast).symm, rfl, rfl⟩

/-- An executor that starts just below the highest price. -/
def peakStart : SimulatedTradeExecutorState :=
  referenceExecutor.new (minuteCandle 0 99950000 99950000 99950000 99950000) 10000000

theorem order_paid_though_failed :
    (system referenceExecutor).start peakStart ∧
      (referenceExecutor.isolatedOrder peakStart (trailingLong 1000 1 1)).2.isOk = false ∧
      (referenceExecutor.isolatedOrder peakStart (trailingLong 1000 1 1)).1.balance ≠
        peakStart.balance :=
  ⟨⟨_, _, rfl⟩, by decide +kernel⟩

end Quantoxide.Executor
