import Quantoxide.Model.LiveEvaluation
import Quantoxide.Verification.CandleTable.Markers
import Quantoxide.Verification.Live.PriceRange
import Quantoxide.Verification.Live.System

/-! # What live evaluations see

A session evaluates the prices stored from the time of the latest entry of its last
evaluation on. The candle of the minute that this time falls into began before it. -/

namespace Quantoxide.Live

open LiveTradingSession PriceTables Result Spread

variable {ε : Type} {sdk : LnmSdk ε} {session s' : LiveTradingSession}

/-! ### The time of the last evaluation -/

theorem lastEvaluationTime_register {trade : Trade} {tsl : Option TradeTrailingStoploss}
    {updateBalance : Bool}
    (h : session.registerRunningTrade sdk trade tsl updateBalance = .ok s') :
    s'.lastEvaluationTime = session.lastEvaluationTime := by
  obtain ⟨-, -, trigger, balance, -, rfl⟩ := registerRunningTrade_eq_ok h
  rfl

theorem lastEvaluationTime_update {updated : OrdMap Uuid Trade}
    (h : session.updateRunningTrades sdk updated = .ok s') :
    s'.lastEvaluationTime = session.lastEvaluationTime := by
  unfold LiveTradingSession.updateRunningTrades at h
  by_cases hempty : updated.isEmpty
  · rw [if_pos hempty] at h
    obtain rfl := Except.ok.inj h
    rfl
  · rw [if_neg hempty, bind_eq_ok] at h
    obtain ⟨pass, -, h⟩ := h
    split_ifs at h
    simp only [pure_eq_ok] at h
    subst h
    rfl

theorem lastEvaluationTime_close {closed : List Trade}
    (h : session.closeTrades sdk closed = .ok s') :
    s'.lastEvaluationTime = session.lastEvaluationTime := by
  unfold LiveTradingSession.closeTrades at h
  by_cases hempty : closed.isEmpty
  · rw [if_pos hempty] at h
    obtain rfl := Except.ok.inj h
    rfl
  · simp only [hempty, Bool.false_eq_true, if_false, bind_eq_ok, pure_eq_ok] at h
    obtain ⟨noted, -, pass, -, rfl⟩ := h
    rfl

theorem lastEvaluationTime_replace {raw : CrossPosition ε}
    (h : session.replaceCrossPosition raw = .ok s') :
    s'.lastEvaluationTime = session.lastEvaluationTime := by
  simp only [LiveTradingSession.replaceCrossPosition, bind_eq_ok, pure_eq_ok] at h
  obtain ⟨cross, -, rfl⟩ := h
  rfl

/-- The operations on a session besides its renewal and evaluation. -/
def ActsOnly : SessionOp ε → Prop
  | .renew _ _ _ => False
  | .evaluated _ _ => False
  | _ => True

theorem lastEvaluationTime_next {op : SessionOp ε} (hop : ActsOnly op) :
    (op.next sdk session).lastEvaluationTime = session.lastEvaluationTime := by
  unfold SessionOp.next
  cases hperform : op.perform sdk session with
  | error e => rfl
  | ok s' =>
      cases op with
      | renew recover tslStepSize sources => exact hop.elim
      | evaluated time price => exact hop.elim
      | registerRunningTrade trade tsl updateBalance => exact lastEvaluationTime_register hperform
      | updateRunningTrades updatedTrades => exact lastEvaluationTime_update hperform
      | closeTrades closedTrades => exact lastEvaluationTime_close hperform
      | replaceCrossPosition raw => exact lastEvaluationTime_replace hperform
      | applyCrossDeposit amount raw =>
          simp only [SessionOp.perform, LiveTradingSession.applyCrossDeposit] at hperform
          by_cases hlow : session.balance < amount
          · simp [hlow] at hperform
          · simp only [hlow, if_false, bind_eq_ok, pure_eq_ok] at hperform
            obtain ⟨replaced, hreplaced, rfl⟩ := hperform
            have hkept := lastEvaluationTime_replace hreplaced
            exact hkept
      | applyCrossWithdraw amount raw =>
          simp only [SessionOp.perform, LiveTradingSession.applyCrossWithdraw, bind_eq_ok,
            pure_eq_ok] at hperform
          obtain ⟨balance, -, replaced, hreplaced, rfl⟩ := hperform
          have hkept := lastEvaluationTime_replace hreplaced
          exact hkept
      | registerCrossOrder raw order =>
          simp only [SessionOp.perform, LiveTradingSession.registerCrossOrder, bind_eq_ok,
            pure_eq_ok] at hperform
          obtain ⟨cross, -, rfl⟩ := hperform
          rfl

theorem lastEvaluationTime_reconcile {sources : SessionSources ε} {prev : LiveTradingSession}
    {runningTrades : List Trade}
    (h : reconcile sources prev runningTrades session = .ok s') :
    s'.lastEvaluationTime = session.lastEvaluationTime := by
  obtain ⟨realizedPl, closedFees, closedHistory, fundingFees, lastTradeTime, rfl⟩ :=
    reconcile_writes h
  rfl

theorem lastEvaluationTime_recover {sources : SessionSources ε} {snapshot : OrdMap Uuid ℤ}
    {runningTrades : List Trade}
    (h : session.recoverTrades sdk sources snapshot runningTrades = .ok s') :
    s'.lastEvaluationTime = session.lastEvaluationTime := by
  refine recoverTrades_invariant
    (P := fun s => s.lastEvaluationTime = session.lastEvaluationTime) rfl ?_ h
  intro s fundingFees t tsl s'' hkept hregister
  exact (lastEvaluationTime_register hregister).trans hkept

/-- A new session starts at the latest entry. -/
theorem lastEvaluationTime_new {recover : Bool} {tslStepSize : PercentageCapped}
    {sources : SessionSources ε} {prev : Option LiveTradingSession}
    (h : LiveTradingSession.new sdk recover tslStepSize sources prev = .ok s') :
    ∃ price, sources.latestEntry = .ok (some (s'.lastEvaluationTime, price)) := by
  simp only [LiveTradingSession.new, bind_eq_ok] at h
  obtain ⟨base, hbase, h⟩ := h
  have hlatest : ∃ price, sources.latestEntry = .ok (some (base.lastEvaluationTime, price)) := by
    simp only [unrecovered, bind_eq_ok, mapError_eq_ok, okOr_eq_ok] at hbase
    obtain ⟨latest, hlatest, ⟨time, price⟩, rfl, balance, -, raw, -, hbase⟩ := hbase
    cases prev with
    | none =>
        simp only [bind_eq_ok, pure_eq_ok] at hbase
        obtain ⟨cross, -, rfl⟩ := hbase
        exact ⟨price, hlatest⟩
    | some p =>
        simp only [bind_eq_ok, pure_eq_ok] at hbase
        obtain ⟨cross, -, rfl⟩ := hbase
        exact ⟨price, hlatest⟩
  suffices hkept : s'.lastEvaluationTime = base.lastEvaluationTime by rwa [hkept]
  cases recover with
  | false =>
      simp only [Bool.not_false, if_true, pure_eq_ok] at h
      rw [h]
  | true =>
      cases prev with
      | none =>
          simp only [Bool.not_true, Bool.false_eq_true, if_false, bind_eq_ok, pure_eq_ok] at h
          obtain ⟨runningTrades, -, _, rfl, h⟩ := h
          exact lastEvaluationTime_recover h
      | some p =>
          simp only [Bool.not_true, Bool.false_eq_true, if_false, bind_eq_ok] at h
          obtain ⟨runningTrades, -, reconciled, hreconciled, h⟩ := h
          rw [lastEvaluationTime_recover h]
          exact lastEvaluationTime_reconcile hreconciled

theorem lastEvaluationTime_onRange {sources : EvaluationSources ε} {rangeMin rangeMax : F64}
    {closed : List Trade}
    (h : session.evaluateOnRange sdk sources rangeMin rangeMax = .ok (s', closed)) :
    s'.lastEvaluationTime = session.lastEvaluationTime := by
  simp only [evaluateOnRange, bind_eq_ok] at h
  obtain ⟨checked, hchecked, h⟩ := h
  have hkept : checked.lastEvaluationTime = session.lastEvaluationTime := by
    unfold refreshOnLiquidation at hchecked
    split_ifs at hchecked
    · simp only [refreshCrossPosition, bind_eq_ok] at hchecked
      obtain ⟨raw, -, hreplaced⟩ := hchecked
      exact lastEvaluationTime_replace hreplaced
    · obtain rfl := Except.ok.inj hchecked
      rfl
  split_ifs at h
  · obtain ⟨rfl, -⟩ := Prod.mk.inj (pure_eq_ok.mp h)
    exact hkept
  · simp only [bind_eq_ok, pure_eq_ok] at h
    obtain ⟨checks, -, confirmed, -, updated, -, updatedSession, hupdated, closedSession,
      hclosed, heq⟩ := h
    obtain ⟨rfl, -⟩ := Prod.mk.inj heq
    rw [lastEvaluationTime_close hclosed, lastEvaluationTime_update hupdated, hkept]

/-- An evaluation moves the session to the latest entry of its range. -/
theorem lastEvaluationTime_reevaluate {tables : PriceTables} {sources : EvaluationSources ε}
    {closed : List Trade} (h : session.reevaluate sdk tables sources = .ok (s', closed)) :
    ∃ range entry, tables.getPriceRangeFrom session.lastEvaluationTime = some (range, entry) ∧
      s'.lastEvaluationTime = entry.time := by
  simp only [reevaluate, bind_eq_ok, okOr_eq_ok] at h
  obtain ⟨⟨range, entry⟩, hrange, h⟩ := h
  exact ⟨range, entry, hrange, lastEvaluationTime_onRange h⟩

/-! ### Evaluations -/

/-- What a call of `reevaluate` reads: the tables from the last evaluation on. -/
structure Evaluation where
  tables : PriceTables
  lastEvaluationTime : ℤ

def Evaluation.range (e : Evaluation) : Option (F64 × F64) :=
  (e.tables.getPriceRangeFrom e.lastEvaluationTime).map (·.1)

/-- When an evaluation counts as having seen an extreme of a candle. -/
abbrev Visibility := Evaluation → OhlcCandleRow → F64 → Prop

/-- The extreme was stored when the evaluation ran. -/
def stored : Visibility := fun e c x =>
  ∃ r ∈ e.tables.db.candleRows, r.time = c.time ∧ (r.low = x ∨ r.high = x)

/-- The extreme was stored and in a candle that the evaluation read. -/
def read : Visibility := fun e c x =>
  ∃ r ∈ e.tables.candlesFrom e.lastEvaluationTime, r.time = c.time ∧ (r.low = x ∨ r.high = x)

def Within (range : F64 × F64) (x : F64) : Prop := range.1 ≤ x ∧ x ≤ range.2

namespace Evaluation

/-- The low or the high of a candle that no earlier evaluation has seen. -/
def Fresh (visible : Visibility) (earlier : List Evaluation) (c : OhlcCandleRow) (x : F64) :
    Prop :=
  (x = c.low ∨ x = c.high) ∧ ∀ d ∈ earlier, ¬ visible d c x

/-- The range has the ticks since the last evaluation, and the fresh extremes of the candles
whose minutes end after it. -/
def Covers (visible : Visibility) (earlier : List Evaluation) (e : Evaluation) : Prop :=
  ∃ range, e.range = some range ∧
    (∀ t ∈ e.tables.priceTicks, e.lastEvaluationTime ≤ t.time → Within range t.lastPrice) ∧
    ∀ c ∈ e.tables.db.candleRows, e.lastEvaluationTime < c.time + Duration.minutes 1 →
      ∀ x, Fresh visible earlier c x → Within range x

/-- The candle's minute has begun before the last evaluation and ends after it. -/
def Straddles (e : Evaluation) (c : OhlcCandleRow) : Prop :=
  c.time < e.lastEvaluationTime ∧ e.lastEvaluationTime < c.time + Duration.minutes 1

instance (e : Evaluation) (c : OhlcCandleRow) : Decidable (e.Straddles c) :=
  inferInstanceAs (Decidable (_ ∧ _))

/-- The fresh extremes of the candle that straddles the last evaluation, and of a candle whose
low is above its high, lie between prices stored from the last evaluation on. -/
def Catches (visible : Visibility) (earlier : List Evaluation) (e : Evaluation) : Prop :=
  ∀ c ∈ e.tables.db.candleRows, e.lastEvaluationTime < c.time + Duration.minutes 1 →
    (c.time < e.lastEvaluationTime ∨ c.high < c.low) → ∀ x, Fresh visible earlier c x →
      (∃ r ∈ e.tables.readingsFrom e.lastEvaluationTime, r.1 ≤ x) ∧
        ∃ r ∈ e.tables.readingsFrom e.lastEvaluationTime, x ≤ r.2

variable {visible : Visibility} {earlier : List Evaluation} {e : Evaluation}

theorem range_eq_spread (h : e.tables.readingsFrom e.lastEvaluationTime ≠ []) :
    e.range = some (spread (e.tables.readingsFrom e.lastEvaluationTime)) := by
  obtain ⟨range, entry, hrange⟩ := getPriceRangeFrom_isSome h
  rw [Evaluation.range, hrange, ← (getPriceRangeFrom_spec hrange).1]
  rfl

/-- The candle of the minute that the last evaluation falls into is the one that can be
missed. -/
theorem covers_iff_catches (h : e.tables.readingsFrom e.lastEvaluationTime ≠ []) :
    e.Covers visible earlier ↔ e.Catches visible earlier := by
  have hwithin : ∀ x, Within (spread (e.tables.readingsFrom e.lastEvaluationTime)) x ↔
      (∃ r ∈ e.tables.readingsFrom e.lastEvaluationTime, r.1 ≤ x) ∧
        ∃ r ∈ e.tables.readingsFrom e.lastEvaluationTime, x ≤ r.2 :=
    fun x => within_spread_iff h
  constructor
  · rintro ⟨range, hrange, -, hcandles⟩ c hc hends - x hx
    rw [range_eq_spread h, Option.some.injEq] at hrange
    subst hrange
    exact (hwithin x).mp (hcandles c hc hends x hx)
  · intro hcatches
    refine ⟨_, range_eq_spread h, ?_, ?_⟩
    · intro t ht hle
      have hreading := mem_readingsFrom.mpr (Or.inl ⟨t, ht, hle, rfl⟩)
      exact (hwithin _).mpr ⟨⟨_, hreading, le_rfl⟩, ⟨_, hreading, le_rfl⟩⟩
    · intro c hc hends x hx
      rw [hwithin]
      by_cases hmissed : c.time < e.lastEvaluationTime ∨ c.high < c.low
      · exact hcatches c hc hends hmissed x hx
      · obtain ⟨htime, hlow⟩ := not_or.mp hmissed
        have hreading := mem_readingsFrom.mpr (Or.inr ⟨c, hc, not_lt.mp htime, rfl⟩)
        have hle := not_lt.mp hlow
        rcases hx.1 with rfl | rfl
        · exact ⟨⟨_, hreading, le_rfl⟩, ⟨_, hreading, hle⟩⟩
        · exact ⟨⟨_, hreading, hle⟩, ⟨_, hreading, le_rfl⟩⟩

end Evaluation

/-! ### Every run -/

/-- A session over the tables it evaluates, with its evaluations so far. -/
structure Evaluated where
  tables : PriceTables
  session : LiveTradingSession
  evaluations : List Evaluation

inductive EvaluationEvent (ε : Type)
  | addTicks (clock : Clock) (ticks : List LastPrice)
  | addCandles (clock : Clock) (before : Option ℤ) (candles : List OhlcCandle)
  | act (op : SessionOp ε)
  | reevaluate (sources : EvaluationSources ε)

namespace Evaluated

variable (s : Evaluated)

/-- The evaluation that a call would make. -/
def evaluation : Evaluation := ⟨s.tables, s.session.lastEvaluationTime⟩

/-- A call that fails leaves the table and the session of its caller as they were. -/
def next (sdk : LnmSdk ε) : EvaluationEvent ε → Evaluated
  | .addTicks clock ticks => { s with tables := (s.tables.addTicks clock ticks).1 }
  | .addCandles clock before candles =>
    match s.tables.db.addCandles clock before candles with
    | .ok db => { s with tables := { s.tables with db } }
    | .error _ => s
  | .act op => { s with session := op.next sdk s.session }
  | .reevaluate sources =>
    { s with
      session := match s.session.reevaluate sdk s.tables sources with
        | .ok (session, _) => session
        | .error _ => s.session
      evaluations := s.evaluations ++ [s.evaluation] }

end Evaluated

/-- The call evaluates the trades on the range of its evaluation. -/
theorem reevaluate_onRange {s : Evaluated} {sources : EvaluationSources ε} {range : F64 × F64}
    (h : s.evaluation.range = some range) :
    ∃ entry : PriceEntry, s.session.reevaluate sdk s.tables sources =
      evaluateOnRange sdk { s.session with
        lastEvaluationTime := entry.time, lastPrice := entry.price } sources range.1 range.2 := by
  obtain ⟨⟨_, entry⟩, hrange, rfl⟩ := Option.map_eq_some_iff.mp h
  refine ⟨entry, ?_⟩
  have hread : s.tables.getPriceRangeFrom s.session.lastEvaluationTime = _ := hrange
  rw [reevaluate, hread]
  rfl

/-- A session starts at the latest entry of the tables. -/
def evaluationSystem (sdk : LnmSdk ε) : Runs.System Evaluated (EvaluationEvent ε) where
  start s := s.evaluations = [] ∧ ∃ recover tslStepSize sources prev,
    sources.latestEntry = .ok (s.tables.getLatestEntry.map fun e => (e.time, e.price)) ∧
      LiveTradingSession.new sdk recover tslStepSize sources prev = .ok s.session
  step s event s' := (∀ op, event = .act op → ActsOnly op) ∧ s.next sdk event = s'

/-- The session, and each evaluation so far, starts at the time of a stored entry. -/
def Anchored (s : Evaluated) : Prop :=
  s.tables.HasEntry s.session.lastEvaluationTime ∧
    ∀ e ∈ s.evaluations, e.tables.HasEntry e.lastEvaluationTime

theorem anchored_start {s : Evaluated} (h : (evaluationSystem sdk).start s) : Anchored s := by
  obtain ⟨hnone, recover, tslStepSize, sources, prev, hlatest, hnew⟩ := h
  obtain ⟨price, hprice⟩ := lastEvaluationTime_new hnew
  rw [hlatest, Except.ok.injEq, Option.map_eq_some_iff] at hprice
  obtain ⟨entry, hentry, heq⟩ := hprice
  refine ⟨?_, by simp [hnone]⟩
  rw [← (Prod.mk.inj heq).1]
  exact hasEntry_of_latest hentry

theorem Anchored.keep {s : Evaluated} {tables : PriceTables} (h : Anchored s)
    (hkeeps : s.tables.Keeps tables) : Anchored { s with tables } :=
  ⟨hkeeps _ h.1, h.2⟩

theorem Anchored.next {s : Evaluated} {event : EvaluationEvent ε} (h : Anchored s)
    (hact : ∀ op, event = .act op → ActsOnly op) : Anchored (s.next sdk event) := by
  cases event with
  | addTicks clock ticks => exact h.keep (keeps_addTicks clock ticks)
  | addCandles clock before candles =>
      unfold Evaluated.next
      cases hadd : s.tables.db.addCandles clock before candles with
      | error e => simpa only [hadd] using h
      | ok db =>
          simp only [hadd]
          apply h.keep
          rintro t (htick | hstored)
          · exact Or.inl htick
          · exact Or.inr (stored_addCandles hadd hstored)
  | act op =>
      refine ⟨?_, h.2⟩
      simp only [Evaluated.next, lastEvaluationTime_next (hact op rfl)]
      exact h.1
  | reevaluate sources =>
      refine ⟨?_, ?_⟩
      · simp only [Evaluated.next]
        cases hcall : s.session.reevaluate sdk s.tables sources with
        | error e => exact h.1
        | ok result =>
            obtain ⟨range, entry, hrange, hlast⟩ := lastEvaluationTime_reevaluate hcall
            simp only [hlast]
            exact (getPriceRangeFrom_spec hrange).2
      · intro e he
        rcases List.mem_append.mp he with he | he
        · exact h.2 e he
        · obtain rfl := List.mem_singleton.mp he
          exact h.1

theorem anchored_of_run {es : List (EvaluationEvent ε)} {s : Evaluated}
    (h : (evaluationSystem sdk).Run es s) : Anchored s := by
  refine h.invariant (fun s => anchored_start) ?_
  rintro s event s' hs ⟨hact, rfl⟩
  exact hs.next hact

/-- An evaluation of a run has a range, on which its call evaluates the trades. It covers what
it should exactly when the candle of the minute that the last evaluation falls into has no
fresh extreme beyond the prices stored since. -/
theorem evaluation_covers_iff (visible : Visibility) {es : List (EvaluationEvent ε)}
    {s : Evaluated} (h : (evaluationSystem sdk).Run es s) {earlier : List Evaluation}
    {e : Evaluation} (hpre : earlier ++ [e] <+: s.evaluations) :
    (∃ range, e.range = some range ∧ ∀ t : Evaluated, t.evaluation = e → ∀ sources,
      ∃ entry : PriceEntry, t.session.reevaluate sdk t.tables sources =
        evaluateOnRange sdk { t.session with
          lastEvaluationTime := entry.time, lastPrice := entry.price } sources range.1 range.2) ∧
      (e.Covers visible earlier ↔ e.Catches visible earlier) := by
  have hmem : e ∈ s.evaluations := hpre.subset (by simp)
  have hread := readingsFrom_ne_nil ((anchored_of_run h).2 e hmem) le_rfl
  refine ⟨⟨_, Evaluation.range_eq_spread hread, ?_⟩, Evaluation.covers_iff_catches hread⟩
  rintro t rfl sources
  exact reevaluate_onRange (Evaluation.range_eq_spread hread)

/-! ### A candle finalised after a tick of its minute -/

def tickPrice : F64 := F64.clamp 100000

/-- A tick at one minute and a half. -/
def tickTables : PriceTables :=
  ⟨CandleTable.emptyTable, [⟨Duration.seconds 90, tickPrice, 0⟩], List.pairwise_singleton _ _⟩

def tickSources : SessionSources Refusal :=
  { accountSources (Duration.seconds 90) [] .empty with
    latestEntry := .ok (some (Duration.seconds 90, tickPrice)) }

theorem tickSession_isOk :
    (LiveTradingSession.new referenceSdk false ReferenceSdk.tenthPercent tickSources none).isOk =
      true := by
  rfl

def tickStart : Evaluated := ⟨tickTables, get _ tickSession_isOk, []⟩

/-- The candle of the tick's minute, with a low below the tick. -/
def tickMinute : OhlcCandle where
  time := Duration.minutes 1
  openPrice := ⟨tickPrice⟩
  high := ⟨tickPrice⟩
  low := ⟨F64.clamp 90000⟩
  close := ⟨tickPrice⟩
  volume := 1
  epoch_le := by decide
  time_le := by decide

def quietSources : EvaluationSources Refusal where
  crossPosition := .error .price
  tradesClosed _ := .ok []
  updateStoploss _ _ := .error .price

theorem tickStart_starts : (evaluationSystem referenceSdk).start tickStart :=
  ⟨rfl, false, ReferenceSdk.tenthPercent, tickSources, none, rfl,
    eq_ok_get tickSession_isOk⟩

/-- The candle of the minute is stored when it is over. -/
def finalised : EvaluationEvent Refusal :=
  .addCandles (CandleTable.clockAt 3) none [tickMinute]

def beforeEvaluation : Evaluated := tickStart.next referenceSdk finalised

theorem evaluated_run {es : List (EvaluationEvent Refusal)} {s : Evaluated}
    (h : (evaluationSystem referenceSdk).Run es s) :
    ∃ es' s', (evaluationSystem referenceSdk).Run es' s' ∧
      s'.evaluations = s.evaluations ++ [s.evaluation] :=
  ⟨_, _, h.step (i := .reevaluate quietSources) ⟨by rintro op ⟨⟩, rfl⟩, rfl⟩

theorem tickStart_run : (evaluationSystem referenceSdk).Run [] tickStart := .start tickStart_starts

theorem beforeEvaluation_run : (evaluationSystem referenceSdk).Run [finalised] beforeEvaluation :=
  tickStart_run.step (i := finalised) ⟨by rintro op ⟨⟩, rfl⟩

theorem range_of_tick : beforeEvaluation.evaluation.range = some (tickPrice, tickPrice) := by
  decide +kernel

theorem low_of_tickMinute : ∃ c ∈ beforeEvaluation.tables.db.candleRows,
    c.time = Duration.minutes 1 ∧ c.low < tickPrice := by
  decide +kernel

/-- The session starts at a tick at one minute and a half. The candle of that minute, stored
once the minute is over, has a lower low, which the evaluation leaves out of its range. -/
theorem finalised_candle_missed : ¬ ∃ visible : Visibility,
    ∀ es s, (evaluationSystem referenceSdk).Run es s → ∀ earlier e,
      earlier ++ [e] <+: s.evaluations → e.Covers visible earlier := by
  rintro ⟨visible, hall⟩
  obtain ⟨es, s, hrun, hevaluations⟩ := evaluated_run beforeEvaluation_run
  have hpre : [] ++ [beforeEvaluation.evaluation] <+: s.evaluations := by
    rw [hevaluations]
    exact List.prefix_rfl
  obtain ⟨range, hrange, -, hcandles⟩ := hall es s hrun [] _ hpre
  obtain ⟨c, hc, htime, hlow⟩ := low_of_tickMinute
  rw [range_of_tick, Option.some.injEq] at hrange
  subst hrange
  have hends : beforeEvaluation.evaluation.lastEvaluationTime < c.time + Duration.minutes 1 := by
    rw [htime]
    decide
  have hwithin := hcandles c hc hends c.low ⟨Or.inl rfl, by simp⟩
  exact absurd hwithin.1 (not_le.mpr hlow)

/-- The same minute with a tick below its low and one above its high, the first of them seen
by an evaluation before the candle is stored. -/
def paddedMinute : List (EvaluationEvent Refusal) :=
  [.addTicks (CandleTable.clockAt 2) [⟨Duration.seconds 100, ⟨F64.clamp 80000⟩⟩],
    .reevaluate quietSources,
    .addTicks (CandleTable.clockAt 2) [⟨Duration.seconds 110, ⟨F64.clamp 120000⟩⟩], finalised,
    .reevaluate quietSources]

def padded : Evaluated := paddedMinute.foldl (fun s event => s.next referenceSdk event) tickStart

theorem padded_run : (evaluationSystem referenceSdk).Run paddedMinute padded := by
  have hacts : ∀ event ∈ paddedMinute, ∀ op, event = .act op → ActsOnly op := by
    simp [paddedMinute, finalised]
  refine Runs.System.Run.foldl ?_ tickStart_run (Runs.System.along_of_forall hacts)
  exact fun _ _ hact => ⟨hact, rfl⟩

/-- The evaluation before the candle is stored, and the one after it. -/
def firstEvaluation : Evaluation := (tickStart.next referenceSdk
  (.addTicks (CandleTable.clockAt 2) [⟨Duration.seconds 100, ⟨F64.clamp 80000⟩⟩])).evaluation

def secondEvaluation : Evaluation := ⟨padded.tables, Duration.seconds 100⟩

theorem padded_evaluations : padded.evaluations = [firstEvaluation, secondEvaluation] := by
  rfl

/-- The candle straddles the second evaluation, and its fresh low and high lie between the
ticks: the evaluation covers what it should. -/
theorem padded_evaluation_covers :
    (evaluationSystem referenceSdk).Run paddedMinute padded ∧
      padded.evaluations = [firstEvaluation, secondEvaluation] ∧
      (∃ c ∈ secondEvaluation.tables.db.candleRows, secondEvaluation.Straddles c ∧
        Evaluation.Fresh stored [firstEvaluation] c c.low ∧ c.low < tickPrice) ∧
      secondEvaluation.Covers stored [firstEvaluation] ∧
      secondEvaluation.Covers read [firstEvaluation] := by
  have hunseen : ∀ c x, ¬ stored firstEvaluation c x := by
    rintro c x ⟨r, hr, -⟩
    cases hr
  have hpre : [firstEvaluation] ++ [secondEvaluation] <+: padded.evaluations := by
    rw [padded_evaluations]
    exact List.prefix_rfl
  have hbetween : ∀ c ∈ secondEvaluation.tables.db.candleRows, c.low ≤ c.high ∧
      (∃ r ∈ secondEvaluation.tables.readingsFrom secondEvaluation.lastEvaluationTime,
        r.1 ≤ c.low) ∧
      ∃ r ∈ secondEvaluation.tables.readingsFrom secondEvaluation.lastEvaluationTime,
        c.high ≤ r.2 := by
    decide +kernel
  have hcatches : ∀ visible, secondEvaluation.Catches visible [firstEvaluation] := by
    intro visible c hc _ _ x hx
    obtain ⟨hle, ⟨r, hr, hlow⟩, r', hr', hhigh⟩ := hbetween c hc
    rcases hx.1 with rfl | rfl
    · exact ⟨⟨r, hr, hlow⟩, r', hr', hle.trans hhigh⟩
    · exact ⟨⟨r, hr, hlow.trans hle⟩, r', hr', hhigh⟩
  have hstraddles : ∃ c ∈ secondEvaluation.tables.db.candleRows,
      secondEvaluation.Straddles c ∧ c.low < tickPrice := by
    decide +kernel
  obtain ⟨c, hc, hstraddles, hlow⟩ := hstraddles
  refine ⟨padded_run, padded_evaluations, ⟨c, hc, hstraddles, ⟨Or.inl rfl, ?_⟩, hlow⟩,
    (evaluation_covers_iff stored padded_run hpre).2.mpr (hcatches _),
    (evaluation_covers_iff read padded_run hpre).2.mpr (hcatches _)⟩
  intro d hd
  obtain rfl := List.mem_singleton.mp hd
  exact hunseen c c.low

end Quantoxide.Live
