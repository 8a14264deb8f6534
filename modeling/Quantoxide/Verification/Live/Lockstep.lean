import Quantoxide.Verification.CandleTable.Markers
import Quantoxide.Verification.Executor.Atomicity
import Quantoxide.Verification.Live.Calls

/-! # The backtest and the live session, side by side

A replay and a live session do the same operations, the session against an exchange that fills
orders as the replay does. They run the same trades as long as no candle would move a stoploss
to its close or beyond, and part at the first candle that does. -/

namespace Quantoxide.Live

open Executor Matching Result Runs SimulatedTradeExecutor LiveTradingSession LiveTradeExecutor

variable {ε : Type} {ex : SimulatedTradeExecutor ε} {sdk : LnmSdk ε} {candle : OhlcCandleRow}

/-! ### One trade on both sides -/

variable {e e' : TradeEntry} {t u : SimulatedTradeRunning}

def AlikeEntry (e : TradeEntry) (r : RunningEntry) : Prop := Alike e.1.asRunning r.1 ∧ e.2 = r.2

theorem AlikeEntry.movesTo_iff {r : RunningEntry} {step : PercentageCapped}
    {rangeMin rangeMax : F64} {new : Option Price} (h : AlikeEntry e r) :
    MovesTo sdk step rangeMin rangeMax (asEntry e) new ↔
      MovesTo sdk step rangeMin rangeMax r new := by
  obtain ⟨t, tsl⟩ := r
  obtain ⟨hentry, htsl⟩ := h
  simp only [MovesTo, asEntry, htsl]
  cases tsl with
  | none => exact Iff.rfl
  | some tsl => exact Eq.congr_left hentry.evalNewStoplossOnRange

/-- What the candle and its range leave is alike unless the stoploss would not stay before the
close. -/
theorem moved_alike_iff {r r' : RunningEntry} (htick : TickCandle ex.sdk candle)
    (halike : AlikeEntry e r)
    (hlive : Evaluates ex.sdk ex.config.trailingStoplossStepSize candle.low candle.high e e')
    (hreplay : Replays ex candle r r') : AlikeEntry e' r' ↔
      ∀ p, MovesTo ex.sdk ex.config.trailingStoplossStepSize candle.low candle.high r (some p) →
        Before r.1.side p ⟨candle.close⟩ := by
  obtain ⟨-, htsl', new, hnew, hmoved⟩ := hlive
  rw [halike.movesTo_iff] at hnew
  obtain ⟨t, tsl⟩ := r
  obtain ⟨hentry, htsl⟩ := halike
  obtain ⟨-, htrail, htsl''⟩ := hreplay
  have hmoved := hmoved.trans (hentry.withStoploss new)
  have hasked : ∀ p, MovesTo ex.sdk ex.config.trailingStoplossStepSize candle.low candle.high
      (t, tsl) (some p) ↔ p ∈ new := by
    intro p
    constructor
    · exact fun hp => hnew.unique hp
    · rintro hp
      rwa [Option.mem_def.mp hp] at hnew
  have hsame : AlikeEntry e' r' ↔ Alike { t with stoploss := new.or t.stoploss } r'.1 := by
    constructor
    · exact fun h => hmoved.symm.trans h.1
    · exact fun h => ⟨hmoved.trans h, (htsl'.trans htsl).trans htsl''.symm⟩
  rw [hsame]
  simp only [hasked]
  cases tsl with
  | none =>
      obtain rfl : new = none := hnew
      have hkept : t = r'.1 := Except.ok.inj htrail
      rw [← hkept]
      exact iff_of_true (.refl _) (by simp)
  | some tsl => exact trailStoploss_alike_iff htick hnew htrail

/-- A stoploss that would not stay before the close is left by the candle and moved by its
range. -/
theorem parted_of_beyond {r r' : RunningEntry} {new : Price} (htick : TickCandle ex.sdk candle)
    (halike : AlikeEntry e r)
    (hlive : Evaluates ex.sdk ex.config.trailingStoplossStepSize candle.low candle.high e e')
    (hreplay : Replays ex candle r r')
    (hnew : MovesTo ex.sdk ex.config.trailingStoplossStepSize candle.low candle.high r (some new))
    (hbeyond : ¬ Before r.1.side new ⟨candle.close⟩) :
    r' = r ∧ e'.1.id = r.1.id ∧ e'.1.stoploss = some new := by
  obtain ⟨-, -, new', hnew', hmoved⟩ := hlive
  obtain rfl := (halike.movesTo_iff.mp hnew').unique hnew
  refine ⟨?_, hmoved.id.trans halike.1.id, hmoved.stoploss⟩
  obtain ⟨t, tsl⟩ := r
  obtain ⟨-, htrail, htsl⟩ := hreplay
  cases tsl with
  | none => cases hnew
  | some tsl =>
      rcases trailStoploss_cases htick hnew htrail with ⟨-, hbefore⟩ | ⟨hkept, -⟩
      · exact absurd (hbefore new rfl) hbeyond
      · exact Prod.ext hkept htsl

/-! ### The pair -/

structure Paired where
  replay : SimulatedTradeExecutorState
  session : LiveTradingSession

/-- The session runs the trades that the replay runs. -/
def Mirrors (p : Paired) : Prop :=
  Matches AlikeEntry p.session.runningMap.tradesDesc p.replay.runningMap.tradesDesc

/-- The closure as the replay is asked for it. -/
def replayClose : Close → Call
  | .single id => .isolatedOrderClose id
  | .side .buy => .isolatedOrderCloseLongs
  | .side .sell => .isolatedOrderCloseShorts
  | .all => .isolatedOrderCloseAll

/-- Operations that are about the cross position or the clock. -/
def isBeside : Op → Bool
  | .call (.crossDeposit _) => true
  | .call (.crossWithdraw _) => true
  | .call (.crossSetLeverage _) => true
  | .call (.crossOrder _) => true
  | .call .crossOrderClosePosition => true
  | .call .tradingState => true
  | .updateTime _ => true
  | _ => false

/-- The exchange opens the trade that the replay opens. -/
def OpensAlike (ex : SimulatedTradeExecutor ε) (p : Paired) (request : IsolatedOrderRequest)
    (config : LiveTradeExecutorConfig) (answers : OrderAnswers ε) : Prop :=
  ∀ entry stoploss t,
    ex.openTrade p.replay request.side request.size request.leverage request.stoploss
      request.takeprofit = .ok entry →
    checkOrder ex.sdk config p.session answers request.side request.size request.leverage
      request.stoploss request.takeprofit = .ok (stoploss, trailingOf request.stoploss) →
    answers.newTrade request.side request.size request.leverage stoploss request.takeprofit =
      .ok t → Alike t.asRunning entry.1

/-- The session after the live executor has done what the replay does, on an exchange that
opens, moves and closes the trades that the replay does. A candle is an evaluation whose range
is the candle's. -/
inductive LiveStep (ex : SimulatedTradeExecutor ε) (p : Paired) : Op → LiveTradingSession → Prop
  | order (request : IsolatedOrderRequest) (config : LiveTradeExecutorConfig)
      (answers : OrderAnswers ε) (out : LiveOutcome ε Unit)
      (hfills : OpensAlike ex p request config answers)
      (hout : (TradeCall.isolatedOrder answers request.side request.size request.leverage
        request.stoploss request.takeprofit).perform ex.sdk config p.session = out)
      (hdone : out.result = .ok ()) : LiveStep ex p (.call (.isolatedOrder request)) out.session
  | close (close : Close) (config : LiveTradeExecutorConfig) (answers : CloseAnswers ε)
      (out : LiveOutcome ε Unit) (hasked : ClosesAsked p.session answers)
      (hout : (liveClose answers close).perform ex.sdk config p.session = out)
      (hdone : out.result = .ok ()) : LiveStep ex p (.call (replayClose close)) out.session
  | addMargin (id : Uuid) (amount : ℕ) (margins : MarginSdk) (answer : Uuid → ℕ → Except ε Trade)
      (session' : LiveTradingSession)
      (hadds : ∀ entry t u, p.replay.runningMap.getById id = some entry →
        entry.2.1.withAddedMargin ex.sdk amount = .ok t → answer id amount = .ok u →
        Alike u.asRunning t)
      (hdone : LiveTradeExecutor.isolatedTradeAddMargin ex.sdk margins p.session id amount
        answer = .ok session') : LiveStep ex p (.call (.isolatedTradeAddMargin id amount)) session'
  | candle (candle : OhlcCandleRow) (tables : PriceTables) (sources : EvaluationSources ε)
      (latest : PriceEntry) (closed : List Trade) (session' : LiveTradingSession)
      (htick : TickCandle ex.sdk candle)
      (hrange : tables.getPriceRangeFrom p.session.lastEvaluationTime =
        some ((candle.low, candle.high), latest))
      (hmoves : MovesStoplosses p.session sources)
      (hdone : p.session.reevaluate ex.sdk tables sources = .ok (session', closed)) :
      LiveStep ex p (.candleUpdate candle) session'
  | beside (op : Op) (session' : LiveTradingSession) (hop : isBeside op = true)
      (hcrosses : Crosses ε p.session session') : LiveStep ex p op session'

/-- Both sides do the operation, and succeed. -/
structure PairedStep (ex : SimulatedTradeExecutor ε) (p : Paired) (op : Op) (p' : Paired) :
    Prop where
  succeeds : Succeeds ex p.replay op
  replay : p'.replay = (op.perform ex p.replay).1
  live : LiveStep ex p op p'.session

/-- The candle would move no stoploss of a trade it leaves running to its close or beyond. -/
def Tracks (ex : SimulatedTradeExecutor ε) (s : SimulatedTradeExecutorState) : Op → Prop
  | .candleUpdate candle => ∀ r ∈ s.runningMap.tradesDesc, candleExit candle r.1 = none →
      ∀ p, MovesTo ex.sdk ex.config.trailingStoplossStepSize candle.low candle.high r (some p) →
        Before r.1.side p ⟨candle.close⟩
  | _ => True

/-- A stoploss that the candle would move to its close or beyond is left by the replay and moved by
the session. -/
def Parts (ex : SimulatedTradeExecutor ε) (p p' : Paired) : Op → Prop
  | .candleUpdate candle => ∀ r ∈ p.replay.runningMap.tradesDesc, candleExit candle r.1 = none →
      ∀ new,
        MovesTo ex.sdk ex.config.trailingStoplossStepSize candle.low candle.high r (some new) →
        ¬ Before r.1.side new ⟨candle.close⟩ → r ∈ p'.replay.runningMap.tradesDesc ∧
          ∃ e ∈ p'.session.runningMap.tradesDesc, e.1.id = r.1.id ∧ e.1.stoploss = some new
  | _ => True

/-- A replay and a session that start without trades. -/
def pairedSystem (ex : SimulatedTradeExecutor ε) : Runs.System Paired Op where
  start p := (∃ startCandle startBalance, p.replay = ex.new startCandle startBalance) ∧
    ∃ sources, LiveTradingSession.new ex.sdk false ex.config.trailingStoplossStepSize sources
      none = .ok p.session
  step := PairedStep ex

/-! ### The invariant of each side -/

/-- What the replay's steps keep: its trades are filed by reference and once each, their prices
are in order, and its trigger covers them. -/
structure ReplaySound (ex : SimulatedTradeExecutor ε) (s : SimulatedTradeExecutorState) : Prop where
  filed : Filed ex s
  keyed : Executor.Keyed ex s
  ordered : AllOrdered ex s
  covers : Covers ex s.trigger s.runningMap

theorem replaySound_start {startCandle : OhlcCandleRow} {startBalance : ℕ} :
    ReplaySound ex (ex.new startCandle startBalance) where
  filed := filed_start
  keyed := keyed_start
  ordered := by
    intro key entry h
    simp [SimulatedTradeExecutor.new, RunningTradesMap.new, OrdMap.empty, OrdMap.mem_def] at h
  covers := covers_new _

variable {p p' : Paired} {op : Op}

theorem PairedStep.keeps (h : PairedStep ex p op p') :
    KeepsStops ex p.replay op ∧ KeepsTrigger ex p.replay op := by
  obtain ⟨hsuc, -, hlive⟩ := h
  generalize p'.session = next at hlive
  cases hlive with
  | order | addMargin => exact ⟨⟨rfl, trivial⟩, trivial⟩
  | close close =>
      cases close with
      | side tradeSide => cases tradeSide <;> exact ⟨⟨rfl, trivial⟩, trivial⟩
      | _ => exact ⟨⟨rfl, trivial⟩, trivial⟩
  | candle candle =>
      refine ⟨⟨rfl, trivial⟩, fun hfails => ?_⟩
      obtain ⟨e, hfailed⟩ := candleUpdate_of_loopFails hfails
      simp [Succeeds, Op.perform, hfailed] at hsuc
  | beside op session' hop =>
      cases op with
      | call c => cases c <;> first | exact ⟨⟨rfl, trivial⟩, trivial⟩ | cases hop
      | updateTime time => exact ⟨⟨rfl, trivial⟩, trivial⟩
      | _ => cases hop

theorem PairedStep.replaySound (hinj : Function.Injective ex.newV4) (away : AddedMarginLaw ex.sdk)
    (laws : PriceLaws ex.sdk) (hi : ReplaySound ex p.replay) (h : PairedStep ex p op p') :
    ReplaySound ex p'.replay := by
  obtain ⟨hstops, htrigger⟩ := h.keeps
  have hpriced : Priced ex p.replay := fun key entry he => (hi.ordered key entry he).liquidates
  rw [h.replay]
  exact ⟨(hi.filed.step hinj (Op.moves h.succeeds)).1, hi.keyed.step op.effect,
    hi.ordered.step away laws hstops op.effect, hi.covers.step away hpriced htrigger op.effect⟩

/-- What both sides keep. -/
structure InStep (ex : SimulatedTradeExecutor ε) (p : Paired) : Prop where
  replay : ReplaySound ex p.replay
  sound : p.session.Sound ex.sdk
  summarised : Summarised ex.sdk p.session
  tslStepSize : p.session.tslStepSize = ex.config.trailingStoplossStepSize

theorem InStep.next (hi : InStep ex p) (hreplay : ReplaySound ex p'.replay)
    (hcarries : Carries ex.sdk p.session p'.session) : InStep ex p' :=
  ⟨hreplay, hcarries.sound, hcarries.summarised, hcarries.tslStepSize.trans hi.tslStepSize⟩

theorem ReplaySound.stopsFirst (hi : ReplaySound ex p.replay) {r : RunningEntry}
    (hr : r ∈ p.replay.runningMap.tradesDesc) : r.1.StopsFirst := by
  obtain ⟨key, hmem⟩ := mem_tradesDesc.mp hr
  exact (hi.ordered key r hmem).stoploss

theorem Alike.stopsFirst (h : Alike t u) (hstops : u.StopsFirst) : t.StopsFirst := by
  unfold SimulatedTradeRunning.StopsFirst at hstops ⊢
  rwa [h.stoploss, h.side, h.liquidation]

theorem Mirrors.stopsFirst (h : Mirrors p) (hi : ReplaySound ex p.replay) :
    ∀ e ∈ p.session.runningMap.tradesDesc, e.1.asRunning.StopsFirst := by
  intro e he
  obtain ⟨r, hr, halike⟩ := h.left e he
  exact halike.1.stopsFirst (hi.stopsFirst hr)

/-! ### Each operation -/

/-- After a candle the two sides run the same trades just when it moves no stoploss to its
close or beyond; only the session has those that it does. -/
theorem candle_mirrors_iff {tables : PriceTables} {sources : EvaluationSources ε}
    {latest : PriceEntry} {closed : List Trade} (hi : InStep ex p) (hmirrors : Mirrors p)
    (hreplay : ex.candleUpdate p.replay candle = (p'.replay, .ok ()))
    (htick : TickCandle ex.sdk candle)
    (hrange : tables.getPriceRangeFrom p.session.lastEvaluationTime =
      some ((candle.low, candle.high), latest))
    (hmoves : MovesStoplosses p.session sources)
    (hlive : p.session.reevaluate ex.sdk tables sources = .ok (p'.session, closed)) :
    Carries ex.sdk p.session p'.session ∧
      (Mirrors p' ↔ Tracks ex p.replay (.candleUpdate candle)) ∧
      Parts ex p p' (.candleUpdate candle) := by
  obtain ⟨hbecomes', hopen'⟩ := candle_becomes hi.replay.keyed hi.replay.covers htick hreplay
  simp only [reevaluate, hrange, okOr, bind_eq_ok, Except.ok.injEq, exists_eq_left'] at hlive
  have hs : ({ p.session with lastEvaluationTime := latest.time, lastPrice := latest.price } :
      LiveTradingSession).Sound ex.sdk := ⟨hi.sound.consistent, hi.sound.bounds⟩
  obtain ⟨hcarries, hbecomes, hopen⟩ := evaluation_becomes hs hi.summarised
    (hmirrors.stopsFirst hi.replay) hmoves hlive
  refine ⟨⟨hcarries.tslStepSize, hcarries.sound, hcarries.summarised⟩, ?_⟩
  simp only [hi.tslStepSize] at hbecomes hopen
  have hexit : ∀ r ∈ p.replay.runningMap.tradesDesc, ∀ e, AlikeEntry e r →
      (candleExit candle r.1 = none ↔ e.1.wasClosedOnRange candle.low candle.high = false) := by
    intro r hr e halike
    rw [Trade.wasClosedOnRange, halike.1.wasClosedOnRange]
    exact candleExit_eq_none_iff (hi.replay.stopsFirst hr)
  refine ⟨⟨?_, ?_⟩, ?_⟩
  · intro hmirrors' r hr hrunning
    obtain ⟨r', hr', hmoved'⟩ := hbecomes'.moves r hr (hopen' r hr hrunning)
    obtain ⟨e, he, e', halike, hmoved, halike'⟩ := hmirrors.before (k := fun e => e.1.id)
      (l := fun r => r.1.id) hmirrors' hbecomes
      (fun e he c hc => hi.sound.consistent.eq_of_id he hc)
      (fun e r h => h.1.id) (fun e e' h => by
        obtain ⟨-, -, new, -, hmoved⟩ := h
        exact hmoved.id)
      (fun r r' h => (trailStoploss_same h.2.1).id) hr hr' hmoved'
    exact (moved_alike_iff htick halike hmoved hmoved').mp halike'
  · intro htracks
    refine hmirrors.becomes hbecomes hbecomes' ?_ ?_
    · intro e he r hr halike
      constructor
      · rintro ⟨e', hrunning, -⟩
        exact hopen' r hr ((hexit r hr e halike).mpr hrunning)
      · rintro ⟨r', hrunning, -⟩
        exact hopen e he ((hexit r hr e halike).mp hrunning)
    · intro e he r hr halike e' r' hmoved hmoved'
      exact (moved_alike_iff htick halike hmoved hmoved').mpr (htracks r hr hmoved'.1)
  · intro r hr hrunning new hnew hbeyond
    obtain ⟨e, he, halike⟩ := hmirrors.right r hr
    obtain ⟨r', hr', hmoved'⟩ := hbecomes'.moves r hr (hopen' r hr hrunning)
    obtain ⟨e', he', hmoved⟩ :=
      hbecomes.moves e he (hopen e he ((hexit r hr e halike).mp hrunning))
    obtain ⟨rfl, hid, hstoploss⟩ := parted_of_beyond htick halike hmoved hmoved' hnew hbeyond
    exact ⟨hr', e', he', hid, hstoploss⟩

/-- An order that both sides fill opens one more trade on both. -/
theorem order_mirrors {request : IsolatedOrderRequest} {config : LiveTradeExecutorConfig}
    {answers : OrderAnswers ε} {out : LiveOutcome ε Unit} (hinj : Function.Injective ex.newV4)
    (hi : InStep ex p) (hmirrors : Mirrors p)
    (hsuc : Succeeds ex p.replay (.call (.isolatedOrder request)))
    (hfills : OpensAlike ex p request config answers)
    (hout : (TradeCall.isolatedOrder answers request.side request.size request.leverage
      request.stoploss request.takeprofit).perform ex.sdk config p.session = out)
    (hdone : out.result = .ok ()) :
    Carries ex.sdk p.session out.session ∧
      Mirrors ⟨((Op.call (.isolatedOrder request)).perform ex p.replay).1, out.session⟩ := by
  obtain ⟨stoploss, t, hcheck, hnew, hregister⟩ := order_registers hout hdone
  have hregisters := registers_of_ok hregister
  refine ⟨⟨hregisters.tslStepSize, hregisters.sound hi.sound,
    summarised_register hi.sound hi.summarised hregister⟩, ?_⟩
  obtain ⟨id, hid⟩ := method_succeeds rfl hsuc
  obtain ⟨entry, trigger, hopen, -, hs'⟩ := isolatedOrder_eq_ok hid
  have hmap : ((Op.call (.isolatedOrder request)).perform ex p.replay).1.runningMap =
      p.replay.runningMap.add entry.1 entry.2 :=
    congrArg SimulatedTradeExecutorState.runningMap hs'
  have halike : AlikeEntry (t, trailingOf request.stoploss) entry :=
    ⟨hfills entry stoploss t hopen hcheck hnew, (openTrade_tsl hopen).symm⟩
  refine Matches.insert hmirrors halike (fun e => ?_) (fun r => ?_)
  · rw [hregisters.runningMap]
    exact hi.sound.consistent.mem_add (hi.sound.consistent.contains_eq_false.mp hregisters.unknown)
  · rw [hmap]
    exact mem_tradesDesc_add (hi.replay.keyed.fresh hinj hopen)

/-- A closure that both sides make closes the trades it selects on both. -/
theorem close_mirrors {close : Close} {config : LiveTradeExecutorConfig}
    {answers : CloseAnswers ε} {out : LiveOutcome ε Unit} (hi : InStep ex p)
    (hmirrors : Mirrors p) (hsuc : Succeeds ex p.replay (.call (replayClose close)))
    (hasked : ClosesAsked p.session answers)
    (hout : (liveClose answers close).perform ex.sdk config p.session = out)
    (hdone : out.result = .ok ()) :
    Carries ex.sdk p.session out.session ∧
      Mirrors ⟨((Op.call (replayClose close)).perform ex p.replay).1, out.session⟩ := by
  obtain ⟨gone, hleaves, hgone⟩ := liveClose_leaves hi.sound hi.summarised hasked hout hdone
  refine ⟨hleaves.toCarries, ?_⟩
  have hfates : (Op.call (replayClose close)).fates ex p.replay =
      some (closeFates ex p.replay.time close) := by
    cases close with
    | side tradeSide => cases tradeSide <;> rfl
    | _ => rfl
  have hpassed : ∃ acc last, Passes ex (closeFates ex p.replay.time close)
      p.replay.runningMap.tradesDesc { startPass p.replay with lastTradeTime := last } acc ∧
      Commits ε p.replay ((Op.call (replayClose close)).perform ex p.replay).1 acc := by
    cases close with
    | single id =>
        obtain ⟨ids, hids⟩ := method_succeeds rfl hsuc
        exact closeRunning_passed hids
    | side tradeSide =>
        cases tradeSide with
        | buy =>
            obtain ⟨ids, hids⟩ := method_succeeds rfl hsuc
            exact closeRunning_passed hids
        | sell =>
            obtain ⟨ids, hids⟩ := method_succeeds rfl hsuc
            exact closeRunning_passed hids
    | all =>
        obtain ⟨ids, hids⟩ := method_succeeds rfl hsuc
        exact closeRunning_passed hids
  obtain ⟨acc, last, hpass, hcommit⟩ := hpassed
  have hbecomes' := close_becomes hi.replay.keyed hfates hpass
  have hbecomes : Becomes (fun e e' => e.1.id ∉ gone ∧ e' = e) p.session.runningMap.tradesDesc
      out.session.runningMap.tradesDesc := by
    constructor
    · rintro e he ⟨-, hkept, -⟩
      exact ⟨e, (hleaves.mem_iff e).mpr ⟨he, hkept⟩, hkept, rfl⟩
    · intro e he
      obtain ⟨he, hkept⟩ := (hleaves.mem_iff e).mp he
      exact ⟨e, he, hkept, rfl⟩
  rw [← hcommit.runningMap] at hbecomes'
  refine hmirrors.becomes hbecomes hbecomes' ?_ ?_
  · intro e he r hr halike
    have hselects : close.selects e.1.asRunning = close.selects r.1 := by
      simp only [Close.selects, halike.1.id, halike.1.side]
    simp [hgone e he, hselects]
  · rintro e he r hr halike e' r' ⟨-, rfl⟩ ⟨-, rfl⟩
    exact halike

theorem addMargin_eq_ok {s : SimulatedTradeExecutorState} {id : Uuid} {amount : ℕ}
    (hsuc : Succeeds ex s (.call (.isolatedTradeAddMargin id amount))) :
    ∃ key entry t, s.runningMap.getById id = some (key, entry) ∧
      entry.1.withAddedMargin ex.sdk amount = .ok t ∧
      ((Op.call (.isolatedTradeAddMargin id amount)).perform ex s).1.runningMap =
        { s.runningMap with trades := s.runningMap.trades.set key (t, entry.2) } := by
  obtain ⟨_, hdone⟩ := method_succeeds rfl hsuc
  simp only [Op.perform, Call.execute, answer]
  unfold SimulatedTradeExecutor.isolatedTradeAddMargin at hdone ⊢
  split_ifs at hdone ⊢
  cases hget : s.runningMap.getById id with
  | none => simp [hget] at hdone
  | some found =>
      obtain ⟨key, entry, tsl⟩ := found
      cases hadd : entry.withAddedMargin ex.sdk amount with
      | error e => simp [hget, hadd] at hdone
      | ok t => exact ⟨key, (entry, tsl), t, rfl, hadd, by simp [hadd, writeTrade]⟩

/-- Rewriting the trade of an id rewrites no other trade. -/
theorem mem_tradesDesc_set {s : SimulatedTradeExecutorState} {id : Uuid} {key : TradeReference}
    {entry : RunningEntry} {t : SimulatedTradeRunning}
    (hagree : RunningTradesMap.Agree s.runningMap)
    (hget : s.runningMap.getById id = some (key, entry)) (r' : RunningEntry) :
    r' ∈ ({ s.runningMap with trades := s.runningMap.trades.set key (t, entry.2) } :
        RunningTradesMap).tradesDesc ↔
      ∃ r ∈ s.runningMap.tradesDesc, r' = if r.1.id = id then (t, r.2) else r := by
  have hone : ∀ k r, (k, r) ∈ s.runningMap.trades →
      (k = key ∧ r.1.id = id ∧ r = entry) ∨ (k ≠ key ∧ r.1.id ≠ id) := by
    intro k r hr
    by_cases hid : r.1.id = id
    · have hown := (getById_iff hagree).mpr ⟨mem_tradesDesc.mpr ⟨k, hr⟩, hid, rfl⟩
      obtain ⟨hkey, hentry⟩ := Prod.mk.inj (Option.some.inj (hown.symm.trans hget))
      exact Or.inl ⟨(hagree.keyed k r hr).trans hkey, hid, hentry⟩
    · refine Or.inr ⟨?_, hid⟩
      rintro rfl
      rw [OrdMap.eq_of_mem hr (getById_mem hget)] at hid
      exact hid ((getById_iff hagree).mp hget).2.1
  have hsame : ∀ k r, (k, r) ∈ s.runningMap.trades →
      (if k = key then (t, entry.2) else r) = if r.1.id = id then (t, r.2) else r := by
    intro k r hr
    rcases hone k r hr with ⟨rfl, rfl, rfl⟩ | ⟨hkey, hid⟩
    · simp
    · simp [hkey, hid]
  rw [mem_tradesDesc]
  constructor
  · rintro ⟨key', hmem⟩
    obtain ⟨⟨k, r⟩, hr, heq⟩ := OrdMap.mem_set.mp hmem
    refine ⟨r, mem_tradesDesc.mpr ⟨k, hr⟩, ?_⟩
    rw [(Prod.mk.inj heq).2, ← hsame k r hr]
    congr
  · rintro ⟨r, hr, rfl⟩
    obtain ⟨k, hk⟩ := mem_tradesDesc.mp hr
    refine ⟨k, OrdMap.mem_set.mpr ⟨(k, r), hk, ?_⟩⟩
    rw [← hsame k r hk]
    congr

theorem rewritten_one (u : Trade) (e : TradeEntry) :
    rewritten (tradesById [u]) e = if e.1.id = u.id then (u, e.2) else e := by
  unfold rewritten
  cases hget : (tradesById [u]).get e.1.id with
  | none =>
      have hother : e.1.id ≠ u.id := by
        rintro hid
        simp [get_tradesById_eq_none, hid] at hget
      rw [if_neg hother]
      rfl
  | some v =>
      obtain ⟨hv, hid⟩ := mem_of_get_tradesById hget
      obtain rfl := List.mem_singleton.mp hv
      rw [if_pos hid.symm]
      rfl

/-- Margin that both sides add moves the same trade on both. -/
theorem addMargin_mirrors {id : Uuid} {amount : ℕ} {margins : MarginSdk}
    {answer : Uuid → ℕ → Except ε Trade} {session' : LiveTradingSession} (hi : InStep ex p)
    (hmirrors : Mirrors p) (hsuc : Succeeds ex p.replay (.call (.isolatedTradeAddMargin id amount)))
    (hadds : ∀ entry t u, p.replay.runningMap.getById id = some entry →
      entry.2.1.withAddedMargin ex.sdk amount = .ok t → answer id amount = .ok u →
      Alike u.asRunning t)
    (hdone : LiveTradeExecutor.isolatedTradeAddMargin ex.sdk margins p.session id amount answer =
      .ok session') :
    Carries ex.sdk p.session session' ∧ Mirrors
      ⟨((Op.call (.isolatedTradeAddMargin id amount)).perform ex p.replay).1, session'⟩ := by
  obtain ⟨u, hanswer, hupdate⟩ := addMargin_books hdone
  have hupdated := keyed_tradesById [u]
  obtain ⟨hupdates, hs'⟩ := updates_of_ok hi.sound hupdated hupdate
  have hsummarised' := summarised_update hi.sound hupdated hi.summarised hupdate
  refine ⟨⟨hupdates.tslStepSize, hs', hsummarised'⟩, ?_⟩
  obtain ⟨key, entry, t, hget, hadd, hmap⟩ := addMargin_eq_ok hsuc
  have halike : Alike u.asRunning t := hadds _ t u hget hadd hanswer
  have hid : u.id = id := by
    obtain ⟨-, hentry, -⟩ := (getById_iff hi.replay.filed.running).mp hget
    exact (halike.id.trans (withAddedMargin_same hadd).id).trans hentry
  have hset := mem_tradesDesc_set (t := t) hi.replay.filed.running hget
  rw [← hmap] at hset
  refine Matches.map hmirrors hupdates.mem_iff hset ?_
  · intro e he r hr hentry
    rw [rewritten_one, hid]
    have hids : e.1.id = r.1.id := hentry.1.id
    by_cases hown : e.1.id = id
    · rw [if_pos hown, if_pos (hids.symm.trans hown)]
      exact ⟨halike, hentry.2⟩
    · rw [if_neg hown, if_neg fun h => hown (hids.trans h)]
      exact hentry

theorem isBeside_fates {s : SimulatedTradeExecutorState} (hop : isBeside op = true) :
    op.fates ex s = none := by
  cases op with
  | call c =>
      cases c with
      | crossDeposit | crossWithdraw | crossSetLeverage | crossOrder => rfl
      | crossOrderClosePosition | tradingState => rfl
      | _ => cases hop
  | updateTime time => rfl
  | _ => cases hop

theorem beside_mirrors {session' : LiveTradingSession} (hi : InStep ex p) (hmirrors : Mirrors p)
    (hop : isBeside op = true) (hcrosses : Crosses ε p.session session') :
    Carries ex.sdk p.session session' ∧ Mirrors ⟨(op.perform ex p.replay).1, session'⟩ := by
  obtain ⟨hcarries, hmap⟩ := hcrosses.carries hi.sound hi.summarised
  have heffect : Effect ex p.replay op (op.perform ex p.replay).1 := op.effect
  have hquiet : (op.perform ex p.replay).1.runningMap = p.replay.runningMap := by
    cases heffect with
    | quiet _ hmap => exact hmap
    | passed fates acc last hfates =>
        rw [isBeside_fates hop] at hfates
        cases hfates
    | opened _ _ _ hop' | marginAdded _ _ _ _ _ hop' | cashedIn _ _ _ _ _ hop'
    | interrupted _ hop' =>
        subst hop'
        cases hop
  refine ⟨hcarries, ?_⟩
  unfold Mirrors
  rwa [hquiet, hmap]

/-- A step of both sides leaves them alike, unless its candle does not track. -/
theorem mirrors_iff (hinj : Function.Injective ex.newV4) (hi : InStep ex p) (hmirrors : Mirrors p)
    (h : PairedStep ex p op p') :
    Carries ex.sdk p.session p'.session ∧ (Mirrors p' ↔ Tracks ex p.replay op) ∧
      Parts ex p p' op := by
  obtain ⟨hsuc, hreplay, hlive⟩ := h
  obtain ⟨replay', session'⟩ := p'
  obtain rfl : replay' = (op.perform ex p.replay).1 := hreplay
  cases hlive with
  | order request config answers out hfills hout hdone =>
      obtain ⟨hcarries, hmirrors'⟩ := order_mirrors hinj hi hmirrors hsuc hfills hout hdone
      exact ⟨hcarries, iff_of_true hmirrors' trivial, trivial⟩
  | close close config answers out hasked hout hdone =>
      obtain ⟨hcarries, hmirrors'⟩ := close_mirrors hi hmirrors hsuc hasked hout hdone
      cases close with
      | side tradeSide =>
          cases tradeSide <;> exact ⟨hcarries, iff_of_true hmirrors' trivial, trivial⟩
      | _ => exact ⟨hcarries, iff_of_true hmirrors' trivial, trivial⟩
  | addMargin id amount margins answer session' hadds hdone =>
      obtain ⟨hcarries, hmirrors'⟩ := addMargin_mirrors hi hmirrors hsuc hadds hdone
      exact ⟨hcarries, iff_of_true hmirrors' trivial, trivial⟩
  | candle candle tables sources latest closed session' htick hrange hmoves hdone =>
      exact candle_mirrors_iff hi hmirrors (Prod.ext rfl hsuc) htick hrange hmoves hdone
  | beside op session' hop hcrosses =>
      obtain ⟨hcarries, hmirrors'⟩ := beside_mirrors hi hmirrors hop hcrosses
      cases op with
      | candleUpdate candle => cases hop
      | _ => exact ⟨hcarries, iff_of_true hmirrors' trivial, trivial⟩

theorem inStep_start (h : (pairedSystem ex).start p) : InStep ex p ∧ Mirrors p := by
  obtain ⟨⟨startCandle, startBalance, hreplay⟩, sources, hnew⟩ := h
  have hfresh := unrecovered_of_new hnew
  refine ⟨⟨?_, sound_of_new hnew, summarised_new hnew, hfresh.tslStepSize⟩, ?_⟩
  · rw [hreplay]
    exact replaySound_start
  · unfold Mirrors
    rw [hfresh.runningMap, hreplay]
    exact .nil _

/-- A replay and a live session on an exchange that does what the replay does run the same
trades, with the same stoplosses, as long as no candle would move the trailing stoploss of a
trade it leaves running to its close or beyond. A candle that would makes them part: the replay
leaves that stoploss, and the session moves it. -/
theorem backtest_and_live_agree (hinj : Function.Injective ex.newV4)
    (away : AddedMarginLaw ex.sdk) (laws : PriceLaws ex.sdk) {ops : List Op}
    (hrun : ((pairedSystem ex).restrict fun p op => Tracks ex p.replay op).Run ops p) :
    Mirrors p ∧ ∀ op p', PairedStep ex p op p' →
      (Mirrors p' ↔ Tracks ex p.replay op) ∧ Parts ex p p' op := by
  have hboth : InStep ex p ∧ Mirrors p := by
    refine hrun.invariant (fun p hstart => inStep_start hstart) ?_
    rintro p op p' ⟨hi, hmirrors⟩ ⟨htracks, hstep⟩
    obtain ⟨hcarries, hiff, -⟩ := mirrors_iff hinj hi hmirrors hstep
    exact ⟨hi.next (hstep.replaySound hinj away laws hi.replay) hcarries, hiff.mpr htracks⟩
  exact ⟨hboth.2, fun op p' hstep => (mirrors_iff hinj hboth.1 hboth.2 hstep).2⟩

/-! ### A candle that closes below a trailing stoploss -/

/-- The exchange fills the order at 100000, with the stoploss it is sent. -/
def fillAnswers : OrderAnswers Refusal where
  latestEntry := .ok (some (0, F64.clamp 100000))
  newTrade _ _ _ stoploss _ := .ok { heldTrade with id := ⟨0⟩, stoploss }
  addRunningTrade _ _ := .ok ()

theorem flatSession_isOk : (LiveTradingSession.new referenceSdk false ReferenceSdk.tenthPercent
    (accountSources 0 [] .empty) none).isOk = true := by decide +kernel

def flatPair : Paired := ⟨flatStart, get _ flatSession_isOk⟩

/-- A long with a trailing stoploss of one percent, so that it is stopped at 99000. -/
def trailingOrder : IsolatedOrderRequest := trailingLong 1000 10 1

def orderOutcome : LiveOutcome Refusal Unit :=
  (TradeCall.isolatedOrder fillAnswers trailingOrder.side trailingOrder.size trailingOrder.leverage
    trailingOrder.stoploss trailingOrder.takeprofit).perform referenceSdk heldConfig
    flatPair.session

def orderedPair : Paired :=
  ⟨((Op.call (.isolatedOrder trailingOrder)).perform referenceExecutor flatStart).1,
    orderOutcome.session⟩

theorem orderedPair_step :
    PairedStep referenceExecutor flatPair (.call (.isolatedOrder trailingOrder)) orderedPair := by
  refine ⟨by decide +kernel, rfl, .order trailingOrder heldConfig fillAnswers orderOutcome ?_ rfl
    (by decide +kernel)⟩
  intro entry stoploss t hopen hcheck hnew
  obtain rfl := Except.ok.inj hnew
  have hfilled : (referenceExecutor.openTrade flatStart trailingOrder.side trailingOrder.size
      trailingOrder.leverage trailingOrder.stoploss trailingOrder.takeprofit).toOption.map
        (fun e => (e.1.id, e.1.side, e.1.stoploss, e.1.takeprofit, e.1.liquidation)) =
      some (⟨0⟩, .buy, some (ReferenceSdk.price 99000), none, ReferenceSdk.price 90909) := by
    decide +kernel
  have hsent : (checkOrder referenceSdk heldConfig flatPair.session fillAnswers trailingOrder.side
      trailingOrder.size trailingOrder.leverage trailingOrder.stoploss
      trailingOrder.takeprofit).toOption.map (·.1) = some (some (ReferenceSdk.price 99000)) := by
    decide +kernel
  rw [show flatStart = flatPair.replay from rfl, hopen] at hfilled
  rw [show referenceSdk = referenceExecutor.sdk from rfl, hcheck] at hsent
  simp only [Except.toOption, Option.map_some, Option.some.injEq, Prod.mk.injEq] at hfilled hsent
  obtain ⟨hid, hside, hstoploss, htakeprofit, hliquidation⟩ := hfilled
  exact ⟨hid.symm, hside.symm, hsent.trans hstoploss.symm, htakeprofit.symm, hliquidation.symm⟩

/-- It rises to 103000, so that the stoploss moves to 101970, and closes below that. -/
def peakCandle : OhlcCandleRow := minuteCandle 1 100500 103000 100500 101500

def peakTables : PriceTables where
  db := CandleTable.emptyTable
  priceTicks :=
    [⟨Duration.seconds 70, F64.clamp 100500, 0⟩, ⟨Duration.seconds 80, F64.clamp 103000, 0⟩,
      ⟨Duration.seconds 110, F64.clamp 101500, 0⟩]
  ticksAscending := by
    unfold Timeline.Ascending
    decide

/-- The exchange moves the stoploss as asked. -/
def movingSources : EvaluationSources Refusal where
  crossPosition := .error .price
  tradesClosed _ := .ok []
  updateStoploss id p := .ok { heldTrade with id, stoploss := some p }

theorem peak_isOk : (orderedPair.session.reevaluate referenceSdk peakTables movingSources).isOk =
    true := by decide +kernel

def partedPair : Paired :=
  ⟨(referenceExecutor.candleUpdate orderedPair.replay peakCandle).1, (get _ peak_isOk).1⟩

theorem partedPair_step :
    PairedStep referenceExecutor orderedPair (.candleUpdate peakCandle) partedPair := by
  have hrunning : orderedPair.session.runningMap.tradesDesc.map (·.1.asRunning) = [
      { heldTrade with id := ⟨0⟩, stoploss := some (ReferenceSdk.price 99000) }.asRunning] := by
    decide +kernel
  refine ⟨by decide +kernel, rfl, .candle peakCandle peakTables movingSources
    ⟨Duration.seconds 110, F64.clamp 101500⟩ (get _ peak_isOk).2 _ ?_ (by decide +kernel) ?_
    (eq_ok_get _)⟩
  · exact ⟨by unfold TickValid; decide +kernel, by unfold TickValid; decide +kernel,
      by unfold TickValid; decide +kernel⟩
  · intro id p t hmoved e he hid
    obtain rfl := Except.ok.inj hmoved
    have hentry := List.mem_map_of_mem (f := fun e : TradeEntry => e.1.asRunning) he
    rw [hrunning, List.mem_singleton] at hentry
    rw [hentry, ← hid]
    have hown : e.1.asRunning.id = ⟨0⟩ := by rw [hentry]; rfl
    exact ⟨hown, rfl, rfl, rfl, rfl⟩

theorem backtest_and_live_agree_peak : Mirrors orderedPair ∧ ¬ Mirrors partedPair ∧
    ∃ r ∈ partedPair.replay.runningMap.tradesDesc, r.1.stoploss = some (ReferenceSdk.price 99000) ∧
      ∃ e ∈ partedPair.session.runningMap.tradesDesc,
        e.1.id = r.1.id ∧ e.1.stoploss = some (ReferenceSdk.price 101970) := by
  have hstart : (pairedSystem referenceExecutor).start flatPair :=
    ⟨⟨_, _, rfl⟩, accountSources 0 [] .empty, eq_ok_get flatSession_isOk⟩
  have hrun : ((pairedSystem referenceExecutor).restrict fun p op =>
      Tracks referenceExecutor p.replay op).Run [.call (.isolatedOrder trailingOrder)]
      orderedPair := by
    have hbegin : ((pairedSystem referenceExecutor).restrict fun p op =>
      Tracks referenceExecutor p.replay op).Run [] flatPair := .start hstart
    exact hbegin.step ⟨trivial, orderedPair_step⟩
  obtain ⟨hmirrors, hiff⟩ := backtest_and_live_agree referenceExecutor_newV4
    ReferenceSdk.addedMarginLaw ReferenceSdk.priceLaws hrun
  obtain ⟨hparted, hparts⟩ := hiff _ _ partedPair_step
  have hmoves : ∃ r ∈ orderedPair.replay.runningMap.tradesDesc,
      candleExit peakCandle r.1 = none ∧ r.1.side = .buy ∧ r.2 = some ⟨⟨F64.clamp 1⟩⟩ ∧
      r.1.stoploss = some (ReferenceSdk.price 99000) ∧
      r.1.evalNewStoplossOnRange referenceSdk ReferenceSdk.tenthPercent ⟨⟨F64.clamp 1⟩⟩
        peakCandle.low peakCandle.high = .ok (some (ReferenceSdk.price 101970)) := by
    decide +kernel
  obtain ⟨r, hr, hopen, hside, htsl, hstoploss, hmoved⟩ := hmoves
  have hnew : MovesTo referenceExecutor.sdk referenceExecutor.config.trailingStoplossStepSize
      peakCandle.low peakCandle.high r (some (ReferenceSdk.price 101970)) := by
    unfold MovesTo
    rw [htsl]
    exact hmoved
  have hbeyond : ¬ Before r.1.side (ReferenceSdk.price 101970) ⟨peakCandle.close⟩ := by
    rw [hside]
    unfold Before
    decide +kernel
  obtain ⟨hr', hsession⟩ := hparts r hr hopen _ hnew hbeyond
  refine ⟨hmirrors, fun hmirrors' => ?_, r, hr', hstoploss, hsession⟩
  exact hbeyond (hparted.mp hmirrors' r hr hopen _ hnew)

end Quantoxide.Live
