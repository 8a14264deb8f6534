import Quantoxide.Verification.Engine.Buffering
import Quantoxide.Verification.Engine.Charges
import Quantoxide.Verification.Executor.Failures

/-! # Daily reports

A turn that is due a report moves the executor's clock to the end of the day and sends its
trading state. The clock is checked there and by the candle that follows; nothing else in a
turn fails with `TimeSequenceViolation`. -/

namespace Quantoxide

variable {ε : Type}

/-- The times of the `TimeSequenceViolation` a run failed with. -/
def BacktestError.timeViolation : BacktestError ε → Option (ℤ × ℤ)
  | .executorTickUpdate e => e.timeViolation
  | .fundingSettlementApplication e => e.timeViolation
  | _ => none

namespace Engine

open DateTime Result Timeline SimulatedTradeExecutor Executor Calls

variable {S ω : Type} {engine : BacktestEngine ε S ω} {sdk : LnmSdk ε} {newV4 : ℕ → Uuid}
  {steps : List LoopStep} {step : LoopStep} {s s' : BacktestState ε S ω}
  {ex : SimulatedTradeExecutor ε} {t t' : SimulatedTradeExecutorState}

/-- The computation does not fail with `TimeSequenceViolation`. -/
abbrev OnTime {α : Type} (x : Except (BacktestError ε) α) : Prop :=
  FailsOnly (fun e => e.timeViolation = none) x

theorem okOr_onTime {α : Type} {o : Option α} {e : BacktestError ε}
    (h : e.timeViolation = none) : OnTime (okOr o e) := failsOnly_okOr h

theorem mapError_onTime {α β : Type} {x : Except β α} {wrap : β → BacktestError ε}
    (h : ∀ e, (wrap e).timeViolation = none) : OnTime (x.mapError wrap) := failsOnly_mapError h

/-! ### Operators -/

theorem ctxCandles_onTime {consolidator : Option MultiResolutionConsolidator} {l : Lookback} :
    OnTime (ctxCandles consolidator l : Except (BacktestError ε) _) := by
  unfold ctxCandles
  split
  · exact failsOnly_ok
  · exact failsOnly_error rfl

theorem evaluate_onTime {operator : SignalOperator ε S ω}
    {consolidator : Option MultiResolutionConsolidator} {evaluator : SignalEvaluator S ω}
    {memory : ω} :
    OnTime (SignalOperatorRunning.evaluate ex operator consolidator evaluator memory t) := by
  apply (mapError_onTime fun _ => rfl).bind
  intro lookback _
  have hcandles : OnTime (SignalOperatorRunning.evalCandles consolidator lookback :
      Except (BacktestError ε) _) := by
    cases lookback with
    | none => exact failsOnly_ok
    | some l => exact ctxCandles_onTime.bind fun _ _ => failsOnly_ok
  apply hcandles.bind
  intro candles _
  apply (mapError_onTime fun _ => rfl).bind
  intro signal _
  exact (mapError_onTime fun _ => rfl).bind fun _ _ => failsOnly_ok

theorem evaluateAll_onTime {operator : SignalOperator ε S ω} {timeCursor : ℤ}
    {consolidator : Option MultiResolutionConsolidator}
    (evaluators : List (ℤ × SignalEvaluator S ω)) (memory : ω) :
    OnTime (SignalOperatorRunning.evaluateAll ex operator timeCursor consolidator evaluators
      memory t) := by
  induction evaluators generalizing memory t with
  | nil => exact failsOnly_ok
  | cons entry evaluators ih =>
      apply (mapError_onTime fun _ => rfl).bind
      intro interval _
      split_ifs
      · exact (ih memory).bind fun _ _ => failsOnly_ok
      · exact evaluate_onTime.bind fun _ _ => (ih _).bind fun _ _ => failsOnly_ok

theorem rawIterate_onTime {running : RawOperatorRunning ε ω} {timeCursor : ℤ}
    {consolidator : Option MultiResolutionConsolidator} :
    OnTime (running.iterate ex timeCursor consolidator t) := by
  apply (mapError_onTime fun _ => rfl).bind
  intro interval _
  split_ifs
  · apply (mapError_onTime fun _ => rfl).bind
    intro lookback _
    have hcandles : OnTime (RawOperatorRunning.rawCandles consolidator lookback :
        Except (BacktestError ε) _) := by
      cases lookback with
      | none => exact failsOnly_ok
      | some l => exact ctxCandles_onTime
    apply hcandles.bind
    intro candles _
    exact (mapError_onTime fun _ => rfl).bind fun _ _ => failsOnly_ok
  · exact failsOnly_ok

theorem iterate_onTime (running : OperatorRunning ε S ω) {timeCursor : ℤ}
    {consolidator : Option MultiResolutionConsolidator} :
    OnTime (running.iterate ex timeCursor consolidator t) := by
  cases running with
  | signal running => exact ((evaluateAll_onTime _ _).bind fun _ _ => failsOnly_ok).map
  | raw running => exact rawIterate_onTime.map

theorem iterate_time {running running' : OperatorRunning ε S ω} {timeCursor : ℤ}
    {consolidator : Option MultiResolutionConsolidator}
    (h : running.iterate ex timeCursor consolidator t = .ok (running', t')) : t'.time = t.time := by
  refine iterate_invariant (P := fun u => u.time = t.time) ?_ h rfl
  intro c u hu
  rw [(call_clock c).time, hu]

theorem start_onTime : OnTime (engine.start sdk newV4) := by
  have hbuffer : OnTime (firstBuffer engine.db engine.config.bufferSize
      engine.lookbacks.maxLookback engine.startTime : Except (BacktestError ε) _) := by
    apply (okOr_onTime rfl).bind
    intro idx _
    exact (okOr_onTime rfl).bind fun _ _ => failsOnly_ok
  have hoperator : OnTime (OperatorRunning.start engine.operatorPending engine.startTime) := by
    cases engine.operatorPending with
    | signal pending => exact ((mapError_onTime fun _ => rfl).bind fun _ _ => failsOnly_ok).map
    | raw pending => exact ((mapError_onTime fun _ => rfl).bind fun _ _ => failsOnly_ok).map
  apply hbuffer.bind
  intro first hfirst
  apply hoperator.bind
  intro operator _
  obtain ⟨r, hr, -⟩ := new_follows ε (lookbacks_covers engine.operatorPending).validMap
    (firstBuffer_spec hfirst)
  have hreplay : OnTime (Replay.new engine.db first engine.lookbacks.resolutionToMaxPeriod
      engine.startTime engine.endTime : Except (BacktestError ε) _) := by
    rw [BacktestEngine.lookbacks, hr]
    exact failsOnly_ok
  exact hreplay.bind fun _ _ => failsOnly_ok

/-! ### The executor -/

theorem check_onTime {wrap : SimulatedTradeExecutorError ε → BacktestError ε}
    {out : Outcome ε Unit} (hwrap : ∀ e, (wrap e).timeViolation = e.timeViolation)
    (h : InTime out.2) : OnTime (Outcome.check wrap out) :=
  (FailsOnly.mapError h fun e he => (hwrap e).trans he).map

/-- A report is sent at its time, unless the clock has passed it. -/
theorem report_some {time : ℤ} :
    (ex.report (some time) t : Except (BacktestError ε) _) =
      if time < t.time then .error (.executorTickUpdate (.timeSequenceViolation time t.time))
      else .ok (some (ex.tradingState { t with time }), { t with time }) := by
  by_cases h : time < t.time
  · simp only [SimulatedTradeExecutor.report, Outcome.check, updateTime, if_pos h]
    rfl
  · simp only [SimulatedTradeExecutor.report, Outcome.check, updateTime, if_neg h]
    rfl

theorem report_onTime {reportTime : Option ℤ} (h : ∀ time ∈ reportTime, t.time ≤ time) :
    OnTime (ex.report reportTime t : Except (BacktestError ε) _) := by
  cases reportTime with
  | none => exact failsOnly_ok
  | some time =>
      rw [report_some, if_neg (not_lt.mpr (h time rfl))]
      exact failsOnly_ok

theorem report_spec {reportTime : Option ℤ} {report : Option TradingState}
    (h : (ex.report reportTime t : Except (BacktestError ε) _) = .ok (report, t')) :
    (∀ time ∈ reportTime, t.time ≤ time) ∧ report.map (·.lastTickTime) = reportTime ∧
      t'.time = reportTime.getD t.time := by
  cases reportTime with
  | none =>
      cases h
      exact ⟨by simp, rfl, rfl⟩
  | some time =>
      rw [report_some] at h
      split_ifs at h with hlt
      cases h
      exact ⟨by simpa using hlt, rfl, rfl⟩

theorem settle_onTime {rows : List FundingSettlementRow} :
    OnTime (ex.settle rows t : Except (BacktestError ε) _) :=
  FailsOnly.foldlM (fun _ row => (check_onTime (fun _ => rfl)
    (applyFundingSettlement_inTime row)).bind fun _ _ => failsOnly_ok) rows _

theorem settle_time {rows : List FundingSettlementRow}
    {settled : List (FundingSettlementRow × SimulatedTradeExecutorState)}
    (h : ex.settle rows t = .ok (settled, t')) : t'.time = t.time := by
  refine (settle_spec (P := fun u => u.time = t.time) ?_ h rfl).2.2
  intro row u hu
  rw [applyFundingSettlement_time, hu]

/-! ### A turn -/

theorem dueReport_le {r : Replay} {time : ℤ} (htime : time ∈ r.dueReport) :
    time ≤ r.timeCursor + Duration.seconds 1 := by
  unfold Replay.dueReport at htime
  split_ifs at htime with hdue
  · obtain rfl : r.sendNextUpdateAt + Duration.seconds 1 = time := by simpa using htime
    omega
  · cases htime

theorem advance_onTime {r : Replay} {db : Database} {bufferSize : ℕ} {endTime : ℤ} :
    OnTime (r.advance db bufferSize endTime : Except (BacktestError ε) _) := by
  have hnext : OnTime (r.nextCandle db bufferSize endTime : Except (BacktestError ε) _) := by
    unfold Replay.nextCandle
    simp only
    split_ifs
    · exact failsOnly_error rfl
    · exact failsOnly_ok
    · exact failsOnly_ok
  apply hnext.bind
  intro r' _
  exact (okOr_onTime rfl).bind fun _ _ => failsOnly_ok

/-- A turn fails with `TimeSequenceViolation` only at a report the clock has passed: the next
candle ends after the time reported. -/
theorem turn_onTime {first : FirstBuffer} (h : RunFollows engine first steps s)
    (hclock : s.executor.time ≤ s.replay.timeCursor)
    (hreport : ∀ time ∈ s.replay.dueReport, s.executor.time ≤ time) :
    OnTime (engine.turn sdk newV4 s) := by
  apply (iterate_onTime s.operator).bind
  rintro ⟨operator, iterated⟩ hit
  have htime := iterate_time hit
  apply (report_onTime fun time hdue => htime.le.trans (hreport time hdue)).bind
  rintro ⟨report, reported⟩ hrep
  simp only
  split_ifs with hlast
  · exact failsOnly_ok
  · apply advance_onTime.bind
    rintro ⟨candle, replay⟩ hadvance
    obtain ⟨hnext, hadv⟩ := advance_spec h.afterReport hadvance
    apply settle_onTime.bind
    rintro ⟨settled, charged⟩ hsettle
    have hcursor := h.cursor
    have hminute := minute_le h.isMinute ((candleRows_feed engine.db).minutes _ hnext.mem) hnext.lt
    have hle : charged.time ≤ candle.time + Duration.seconds 59 := by
      rw [settle_time hsettle, (report_spec hrep).2.2, htime]
      unfold Duration.seconds at hcursor hminute ⊢
      cases hdue : s.replay.dueReport with
      | none =>
          simp only [Option.getD_none]
          omega
      | some time =>
          have hbound := dueReport_le hdue
          unfold Duration.seconds at hbound
          simp only [Option.getD_some]
          omega
    apply (check_onTime (fun _ => rfl) (candleUpdate_inTime hle)).bind
    intro updated _
    obtain ⟨r, hpush, -⟩ := push_follows ε h.afterReport hnext hadv
    rw [hpush]
    exact failsOnly_ok

/-- The trading state a call sends. -/
def sent (ex : SimulatedTradeExecutor ε) : Event ε S ω → Option TradingState
  | (.dailyState time, m) =>
    match (updateTime m.executor time : Outcome ε Unit) with
    | (reported, .ok ()) => some (ex.tradingState reported)
    | (_, .error _) => none
  | _ => none

/-- The trading states a turn sends. -/
def turnStates (engine : BacktestEngine ε S ω) (sdk : LnmSdk ε) (newV4 : ℕ → Uuid)
    (s : BacktestState ε S ω) : List TradingState :=
  (turnEvents engine sdk newV4 s).filterMap (sent (engine.executor sdk newV4))

theorem sent_report (ex : SimulatedTradeExecutor ε) (time : Option ℤ) (m : Machine ε S ω) :
    (made (LoopCall.perform ex) (time.map LoopCall.dailyState).toList m).filterMap (sent ex) =
      match (ex.report time m.executor : Except (BacktestError ε) _) with
      | .error _ => []
      | .ok (report, _) => report.toList := by
  cases time with
  | none => rfl
  | some time =>
      rw [report_some]
      by_cases h : time < m.executor.time
      · rw [if_pos h]
        simp [made, sent, LoopCall.perform, updateTime, if_pos h, Outcome.check, bind, Except.bind,
          Except.map]
      · rw [if_neg h]
        simp [made, sent, LoopCall.perform, updateTime, if_neg h, Outcome.check, bind, Except.bind,
          Except.map, pure, Except.pure]

/-- Only a call that asks for the day's state sends it. -/
theorem sent_none {ex : SimulatedTradeExecutor ε} {calls : List LoopCall}
    (h : ∀ time, LoopCall.dailyState time ∉ calls) (m : Machine ε S ω) :
    (made (LoopCall.perform ex) calls m).filterMap (sent ex) = [] := by
  rw [List.filterMap_eq_nil_iff]
  rintro ⟨call, m'⟩ hmem
  have hcall : call ∈ calls :=
    (made_prefix_calls (LoopCall.perform ex) calls m).subset (List.mem_map.mpr ⟨_, hmem, rfl⟩)
  cases call with
  | dailyState time => exact absurd hcall (h time)
  | iterate timeCursor => rfl
  | applyFundingSettlement settlement => rfl
  | candleUpdate candle => rfl
  | push candle => rfl

theorem callsAfter_noReport (engine : BacktestEngine ε S ω) (r : Replay) (time : ℤ) :
    LoopCall.dailyState time ∉ callsAfter engine r := by
  unfold callsAfter
  split_ifs
  · exact List.not_mem_nil
  · split
    · exact List.not_mem_nil
    · simp [callsAt]

/-- The calls after the report send nothing. -/
theorem sent_append {ex : SimulatedTradeExecutor ε} {rest : List LoopCall}
    (h : ∀ time, LoopCall.dailyState time ∉ rest) (calls : List LoopCall) (m : Machine ε S ω) :
    (made (LoopCall.perform ex) (calls ++ rest) m).filterMap (sent ex) =
      (made (LoopCall.perform ex) calls m).filterMap (sent ex) := by
  cases hcalls : performAll (LoopCall.perform ex) calls m with
  | error e => rw [made_append_error hcalls]
  | ok m' => rw [made_append hcalls, List.filterMap_append, sent_none h, List.append_nil]

/-- A turn sends what its report stage does. -/
theorem turnStates_eq (engine : BacktestEngine ε S ω) (sdk : LnmSdk ε) (newV4 : ℕ → Uuid)
    (s : BacktestState ε S ω) :
    turnStates engine sdk newV4 s =
      match s.operator.iterate (engine.executor sdk newV4) s.replay.timeCursor
        s.replay.consolidator s.executor with
      | .error _ => []
      | .ok (_, iterated) =>
        match (engine.executor sdk newV4).report s.replay.dueReport iterated with
        | .error _ => []
        | .ok (report, _) => report.toList := by
  rw [turnStates, turnEvents, turnCalls, sent_append (callsAfter_noReport engine s.replay),
    callsBefore, made, List.filterMap_cons]
  simp only [sent, LoopCall.perform]
  cases s.operator.iterate (engine.executor sdk newV4) s.replay.timeCursor
      s.replay.consolidator s.executor with
  | error e => rfl
  | ok iterated => exact sent_report _ _ _

/-- What a turn reports. -/
def Turn.reported : Turn LoopStep (Option TradingState) (BacktestState ε S ω) → Option TradingState
  | .finished report _ => report
  | .next step _ => step.report

theorem turn_reported {turn : Turn LoopStep (Option TradingState) (BacktestState ε S ω)}
    (h : engine.turn sdk newV4 s = .ok turn) :
    ∃ operator iterated reported, s.operator.iterate (engine.executor sdk newV4)
        s.replay.timeCursor s.replay.consolidator s.executor = .ok (operator, iterated) ∧
      (engine.executor sdk newV4).report s.replay.dueReport iterated =
        .ok (Turn.reported turn, reported) := by
  cases turn with
  | finished report s' =>
      obtain ⟨-, -, iterated, hit, hrep⟩ := turn_finished_iff.mp h
      exact ⟨s'.operator, iterated, s'.executor, hit, hrep⟩
  | next step s' =>
      obtain ⟨reported, charged, replay, hst⟩ := turn_next_iff.mp h
      exact ⟨s'.operator, step.iterated, reported, hst.iterate, hst.report⟩

/-- A turn that does not fail sends what it reports. -/
theorem turnStates_of_turn {turn : Turn LoopStep (Option TradingState) (BacktestState ε S ω)}
    (h : engine.turn sdk newV4 s = .ok turn) :
    turnStates engine sdk newV4 s = (Turn.reported turn).toList := by
  obtain ⟨operator, iterated, reported, hit, hrep⟩ := turn_reported h
  rw [turnStates_eq, hit]
  simp only [hrep]

/-- The time a trading state is stamped with. -/
abbrev stamps (states : List TradingState) : List ℤ := states.map (·.lastTickTime)

theorem stamps_turn (engine : BacktestEngine ε S ω) (sdk : LnmSdk ε) (newV4 : ℕ → Uuid)
    (s : BacktestState ε S ω) :
    stamps (turnStates engine sdk newV4 s) = [] ∨
      stamps (turnStates engine sdk newV4 s) = s.replay.dueReport.toList ∧
        ∀ time ∈ s.replay.dueReport, s.executor.time ≤ time := by
  rw [turnStates_eq]
  split
  · exact Or.inl rfl
  · rename_i hit
    split
    · exact Or.inl rfl
    · rename_i report _ hrep
      obtain ⟨hle, hstamp, -⟩ := report_spec hrep
      rw [iterate_time hit] at hle
      refine Or.inr ⟨?_, hle⟩
      rw [← hstamp]
      cases report <;> rfl

/-- A turn that does not fail sends the report that is due. -/
theorem stamps_of_turn_ok {turn : Turn LoopStep (Option TradingState) (BacktestState ε S ω)}
    (h : engine.turn sdk newV4 s = .ok turn) :
    stamps (turnStates engine sdk newV4 s) = s.replay.dueReport.toList ∧
      ∀ time ∈ s.replay.dueReport, s.executor.time ≤ time := by
  obtain ⟨operator, iterated, reported, hit, hrep⟩ := turn_reported h
  obtain ⟨hle, hstamp, -⟩ := report_spec hrep
  rw [iterate_time hit] at hle
  refine ⟨?_, hle⟩
  rw [turnStates_of_turn h, ← hstamp]
  cases Turn.reported turn <;> rfl

/-! ### A run -/

/-- The trading states the loop sends in at most `fuel` turns. -/
def loopStates (engine : BacktestEngine ε S ω) (sdk : LnmSdk ε) (newV4 : ℕ → Uuid) (fuel : ℕ)
    (s : BacktestState ε S ω) : List TradingState :=
  (loopTrace engine sdk newV4 fuel s).1.filterMap (sent (engine.executor sdk newV4))

theorem loopStates_succ (engine : BacktestEngine ε S ω) (sdk : LnmSdk ε) (newV4 : ℕ → Uuid)
    (fuel : ℕ) (s : BacktestState ε S ω) :
    loopStates engine sdk newV4 (fuel + 1) s =
      turnStates engine sdk newV4 s ++
        match engine.turn sdk newV4 s with
        | .ok (.next _ s') => loopStates engine sdk newV4 fuel s'
        | _ => [] := by
  rw [loopStates, loopTrace]
  cases engine.turn sdk newV4 s with
  | error e => exact (List.append_nil _).symm
  | ok turn =>
      cases turn with
      | finished report s' => exact (List.append_nil _).symm
      | next step s' => exact List.filterMap_append

/-- The trading states `run` sends in at most `fuel` turns, after the initial one. -/
def dailyStates (engine : BacktestEngine ε S ω) (sdk : LnmSdk ε) (newV4 : ℕ → Uuid) (fuel : ℕ) :
    List TradingState :=
  (trace engine sdk newV4 fuel).1.filterMap (sent (engine.executor sdk newV4))

/-- The times of the `TimeSequenceViolation` a run ends in. -/
def Ending.timeViolation : Ending ε S ω → Option (ℤ × ℤ)
  | .failed e => e.timeViolation
  | _ => none

end Engine

end Quantoxide
