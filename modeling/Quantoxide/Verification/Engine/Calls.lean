import Quantoxide.Library.Calls
import Quantoxide.Verification.Engine.Turns

/-! # The calls of a run

The replay alone says which calls a turn makes. Making them one after the other, each a method
of the operator, the executor or the consolidator, is all a turn does to these; so a run is
the list of its calls, with what each of them finds. -/

namespace Quantoxide.Engine

open DateTime Result Calls SimulatedTradeExecutor

variable {ε S ω : Type} {engine : BacktestEngine ε S ω} {sdk : LnmSdk ε} {newV4 : ℕ → Uuid}
  {steps : List LoopStep} {step : LoopStep} {s s' : BacktestState ε S ω}

inductive LoopCall
  | iterate (timeCursor : ℤ)
  | dailyState (time : ℤ)
  | applyFundingSettlement (settlement : FundingSettlementRow)
  | candleUpdate (candle : OhlcCandleRow)
  | push (candle : OhlcCandleRow)

/-- What the calls act on. -/
structure Machine (ε S ω : Type) where
  operator : OperatorRunning ε S ω
  consolidator : Option MultiResolutionConsolidator
  executor : SimulatedTradeExecutorState

abbrev machine (s : BacktestState ε S ω) : Machine ε S ω :=
  ⟨s.operator, s.replay.consolidator, s.executor⟩

def LoopCall.perform (ex : SimulatedTradeExecutor ε) (call : LoopCall) (m : Machine ε S ω) :
    Except (BacktestError ε) (Machine ε S ω) :=
  match call with
  | .iterate timeCursor => do
    let (operator, executor) ← m.operator.iterate ex timeCursor m.consolidator m.executor
    pure { m with operator, executor }
  | .dailyState time => do
    let executor ← Outcome.check .executorTickUpdate (updateTime m.executor time : Outcome ε Unit)
    pure { m with executor }
  | .applyFundingSettlement settlement => do
    let executor ← Outcome.check .fundingSettlementApplication
      (ex.applyFundingSettlement m.executor settlement)
    pure { m with executor }
  | .candleUpdate candle => do
    let executor ← Outcome.check .executorTickUpdate (ex.candleUpdate m.executor candle)
    pure { m with executor }
  | .push candle => do
    let consolidator ← m.consolidator.mapM fun c => c.push candle
    pure { m with consolidator }

/-! ### A turn -/

/-- The calls from the operator's to the report that is due. -/
def callsBefore (r : Replay) : List LoopCall :=
  .iterate r.timeCursor :: (r.dueReport.map LoopCall.dailyState).toList

/-- The calls once the loop has moved to a candle. -/
def callsAt (candle : OhlcCandleRow) (r : Replay) : List LoopCall :=
  r.dueSettlements.map LoopCall.applyFundingSettlement ++ [.candleUpdate candle, .push candle]

/-- The calls after the report: none in the last turn, and none where there is no candle to
move to. -/
def callsAfter (engine : BacktestEngine ε S ω) (r : Replay) : List LoopCall :=
  if r.afterReport.isLast engine.endTime then []
  else
    match (r.afterReport.advance engine.db engine.config.bufferSize engine.endTime :
      Except (BacktestError ε) _) with
    | .error _ => []
    | .ok (candle, replay) => callsAt candle replay

/-- The calls of a turn. -/
def turnCalls (engine : BacktestEngine ε S ω) (r : Replay) : List LoopCall :=
  callsBefore r ++ callsAfter engine r

/-- Whether the loop goes on after a turn, and the replay it has then, its consolidator
apart. -/
def replayAfter (engine : BacktestEngine ε S ω) (r : Replay) :
    Except (BacktestError ε) (Bool × Replay) :=
  if r.afterReport.isLast engine.endTime then .ok (false, r.afterReport)
  else
    (r.afterReport.advance engine.db engine.config.bufferSize engine.endTime).map fun next =>
      (true, { next.2 with
        settlements := next.2.settlements.dropWhile (fun s => s.time ≤ next.2.timeCursor) })

/-- The state of the loop with the replay and what the calls have acted on. -/
def assemble (next : Bool × Replay) (m : Machine ε S ω) : Bool × BacktestState ε S ω :=
  (next.1, ⟨{ next.2 with consolidator := m.consolidator }, m.operator, m.executor⟩)

/-- Whether the loop goes on after the turn, and its state then. -/
def Turn.after {ι ρ σ : Type*} : Turn ι ρ σ → Bool × σ
  | .finished _ s => (false, s)
  | .next _ s => (true, s)

section Perform

variable {ex : SimulatedTradeExecutor ε} (m : Machine ε S ω)

theorem performAll_report (ex : SimulatedTradeExecutor ε) (time : Option ℤ) :
    performAll (LoopCall.perform ex) (time.map LoopCall.dailyState).toList m =
      (ex.report time m.executor).map fun out => { m with executor := out.2 } := by
  cases time with
  | none => rfl
  | some time =>
      simp only [Option.map_some, Option.toList_some, performAll_cons, LoopCall.perform, report]
      cases (Outcome.check .executorTickUpdate
        (updateTime m.executor time : Outcome ε Unit)) <;> rfl

theorem performAll_settlements (ex : SimulatedTradeExecutor ε) (rows : List FundingSettlementRow)
    (before : List (FundingSettlementRow × SimulatedTradeExecutorState)) :
    performAll (LoopCall.perform ex) (rows.map LoopCall.applyFundingSettlement) m =
      (rows.foldlM (fun acc row => ex.charge row acc) (before, m.executor)).map
        fun out => { m with executor := out.2 } := by
  induction rows generalizing before m with
  | nil => rfl
  | cons row rows ih =>
      simp only [List.map_cons, performAll_cons, List.foldlM_cons, LoopCall.perform, charge]
      cases Outcome.check .fundingSettlementApplication
          (ex.applyFundingSettlement m.executor row) with
      | error e => rfl
      | ok t => exact ih { m with executor := t } _

end Perform

/-- Moving to the next candle leaves the consolidator alone. -/
theorem advance_consolidator {db : Database} {bufferSize : ℕ} {endTime : ℤ} {r r' : Replay}
    {c : OhlcCandleRow}
    (h : (r.advance db bufferSize endTime : Except (BacktestError ε) _) = .ok (c, r')) :
    r'.consolidator = r.consolidator := by
  simp only [Replay.advance, bind_eq_ok, pure_eq_ok, Prod.mk.injEq] at h
  obtain ⟨r₁, hnext, _, -, -, rfl⟩ := h
  simp only [Replay.nextCandle] at hnext
  split_ifs at hnext <;> cases hnext <;> rfl

theorem afterReport_consolidator (r : Replay) : r.afterReport.consolidator = r.consolidator := by
  unfold Replay.afterReport
  split_ifs <;> rfl

/-- A turn is its calls, and then the replay it leads to. -/
theorem turn_after (engine : BacktestEngine ε S ω) (sdk : LnmSdk ε) (newV4 : ℕ → Uuid)
    (s : BacktestState ε S ω) :
    (engine.turn sdk newV4 s).map Turn.after =
      performAll (LoopCall.perform (engine.executor sdk newV4)) (turnCalls engine s.replay)
          (machine s) >>= fun m =>
        (replayAfter engine s.replay).map fun next => assemble next m := by
  have hconsolidator := afterReport_consolidator s.replay
  simp only [BacktestEngine.turn, turnCalls, callsAfter, replayAfter, callsBefore, List.cons_append,
    performAll_cons, LoopCall.perform]
  cases s.operator.iterate (engine.executor sdk newV4) s.replay.timeCursor s.replay.consolidator
      s.executor with
  | error e => rfl
  | ok iterated =>
      obtain ⟨operator, iterated⟩ := iterated
      simp only [bind, Except.bind, pure, Except.pure, performAll_append, performAll_report]
      cases (engine.executor sdk newV4).report s.replay.dueReport iterated with
      | error e => rfl
      | ok reported =>
          obtain ⟨report, reported⟩ := reported
          simp only [Except.map]
          cases s.replay.afterReport.isLast engine.endTime with
          | true => simp [Turn.after, assemble, ← hconsolidator]
          | false =>
              simp only [Bool.false_eq_true, if_false]
              cases hadv : (s.replay.afterReport.advance engine.db engine.config.bufferSize
                  engine.endTime : Except (BacktestError ε) _) with
              | error e => rfl
              | ok next =>
                  obtain ⟨candle, replay⟩ := next
                  have hkeep := advance_consolidator hadv
                  simp only [callsAt, performAll_append, performAll_settlements _ _ _ [], settle]
                  cases replay.dueSettlements.foldlM
                      (fun acc row => (engine.executor sdk newV4).charge row acc)
                      ([], reported) with
                  | error e => rfl
                  | ok settled =>
                      obtain ⟨settled, charged⟩ := settled
                      simp only [Except.map, bind, Except.bind, performAll_cons, LoopCall.perform,
                        replayCandle]
                      cases Outcome.check .executorTickUpdate
                          ((engine.executor sdk newV4).candleUpdate charged candle) with
                      | error e => rfl
                      | ok updated =>
                          simp only [Replay.push, hkeep, hconsolidator, bind, Except.bind, pure,
                            Except.pure, performAll_nil]
                          cases (Option.mapM (fun multi : MultiResolutionConsolidator =>
                            multi.push candle) s.replay.consolidator :
                              Except (BacktestError ε) _) <;> rfl

theorem performAll_of_turn {turn : Turn LoopStep (Option TradingState) (BacktestState ε S ω)}
    (h : engine.turn sdk newV4 s = .ok turn) :
    performAll (LoopCall.perform (engine.executor sdk newV4)) (turnCalls engine s.replay)
        (machine s) =
      .ok (machine (Turn.after turn).2) := by
  have hafter := turn_after engine sdk newV4 s
  rw [h, Except.map, eq_comm] at hafter
  simp only [bind_eq_ok, exceptMap_eq_ok] at hafter
  obtain ⟨m, hperformed, next, -, hm⟩ := hafter
  rw [hperformed, ← hm]
  rfl

/-- A turn fails at one of its calls, or for want of a candle. -/
theorem performAll_of_turn_error {e : BacktestError ε} (h : engine.turn sdk newV4 s = .error e) :
    performAll (LoopCall.perform (engine.executor sdk newV4)) (turnCalls engine s.replay)
        (machine s) =
        .error e ∨ replayAfter engine s.replay = .error e := by
  have hafter := turn_after engine sdk newV4 s
  rw [h] at hafter
  cases hperformed : performAll (LoopCall.perform (engine.executor sdk newV4))
      (turnCalls engine s.replay) (machine s) with
  | error e' =>
      rw [hperformed] at hafter
      cases hafter
      exact Or.inl rfl
  | ok m =>
      rw [hperformed] at hafter
      cases hnext : (replayAfter engine s.replay : Except (BacktestError ε) _) with
      | error e' =>
          simp only [bind, Except.bind, hnext, Except.map] at hafter
          cases hafter
          exact Or.inr rfl
      | ok next =>
          simp only [bind, Except.bind, hnext, Except.map] at hafter
          cases hafter

/-! ### A run -/

/-- A call with what it finds. -/
abbrev Event (ε S ω : Type) := LoopCall × Machine ε S ω

/-- The calls a turn makes, the one it fails at included. -/
def turnEvents (engine : BacktestEngine ε S ω) (sdk : LnmSdk ε) (newV4 : ℕ → Uuid)
    (s : BacktestState ε S ω) : List (Event ε S ω) :=
  made (LoopCall.perform (engine.executor sdk newV4)) (turnCalls engine s.replay) (machine s)

/-- How a run of so many turns ends. -/
inductive Ending (ε S ω : Type)
  | unfinished
  | failed (e : BacktestError ε)
  | finished (operator : OperatorRunning ε S ω) (executor : SimulatedTradeExecutorState)

/-- The calls of the loop in at most `fuel` turns from a state, and how it ends. -/
def loopTrace (engine : BacktestEngine ε S ω) (sdk : LnmSdk ε) (newV4 : ℕ → Uuid) :
    ℕ → BacktestState ε S ω → List (Event ε S ω) × Ending ε S ω
  | 0, _ => ([], .unfinished)
  | fuel + 1, s =>
    match engine.turn sdk newV4 s with
    | .error e => (turnEvents engine sdk newV4 s, .failed e)
    | .ok (.finished _ s') => (turnEvents engine sdk newV4 s, .finished s'.operator s'.executor)
    | .ok (.next _ s') =>
      let rest := loopTrace engine sdk newV4 fuel s'
      (turnEvents engine sdk newV4 s ++ rest.1, rest.2)

/-- The calls of `run` in at most `fuel` turns of its loop, and how it ends. -/
def trace (engine : BacktestEngine ε S ω) (sdk : LnmSdk ε) (newV4 : ℕ → Uuid) (fuel : ℕ) :
    List (Event ε S ω) × Ending ε S ω :=
  match engine.start sdk newV4 with
  | .error e => ([], .failed e)
  | .ok s => loopTrace engine sdk newV4 fuel s

def Ending.of : Except (BacktestError ε) (Option (BacktestState ε S ω)) → Ending ε S ω
  | .error e => .failed e
  | .ok none => .unfinished
  | .ok (some s) => .finished s.operator s.executor

theorem loopTrace_ending (engine : BacktestEngine ε S ω) (sdk : LnmSdk ε) (newV4 : ℕ → Uuid)
    (fuel : ℕ) (s : BacktestState ε S ω) :
    (loopTrace engine sdk newV4 fuel s).2 =
      .of (BacktestEngine.run.loop engine sdk newV4 fuel s) := by
  induction fuel generalizing s with
  | zero => rfl
  | succ fuel ih =>
      rw [loopTrace, BacktestEngine.run.loop]
      cases engine.turn sdk newV4 s with
      | error e => rfl
      | ok turn =>
          cases turn with
          | finished report s' => rfl
          | next step s' => exact ih s'

theorem trace_ending (engine : BacktestEngine ε S ω) (sdk : LnmSdk ε) (newV4 : ℕ → Uuid)
    (fuel : ℕ) : (trace engine sdk newV4 fuel).2 = .of (engine.run sdk newV4 fuel) := by
  rw [trace, BacktestEngine.run]
  cases engine.start sdk newV4 with
  | error e => rfl
  | ok s => exact loopTrace_ending engine sdk newV4 fuel s

/-- The calls of the loop find what they are recorded with. -/
theorem loopTrace_made (engine : BacktestEngine ε S ω) (sdk : LnmSdk ε) (newV4 : ℕ → Uuid)
    (fuel : ℕ) (s : BacktestState ε S ω) :
    made (LoopCall.perform (engine.executor sdk newV4))
        ((loopTrace engine sdk newV4 fuel s).1.map (·.1)) (machine s) =
      (loopTrace engine sdk newV4 fuel s).1 := by
  induction fuel generalizing s with
  | zero => rfl
  | succ fuel ih =>
      rw [loopTrace]
      cases hturn : engine.turn sdk newV4 s with
      | error e => exact made_made _ _ _
      | ok turn =>
          cases turn with
          | finished report s' => exact made_made _ _ _
          | next step s' =>
              have hperformed := performAll_of_turn hturn
              simp only [List.map_append, turnEvents, made_of_ok hperformed,
                made_append hperformed]
              exact congrArg _ (ih s')

/-- The calls lead where a loop of so many turns does. -/
def LeadsTo (engine : BacktestEngine ε S ω) (sdk : LnmSdk ε) (newV4 : ℕ → Uuid)
    (steps : List LoopStep) (fuel : ℕ)
    (performed : Except (BacktestError ε) (Machine ε S ω)) :
    Except (BacktestError ε) (Option (BacktestState ε S ω)) → Prop
  | .error e => performed = .error e
  | .ok (some s) => performed = .ok (machine s)
  | .ok none => ∃ rest s, (system engine sdk newV4).Run (steps ++ rest) s ∧ rest.length = fuel ∧
      performed = .ok (machine s)

/-- With no candle wanting, the calls of the loop lead where it does. -/
theorem loopTrace_leadsTo
    (hreads : ∀ steps s, (system engine sdk newV4).Run steps s →
      ∃ next, (replayAfter engine s.replay : Except (BacktestError ε) _) = .ok next)
    (fuel : ℕ) (h : (system engine sdk newV4).Run steps s) :
    LeadsTo engine sdk newV4 steps fuel
      (performAll (LoopCall.perform (engine.executor sdk newV4))
        ((loopTrace engine sdk newV4 fuel s).1.map (·.1)) (machine s))
      (BacktestEngine.run.loop engine sdk newV4 fuel s) := by
  induction fuel generalizing steps s with
  | zero => exact ⟨[], s, by rwa [List.append_nil], rfl, rfl⟩
  | succ fuel ih =>
      rw [loopTrace, BacktestEngine.run.loop]
      cases hturn : engine.turn sdk newV4 s with
      | error e =>
          obtain ⟨next, hnext⟩ := hreads steps s h
          have hfails := (performAll_of_turn_error hturn).resolve_right (by simp [hnext])
          exact (performAll_made _ _ _).trans hfails
      | ok turn =>
          have hperformed := performAll_of_turn hturn
          cases turn with
          | finished report s' => exact (performAll_made _ _ _).trans hperformed
          | next step s' =>
              have hrest := ih (h.step hturn)
              simp only [List.map_append, turnEvents, made_of_ok hperformed, performAll_append,
                hperformed]
              simp only [bind, Except.bind]
              revert hrest
              generalize BacktestEngine.run.loop engine sdk newV4 fuel s' = result
              intro hrest
              cases result with
              | error e => exact hrest
              | ok last =>
                  cases last with
                  | some t => exact hrest
                  | none =>
                      obtain ⟨rest, t, hrun, hlength, hlast⟩ := hrest
                      refine ⟨step :: rest, t, ?_, by simp [hlength], hlast⟩
                      rwa [List.append_cons]

/-- Made one after the other from the start of `run`, the calls of its trace find what they
are recorded with and lead where it does. -/
def Performed (engine : BacktestEngine ε S ω) (sdk : LnmSdk ε) (newV4 : ℕ → Uuid) (fuel : ℕ) :
    Prop :=
  let perform := LoopCall.perform (engine.executor sdk newV4)
  let calls := (trace engine sdk newV4 fuel).1.map (·.1)
  ∀ s, engine.start sdk newV4 = .ok s →
    made perform calls (machine s) = (trace engine sdk newV4 fuel).1 ∧
      LeadsTo engine sdk newV4 [] fuel (performAll perform calls (machine s))
        (engine.run sdk newV4 fuel)

theorem performed
    (hreads : ∀ steps s, (system engine sdk newV4).Run steps s →
      ∃ next, (replayAfter engine s.replay : Except (BacktestError ε) _) = .ok next)
    (fuel : ℕ) : Performed engine sdk newV4 fuel := by
  intro s hs
  have hrun : engine.run sdk newV4 fuel = BacktestEngine.run.loop engine sdk newV4 fuel s := by
    rw [BacktestEngine.run, hs]
    rfl
  have htrace : trace engine sdk newV4 fuel = loopTrace engine sdk newV4 fuel s := by
    rw [trace, hs]
  rw [hrun, htrace]
  exact ⟨loopTrace_made engine sdk newV4 fuel s, loopTrace_leadsTo hreads fuel (.start hs)⟩

end Quantoxide.Engine
