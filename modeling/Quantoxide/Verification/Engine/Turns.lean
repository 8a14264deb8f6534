import Quantoxide.Library.Runs
import Quantoxide.Verification.Engine.Replay

/-! # Runs of the engine

A run is the list of turns its loop has taken. A turn iterates the operator, reports the
day, moves to the next candle, applies the settlements due and replays the candle; after
any run the replay follows the stored candles. -/

namespace Quantoxide.Engine

open DateTime Result Timeline Consolidator

variable {ε S ω : Type} {engine : BacktestEngine ε S ω} {sdk : LnmSdk ε} {newV4 : ℕ → Uuid}
  {steps : List LoopStep} {step : LoopStep} {s s' : BacktestState ε S ω}

/-- The states of `run` at the head of its loop. -/
def system (engine : BacktestEngine ε S ω) (sdk : LnmSdk ε) (newV4 : ℕ → Uuid) :
    Runs.System (BacktestState ε S ω) LoopStep where
  start s := engine.start sdk newV4 = .ok s
  step s step s' := engine.turn sdk newV4 s = .ok (.next step s')

/-- The stages of a turn, with the states between them. -/
structure Stages (engine : BacktestEngine ε S ω) (sdk : LnmSdk ε) (newV4 : ℕ → Uuid)
    (s : BacktestState ε S ω) (step : LoopStep) (s' : BacktestState ε S ω)
    (reported charged : SimulatedTradeExecutorState) (replay : Replay) : Prop where
  timeCursor : step.timeCursor = s.replay.timeCursor
  found : step.found = s.executor
  iterate : s.operator.iterate (engine.executor sdk newV4) s.replay.timeCursor
    s.replay.consolidator s.executor = .ok (s'.operator, step.iterated)
  report : (engine.executor sdk newV4).report s.replay.dueReport step.iterated =
    .ok (step.report, reported)
  goesOn : s.replay.afterReport.isLast engine.endTime = false
  advance : s.replay.afterReport.advance engine.db engine.config.bufferSize engine.endTime =
    (.ok (step.candle, replay) : Except (BacktestError ε) _)
  settle : (engine.executor sdk newV4).settle replay.dueSettlements reported =
    .ok (step.settled, charged)
  candle : (engine.executor sdk newV4).replayCandle step.candle charged = .ok step.updated
  push : replay.push step.candle = (.ok s'.replay : Except (BacktestError ε) _)
  updated : s'.executor = step.updated

theorem turn_next_iff : engine.turn sdk newV4 s = .ok (.next step s') ↔
    ∃ reported charged replay, Stages engine sdk newV4 s step s' reported charged replay := by
  simp only [BacktestEngine.turn, bind_eq_ok, Prod.exists]
  constructor
  · rintro ⟨operator, iterated, hit, report, reported, hrep, h⟩
    split_ifs at h with hlast
    · cases h
    · simp only [bind_eq_ok, Prod.exists, pure_eq_ok, Turn.next.injEq] at h
      obtain ⟨candle, replay, hadv, settled, charged, hset, updated, hcan, replay', hpush, rfl,
        rfl⟩ := h
      exact ⟨reported, charged, replay, rfl, rfl, hit, hrep, by simpa using hlast, hadv, hset,
        hcan, hpush, rfl⟩
  · rintro ⟨reported, charged, replay, h⟩
    obtain ⟨timeCursor, found, iterated, report, settled, candle, updated⟩ := step
    obtain ⟨replay', operator, executor⟩ := s'
    obtain ⟨rfl, rfl, hit, hrep, hgo, hadv, hset, hcan, hpush, rfl⟩ := h
    refine ⟨operator, iterated, hit, report, reported, hrep, ?_⟩
    rw [if_neg (by simp [hgo])]
    simp only [bind_eq_ok, Prod.exists, pure_eq_ok, Turn.next.injEq]
    exact ⟨candle, replay, hadv, settled, charged, hset, _, hcan, replay', hpush, rfl, rfl⟩

/-- The last turn stops at its report. -/
theorem turn_finished_iff {report : Option TradingState} :
    engine.turn sdk newV4 s = .ok (.finished report s') ↔
      s.replay.afterReport.isLast engine.endTime = true ∧ s'.replay = s.replay.afterReport ∧
        ∃ iterated, s.operator.iterate (engine.executor sdk newV4) s.replay.timeCursor
            s.replay.consolidator s.executor = .ok (s'.operator, iterated) ∧
          (engine.executor sdk newV4).report s.replay.dueReport iterated =
            .ok (report, s'.executor) := by
  simp only [BacktestEngine.turn, bind_eq_ok, Prod.exists]
  constructor
  · rintro ⟨operator, iterated, hit, report', reported, hrep, h⟩
    split_ifs at h with hlast
    · simp only [pure_eq_ok, Turn.finished.injEq] at h
      obtain ⟨rfl, rfl⟩ := h
      exact ⟨hlast, rfl, iterated, hit, hrep⟩
    · simp only [bind_eq_ok, pure_eq_ok, reduceCtorEq, and_false, exists_false] at h
  · rintro ⟨hlast, hreplay, iterated, hit, hrep⟩
    refine ⟨s'.operator, iterated, hit, report, s'.executor, hrep, ?_⟩
    rw [if_pos hlast, ← hreplay]
    rfl

theorem turn_finished {report : Option TradingState}
    (h : engine.turn sdk newV4 s = .ok (.finished report s')) :
    s.replay.afterReport.isLast engine.endTime = true := (turn_finished_iff.mp h).1

/-- What `run` has when its loop starts. -/
structure Starts (engine : BacktestEngine ε S ω) (sdk : LnmSdk ε) (newV4 : ℕ → Uuid)
    (first : FirstBuffer) (s : BacktestState ε S ω) : Prop where
  startsAt : StartsAt engine.db engine.config.bufferSize engine.lookbacks.maxLookback
    engine.startTime first
  operator : OperatorRunning.start engine.operatorPending engine.startTime = .ok s.operator
  replay : Replay.new engine.db first engine.lookbacks.resolutionToMaxPeriod engine.startTime
    engine.endTime = (.ok s.replay : Except (BacktestError ε) _)
  executor : s.executor = (engine.executor sdk newV4).new first.startCandle engine.startBalance

theorem start_spec (h : engine.start sdk newV4 = .ok s) :
    ∃ first, Starts engine sdk newV4 first s := by
  simp only [BacktestEngine.start, bind_eq_ok, pure_eq_ok] at h
  obtain ⟨first, hfirst, operator, hop, replay, hrep, rfl⟩ := h
  exact ⟨first, firstBuffer_spec hfirst, hop, hrep, rfl⟩

/-- The time the first buffer is fetched from. -/
def historyFrom (engine : BacktestEngine ε S ω) : ℤ :=
  bufferFrom engine.lookbacks.maxLookback engine.startTime

/-- The newest candle replayed: the start candle before any turn. -/
def newestCandle (startCandle : OhlcCandleRow) (steps : List LoopStep) : OhlcCandleRow :=
  (steps.getLast?.map (·.candle)).getD startCandle

@[simp] theorem newestCandle_nil (c : OhlcCandleRow) : newestCandle c [] = c := rfl

@[simp] theorem newestCandle_concat (c : OhlcCandleRow) :
    newestCandle c (steps ++ [step]) = step.candle := by
  simp [newestCandle]

/-- The replay of a reached state follows the stored candles. -/
abbrev RunFollows (engine : BacktestEngine ε S ω) (first : FirstBuffer) (steps : List LoopStep)
    (s : BacktestState ε S ω) : Prop :=
  Follows engine.db engine.lookbacks.resolutionToMaxPeriod (historyFrom engine) steps.isEmpty
    (newestCandle first.startCandle steps) s.replay

theorem starts_follows {first : FirstBuffer} (h : Starts engine sdk newV4 first s) :
    RunFollows engine first [] s ∧ Started engine.db engine.startTime engine.endTime s.replay := by
  obtain ⟨r, hr, hfollows, hstarted⟩ := new_follows ε
    (lookbacks_covers engine.operatorPending).validMap h.startsAt
  obtain rfl := Except.ok.inj (h.replay.symm.trans hr)
  exact ⟨hfollows, hstarted⟩

/-- A turn replays the next stored candle and keeps the rest in step. -/
theorem turn_follows {first : FirstBuffer} {reported charged : SimulatedTradeExecutorState}
    {replay : Replay} (h : RunFollows engine first steps s)
    (hst : Stages engine sdk newV4 s step s' reported charged replay) :
    IsNextCandle engine.db (newestCandle first.startCandle steps).time step.candle ∧
      Advanced engine.db s.replay.afterReport step.candle replay ∧
      RunFollows engine first (steps ++ [step]) s' ∧
      s'.replay.settlements = s.replay.settlements.dropWhile
        (fun x => x.time ≤ step.candle.time + Duration.seconds 59) := by
  obtain ⟨hnext, hadv⟩ := advance_spec h.afterReport hst.advance
  obtain ⟨r, hr, hfollows, hsettle, -⟩ := push_follows ε h.afterReport hnext hadv
  obtain rfl := Except.ok.inj (hst.push.symm.trans hr)
  have hkeep : s.replay.afterReport.settlements = s.replay.settlements := by
    unfold Replay.afterReport
    split_ifs <;> rfl
  refine ⟨hnext, hadv, ?_, ?_⟩
  · have hsome : (steps ++ [step]).isEmpty = false := by simp
    rw [RunFollows, newestCandle_concat, hsome]
    exact hfollows
  · rw [hsettle, hadv.settlements, hadv.cursor, hkeep]

/-- Every run has a first buffer, and its replay follows the stored candles. -/
theorem run_follows (h : (system engine sdk newV4).Run steps s) :
    ∃ first, StartsAt engine.db engine.config.bufferSize engine.lookbacks.maxLookback
      engine.startTime first ∧ RunFollows engine first steps s := by
  induction h with
  | start hs =>
      obtain ⟨first, hstart⟩ := start_spec hs
      exact ⟨first, hstart.startsAt, (starts_follows hstart).1⟩
  | step _ hs ih =>
      obtain ⟨first, hfirst, hfollows⟩ := ih
      obtain ⟨reported, charged, replay, hst⟩ := turn_next_iff.mp hs
      exact ⟨first, hfirst, (turn_follows hfollows hst).2.2.1⟩

/-! ### Runs by evaluation -/

/-- The first `n` turns and the state after them, if `run` takes as many. -/
def runFor (engine : BacktestEngine ε S ω) (sdk : LnmSdk ε) (newV4 : ℕ → Uuid) :
    ℕ → Option (List LoopStep × BacktestState ε S ω)
  | 0 => (engine.start sdk newV4).toOption.map fun s => ([], s)
  | n + 1 =>
    match runFor engine sdk newV4 n with
    | none => none
    | some (steps, s) =>
      match engine.turn sdk newV4 s with
      | .ok (.next step s') => some (steps ++ [step], s')
      | _ => none

theorem steps_of_runFor_zero (h : runFor engine sdk newV4 0 = some (steps, s)) : [] = steps := by
  simp only [runFor, Option.map_eq_some_iff, Prod.mk.injEq] at h
  obtain ⟨_, -, hnil, -⟩ := h
  exact hnil

theorem runFor_run {n : ℕ} (h : runFor engine sdk newV4 n = some (steps, s)) :
    (system engine sdk newV4).Run steps s := by
  induction n generalizing steps s with
  | zero =>
      cases hstart : engine.start sdk newV4 with
      | error e => simp [runFor, hstart, Except.toOption] at h
      | ok s₀ =>
          simp only [runFor, hstart, Except.toOption, Option.map_some, Option.some.injEq,
            Prod.mk.injEq] at h
          obtain ⟨rfl, rfl⟩ := h
          exact .start hstart
  | succ n ih =>
      simp only [runFor] at h
      cases hn : runFor engine sdk newV4 n with
      | none => simp [hn] at h
      | some found =>
          obtain ⟨steps₀, s₀⟩ := found
          simp only [hn] at h
          cases hturn : engine.turn sdk newV4 s₀ with
          | error e => simp [hturn] at h
          | ok turn =>
              cases turn with
              | finished report s₁ => simp [hturn] at h
              | next step s₁ =>
                  simp only [hturn, Option.some.injEq, Prod.mk.injEq] at h
                  obtain ⟨rfl, rfl⟩ := h
                  exact (ih hn).step hturn

end Quantoxide.Engine
