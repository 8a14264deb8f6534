import Mathlib.Data.List.Range
import Quantoxide.Verification.Engine.Operators
import Quantoxide.Verification.Engine.Turns
import Quantoxide.Verification.Executor.Clock

/-! # The executor and the candles shown

Each turn brings the executor to the close of the candle it consolidates. The first call of
the operator is made before any turn: the start candle is consolidated whole while the
executor still stands at its open. -/

namespace Quantoxide.Engine

open DateTime Result Timeline Consolidator SimulatedTradeExecutor

variable {ε S ω : Type} {engine : BacktestEngine ε S ω} {sdk : LnmSdk ε} {newV4 : ℕ → Uuid}
  {steps : List LoopStep} {step : LoopStep} {s s' : BacktestState ε S ω}

theorem check_eq_ok {wrap : SimulatedTradeExecutorError ε → BacktestError ε}
    {out : Outcome ε Unit} {t : SimulatedTradeExecutorState} :
    Outcome.check wrap out = .ok t ↔ out = (t, .ok ()) := by
  obtain ⟨s, result⟩ := out
  simp only [Outcome.check, exceptMap_eq_ok, mapError_eq_ok, Prod.mk.injEq]
  constructor
  · rintro ⟨_, hresult, rfl⟩
    exact ⟨rfl, hresult⟩
  · rintro ⟨rfl, hresult⟩
    exact ⟨(), hresult, rfl⟩

theorem replayCandle_clock {ex : SimulatedTradeExecutor ε} {candle : OhlcCandleRow}
    {t t' : SimulatedTradeExecutorState}
    (h : (ex.replayCandle candle t : Except (BacktestError ε) _) = .ok t') :
    t'.time = candle.time + Duration.seconds 59 ∧ t'.marketPrice = candle.close :=
  Executor.candleUpdate_clock (check_eq_ok.mp h)

/-- The executor stands at the end of the minute `m`. -/
structure InSync (m : OhlcCandleRow) (s : SimulatedTradeExecutorState) : Prop where
  marketPrice : s.marketPrice = m.close
  time : m.time + Duration.seconds 59 ≤ s.time

instance (m : OhlcCandleRow) (s : SimulatedTradeExecutorState) : Decidable (InSync m s) :=
  decidable_of_iff (s.marketPrice = m.close ∧ m.time + Duration.seconds 59 ≤ s.time)
    ⟨fun h => ⟨h.1, h.2⟩, fun h => ⟨h.marketPrice, h.time⟩⟩

/-- The consolidators have read the stored candles up to `m` and none after it. -/
structure ReadUpTo (engine : BacktestEngine ε S ω) (fresh : Bool) (m : OhlcCandleRow)
    (multi : MultiResolutionConsolidator) : Prop where
  newest : (engine.db.getCandles (historyFrom engine) m.time).getLast? = some m
  consolidated : Consolidated engine.lookbacks.resolutionToMaxPeriod
    (engine.db.getCandles (historyFrom engine) m.time) fresh multi

/-- Before any turn the executor stands at the open of the start candle. -/
theorem start_clock {first : FirstBuffer} (h : Starts engine sdk newV4 first s) :
    s.executor.time = first.startCandle.time ∧
      s.executor.marketPrice = first.startCandle.openPrice := by
  rw [h.executor]
  exact ⟨rfl, rfl⟩

theorem start_not_inSync {first : FirstBuffer} (h : Starts engine sdk newV4 first s) :
    ¬ InSync first.startCandle s.executor := by
  intro hsync
  have htime := hsync.time
  rw [(start_clock h).1] at htime
  unfold Duration.seconds at htime
  omega

theorem turn_inSync {reported charged : SimulatedTradeExecutorState} {replay : Replay}
    (h : Stages engine sdk newV4 s step s' reported charged replay) :
    InSync step.candle s'.executor := by
  obtain ⟨htime, hprice⟩ := replayCandle_clock h.candle
  rw [← h.updated] at htime hprice
  exact ⟨hprice, htime.ge⟩

/-- After a run the executor is in sync with the newest candle once there was a turn. -/
theorem run_inSync_iff (h : (system engine sdk newV4).Run steps s) :
    ∃ first, RunFollows engine first steps s ∧
      (InSync (newestCandle first.startCandle steps) s.executor ↔ steps ≠ []) := by
  cases h with
  | start hs =>
      obtain ⟨first, hstart⟩ := start_spec hs
      exact ⟨first, (starts_follows hstart).1, by simpa using start_not_inSync hstart⟩
  | step hrun hs =>
      obtain ⟨first, -, hfollows⟩ := run_follows hrun
      obtain ⟨reported, charged, replay, hst⟩ := turn_next_iff.mp hs
      have hsync := turn_inSync hst
      exact ⟨first, (turn_follows hfollows hst).2.2.1, by simpa using hsync⟩

/-- An operator that asked for candles has its consolidators. -/
theorem follows_multi {fresh : Bool} {m : OhlcCandleRow} {l : Lookback}
    (h : Follows engine.db engine.lookbacks.resolutionToMaxPeriod (historyFrom engine) fresh m
      s.replay) (hl : l ∈ askedBy engine.operatorPending) :
    ∃ multi, s.replay.consolidator = some multi ∧ ReadUpTo engine fresh m multi := by
  cases hc : s.replay.consolidator with
  | none =>
      obtain ⟨p, hp, -⟩ := (lookbacks_covers engine.operatorPending).period l hl
      have hnone := h.unneeded hc l.resolution
      rw [BacktestEngine.lookbacks, hp] at hnone
      cases hnone
  | some multi =>
      obtain ⟨rows, hrows⟩ := getCandles_last h.mem h.from_le
      exact ⟨multi, rfl, by rw [hrows, List.getLast?_concat], h.consolidated multi hc⟩

/-- At every call of the operator the executor stands at the close of the newest candle its
buffers have read, except at the first call of the run. -/
theorem executor_in_sync_iff (engine : BacktestEngine ε S ω) (sdk : LnmSdk ε) (newV4 : ℕ → Uuid)
    {l : Lookback} (hl : engine.lookbacks.maxLookback = some l) {steps : List LoopStep}
    {s : BacktestState ε S ω} (h : (system engine sdk newV4).Run steps s) :
    ∃ multi m, s.replay.consolidator = some multi ∧ ReadUpTo engine steps.isEmpty m multi ∧
      (InSync m s.executor ↔ steps ≠ []) := by
  obtain ⟨first, hfollows, hsync⟩ := run_inSync_iff h
  have hasked := (lookbacks_covers engine.operatorPending).longest_mem l hl
  obtain ⟨multi, hmulti, hread⟩ := follows_multi hfollows hasked
  exact ⟨multi, newestCandle first.startCandle steps, hmulti, hread, hsync⟩

/-! ### A reference history -/

/-- `count` minutes in a row, each opening at 100000 and closing at 100500. -/
def minuteHistory (n count : ℕ) : List CandleRecord :=
  (List.range count).map fun i =>
    ⟨Executor.minuteCandle (n + i) 100000 101000 99000 100500, false⟩

theorem minuteHistory_ascending (n count : ℕ) :
    (minuteHistory n count).Pairwise (fun a b => a.row.time < b.row.time) := by
  rw [minuteHistory, List.pairwise_map]
  refine List.pairwise_lt_range.imp ?_
  intro i j hij
  simp only [Executor.minuteCandle, Duration.minutes]
  omega

theorem minuteHistory_minutes {n count : ℕ} (h : n + count ≤ 100000000) :
    ∀ c ∈ minuteHistory n count, c.row.IsMinute := by
  intro c hc
  obtain ⟨i, hi, rfl⟩ := List.mem_map.mp hc
  have hi' := List.mem_range.mp hi
  have hmax : maxUtc = 8210266876799999999999 := rfl
  have hmin : minUtc ≤ 0 := by decide
  refine ⟨?_, ?_, ?_, ?_, hmin⟩
  · simp only [Executor.minuteCandle, isRoundMinute, floorMinute, Duration.minutes, beq_iff_eq]
    omega
  · simp only [Executor.minuteCandle, Duration.minutes]
    omega
  · simp only [Executor.minuteCandle, Duration.minutes, hmax]
    omega
  · rw [hmax]
    simp [Executor.minuteCandle]

/-- A history without settlements. -/
def minuteDatabase (n count : ℕ) (h : n + count ≤ 100000000) : Database where
  ohlcCandles := minuteHistory n count
  fundingSettlements := []
  candlesAscending := minuteHistory_ascending n count
  candlesMinutes := minuteHistory_minutes h
  settlementsAscending := Database.noSettlements

/-- The default configuration with a trailing step of 0.1 %. -/
def referenceConfig : BacktestConfig where
  bufferSize := MIN_BUFFER_SIZE
  tradeMaxRunningQtd := 50
  feePerc := ReferenceSdk.tenthPercent
  tradeTslStepSize := ReferenceSdk.tenthPercent
  min_le_bufferSize := le_rfl
  tradeMaxRunningQtd_ne := by decide

def shortestInterval : MinIterationInterval := ⟨MinIterationInterval.MIN, le_rfl, by decide⟩

def onePeriod : Period := ⟨1, by decide, by decide⟩

def twoPeriods : Period := ⟨2, by decide, by decide⟩

theorem oneMinute_le : onePeriod.asDuration .oneMinute ≤ Lookback.MAX := by decide

/-- A raw operator that asks for one-minute candles and does nothing with them. -/
def watcher (period : Period) (h : period.asDuration .oneMinute ≤ Lookback.MAX) :
    RawOperator Refusal Unit where
  setTradeExecutor memory := (memory, .ok ())
  lookback := .ok (some ⟨.oneMinute, period, h⟩)
  minIterationInterval := .ok shortestInterval
  iterate _ memory := .done (memory, .ok ())

theorem eq_ok_of_isOk {x : Except (BacktestError ε) Unit} (h : x.isOk = true) : x = .ok () := by
  cases x with
  | error e => cases h
  | ok u => rfl

/-- The second day of 1970. -/
def secondDay : Database := minuteDatabase 1440 1441 (by decide)

theorem secondDay_period : (checkPeriod (Duration.minutes 1440) (Duration.minutes 2880) :
    Except (BacktestError Refusal) Unit) = .ok () := eq_ok_of_isOk (by decide +kernel)

theorem secondDay_settlements : (checkSettlements secondDay (Duration.minutes 1440)
    (Duration.minutes 2880) : Except (BacktestError Refusal) Unit) = .ok () :=
  eq_ok_of_isOk (by decide +kernel)

/-- The second day of 1970, watched through one-minute candles. -/
def watchedDay : BacktestEngine Refusal Unit Unit where
  config := referenceConfig
  db := secondDay
  operatorPending := .raw ⟨watcher onePeriod oneMinute_le, (), _, rfl⟩
  startTime := Duration.minutes 1440
  startBalance := 10000000
  endTime := Duration.minutes 2880
  period := secondDay_period
  history := eq_ok_of_isOk (by decide +kernel)
  settlements := secondDay_settlements

/-- What holds by evaluation of the state and the current candle after `n` turns. -/
theorem runFor_current (engine : BacktestEngine ε S ω) (sdk : LnmSdk ε) (newV4 : ℕ → Uuid) (n : ℕ)
    (P : BacktestState ε S ω → OhlcCandleRow → Prop) [∀ s m, Decidable (P s m)]
    (h : ((runFor engine sdk newV4 n).any fun x =>
      (x.2.replay.minuteBuffer[x.2.replay.minuteCursorIdx]?).any fun m => P x.2 m) = true) :
    ∃ steps s first, runFor engine sdk newV4 n = some (steps, s) ∧
      RunFollows engine first steps s ∧ P s (newestCandle first.startCandle steps) := by
  cases hr : runFor engine sdk newV4 n with
  | none => simp [hr] at h
  | some x =>
      obtain ⟨first, -, hfollows⟩ := run_follows (runFor_run hr)
      rw [hr, Option.any_some, hfollows.current, Option.any_some, decide_eq_true_eq] at h
      exact ⟨x.1, x.2, first, rfl, hfollows, h⟩

theorem watchedDay_lookback : watchedDay.lookbacks.maxLookback =
    some ⟨.oneMinute, ⟨1, by decide, by decide⟩, by decide⟩ := rfl

theorem executor_in_sync_iff_watched : ∃ steps s multi m,
    runFor watchedDay referenceSdk Uuid.mk 2 = some (steps, s) ∧
      s.replay.consolidator = some multi ∧ ReadUpTo watchedDay steps.isEmpty m multi ∧
      (InSync m s.executor ↔ steps ≠ []) := by
  obtain ⟨steps, s, -, hrun, -, -⟩ :=
    runFor_current watchedDay referenceSdk Uuid.mk 2 (fun _ _ => True) (by decide +kernel)
  obtain ⟨multi, m, h⟩ := executor_in_sync_iff watchedDay referenceSdk Uuid.mk
    watchedDay_lookback (runFor_run hrun)
  exact ⟨steps, s, multi, m, hrun, h⟩

/-- The first call sees the close 100500 of a minute that ends at 00:00:59; the executor
stands at its open, 100000, and at 00:00:00. -/
theorem first_call_looks_ahead : ∃ s multi m,
    (system watchedDay referenceSdk Uuid.mk).Run [] s ∧ s.replay.consolidator = some multi ∧
      ReadUpTo watchedDay true m multi ∧ ¬ InSync m s.executor ∧
      s.executor.marketPrice < m.close ∧ s.executor.time < m.time + Duration.seconds 59 := by
  obtain ⟨steps, s, first, hrun, hfollows, hsync⟩ :=
    runFor_current watchedDay referenceSdk Uuid.mk 0
      (fun s m => ¬ InSync m s.executor ∧ s.executor.marketPrice < m.close ∧
        s.executor.time < m.time + Duration.seconds 59) (by decide +kernel)
  obtain rfl := steps_of_runFor_zero hrun
  have hasked := (lookbacks_covers watchedDay.operatorPending).longest_mem _ watchedDay_lookback
  obtain ⟨multi, hmulti, hread⟩ := follows_multi hfollows hasked
  exact ⟨s, multi, first.startCandle, runFor_run hrun, hmulti, hread, hsync⟩

end Quantoxide.Engine
