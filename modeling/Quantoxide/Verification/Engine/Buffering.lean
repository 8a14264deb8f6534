import Quantoxide.Verification.Engine.Calls
import Quantoxide.Verification.Engine.Warmup

/-! # Replays through buffers of any size

The buffer shows in none of the calls of a run: the replays through two buffers stay equal
apart from the buffer and the index into it, and each stored minute of the period is replayed
once. -/

namespace Quantoxide.Engine

open DateTime Result Timeline Consolidator SimulatedTradeExecutor Calls

variable {ε S ω : Type} {engine : BacktestEngine ε S ω} {sdk : LnmSdk ε} {newV4 : ℕ → Uuid}
  {steps : List LoopStep} {step : LoopStep} {s s' : BacktestState ε S ω}

/-! ### The candles of a trace -/

@[simp] def LoopCall.candleUpdated : LoopCall → Option OhlcCandleRow
  | .candleUpdate candle => some candle
  | _ => none

/-- The candles given to `candle_update`, in order. -/
def candlesUpdated (events : List (Event ε S ω)) : List OhlcCandleRow :=
  (events.map (·.1)).filterMap LoopCall.candleUpdated

@[simp] theorem candlesUpdated_nil : candlesUpdated ([] : List (Event ε S ω)) = [] := rfl

@[simp] theorem candlesUpdated_append (xs ys : List (Event ε S ω)) :
    candlesUpdated (xs ++ ys) = candlesUpdated xs ++ candlesUpdated ys := by
  rw [candlesUpdated, List.map_append, List.filterMap_append]
  rfl

theorem filterMap_callsBefore (r : Replay) :
    (callsBefore r).filterMap LoopCall.candleUpdated = [] := by
  unfold callsBefore
  cases r.dueReport <;> rfl

theorem filterMap_callsAt (candle : OhlcCandleRow) (r : Replay) :
    (callsAt candle r).filterMap LoopCall.candleUpdated = [candle] := by
  have hnone : (r.dueSettlements.map LoopCall.applyFundingSettlement).filterMap
      LoopCall.candleUpdated = [] := by
    rw [List.filterMap_map, List.filterMap_eq_nil_iff]
    intro row _
    rfl
  rw [callsAt, List.filterMap_append, hnone]
  rfl

/-- The calls of a turn update the executor with the candle it moves to, if there is one. -/
theorem filterMap_turnCalls (engine : BacktestEngine ε S ω) (r : Replay) :
    (turnCalls engine r).filterMap LoopCall.candleUpdated = [] ∨
      ∃ candle replay, r.afterReport.isLast engine.endTime = false ∧
        (r.afterReport.advance engine.db engine.config.bufferSize engine.endTime :
          Except (BacktestError ε) _) = .ok (candle, replay) ∧
        (turnCalls engine r).filterMap LoopCall.candleUpdated = [candle] := by
  rw [turnCalls, List.filterMap_append, filterMap_callsBefore, List.nil_append, callsAfter]
  split_ifs with hlast
  · exact Or.inl rfl
  · split
    · exact Or.inl rfl
    · rename_i candle replay hadv
      exact Or.inr ⟨candle, replay, by simpa using hlast, hadv, filterMap_callsAt candle replay⟩

/-- A turn updates the executor with the candle it moves to, or fails before. -/
theorem candlesUpdated_turn (engine : BacktestEngine ε S ω) (sdk : LnmSdk ε) (newV4 : ℕ → Uuid)
    (s : BacktestState ε S ω) :
    candlesUpdated (turnEvents engine sdk newV4 s) = [] ∨
      ∃ candle replay, s.replay.afterReport.isLast engine.endTime = false ∧
        (s.replay.afterReport.advance engine.db engine.config.bufferSize engine.endTime :
          Except (BacktestError ε) _) = .ok (candle, replay) ∧
        candlesUpdated (turnEvents engine sdk newV4 s) = [candle] := by
  have hprefix := (made_prefix_calls (LoopCall.perform (engine.executor sdk newV4))
    (turnCalls engine s.replay) (machine s)).filterMap LoopCall.candleUpdated
  rcases filterMap_turnCalls engine s.replay with hnil | ⟨candle, replay, hgo, hadv, hone⟩
  · rw [hnil] at hprefix
    exact Or.inl (List.prefix_nil.mp hprefix)
  · rw [hone] at hprefix
    rcases List.prefix_cons_iff.mp hprefix with hnil | ⟨rest, hrest, hle⟩
    · exact Or.inl hnil
    · obtain rfl := List.prefix_nil.mp hle
      exact Or.inr ⟨candle, replay, hgo, hadv, hrest⟩

theorem candlesUpdated_of_turn {turn : Turn LoopStep (Option TradingState) (BacktestState ε S ω)}
    (h : engine.turn sdk newV4 s = .ok turn) :
    candlesUpdated (turnEvents engine sdk newV4 s) =
      (turnCalls engine s.replay).filterMap LoopCall.candleUpdated := by
  rw [candlesUpdated, turnEvents, made_of_ok (performAll_of_turn h)]

theorem candlesUpdated_next (h : engine.turn sdk newV4 s = .ok (.next step s')) :
    candlesUpdated (turnEvents engine sdk newV4 s) = [step.candle] := by
  obtain ⟨reported, charged, replay, hst⟩ := turn_next_iff.mp h
  rw [candlesUpdated_of_turn h, turnCalls, List.filterMap_append, filterMap_callsBefore]
  simp [callsAfter, hst.goesOn, hst.advance, filterMap_callsAt]

theorem candlesUpdated_finished {report : Option TradingState}
    (h : engine.turn sdk newV4 s = .ok (.finished report s')) :
    candlesUpdated (turnEvents engine sdk newV4 s) = [] := by
  rcases candlesUpdated_turn engine sdk newV4 s with hnil | ⟨candle, replay, hgo, -, -⟩
  · exact hnil
  · rw [turn_finished h] at hgo
    cases hgo

/-! ### Each minute once -/

/-- The stored candles after the start, up to `hi`. -/
def replayedTo (engine : BacktestEngine ε S ω) (hi : ℤ) : List OhlcCandleRow :=
  engine.db.candleRows.filter (fun c => engine.startTime < c.time ∧ c.time ≤ hi)

theorem replayedTo_eq (engine : BacktestEngine ε S ω) (hi : ℤ) :
    replayedTo engine hi = engine.db.getCandles (engine.startTime + 1) hi := by
  unfold replayedTo Database.getCandles
  simp only [Int.add_one_le_iff]

theorem startTime_spec (engine : BacktestEngine ε S ω) :
    isRoundMinute engine.startTime = true ∧
      engine.startTime + Duration.days 1 ≤ engine.endTime := by
  have h := engine.period
  unfold checkPeriod at h
  simp only at h
  split_ifs at h with hround hle hshort
  simp only [Bool.or_eq_true, Bool.not_eq_true', not_or, Bool.not_eq_false] at hround
  exact ⟨hround.1, by omega⟩

/-- A stored minute that is not the last of the period is followed by the next minute. -/
theorem nextMinute (hfree : Stored engine.db.candleRows engine.startTime engine.endTime)
    {m : OhlcCandleRow} (hm : m ∈ engine.db.candleRows) (hstart : engine.startTime ≤ m.time)
    (hend : m.time < engine.endTime - Duration.minutes 1) :
    ∃ c, IsNextCandle engine.db m.time c ∧ c.time = m.time + Duration.minutes 1 ∧
      c.time ≤ engine.endTime - Duration.minutes 1 := by
  have hminute := (candleRows_feed engine.db).minutes m hm
  have hround := hminute.round
  have hendRound := (period_spec engine).1
  simp only [isRoundMinute, floorMinute, beq_iff_eq] at hround hendRound
  unfold Duration.minutes at hend ⊢
  obtain ⟨c, hc, htime⟩ := hfree (m.time + 1 * 60000000000)
    (by simp only [isRoundMinute, floorMinute, beq_iff_eq]; omega) (by omega) (by omega)
  refine ⟨c, ⟨hc, by omega, ?_⟩, htime, by omega⟩
  intro a ha hlt
  have hle := minute_le hminute ((candleRows_feed engine.db).minutes a ha) hlt
  unfold Duration.seconds at hle
  omega

theorem not_isLast_iff {first : FirstBuffer} (h : RunFollows engine first steps s) :
    s.replay.afterReport.isLast engine.endTime = false ↔
      (newestCandle first.startCandle steps).time < engine.endTime - Duration.minutes 1 := by
  rw [Replay.isLast, h.afterReport.cursor]
  simp only [ge_iff_le, decide_eq_false_iff_not, not_le, Duration.seconds, Duration.minutes]
  omega

/-- The start candle is the minute of the start time. -/
theorem startCandle_time (hfree : Stored engine.db.candleRows engine.startTime engine.endTime)
    {bufferSize : ℕ} {maxLookback : Option Lookback} {first : FirstBuffer}
    (h : StartsAt engine.db bufferSize maxLookback engine.startTime first) :
    first.startCandle.time = engine.startTime := by
  obtain ⟨hround, hday⟩ := startTime_spec engine
  unfold Duration.days at hday
  obtain ⟨c, hc, htime⟩ := hfree engine.startTime hround le_rfl (by omega)
  exact le_antisymm (htime ▸ h.least c hc htime.ge) h.start_le

/-- What a run has replayed: the stored candles after the start, up to the newest. -/
structure Replayed (engine : BacktestEngine ε S ω) (first : FirstBuffer) (steps : List LoopStep)
    (s : BacktestState ε S ω) : Prop where
  follows : RunFollows engine first steps s
  start_le : engine.startTime ≤ (newestCandle first.startCandle steps).time
  le_end : (newestCandle first.startCandle steps).time ≤ engine.endTime - Duration.minutes 1
  candles : steps.map (·.candle) = replayedTo engine (newestCandle first.startCandle steps).time

theorem start_replayed (hfree : Stored engine.db.candleRows engine.startTime engine.endTime)
    {first : FirstBuffer} (h : Starts engine sdk newV4 first s) : Replayed engine first [] s := by
  have htime := startCandle_time hfree h.startsAt
  obtain ⟨-, hday⟩ := startTime_spec engine
  refine ⟨(starts_follows h).1, htime.ge, ?_, ?_⟩
  · rw [newestCandle_nil, htime]
    unfold Duration.days at hday
    unfold Duration.minutes
    omega
  · rw [newestCandle_nil, htime, replayedTo, List.map_nil, eq_comm, List.filter_eq_nil_iff]
    simp

/-- The next candle is the next minute, and is what the run then has replayed besides. -/
theorem Replayed.next (hfree : Stored engine.db.candleRows engine.startTime engine.endTime)
    {first : FirstBuffer} (h : Replayed engine first steps s)
    (hgo : s.replay.afterReport.isLast engine.endTime = false) {c : OhlcCandleRow}
    (hc : IsNextCandle engine.db (newestCandle first.startCandle steps).time c) :
    c.time ≤ engine.endTime - Duration.minutes 1 ∧
      replayedTo engine c.time = steps.map (·.candle) ++ [c] := by
  obtain ⟨d, hd, -, hend⟩ :=
    nextMinute hfree h.follows.mem h.start_le ((not_isLast_iff h.follows).mp hgo)
  obtain rfl := isNextCandle_unique hc hd
  have hlo : engine.startTime + 1 ≤ c.time := Int.add_one_le_iff.mpr (h.start_le.trans_lt hc.lt)
  refine ⟨hend, ?_⟩
  rw [h.candles, replayedTo_eq, replayedTo_eq]
  exact between_next (candleRows_ascending engine.db) hc hlo

theorem Replayed.turn (hfree : Stored engine.db.candleRows engine.startTime engine.endTime)
    {first : FirstBuffer} (h : Replayed engine first steps s)
    (hturn : engine.turn sdk newV4 s = .ok (.next step s')) :
    Replayed engine first (steps ++ [step]) s' := by
  obtain ⟨reported, charged, replay, hst⟩ := turn_next_iff.mp hturn
  obtain ⟨hnext, -, hfollows, -⟩ := turn_follows h.follows hst
  obtain ⟨hend, hcandles⟩ := h.next hfree hst.goesOn hnext
  refine ⟨hfollows, ?_, ?_, ?_⟩
  · rw [newestCandle_concat]
    exact h.start_le.trans hnext.lt.le
  · rwa [newestCandle_concat]
  · rw [newestCandle_concat, hcandles, List.map_append, List.map_singleton]

theorem replayedTo_isPrefix (engine : BacktestEngine ε S ω) {lo hi : ℤ} (h : lo ≤ hi) :
    replayedTo engine lo <+: replayedTo engine hi := by
  rw [replayedTo_eq, replayedTo_eq]
  exact between_isPrefix (candleRows_ascending engine.db) h

/-- The candles of a trace from a state that has replayed `steps`. -/
theorem loopTrace_candles (hfree : Stored engine.db.candleRows engine.startTime engine.endTime)
    {first : FirstBuffer} (fuel : ℕ) (h : Replayed engine first steps s) :
    steps.map (·.candle) ++ candlesUpdated (loopTrace engine sdk newV4 fuel s).1 <+:
      replayedTo engine (engine.endTime - Duration.minutes 1) := by
  induction fuel generalizing steps s with
  | zero =>
      rw [loopTrace, candlesUpdated_nil, List.append_nil, h.candles]
      exact replayedTo_isPrefix engine h.le_end
  | succ fuel ih =>
      rw [loopTrace]
      cases hturn : engine.turn sdk newV4 s with
      | error e =>
          rcases candlesUpdated_turn engine sdk newV4 s with hnil | ⟨c, r, hgo, hadv, hc⟩
          · simp only [hnil, List.append_nil, h.candles]
            exact replayedTo_isPrefix engine h.le_end
          · obtain ⟨hnext, -⟩ := advance_spec h.follows.afterReport hadv
            obtain ⟨hend, hcandles⟩ := h.next hfree hgo hnext
            simp only [hc, ← hcandles]
            exact replayedTo_isPrefix engine hend
      | ok turn =>
          cases turn with
          | finished report s' =>
              simp only [candlesUpdated_finished hturn, List.append_nil, h.candles]
              exact replayedTo_isPrefix engine h.le_end
          | next step s' =>
              have hih := ih (h.turn hfree hturn)
              simpa [candlesUpdated_next hturn] using hih

/-- A run that returns has replayed the candles up to the last minute of the period. -/
theorem loopTrace_finished (hfree : Stored engine.db.candleRows engine.startTime engine.endTime)
    {first : FirstBuffer} (fuel : ℕ) (h : Replayed engine first steps s)
    {operator : OperatorRunning ε S ω} {executor : SimulatedTradeExecutorState}
    (hend : (loopTrace engine sdk newV4 fuel s).2 = .finished operator executor) :
    steps.map (·.candle) ++ candlesUpdated (loopTrace engine sdk newV4 fuel s).1 =
      replayedTo engine (engine.endTime - Duration.minutes 1) := by
  induction fuel generalizing steps s with
  | zero => cases hend
  | succ fuel ih =>
      rw [loopTrace] at hend ⊢
      cases hturn : engine.turn sdk newV4 s with
      | error e => simp [hturn] at hend
      | ok turn =>
          cases turn with
          | finished report s' =>
              have hlast := (not_isLast_iff h.follows).not.mp (by simp [turn_finished hturn])
              have htime := le_antisymm h.le_end (not_lt.mp hlast)
              simp only [candlesUpdated_finished hturn, List.append_nil, h.candles, htime]
          | next step s' =>
              simp only [hturn] at hend
              have hih := ih (h.turn hfree hturn) hend
              simpa [candlesUpdated_next hturn] using hih

/-- Each turn but the last replays a candle, so a run has no more turns than candles. -/
theorem loopTrace_unfinished (hfree : Stored engine.db.candleRows engine.startTime engine.endTime)
    {first : FirstBuffer} (fuel : ℕ) (h : Replayed engine first steps s)
    (hend : (loopTrace engine sdk newV4 fuel s).2 = .unfinished) :
    steps.length + fuel ≤
      (replayedTo engine (engine.endTime - Duration.minutes 1)).length := by
  induction fuel generalizing steps s with
  | zero =>
      have hle := (replayedTo_isPrefix engine h.le_end).length_le
      rwa [← h.candles, List.length_map] at hle
  | succ fuel ih =>
      rw [loopTrace] at hend
      cases hturn : engine.turn sdk newV4 s with
      | error e => simp [hturn] at hend
      | ok turn =>
          cases turn with
          | finished s' => simp [hturn] at hend
          | next step s' =>
              simp only [hturn] at hend
              have hih := ih (h.turn hfree hturn) hend
              rw [List.length_append, List.length_singleton] at hih
              omega

/-! ### Two buffer sizes -/

/-- The engine with another buffer size. -/
def withBuffer (engine : BacktestEngine ε S ω) (size : ℕ) (h : MIN_BUFFER_SIZE ≤ size) :
    BacktestEngine ε S ω :=
  { engine with config := { engine.config with bufferSize := size, min_le_bufferSize := h } }

/-- The replay with another buffer and index. -/
def rebuffered (r : Replay) (minuteBuffer : List OhlcCandleRow) (idx : ℕ) : Replay :=
  { r with minuteBuffer, minuteCursorIdx := idx }

section Engine

variable {size : ℕ} (h : MIN_BUFFER_SIZE ≤ size)

@[simp] theorem withBuffer_db : (withBuffer engine size h).db = engine.db := rfl

@[simp] theorem withBuffer_operatorPending :
    (withBuffer engine size h).operatorPending = engine.operatorPending := rfl

@[simp] theorem withBuffer_lookbacks :
    (withBuffer engine size h).lookbacks = engine.lookbacks := rfl

@[simp] theorem withBuffer_startTime :
    (withBuffer engine size h).startTime = engine.startTime := rfl

@[simp] theorem withBuffer_startBalance :
    (withBuffer engine size h).startBalance = engine.startBalance := rfl

@[simp] theorem withBuffer_endTime : (withBuffer engine size h).endTime = engine.endTime := rfl

@[simp] theorem withBuffer_bufferSize : (withBuffer engine size h).config.bufferSize = size := rfl

@[simp] theorem withBuffer_executor :
    (withBuffer engine size h).executor sdk newV4 = engine.executor sdk newV4 := rfl

end Engine

section Buffers

variable {db : Database} {resolutionMap : OrdMap OhlcResolution Period} {bufFrom : ℤ}
  {fresh : Bool} {m c : OhlcCandleRow} {r : Replay} {buffer : List OhlcCandleRow} {idx : ℕ}

@[simp] theorem rebuffered_timeCursor : (rebuffered r buffer idx).timeCursor = r.timeCursor := rfl

@[simp] theorem rebuffered_consolidator :
    (rebuffered r buffer idx).consolidator = r.consolidator := rfl

@[simp] theorem rebuffered_dueReport : (rebuffered r buffer idx).dueReport = r.dueReport := rfl

@[simp] theorem rebuffered_dueSettlements :
    (rebuffered r buffer idx).dueSettlements = r.dueSettlements := rfl

@[simp] theorem rebuffered_isLast (endTime : ℤ) :
    (rebuffered r buffer idx).isLast endTime = r.isLast endTime := rfl

@[simp] theorem afterReport_rebuffered (r : Replay) (buffer : List OhlcCandleRow) (idx : ℕ) :
    (rebuffered r buffer idx).afterReport = rebuffered r.afterReport buffer idx := by
  unfold Replay.afterReport rebuffered
  split_ifs <;> rfl

theorem Advanced.rebuffered {r' r'' : Replay} (h : Advanced db r c r')
    (h' : Advanced db (rebuffered r buffer idx) c r'') :
    r'' = Engine.rebuffered r' r''.minuteBuffer r''.minuteCursorIdx := by
  obtain ⟨-, -, hcur, hcons, hset, hsend⟩ := h
  obtain ⟨-, -, hcur', hcons', hset', hsend'⟩ := h'
  cases r'
  cases r''
  simp only [Engine.rebuffered] at *
  simp only [Replay.mk.injEq, true_and]
  exact ⟨hcur'.trans hcur.symm, hset'.trans hset.symm, hcons'.trans hcons.symm,
    hsend'.trans hsend.symm⟩

variable (ε) in
/-- Both buffers lead to the same candle. -/
theorem advance_rebuffered (h : Follows db resolutionMap bufFrom fresh m r)
    (h' : Follows db resolutionMap bufFrom fresh m (rebuffered r buffer idx))
    (hc : IsNextCandle db m.time c) {size size' : ℕ} {endTime : ℤ}
    (hbuf : c.time ≤ r.timeCursor + Duration.minutes size)
    (hbuf' : c.time ≤ r.timeCursor + Duration.minutes size') (hend : c.time ≤ endTime) :
    ∃ r' buffer' idx', (r.advance db size endTime : Except (BacktestError ε) _) = .ok (c, r') ∧
      ((rebuffered r buffer idx).advance db size' endTime : Except (BacktestError ε) _) =
        .ok (c, rebuffered r' buffer' idx') := by
  obtain ⟨r', hr', hadv⟩ := advance_isOk ε h hc hbuf hend
  obtain ⟨r'', hr'', hadv'⟩ := advance_isOk ε h' hc hbuf' hend
  refine ⟨r', r''.minuteBuffer, r''.minuteCursorIdx, hr', ?_⟩
  rw [← hadv.rebuffered hadv']
  exact hr''

variable (ε) in
theorem push_rebuffered (r : Replay) (buffer : List OhlcCandleRow) (idx : ℕ) (c : OhlcCandleRow) :
    ((rebuffered r buffer idx).push c : Except (BacktestError ε) _) =
      (r.push c).map (rebuffered · buffer idx) := by
  simp only [Replay.push, rebuffered]
  cases (Option.mapM (fun multi : MultiResolutionConsolidator => multi.push c) r.consolidator :
    Except (BacktestError ε) _) <;> rfl

end Buffers

/-- The same state apart from the buffer and the index into it. -/
def SameReplay (s s' : BacktestState ε S ω) : Prop :=
  ∃ buffer idx, s' = { s with replay := rebuffered s.replay buffer idx }

/-- The same end of a turn, in states that are the same apart from the buffer. -/
inductive SameTurn :
    Except (BacktestError ε) (Turn LoopStep (Option TradingState) (BacktestState ε S ω)) →
    Except (BacktestError ε) (Turn LoopStep (Option TradingState) (BacktestState ε S ω)) → Prop
  | failed (e : BacktestError ε) : SameTurn (.error e) (.error e)
  | finished (report : Option TradingState) {s s' : BacktestState ε S ω} (h : SameReplay s s') :
      SameTurn (.ok (.finished report s)) (.ok (.finished report s'))
  | next (step : LoopStep) {s s' : BacktestState ε S ω} (h : SameReplay s s') :
      SameTurn (.ok (.next step s)) (.ok (.next step s'))

/-- A next minute is within reach of any buffer. -/
theorem within_buffer {t : ℤ} {c : OhlcCandleRow} (htime : c.time = t + Duration.minutes 1)
    {size : ℕ} (h : MIN_BUFFER_SIZE ≤ size) :
    c.time ≤ t + Duration.seconds 59 + Duration.minutes size := by
  have hmin : 1 ≤ MIN_BUFFER_SIZE := by decide
  rw [htime]
  unfold Duration.minutes Duration.seconds
  omega

/-- Both buffers lead to the same candle, unless the turn is the last. -/
theorem Replayed.advance_rebuffered
    (hfree : Stored engine.db.candleRows engine.startTime engine.endTime) {first : FirstBuffer}
    (h : Replayed engine first steps s) {size : ℕ} (hsize : MIN_BUFFER_SIZE ≤ size)
    {buffer : List OhlcCandleRow} {idx : ℕ}
    (h' : Follows engine.db engine.lookbacks.resolutionToMaxPeriod (historyFrom engine)
      steps.isEmpty (newestCandle first.startCandle steps)
      (rebuffered s.replay.afterReport buffer idx))
    (hgo : s.replay.afterReport.isLast engine.endTime = false) :
    ∃ c r buffer' idx', (s.replay.afterReport.advance engine.db engine.config.bufferSize
        engine.endTime : Except (BacktestError ε) _) = .ok (c, r) ∧
      ((rebuffered s.replay.afterReport buffer idx).advance engine.db size engine.endTime :
        Except (BacktestError ε) _) = .ok (c, rebuffered r buffer' idx') := by
  obtain ⟨c, hc, htime, hend⟩ :=
    nextMinute hfree h.follows.mem h.start_le ((not_isLast_iff h.follows).mp hgo)
  have hcur := h.follows.afterReport.cursor
  refine ⟨c, Engine.advance_rebuffered ε h.follows.afterReport h' hc ?_ ?_ ?_⟩
  · rw [hcur]
    exact within_buffer htime engine.config.min_le_bufferSize
  · rw [hcur]
    exact within_buffer htime hsize
  · unfold Duration.minutes at hend
    omega

section Turns

variable {size : ℕ} (hsize : MIN_BUFFER_SIZE ≤ size)

/-- A turn makes the same calls through both buffers. -/
theorem turnCalls_rebuffered
    (hfree : Stored engine.db.candleRows engine.startTime engine.endTime) {first : FirstBuffer}
    (h : Replayed engine first steps s) (h' : RunFollows engine first steps s')
    (hsame : SameReplay s s') :
    turnCalls (withBuffer engine size hsize) s'.replay = turnCalls engine s.replay := by
  obtain ⟨buffer, idx, rfl⟩ := hsame
  have hf' := h'.afterReport
  rw [afterReport_rebuffered] at hf'
  simp only [turnCalls, callsBefore, callsAfter, withBuffer_db, withBuffer_endTime,
    withBuffer_bufferSize, afterReport_rebuffered, rebuffered_timeCursor, rebuffered_dueReport,
    rebuffered_isLast]
  split_ifs with hlast
  · rfl
  · obtain ⟨c, r, buffer', idx', hadv, hadv'⟩ :=
      h.advance_rebuffered hfree hsize hf' (by simpa using hlast)
    rw [hadv, hadv']
    rfl

variable (sdk newV4) in
/-- A turn ends the same through both buffers. -/
theorem turn_rebuffered (hfree : Stored engine.db.candleRows engine.startTime engine.endTime)
    {first : FirstBuffer} (h : Replayed engine first steps s)
    (h' : RunFollows engine first steps s') (hsame : SameReplay s s') :
    SameTurn (engine.turn sdk newV4 s) ((withBuffer engine size hsize).turn sdk newV4 s') := by
  obtain ⟨buffer, idx, rfl⟩ := hsame
  have hf' := h'.afterReport
  rw [afterReport_rebuffered] at hf'
  simp only [BacktestEngine.turn, withBuffer_executor, withBuffer_db,
    withBuffer_endTime, withBuffer_bufferSize, afterReport_rebuffered, rebuffered_timeCursor,
    rebuffered_consolidator, rebuffered_dueReport, rebuffered_isLast]
  cases s.operator.iterate (engine.executor sdk newV4) s.replay.timeCursor
      s.replay.consolidator s.executor with
  | error e => exact .failed e
  | ok iterated =>
      obtain ⟨operator, iterated⟩ := iterated
      simp only [bind, Except.bind]
      cases (engine.executor sdk newV4).report s.replay.dueReport iterated with
      | error e => exact .failed e
      | ok reported =>
          obtain ⟨report, reported⟩ := reported
          cases hgo : s.replay.afterReport.isLast engine.endTime with
          | true => exact .finished report ⟨buffer, idx, rfl⟩
          | false =>
              obtain ⟨c, r, buffer', idx', hadv, hadv'⟩ :=
                h.advance_rebuffered hfree hsize hf' hgo
              simp only [hadv, hadv', rebuffered_dueSettlements, Bool.false_eq_true, if_false]
              cases (engine.executor sdk newV4).settle r.dueSettlements reported with
              | error e => exact .failed e
              | ok settled =>
                  obtain ⟨settled, charged⟩ := settled
                  simp only
                  cases (engine.executor sdk newV4).replayCandle c charged with
                  | error e => exact .failed e
                  | ok updated =>
                      simp only [push_rebuffered]
                      cases (r.push c : Except (BacktestError ε) _) with
                      | error e => exact .failed e
                      | ok r' => exact .next _ ⟨buffer', idx', rfl⟩

theorem loopTrace_rebuffered (hfree : Stored engine.db.candleRows engine.startTime engine.endTime)
    {first : FirstBuffer} (fuel : ℕ) (h : Replayed engine first steps s)
    (h' : RunFollows engine first steps s') (hsame : SameReplay s s') :
    loopTrace (withBuffer engine size hsize) sdk newV4 fuel s' =
      loopTrace engine sdk newV4 fuel s := by
  induction fuel generalizing steps s s' with
  | zero => rfl
  | succ fuel ih =>
      have hturns := turn_rebuffered sdk newV4 hsize hfree h h' hsame
      have hevents : turnEvents (withBuffer engine size hsize) sdk newV4 s' =
          turnEvents engine sdk newV4 s := by
        rw [turnEvents, turnCalls_rebuffered hsize hfree h h' hsame]
        obtain ⟨buffer, idx, rfl⟩ := hsame
        rfl
      rw [loopTrace, loopTrace, hevents]
      generalize hturn : engine.turn sdk newV4 s = turn at hturns
      generalize hturn' : (withBuffer engine size hsize).turn sdk newV4 s' = turn' at hturns
      cases hturns with
      | failed e => rfl
      | finished report hs =>
          obtain ⟨buffer, idx, rfl⟩ := hs
          rfl
      | next step hs =>
          obtain ⟨reported, charged, replay, hst⟩ := turn_next_iff.mp hturn'
          have hbuffered : RunFollows (withBuffer engine size hsize) first steps s' := h'
          obtain ⟨-, -, hfollows, -⟩ := turn_follows hbuffered hst
          simp only [ih (h.turn hfree hturn) hfollows hs]

/-! ### The start -/

variable (ε) in
theorem new_rebuffered {db : Database} {resolutionMap : OrdMap OhlcResolution Period}
    {size size' : ℕ} {maxLookback : Option Lookback} {startTime endTime : ℤ}
    {first first' : FirstBuffer} (h : StartsAt db size maxLookback startTime first)
    (h' : StartsAt db size' maxLookback startTime first') :
    (Replay.new db first' resolutionMap startTime endTime : Except (BacktestError ε) _) =
      (Replay.new db first resolutionMap startTime endTime).map
        (rebuffered · first'.minuteBuffer first'.startCandleIdx) := by
  have hsame := startsAt_unique h h'
  have hcons (timeCursor : ℤ) : (Replay.firstConsolidator first' resolutionMap timeCursor :
      Except (BacktestError ε) _) = Replay.firstConsolidator first resolutionMap timeCursor := by
    simp only [Replay.firstConsolidator, h.initialCandles, h'.initialCandles, hsame]
  simp only [Replay.new, hcons, hsame, bind, Except.bind]
  cases (Replay.firstConsolidator first resolutionMap
    (first'.startCandle.time + Duration.seconds 59) : Except (BacktestError ε) _) <;> rfl

/-- A history that holds the start minute has a first buffer of any size. -/
theorem firstBuffer_exists (hfree : Stored engine.db.candleRows engine.startTime engine.endTime)
    {size : ℕ} (hsize : MIN_BUFFER_SIZE ≤ size) :
    ∃ first, (firstBuffer engine.db size engine.lookbacks.maxLookback engine.startTime :
      Except (BacktestError ε) _) = .ok first := by
  obtain ⟨hround, hday⟩ := startTime_spec engine
  unfold Duration.days at hday
  obtain ⟨c, hc, htime⟩ := hfree engine.startTime hround le_rfl (by omega)
  refine firstBuffer_isOk ε hc htime.ge ?_
  have hmin : MIN_BUFFER_SIZE = 720000 := by decide
  rw [htime]
  cases hl : engine.lookbacks.maxLookback with
  | none =>
      simp only [bufferFrom, Option.map_none, Option.getD_none, Duration.minutes]
      omega
  | some l =>
      have hle := l.le_max
      simp only [bufferFrom, Option.map_some, Option.getD_some, Lookback.asDuration]
      unfold Lookback.MAX Duration.days at hle
      unfold Duration.minutes
      omega

/-- Both runs start in the same state, or fail with the same error. -/
theorem start_rebuffered (sdk : LnmSdk ε) (newV4 : ℕ → Uuid)
    (hfree : Stored engine.db.candleRows engine.startTime engine.endTime) :
    (∃ e, engine.start sdk newV4 = .error e ∧
        (withBuffer engine size hsize).start sdk newV4 = .error e) ∨
      ∃ first s s', engine.start sdk newV4 = .ok s ∧ Starts engine sdk newV4 first s ∧
        (withBuffer engine size hsize).start sdk newV4 = .ok s' ∧
        RunFollows engine first [] s' ∧ SameReplay s s' := by
  obtain ⟨first, hfirst⟩ := firstBuffer_exists hfree engine.config.min_le_bufferSize
  obtain ⟨first', hfirst'⟩ := firstBuffer_exists hfree hsize
  have hat := firstBuffer_spec hfirst
  have hat' := firstBuffer_spec hfirst'
  have hsame := startsAt_unique hat hat'
  obtain ⟨r, hr, -, -⟩ : ∃ r, (Replay.new engine.db first engine.lookbacks.resolutionToMaxPeriod
      engine.startTime engine.endTime : Except (BacktestError ε) _) = .ok r ∧ _ ∧ _ :=
    new_follows ε (lookbacks_covers engine.operatorPending).validMap hat
  have hr' : (Replay.new engine.db first' engine.lookbacks.resolutionToMaxPeriod
      engine.startTime engine.endTime : Except (BacktestError ε) _) =
      .ok (rebuffered r first'.minuteBuffer first'.startCandleIdx) := by
    rw [new_rebuffered ε hat hat', hr]
    rfl
  cases hop : OperatorRunning.start engine.operatorPending engine.startTime with
  | error e =>
      refine Or.inl ⟨e, ?_, ?_⟩
      · simp [BacktestEngine.start, hfirst, hop, bind, Except.bind]
      · simp only [BacktestEngine.start, withBuffer_db, withBuffer_bufferSize, withBuffer_startTime,
          withBuffer_lookbacks, withBuffer_operatorPending, hfirst', hop, bind, Except.bind]
  | ok operator =>
      have hstart' : (withBuffer engine size hsize).start sdk newV4 =
          .ok ⟨rebuffered r first'.minuteBuffer first'.startCandleIdx, operator,
            (engine.executor sdk newV4).new first'.startCandle engine.startBalance⟩ := by
        simp only [BacktestEngine.start, withBuffer_db, withBuffer_bufferSize, withBuffer_startTime,
          withBuffer_endTime, withBuffer_lookbacks, withBuffer_operatorPending, withBuffer_executor,
          withBuffer_startBalance, hfirst', hop, hr', bind, Except.bind, pure, Except.pure]
      obtain ⟨first'', hstarts⟩ := start_spec hstart'
      have hsame' := startsAt_unique hat hstarts.startsAt
      have hfollows := (starts_follows hstarts).1
      refine Or.inr ⟨first, ⟨r, operator,
        (engine.executor sdk newV4).new first.startCandle engine.startBalance⟩, _, ?_,
        ⟨hat, hop, hr, rfl⟩, hstart', ?_, ?_⟩
      · simp [BacktestEngine.start, hfirst, hop, hr, bind, Except.bind, pure, Except.pure]
      · rw [RunFollows, newestCandle_nil, hsame']
        exact hfollows
      · exact ⟨first'.minuteBuffer, first'.startCandleIdx, by rw [hsame]⟩

theorem trace_rebuffered (hfree : Stored engine.db.candleRows engine.startTime engine.endTime)
    (fuel : ℕ) :
    trace (withBuffer engine size hsize) sdk newV4 fuel = trace engine sdk newV4 fuel := by
  rcases start_rebuffered hsize sdk newV4 hfree with
    ⟨e, hs, hs'⟩ | ⟨first, s, s', hs, hstarts, hs', hfollows, hsame⟩
  · simp only [trace, hs, hs']
  · simp only [trace, hs, hs']
    exact loopTrace_rebuffered hsize hfree fuel (start_replayed hfree hstarts) hfollows hsame

end Turns

/-! ### Exactly once -/

/-- A next candle is never wanting. -/
theorem Replayed.replayAfter_isOk
    (hfree : Stored engine.db.candleRows engine.startTime engine.endTime) {first : FirstBuffer}
    (h : Replayed engine first steps s) :
    ∃ next, (replayAfter engine s.replay : Except (BacktestError ε) _) = .ok next := by
  unfold replayAfter
  split_ifs with hlast
  · exact ⟨_, rfl⟩
  · obtain ⟨c, r, _, _, hadv, -⟩ := h.advance_rebuffered hfree engine.config.min_le_bufferSize
      h.follows.afterReport (by simpa using hlast)
    exact ⟨_, by rw [hadv, Except.map]⟩

theorem run_replayed (hfree : Stored engine.db.candleRows engine.startTime engine.endTime)
    (h : (system engine sdk newV4).Run steps s) : ∃ first, Replayed engine first steps s := by
  induction h with
  | start hs =>
      obtain ⟨first, hstarts⟩ := start_spec hs
      exact ⟨first, start_replayed hfree hstarts⟩
  | step _ hs ih =>
      obtain ⟨first, hreplayed⟩ := ih
      exact ⟨first, hreplayed.turn hfree hs⟩

variable (engine sdk newV4) in
/-- The candles of a trace come in order and at most once, all of them when it returns; more
turns than there are candles end it. -/
theorem trace_candles (hfree : Stored engine.db.candleRows engine.startTime engine.endTime)
    (fuel : ℕ) :
    candlesUpdated (trace engine sdk newV4 fuel).1 <+:
        replayedTo engine (engine.endTime - Duration.minutes 1) ∧
      (∀ operator executor, (trace engine sdk newV4 fuel).2 = .finished operator executor →
        candlesUpdated (trace engine sdk newV4 fuel).1 =
          replayedTo engine (engine.endTime - Duration.minutes 1)) ∧
      ((trace engine sdk newV4 fuel).2 = .unfinished →
        fuel ≤ (replayedTo engine (engine.endTime - Duration.minutes 1)).length) := by
  cases hs : engine.start sdk newV4 with
  | error e => simp [trace, hs]
  | ok s =>
      obtain ⟨first, hstarts⟩ := start_spec hs
      have hr := start_replayed hfree hstarts
      simp only [trace, hs]
      refine ⟨?_, ?_, ?_⟩
      · simpa using loopTrace_candles hfree fuel hr
      · intro operator executor hend
        simpa using loopTrace_finished hfree fuel hr hend
      · intro hend
        simpa using loopTrace_unfinished hfree fuel hr hend

/-- What a run does is the calls of its trace, and the buffer size shows in none of them. The
stored minutes after the start and up to the last of the period are replayed once each and in
order by a run that returns, and by any run up to where it stops; every run stops. -/
theorem replay_exactly_once (engine : BacktestEngine ε S ω) (sdk : LnmSdk ε) (newV4 : ℕ → Uuid)
    (hfree : Stored engine.db.candleRows engine.startTime engine.endTime) {size size' : ℕ}
    (hsize : MIN_BUFFER_SIZE ≤ size) (hsize' : MIN_BUFFER_SIZE ≤ size') :
    (∀ fuel, (trace engine sdk newV4 fuel).2 = .of (engine.run sdk newV4 fuel) ∧
        Performed engine sdk newV4 fuel) ∧
      (∀ fuel, trace (withBuffer engine size hsize) sdk newV4 fuel =
        trace (withBuffer engine size' hsize') sdk newV4 fuel) ∧
      (∀ fuel, candlesUpdated (trace engine sdk newV4 fuel).1 <+:
        replayedTo engine (engine.endTime - Duration.minutes 1)) ∧
      (∀ fuel operator executor, (trace engine sdk newV4 fuel).2 = .finished operator executor →
        candlesUpdated (trace engine sdk newV4 fuel).1 =
          replayedTo engine (engine.endTime - Duration.minutes 1)) ∧
      (∃ fuel, (trace engine sdk newV4 fuel).2 ≠ .unfinished) ∧
      (replayedTo engine (engine.endTime - Duration.minutes 1)).Pairwise
        (fun a b => a.time < b.time) ∧
      ∀ t, isRoundMinute t = true → engine.startTime < t →
        t ≤ engine.endTime - Duration.minutes 1 →
        ∃ c ∈ replayedTo engine (engine.endTime - Duration.minutes 1), c.time = t := by
  refine ⟨?_, ?_, ?_, ?_, ?_, ?_, ?_⟩
  · intro fuel
    refine ⟨trace_ending engine sdk newV4 fuel, performed ?_ fuel⟩
    intro steps s hrun
    obtain ⟨first, hreplayed⟩ := run_replayed hfree hrun
    exact hreplayed.replayAfter_isOk hfree
  · intro fuel
    rw [trace_rebuffered hsize hfree, trace_rebuffered hsize' hfree]
  · exact fun fuel => (trace_candles engine sdk newV4 hfree fuel).1
  · exact fun fuel => (trace_candles engine sdk newV4 hfree fuel).2.1
  · refine ⟨(replayedTo engine (engine.endTime - Duration.minutes 1)).length + 1, fun hend => ?_⟩
    have hle := (trace_candles engine sdk newV4 hfree _).2.2 hend
    omega
  · rw [replayedTo_eq]
    exact (candleRows_ascending engine.db).between _ _
  · intro t ht hlo hhi
    obtain ⟨c, hc, rfl⟩ := hfree t ht hlo.le (by unfold Duration.minutes at hhi; omega)
    exact ⟨c, by simp [replayedTo, hc, hlo, hhi], rfl⟩

theorem watchedDay_stored :
    Stored watchedDay.db.candleRows watchedDay.startTime watchedDay.endTime :=
  minuteDatabase_unbroken (by decide) _ ((mem_minuteDatabase (by decide)).mpr ⟨0, by decide, rfl⟩) _
    ((mem_minuteDatabase (by decide)).mpr ⟨1440, by decide, rfl⟩)

theorem replay_exactly_once_watched :
    (∀ fuel, (trace watchedDay referenceSdk Uuid.mk fuel).2 =
          .of (watchedDay.run referenceSdk Uuid.mk fuel) ∧
        Performed watchedDay referenceSdk Uuid.mk fuel) ∧
      (∀ fuel, trace (withBuffer watchedDay 720000 (by decide)) referenceSdk Uuid.mk fuel =
        trace (withBuffer watchedDay 1000000 (by decide)) referenceSdk Uuid.mk fuel) ∧
      (∀ fuel, candlesUpdated (trace watchedDay referenceSdk Uuid.mk fuel).1 <+:
        replayedTo watchedDay (watchedDay.endTime - Duration.minutes 1)) ∧
      (∀ fuel operator executor,
        (trace watchedDay referenceSdk Uuid.mk fuel).2 = .finished operator executor →
        candlesUpdated (trace watchedDay referenceSdk Uuid.mk fuel).1 =
          replayedTo watchedDay (watchedDay.endTime - Duration.minutes 1)) ∧
      (∃ fuel, (trace watchedDay referenceSdk Uuid.mk fuel).2 ≠ .unfinished) ∧
      (replayedTo watchedDay (watchedDay.endTime - Duration.minutes 1)).Pairwise
        (fun a b => a.time < b.time) ∧
      ∀ t, isRoundMinute t = true → watchedDay.startTime < t →
        t ≤ watchedDay.endTime - Duration.minutes 1 →
        ∃ c ∈ replayedTo watchedDay (watchedDay.endTime - Duration.minutes 1), c.time = t :=
  replay_exactly_once watchedDay referenceSdk Uuid.mk watchedDay_stored (by decide) (by decide)

end Quantoxide.Engine
