import Quantoxide.Library.Grid
import Quantoxide.Verification.Engine.Reports

/-! # Replays with missing minutes

A day is reported by the first turn whose cursor has reached its last second. With the last
minute of the day missing that turn has already moved the clock into the next day, and the
report is refused; a start candle, whose minute is not added to the clock, may still stand at
the end of the first day. -/

namespace Quantoxide.Engine

open DateTime Result Timeline SimulatedTradeExecutor Executor

variable {ε S ω : Type} {engine : BacktestEngine ε S ω} {sdk : LnmSdk ε} {newV4 : ℕ → Uuid}
  {steps : List LoopStep} {step : LoopStep} {s s' : BacktestState ε S ω} {first : FirstBuffer}

/-! ### Days -/

def IsMidnight (t : ℤ) : Prop := Grid.On (Duration.days 1) 0 t

instance (t : ℤ) : Decidable (IsMidnight t) := inferInstanceAs (Decidable (Grid.On _ _ _))

/-- The ends of the days of the period. -/
def dayEnds (engine : BacktestEngine ε S ω) : List ℤ :=
  Grid.series (Duration.days 1) (engine.startTime + Duration.days 1) engine.endTime

/-- The midnights after the start, up to the end. -/
def midnights (engine : BacktestEngine ε S ω) : List ℤ :=
  Grid.series (Duration.days 1)
    (Grid.floor (Duration.days 1) 0 engine.startTime + Duration.days 1) engine.endTime

theorem day_pos : 0 < Duration.days 1 := by decide

theorem midnights_eq (h : IsMidnight engine.startTime) : midnights engine = dayEnds engine := by
  rw [midnights, dayEnds, Grid.floor_of_on h]

theorem firstDay_mem (engine : BacktestEngine ε S ω) :
    engine.startTime + Duration.days 1 ∈ dayEnds engine := by
  rw [dayEnds, Grid.series_cons day_pos (startTime_spec engine).2]
  exact List.mem_cons_self

theorem isMidnight_start (h : midnights engine = dayEnds engine) :
    IsMidnight engine.startTime := by
  have hmem := firstDay_mem engine
  rw [← h, midnights, Grid.mem_series day_pos] at hmem
  have hfloor := Grid.floor_on (m := Duration.days 1) 0 engine.startTime
  have hon := hmem.2.2
  unfold IsMidnight Grid.On Duration.days at *
  omega

/-- The end of a day is a stored minute's end, or the first day has no candle but a start
candle at its end. -/
def DayCloses (engine : BacktestEngine ε S ω) (time : ℤ) : Prop :=
  (∃ c ∈ engine.db.candleRows, c.time = time - Duration.minutes 1) ∨
    time = engine.startTime + Duration.days 1 ∧ (∃ c ∈ engine.db.candleRows, c.time = time) ∧
      ∀ c ∈ engine.db.candleRows, engine.startTime ≤ c.time → time ≤ c.time

instance (engine : BacktestEngine ε S ω) (time : ℤ) : Decidable (DayCloses engine time) :=
  inferInstanceAs (Decidable (_ ∨ _))

/-- The period starts at a midnight and each of its days closes. -/
structure DaysClose (engine : BacktestEngine ε S ω) : Prop where
  midnight : IsMidnight engine.startTime
  closes : ∀ time ∈ dayEnds engine, DayCloses engine time

instance (engine : BacktestEngine ε S ω) : Decidable (DaysClose engine) :=
  decidable_of_iff (IsMidnight engine.startTime ∧ ∀ time ∈ dayEnds engine, DayCloses engine time)
    ⟨fun h => ⟨h.1, h.2⟩, fun h => ⟨h.midnight, h.closes⟩⟩

/-! ### The next report -/

/-- The time of the next report. -/
def nextReport (r : Replay) : ℤ := r.sendNextUpdateAt + Duration.seconds 1

/-- The reports still to come. -/
abbrev reportsLeft (engine : BacktestEngine ε S ω) (r : Replay) : List ℤ :=
  Grid.series (Duration.days 1) (nextReport r) engine.endTime

/-- A report is due once the minute before it has been reached. -/
theorem report_cases (h : RunFollows engine first steps s) :
    (nextReport s.replay ≤ (newestCandle first.startCandle steps).time + Duration.minutes 1 ∧
        s.replay.dueReport = some (nextReport s.replay) ∧
        nextReport s.replay.afterReport = nextReport s.replay + Duration.days 1) ∨
      (newestCandle first.startCandle steps).time + Duration.minutes 1 < nextReport s.replay ∧
        s.replay.dueReport = none ∧ s.replay.afterReport = s.replay := by
  have hcursor := h.cursor
  unfold nextReport Replay.dueReport Replay.afterReport
  unfold Duration.seconds at *
  unfold Duration.minutes Duration.days
  split_ifs with hdue
  · refine Or.inl ⟨by omega, rfl, ?_⟩
    simp only
    omega
  · exact Or.inr ⟨by omega, rfl, rfl⟩

/-- The state at the head of the loop, with a report to come: no candle replayed before the
newest has reached it. -/
structure Reporting (engine : BacktestEngine ε S ω) (first : FirstBuffer) (steps : List LoopStep)
    (s : BacktestState ε S ω) : Prop where
  follows : RunFollows engine first steps s
  startsAt : StartsAt engine.db engine.config.bufferSize engine.lookbacks.maxLookback
    engine.startTime first
  start_le : engine.startTime ≤ (newestCandle first.startCandle steps).time
  le_end : (newestCandle first.startCandle steps).time ≤ engine.endTime - Duration.minutes 1
  onDay : Grid.On (Duration.days 1) engine.startTime (nextReport s.replay)
  firstDay : engine.startTime + Duration.days 1 ≤ nextReport s.replay
  before : ∀ c ∈ engine.db.candleRows, engine.startTime ≤ c.time →
    c.time < (newestCandle first.startCandle steps).time →
      c.time + Duration.minutes 1 < nextReport s.replay
  clock :
    first.startCandle.time < (newestCandle first.startCandle steps).time ∧
        s.executor.time = (newestCandle first.startCandle steps).time + Duration.seconds 59 ∨
      newestCandle first.startCandle steps = first.startCandle ∧
        nextReport s.replay = engine.startTime + Duration.days 1 ∧
        s.executor.time = first.startCandle.time

theorem start_reporting (h : Starts engine sdk newV4 first s)
    (hlast : ∃ c ∈ engine.db.candleRows, c.time = engine.endTime - Duration.minutes 1) :
    Reporting engine first [] s := by
  obtain ⟨hfollows, hstarted⟩ := starts_follows h
  obtain ⟨-, hday⟩ := startTime_spec engine
  obtain ⟨last, hmem, htime⟩ := hlast
  have hnext : nextReport s.replay = engine.startTime + Duration.days 1 := by
    rw [nextReport, hstarted.sendNextUpdateAt]
    omega
  refine ⟨hfollows, h.startsAt, h.startsAt.start_le, ?_, ?_, hnext.ge, ?_, ?_⟩
  · rw [newestCandle_nil, ← htime]
    apply h.startsAt.least last hmem
    unfold Duration.days at hday
    unfold Duration.minutes at htime
    omega
  · rw [hnext]
    unfold Grid.On Duration.days
    omega
  · intro c hc hle hlt
    exact absurd hlt (h.startsAt.least c hc hle).not_gt
  · exact Or.inr ⟨rfl, hnext, (start_clock h).1⟩

namespace Reporting

/-- The newest candle and the next report are on minutes. -/
theorem onMinute (h : Reporting engine first steps s) :
    (newestCandle first.startCandle steps).time % Duration.minutes 1 = 0 ∧
      nextReport s.replay % Duration.minutes 1 = 0 := by
  have hcandle := h.follows.isMinute.round
  have hstart := (startTime_spec engine).1
  have hday := h.onDay
  simp only [isRoundMinute, floorMinute, beq_iff_eq] at hcandle hstart
  unfold Grid.On Duration.days at hday
  unfold Duration.minutes
  omega

/-- The clock has not passed a report that is due exactly when its day closes. -/
theorem clock_le_iff (h : Reporting engine first steps s)
    (hdue : nextReport s.replay ≤ (newestCandle first.startCandle steps).time +
      Duration.minutes 1) :
    s.executor.time ≤ nextReport s.replay ↔ DayCloses engine (nextReport s.replay) := by
  obtain ⟨hround, hroundNext⟩ := h.onMinute
  have hmem := h.follows.mem
  have hstart := h.start_le
  have hfirst := h.firstDay
  unfold Duration.days at hfirst
  unfold Duration.minutes at hround hroundNext hdue
  rcases h.clock with ⟨hlt, hclock⟩ | ⟨hnewest, hnext, hclock⟩
  · rw [hclock]
    unfold Duration.seconds
    constructor
    · intro hle
      refine Or.inl ⟨_, hmem, ?_⟩
      unfold Duration.minutes
      omega
    · rintro (⟨c, hc, htime⟩ | ⟨htime, -, hnone⟩)
      · have hbefore := h.before c hc
        unfold Duration.minutes at htime hbefore
        omega
      · have hat := h.startsAt
        have hstored : first.startCandle ∈ engine.db.candleRows :=
          (mem_getCandles.mp hat.mem_buffer).1
        have hbefore := h.before _ hstored hat.start_le hlt
        have hle := hnone _ hstored hat.start_le
        unfold Duration.minutes at hbefore
        omega
  · rw [hnewest] at hmem hround hdue
    rw [hclock]
    constructor
    · intro hle
      by_cases hat : first.startCandle.time = nextReport s.replay
      · exact Or.inr ⟨hnext, ⟨_, hmem, hat⟩, fun c hc hle => hat ▸ h.startsAt.least c hc hle⟩
      · refine Or.inl ⟨_, hmem, ?_⟩
        unfold Duration.minutes
        omega
    · rintro (⟨c, hc, htime⟩ | ⟨-, ⟨c, hc, htime⟩, -⟩)
      · have hle := h.startsAt.least c hc
        unfold Duration.minutes at htime
        omega
      · have hle := h.startsAt.least c hc
        omega

/-- A report that is due is the next of those to come. -/
theorem reports_split (h : Reporting engine first steps s) :
    s.replay.dueReport.toList ++ reportsLeft engine s.replay.afterReport =
      reportsLeft engine s.replay := by
  rcases report_cases h.follows with ⟨hreached, hdue, hafter⟩ | ⟨-, hdue, hafter⟩
  · have hend : nextReport s.replay ≤ engine.endTime := by
      have := h.le_end
      omega
    rw [hdue, reportsLeft, reportsLeft, hafter, Grid.series_cons day_pos hend]
    rfl
  · rw [hdue, hafter]
    rfl

theorem due_iff (h : Reporting engine first steps s) :
    (∀ time ∈ s.replay.dueReport, s.executor.time ≤ time) ↔
      ∀ time ∈ s.replay.dueReport.toList, DayCloses engine time := by
  rcases report_cases h.follows with ⟨hreached, hdue, -⟩ | ⟨-, hdue, -⟩
  · simp only [hdue, Option.mem_some_iff, forall_eq', Option.toList_some, List.mem_singleton,
      forall_eq]
    exact h.clock_le_iff hreached
  · simp [hdue]

theorem onTime (h : Reporting engine first steps s)
    (hcloses : ∀ time ∈ s.replay.dueReport.toList, DayCloses engine time) :
    OnTime (engine.turn sdk newV4 s) := by
  apply turn_onTime h.follows ?_ (h.due_iff.mpr hcloses)
  have hcursor := h.follows.cursor
  unfold Duration.seconds at hcursor
  rcases h.clock with ⟨-, hclock⟩ | ⟨hnewest, -, hclock⟩
  · unfold Duration.seconds at hclock
    omega
  · rw [hnewest] at hcursor
    omega

/-- With the last minute reached no report is left. -/
theorem no_reports_left (h : Reporting engine first steps s)
    (hclock : ∀ time ∈ s.replay.dueReport, s.executor.time ≤ time)
    (hlast : s.replay.afterReport.isLast engine.endTime = true) :
    reportsLeft engine s.replay.afterReport = [] := by
  apply Grid.series_of_lt
  have hend : engine.endTime - Duration.minutes 1 ≤
      (newestCandle first.startCandle steps).time := by
    by_contra hlt
    rw [(not_isLast_iff h.follows).mpr (not_le.mp hlt)] at hlast
    cases hlast
  unfold Duration.minutes at hend
  rcases report_cases h.follows with ⟨hreached, hdue, hafter⟩ | ⟨hreached, -, hafter⟩
  · have hle := hclock _ hdue
    rw [hafter]
    unfold Duration.days
    rcases h.clock with ⟨-, htime⟩ | ⟨hnewest, -, htime⟩
    · unfold Duration.seconds at htime
      omega
    · rw [hnewest] at hend
      omega
  · rw [hafter]
    unfold Duration.minutes at hreached
    omega

theorem next (h : Reporting engine first steps s)
    (hlast : ∃ c ∈ engine.db.candleRows, c.time = engine.endTime - Duration.minutes 1)
    (hturn : engine.turn sdk newV4 s = .ok (.next step s')) :
    Reporting engine first (steps ++ [step]) s' ∧
      nextReport s'.replay = nextReport s.replay.afterReport := by
  obtain ⟨reported, charged, replay, hst⟩ := turn_next_iff.mp hturn
  obtain ⟨hnext, hadv, hfollows, -⟩ := turn_follows h.follows hst
  obtain ⟨r, hr, -, -, hsend⟩ := push_follows ε h.follows.afterReport hnext hadv
  obtain rfl := Except.ok.inj (hst.push.symm.trans hr)
  have hreport : nextReport s'.replay = nextReport s.replay.afterReport := by
    rw [nextReport, hsend, hadv.sendNextUpdateAt]
    rfl
  have hclock := (stamps_of_turn_ok hturn).2
  have hfirst := h.firstDay
  have hday := h.onDay
  refine ⟨⟨hfollows, h.startsAt, ?_, ?_, ?_, ?_, ?_, ?_⟩, hreport⟩
  all_goals simp only [newestCandle_concat, hreport]
  · exact h.start_le.trans hnext.lt.le
  · obtain ⟨last, hmem, htime⟩ := hlast
    rw [← htime]
    apply hnext.least last hmem
    rw [htime]
    exact (not_isLast_iff h.follows).mp hst.goesOn
  · rcases report_cases h.follows with ⟨-, -, hafter⟩ | ⟨-, -, hafter⟩
    · rw [hafter]
      unfold Grid.On Duration.days at hday ⊢
      omega
    · rw [hafter]
      exact hday
  · rcases report_cases h.follows with ⟨-, -, hafter⟩ | ⟨-, -, hafter⟩
    · rw [hafter]
      unfold Duration.days at hfirst ⊢
      omega
    · rw [hafter]
      exact hfirst
  · intro c hc hstart hlt
    have hle : c.time ≤ (newestCandle first.startCandle steps).time := by
      by_contra hgt
      exact absurd hlt (hnext.least c hc (not_le.mp hgt)).not_gt
    rcases report_cases h.follows with ⟨-, hdue, hafter⟩ | ⟨hreached, -, hafter⟩
    · have hbound := hclock _ hdue
      rw [hafter]
      unfold Duration.days Duration.minutes
      rcases h.clock with ⟨-, htime⟩ | ⟨hnewest, -, htime⟩
      · unfold Duration.seconds at htime
        omega
      · rw [hnewest] at hle
        omega
    · rw [hafter]
      omega
  · left
    have htime := (replayCandle_clock hst.candle).1
    refine ⟨?_, by rw [hst.updated, htime]⟩
    have hle : first.startCandle.time ≤ (newestCandle first.startCandle steps).time :=
      h.startsAt.least _ h.follows.mem h.start_le
    exact hle.trans_lt hnext.lt

end Reporting

/-! ### Runs -/

/-- The reports still to come are sent in order, all of them by a run that returns; each of
them closes its day, and one that does not is where the time is violated. -/
theorem loop_reports
    (hlast : ∃ c ∈ engine.db.candleRows, c.time = engine.endTime - Duration.minutes 1)
    (fuel : ℕ) (h : Reporting engine first steps s) :
    stamps (loopStates engine sdk newV4 fuel s) <+: reportsLeft engine s.replay ∧
      ((∀ time ∈ reportsLeft engine s.replay, DayCloses engine time) →
        (loopTrace engine sdk newV4 fuel s).2.timeViolation = none) ∧
      ∀ operator executor, (loopTrace engine sdk newV4 fuel s).2 = .finished operator executor →
        stamps (loopStates engine sdk newV4 fuel s) = reportsLeft engine s.replay ∧
          ∀ time ∈ reportsLeft engine s.replay, DayCloses engine time := by
  induction fuel generalizing steps s with
  | zero => exact ⟨List.nil_prefix, fun _ => rfl, fun _ _ hend => by cases hend⟩
  | succ fuel ih =>
      rw [loopStates_succ, loopTrace, ← h.reports_split]
      cases hturn : engine.turn sdk newV4 s with
      | error e =>
          simp only [List.append_nil]
          refine ⟨?_, ?_, fun _ _ hend => by cases hend⟩
          · rcases stamps_turn engine sdk newV4 s with hnil | ⟨hsent, -⟩
            · rw [hnil]
              exact List.nil_prefix
            · rw [hsent]
              exact List.prefix_append _ _
          · intro hcloses
            exact h.onTime (fun time hdue => hcloses time (List.mem_append_left _ hdue)) e hturn
      | ok turn =>
          obtain ⟨hsent, hclock⟩ := stamps_of_turn_ok hturn
          have hdue := h.due_iff.mp hclock
          cases turn with
          | finished report s' =>
              rw [h.no_reports_left hclock (turn_finished hturn)]
              simp only [List.append_nil, hsent]
              exact ⟨List.prefix_rfl, fun _ => rfl, fun _ _ _ => ⟨trivial, hdue⟩⟩
          | next step s' =>
              obtain ⟨hnext, hreport⟩ := h.next hlast hturn
              obtain ⟨hordered, hviolation, hreturned⟩ := ih hnext
              simp only [reportsLeft, hreport] at hordered hviolation hreturned
              simp only [stamps, List.map_append, reportsLeft]
              rw [show List.map (·.lastTickTime) (turnStates engine sdk newV4 s) =
                s.replay.dueReport.toList from hsent]
              refine ⟨(List.prefix_append_right_inj _).mpr hordered, ?_, ?_⟩
              · intro hcloses
                exact hviolation fun time hmem => hcloses time (List.mem_append_right _ hmem)
              · intro operator executor hend
                obtain ⟨hall, hcloses⟩ := hreturned operator executor hend
                refine ⟨congrArg _ hall, ?_⟩
                intro time hmem
                rcases List.mem_append.mp hmem with hmem | hmem
                · exact hdue time hmem
                · exact hcloses time hmem

/-- Each turn but the last reads one more stored candle. -/
theorem loop_unfinished (fuel : ℕ) (h : RunFollows engine first steps s)
    (hend : (loopTrace engine sdk newV4 fuel s).2 = .unfinished) :
    (engine.db.getCandles (historyFrom engine)
      (newestCandle first.startCandle steps).time).length + fuel ≤
        engine.db.candleRows.length := by
  induction fuel generalizing steps s with
  | zero => exact between_sublist.length_le
  | succ fuel ih =>
      rw [loopTrace] at hend
      cases hturn : engine.turn sdk newV4 s with
      | error e => simp [hturn] at hend
      | ok turn =>
          cases turn with
          | finished report s' => simp [hturn] at hend
          | next step s' =>
              simp only [hturn] at hend
              obtain ⟨reported, charged, replay, hst⟩ := turn_next_iff.mp hturn
              obtain ⟨hnext, -, hfollows, -⟩ := turn_follows h hst
              have hlo : historyFrom engine ≤ step.candle.time := h.from_le.trans hnext.lt.le
              have hrows : engine.db.getCandles (historyFrom engine) step.candle.time =
                  engine.db.getCandles (historyFrom engine)
                    (newestCandle first.startCandle steps).time ++ [step.candle] :=
                between_next (candleRows_ascending engine.db) hnext hlo
              have hle := ih hfollows hend
              rw [newestCandle_concat, hrows, List.length_append, List.length_singleton] at hle
              omega

/-- Every run stops. -/
theorem trace_stops (engine : BacktestEngine ε S ω) (sdk : LnmSdk ε) (newV4 : ℕ → Uuid) :
    ∃ fuel, (trace engine sdk newV4 fuel).2 ≠ .unfinished := by
  refine ⟨engine.db.candleRows.length + 1, ?_⟩
  intro hend
  unfold trace at hend
  cases hs : engine.start sdk newV4 with
  | error e => simp [hs] at hend
  | ok s =>
      obtain ⟨first, hstarts⟩ := start_spec hs
      simp only [hs] at hend
      have hle := loop_unfinished _ (starts_follows hstarts).1 hend
      omega

/-- A run never fails with `TimeSequenceViolation`; it sends one trading state for each day,
stamped with the midnights of the period in order. -/
structure ReportsEachDay (engine : BacktestEngine ε S ω) (sdk : LnmSdk ε) (newV4 : ℕ → Uuid) :
    Prop where
  noViolation : ∀ fuel, (trace engine sdk newV4 fuel).2.timeViolation = none
  inOrder : ∀ fuel, stamps (dailyStates engine sdk newV4 fuel) <+: midnights engine
  complete : ∀ fuel operator executor,
    (trace engine sdk newV4 fuel).2 = .finished operator executor →
      stamps (dailyStates engine sdk newV4 fuel) = midnights engine

theorem trace_reports (sdk : LnmSdk ε) (newV4 : ℕ → Uuid)
    (hlast : ∃ c ∈ engine.db.candleRows, c.time = engine.endTime - Duration.minutes 1)
    (fuel : ℕ) :
    stamps (dailyStates engine sdk newV4 fuel) <+: dayEnds engine ∧
      ((∀ time ∈ dayEnds engine, DayCloses engine time) →
        (trace engine sdk newV4 fuel).2.timeViolation = none) ∧
      ∀ operator executor, (trace engine sdk newV4 fuel).2 = .finished operator executor →
        stamps (dailyStates engine sdk newV4 fuel) = dayEnds engine ∧
          ∀ time ∈ dayEnds engine, DayCloses engine time := by
  unfold dailyStates trace
  cases hs : engine.start sdk newV4 with
  | error e => exact ⟨List.nil_prefix, fun _ => start_onTime e hs, fun _ _ hend => by cases hend⟩
  | ok s =>
      obtain ⟨first, hstarts⟩ := start_spec hs
      have hreporting := start_reporting hstarts hlast
      have hnext : nextReport s.replay = engine.startTime + Duration.days 1 := by
        rw [nextReport, (starts_follows hstarts).2.sendNextUpdateAt]
        omega
      obtain ⟨hordered, hviolation, hreturned⟩ := loop_reports hlast fuel hreporting
      simp only [reportsLeft, hnext] at hordered hviolation hreturned
      exact ⟨hordered, hviolation, hreturned⟩

/-- Any run stops. Where each day closes no run violates the time, and one that returns has
reported each day at its midnight; a run that fails in no other way does so only there. -/
theorem each_day_reported_iff (engine : BacktestEngine ε S ω) (sdk : LnmSdk ε) (newV4 : ℕ → Uuid)
    (hlast : ∃ c ∈ engine.db.candleRows, c.time = engine.endTime - Duration.minutes 1) :
    (∃ fuel, (trace engine sdk newV4 fuel).2 ≠ .unfinished) ∧
      (DaysClose engine → ReportsEachDay engine sdk newV4) ∧
      ((∀ fuel e, (trace engine sdk newV4 fuel).2 = .failed e → e.timeViolation ≠ none) →
        (ReportsEachDay engine sdk newV4 ∧ (∃ fuel operator executor,
            (trace engine sdk newV4 fuel).2 = .finished operator executor) ↔
          DaysClose engine)) := by
  have hreports := trace_reports sdk newV4 hlast
  have hclosed : DaysClose engine → ReportsEachDay engine sdk newV4 := by
    intro h
    refine ⟨?_, ?_, ?_⟩
    · intro fuel
      exact (hreports fuel).2.1 h.closes
    · intro fuel
      rw [midnights_eq h.midnight]
      exact (hreports fuel).1
    · intro fuel operator executor hend
      rw [midnights_eq h.midnight]
      exact ((hreports fuel).2.2 operator executor hend).1
  refine ⟨trace_stops engine sdk newV4, hclosed, ?_⟩
  intro hother
  constructor
  · rintro ⟨heach, fuel, operator, executor, hend⟩
    obtain ⟨hall, hcloses⟩ := (hreports fuel).2.2 operator executor hend
    exact ⟨isMidnight_start ((heach.complete fuel operator executor hend).symm.trans hall), hcloses⟩
  · intro h
    have heach := hclosed h
    obtain ⟨fuel, hstops⟩ := trace_stops engine sdk newV4
    refine ⟨heach, fuel, ?_⟩
    cases hend : (trace engine sdk newV4 fuel).2 with
    | unfinished => exact absurd hend hstops
    | failed e =>
        have hnone := heach.noViolation fuel
        rw [hend] at hnone
        exact absurd hnone (hother fuel e hend)
    | finished operator executor => exact ⟨operator, executor, rfl⟩

/-! ### Two days with holes -/

def sparseHistory (minutes : List ℕ) : List CandleRecord :=
  minutes.map fun i => ⟨Executor.minuteCandle i 100000 101000 99000 100500, false⟩

theorem sparseHistory_ascending {minutes : List ℕ} (h : minutes.Pairwise (· < ·)) :
    (sparseHistory minutes).Pairwise (fun a b => a.row.time < b.row.time) := by
  rw [sparseHistory, List.pairwise_map]
  refine h.imp ?_
  intro i j hij
  simp only [Executor.minuteCandle, Duration.minutes]
  omega

theorem sparseHistory_minutes {minutes : List ℕ} (h : ∀ i ∈ minutes, i + 1 ≤ 100000000) :
    ∀ c ∈ sparseHistory minutes, c.row.IsMinute := by
  intro c hc
  obtain ⟨i, hi, rfl⟩ := List.mem_map.mp hc
  exact minuteHistory_minutes (h i hi) _ (by simp [minuteHistory])

/-- A history of the given minutes alone, without settlements. -/
def sparseDatabase (minutes : List ℕ) (ascending : minutes.Pairwise (· < ·))
    (bounded : ∀ i ∈ minutes, i + 1 ≤ 100000000) : Database where
  ohlcCandles := sparseHistory minutes
  fundingSettlements := []
  candlesAscending := sparseHistory_ascending ascending
  candlesMinutes := sparseHistory_minutes bounded
  settlementsAscending := Database.noSettlements

/-- An operator that asks for nothing and does nothing. -/
def idle : RawOperator Refusal Unit where
  setTradeExecutor memory := (memory, .ok ())
  lookback := .ok none
  minIterationInterval := .ok shortestInterval
  iterate _ memory := .done (memory, .ok ())

theorem holed_ascending : [1440, 2879, 4319, 4320].Pairwise (· < ·) := by decide

theorem torn_ascending : [1440, 2880, 4319, 4320].Pairwise (· < ·) := by decide

theorem twoDays_period : (checkPeriod (Duration.days 1) (Duration.days 3) :
    Except (BacktestError Refusal) Unit) = .ok () := eq_ok_of_isOk (by decide +kernel)

/-- The first minute of two days, the last of each and the one after them. -/
def holed : Database :=
  sparseDatabase [1440, 2879, 4319, 4320] holed_ascending (by decide)

def holedDays : BacktestEngine Refusal Unit Unit where
  config := referenceConfig
  db := holed
  operatorPending := .raw ⟨idle, (), _, rfl⟩
  startTime := Duration.days 1
  startBalance := 10000000
  endTime := Duration.days 3
  period := twoDays_period
  history := eq_ok_of_isOk (by decide +kernel)
  settlements := eq_ok_of_isOk (by decide +kernel)

theorem each_day_reported_holed : ReportsEachDay holedDays referenceSdk Uuid.mk :=
  (each_day_reported_iff holedDays referenceSdk Uuid.mk (by decide +kernel)).2.1
    (by decide +kernel)

/-- The same with 00:00 of the second day stored in place of 23:59 of the first. -/
def torn : Database :=
  sparseDatabase [1440, 2880, 4319, 4320] torn_ascending (by decide)

def tornDays : BacktestEngine Refusal Unit Unit where
  config := referenceConfig
  db := torn
  operatorPending := .raw ⟨idle, (), _, rfl⟩
  startTime := Duration.days 1
  startBalance := 10000000
  endTime := Duration.days 3
  period := twoDays_period
  history := eq_ok_of_isOk (by decide +kernel)
  settlements := eq_ok_of_isOk (by decide +kernel)

/-- The clock stands at 00:00:59 of the second day when the first is to be reported at 00:00:00:
the run fails, with no refetch made and the last minute stored. -/
theorem missing_minute_violates_time :
    (trace tornDays referenceSdk Uuid.mk 2).2.timeViolation =
        some (Duration.days 2, Duration.days 2 + Duration.seconds 59) ∧
      (∃ c ∈ tornDays.db.candleRows, c.time = tornDays.endTime - Duration.minutes 1) ∧
      IsMidnight tornDays.startTime ∧ ¬ ReportsEachDay tornDays referenceSdk Uuid.mk := by
  have hviolated : (trace tornDays referenceSdk Uuid.mk 2).2.timeViolation =
      some (Duration.days 2, Duration.days 2 + Duration.seconds 59) := by decide +kernel
  refine ⟨hviolated, by decide +kernel, by decide +kernel, ?_⟩
  intro h
  rw [h.noViolation 2] at hviolated
  cases hviolated

end Quantoxide.Engine
