import Quantoxide.Verification.Engine.Synchrony
import Quantoxide.Verification.Executor.Clock

/-! # Settlements along a run

The settlements fetched for a run wait in a queue in order of time, and each turn takes
those the cursor has reached. Those the first cursor has already passed are taken after the
first call of the operator, which comes before any of them. -/

namespace Quantoxide.Engine

open DateTime Result Timeline SimulatedTradeExecutor Executor

variable {ε S ω : Type} {engine : BacktestEngine ε S ω} {sdk : LnmSdk ε} {newV4 : ℕ → Uuid}
  {steps : List LoopStep} {step : LoopStep} {s s' : BacktestState ε S ω} {first : FirstBuffer}

/-! ### What a settlement finds -/

section Settle

variable {ex : SimulatedTradeExecutor ε} {rows : List FundingSettlementRow}
  {row : FundingSettlementRow} {t t' : SimulatedTradeExecutorState}
  {settled : List (FundingSettlementRow × SimulatedTradeExecutorState)}

theorem charge_eq_ok
    {before after : List (FundingSettlementRow × SimulatedTradeExecutorState)} :
    ex.charge row (before, t) = .ok (after, t') ↔
      ex.applyFundingSettlement t row = (t', .ok ()) ∧ after = before ++ [(row, t)] := by
  simp only [charge, bind_eq_ok, check_eq_ok, pure_eq_ok, Prod.mk.injEq]
  constructor
  · rintro ⟨u, hu, rfl, rfl⟩
    exact ⟨hu, rfl⟩
  · rintro ⟨hu, rfl⟩
    exact ⟨t', hu, rfl, rfl⟩

theorem foldlM_charge
    {before after : List (FundingSettlementRow × SimulatedTradeExecutorState)} :
    rows.foldlM (fun acc row => ex.charge row acc) (before, t) = .ok (after, t') ↔
      ∃ rest, ex.settle rows t = .ok (rest, t') ∧ after = before ++ rest := by
  induction rows generalizing before after t with
  | nil =>
      simp only [settle, List.foldlM_nil, pure_eq_ok, Prod.mk.injEq]
      constructor
      · rintro ⟨rfl, rfl⟩
        exact ⟨[], ⟨rfl, rfl⟩, by simp⟩
      · rintro ⟨_, ⟨rfl, rfl⟩, rfl⟩
        exact ⟨by simp, rfl⟩
  | cons row rows ih =>
      rw [settle, List.foldlM_cons, List.foldlM_cons]
      simp only [bind_eq_ok, Prod.exists, charge_eq_ok]
      constructor
      · rintro ⟨_, u, ⟨hu, rfl⟩, hall⟩
        obtain ⟨rest, hrest, rfl⟩ := ih.mp hall
        exact ⟨(row, t) :: rest, ⟨_, u, ⟨hu, rfl⟩, ih.mpr ⟨rest, hrest, rfl⟩⟩, by simp⟩
      · rintro ⟨_, ⟨_, u, ⟨hu, rfl⟩, hall⟩, rfl⟩
        obtain ⟨rest, hrest, rfl⟩ := ih.mp hall
        exact ⟨_, u, ⟨hu, rfl⟩, ih.mpr ⟨rest, hrest, by simp⟩⟩

theorem settle_cons : ex.settle (row :: rows) t = .ok (settled, t') ↔
    ∃ u rest, ex.applyFundingSettlement t row = (u, .ok ()) ∧
      ex.settle rows u = .ok (rest, t') ∧ settled = (row, t) :: rest := by
  rw [settle, List.foldlM_cons]
  simp only [bind_eq_ok, Prod.exists, charge_eq_ok]
  constructor
  · rintro ⟨_, u, ⟨hu, rfl⟩, hall⟩
    obtain ⟨rest, hrest, rfl⟩ := foldlM_charge.mp hall
    exact ⟨u, rest, hu, hrest, rfl⟩
  · rintro ⟨u, rest, hu, hrest, rfl⟩
    exact ⟨_, u, ⟨hu, rfl⟩, foldlM_charge.mpr ⟨rest, hrest, rfl⟩⟩

/-- Settlements are applied in turn, and what they keep holds of each state they find. -/
theorem settle_spec {P : SimulatedTradeExecutorState → Prop}
    (hkeep : ∀ row t, P t → P (ex.applyFundingSettlement t row).1)
    (h : ex.settle rows t = .ok (settled, t')) (ht : P t) :
    settled.map (·.1) = rows ∧ (∀ charge ∈ settled, P charge.2) ∧ P t' := by
  induction rows generalizing settled t with
  | nil =>
      cases h
      exact ⟨rfl, by simp, ht⟩
  | cons row rows ih =>
      obtain ⟨u, rest, hu, hrest, rfl⟩ := settle_cons.mp h
      have hnext := hkeep row t ht
      rw [hu] at hnext
      obtain ⟨hmap, hall, hlast⟩ := ih hrest hnext
      refine ⟨by simp [hmap], ?_, hlast⟩
      intro charge hmem
      rcases List.mem_cons.mp hmem with rfl | hmem
      · exact ht
      · exact hall charge hmem

theorem settle_rows (h : ex.settle rows t = .ok (settled, t')) : settled.map (·.1) = rows :=
  (settle_spec (P := fun _ => True) (fun _ _ _ => trivial) h trivial).1

/-- The first of them finds the state they start from. -/
theorem settle_head (h : ex.settle rows t = .ok (settled, t')) (hrow : rows.head? = some row) :
    (row, t) ∈ settled := by
  obtain ⟨rest, rfl⟩ := List.head?_eq_some_iff.mp hrow
  obtain ⟨u, rest, -, -, rfl⟩ := settle_cons.mp h
  exact List.mem_cons_self

end Settle

/-! ### The queue -/

/-- The settlements `run` fetches. -/
def fetched (engine : BacktestEngine ε S ω) : List FundingSettlementRow :=
  engine.db.getSettlements (ceilFundingSettlementTime engine.startTime)
    (floorFundingSettlementTime engine.endTime)

/-- The settlements applied, in turn. -/
def applied (steps : List LoopStep) : List FundingSettlementRow :=
  steps.flatMap fun step => step.settled.map (·.1)

@[simp] theorem applied_nil : applied [] = [] := rfl

@[simp] theorem applied_concat :
    applied (steps ++ [step]) = applied steps ++ step.settled.map (·.1) := by
  simp [applied]

/-- The end of the minute a turn replays. -/
def minuteEnd (step : LoopStep) : ℤ := step.candle.time + Duration.seconds 59

/-- The time cursor of the first call of the operator. -/
def firstCursor (first : FirstBuffer) : ℤ := first.startCandle.time + Duration.seconds 59

theorem mem_fetched {row : FundingSettlementRow} :
    row ∈ fetched engine ↔ row ∈ engine.db.fundingSettlements ∧
      ceilFundingSettlementTime engine.startTime ≤ row.time ∧
      row.time ≤ floorFundingSettlementTime engine.endTime := by
  simp [fetched, Database.getSettlements]

theorem fetched_ascending (engine : BacktestEngine ε S ω) :
    Ascending (fun row : FundingSettlementRow => row.time) (fetched engine) :=
  Ascending.filter _ engine.db.settlementsAscending

/-- What a turn takes from the queue and what it leaves. -/
theorem turn_queue {reported charged : SimulatedTradeExecutorState} {replay : Replay}
    (h : RunFollows engine first steps s)
    (hst : Stages engine sdk newV4 s step s' reported charged replay) :
    s'.replay.timeCursor = minuteEnd step ∧ s.replay.timeCursor < minuteEnd step ∧
      step.settled.map (·.1) =
        s.replay.settlements.takeWhile (fun row => row.time ≤ minuteEnd step) ∧
      s'.replay.settlements =
        s.replay.settlements.dropWhile (fun row => row.time ≤ minuteEnd step) := by
  obtain ⟨hnext, hadv, hfollows, hdrop⟩ := turn_follows h hst
  have hcursor := hfollows.cursor
  rw [newestCandle_concat] at hcursor
  have hlt := h.cursor_le hnext.mem hnext.lt
  have hkeep : s.replay.afterReport.settlements = s.replay.settlements := by
    unfold Replay.afterReport
    split_ifs <;> rfl
  refine ⟨hcursor, ?_, ?_, hdrop⟩
  · unfold minuteEnd Duration.seconds
    omega
  · rw [settle_rows hst.settle, Replay.dueSettlements, hadv.settlements, hadv.cursor, hkeep]
    rfl

/-- The queue after a run: what was applied is reached and what is left is not. -/
structure Drains (engine : BacktestEngine ε S ω) (first : FirstBuffer) (steps : List LoopStep)
    (s : BacktestState ε S ω) : Prop where
  queue : applied steps ++ s.replay.settlements = fetched engine
  reached : ∀ row ∈ applied steps, row.time ≤ s.replay.timeCursor
  rest : steps ≠ [] → ∀ row ∈ s.replay.settlements, s.replay.timeCursor < row.time
  cursor : steps = [] → s.replay.timeCursor = firstCursor first
  later : ∀ step ∈ steps,
    step.timeCursor < s.replay.timeCursor ∧ minuteEnd step ≤ s.replay.timeCursor
  /-- A settlement is applied by the first turn that reaches it. -/
  firstAt : ∀ row ∈ fetched engine, firstCursor first < row.time →
    row.time ≤ s.replay.timeCursor →
      ∃ step, steps.find? (fun step => row.time ≤ minuteEnd step) = some step ∧
        row ∈ step.settled.map (·.1)

theorem starts_drains (h : Starts engine sdk newV4 first s) : Drains engine first [] s := by
  obtain ⟨hfollows, hstarted⟩ := starts_follows h
  have hcursor : s.replay.timeCursor = firstCursor first := hfollows.cursor
  refine ⟨?_, by simp, by simp, fun _ => hcursor, by simp, ?_⟩
  · exact hstarted.settlements
  · intro row _ hlt hle
    rw [hcursor] at hle
    exact absurd hlt hle.not_gt

theorem Drains.turn {reported charged : SimulatedTradeExecutorState} {replay : Replay}
    (hd : Drains engine first steps s) (h : RunFollows engine first steps s)
    (hst : Stages engine sdk newV4 s step s' reported charged replay) :
    Drains engine first (steps ++ [step]) s' := by
  obtain ⟨hcursor, hlt, htake, hdrop⟩ := turn_queue h hst
  have hqueue : applied (steps ++ [step]) ++ s'.replay.settlements = fetched engine := by
    rw [applied_concat, htake, hdrop, List.append_assoc, List.takeWhile_append_dropWhile, hd.queue]
  have hrest : Ascending (fun row : FundingSettlementRow => row.time) s.replay.settlements :=
    (hd.queue ▸ fetched_ascending engine).sublist (List.sublist_append_right _ _)
  refine ⟨hqueue, ?_, ?_, by simp, ?_, ?_⟩
  · intro row hrow
    rw [applied_concat, htake, List.mem_append] at hrow
    rw [hcursor]
    rcases hrow with hrow | hrow
    · exact (hd.reached row hrow).trans hlt.le
    · simpa using List.mem_takeWhile_imp hrow
  · intro _ row hrow
    rw [hdrop] at hrow
    rw [hcursor]
    exact hrest.lt_of_mem_dropWhile hrow
  · intro st hst'
    rw [hcursor]
    rcases List.mem_append.mp hst' with hst' | hst'
    · obtain ⟨h1, h2⟩ := hd.later st hst'
      exact ⟨h1.trans hlt, h2.trans hlt.le⟩
    · obtain rfl := List.mem_singleton.mp hst'
      exact ⟨hst.timeCursor ▸ hlt, le_rfl⟩
  · intro row hrow hfirst hle
    rw [hcursor] at hle
    rcases le_or_gt row.time s.replay.timeCursor with hold | hnew
    · obtain ⟨st, hfind, hmem⟩ := hd.firstAt row hrow hfirst hold
      exact ⟨st, by simp [List.find?_append, hfind], hmem⟩
    · refine ⟨step, ?_, ?_⟩
      · have hnone : steps.find? (fun st => row.time ≤ minuteEnd st) = none := by
          rw [List.find?_eq_none]
          intro st hst'
          have := (hd.later st hst').2
          simp only [decide_eq_true_eq]
          omega
        simp [List.find?_append, hnone, hle]
      · have hin : row ∈ applied (steps ++ [step]) ++ s'.replay.settlements := hqueue ▸ hrow
        rw [applied_concat, hdrop, List.append_assoc, List.mem_append, List.mem_append] at hin
        rcases hin with hin | hin | hin
        · exact absurd (hd.reached row hin) hnew.not_ge
        · exact hin
        · exact absurd (hrest.lt_of_mem_dropWhile hin) hle.not_gt

/-! ### Positions -/

/-- The cursor of the last iterate that changed the cross exposure. -/
def crossTradedAt (steps : List LoopStep) : Option ℤ :=
  ((steps.filter fun step => step.iterated.crossPosition.exposure ≠
    step.found.crossPosition.exposure).getLast?).map (·.timeCursor)

theorem crossTradedAt_concat
    (h : step.iterated.crossPosition.exposure ≠ step.found.crossPosition.exposure) :
    crossTradedAt (steps ++ [step]) = some step.timeCursor := by
  simp [crossTradedAt, List.filter_append, h]

theorem crossTradedAt_concat_same (h : step.iterated.crossPosition.exposure =
    step.found.crossPosition.exposure) :
    crossTradedAt (steps ++ [step]) = crossTradedAt steps := by
  simp [crossTradedAt, List.filter_append, h]

theorem crossTradedAt_mem {c : ℤ} (h : crossTradedAt steps = some c) :
    ∃ step ∈ steps, step.timeCursor = c := by
  simp only [crossTradedAt, Option.map_eq_some_iff] at h
  obtain ⟨step, hlast, rfl⟩ := h
  exact ⟨step, (List.mem_filter.mp (List.mem_of_getLast? hlast)).1, rfl⟩

theorem report_positions {ex : SimulatedTradeExecutor ε} {reportTime : Option ℤ}
    {t t' : SimulatedTradeExecutorState} {report : Option TradingState}
    (h : (ex.report reportTime t : Except (BacktestError ε) _) = .ok (report, t')) :
    t'.runningMap = t.runningMap ∧ t'.crossPosition = t.crossPosition := by
  cases reportTime with
  | none =>
      cases h
      exact ⟨rfl, rfl⟩
  | some time =>
      simp only [SimulatedTradeExecutor.report, bind_eq_ok, check_eq_ok, pure_eq_ok,
        Prod.mk.injEq] at h
      obtain ⟨u, hu, -, rfl⟩ := h
      unfold updateTime at hu
      split_ifs at hu
      · cases hu
      · cases hu
        exact ⟨rfl, rfl⟩

section Stages

variable {reported charged : SimulatedTradeExecutorState} {replay : Replay}

/-- What a report, settlements and candles keep of the positions holds when a settlement is
applied and after the turn. -/
theorem Stages.keeps {P : SimulatedTradeExecutorState → Prop}
    (hst : Stages engine sdk newV4 s step s' reported charged replay)
    (hsame : ∀ t t', t'.runningMap = t.runningMap → t'.crossPosition = t.crossPosition →
      P t → P t')
    (hsettle : ∀ row t, P t → P ((engine.executor sdk newV4).applyFundingSettlement t row).1)
    (hcandle : ∀ c t, P t → P ((engine.executor sdk newV4).candleUpdate t c).1)
    (h : P step.iterated) :
    P reported ∧ (∀ charge ∈ step.settled, P charge.2) ∧ P s'.executor := by
  obtain ⟨hmap, hcross⟩ := report_positions hst.report
  have hrep : P reported := hsame _ _ hmap hcross h
  obtain ⟨-, hall, hlast⟩ := settle_spec hsettle hst.settle hrep
  have hend := hcandle step.candle charged hlast
  rw [check_eq_ok.mp hst.candle, ← hst.updated] at hend
  exact ⟨hrep, hall, hend⟩

theorem Stages.entered {Q : ℤ → Prop}
    (hst : Stages engine sdk newV4 s step s' reported charged replay)
    (h : EnteredAt Q step.iterated) :
    EnteredAt Q reported ∧ (∀ charge ∈ step.settled, EnteredAt Q charge.2) ∧
      EnteredAt Q s'.executor :=
  hst.keeps (fun _ _ hmap _ ht => ht.of_map hmap)
    (fun row t ht => ht.step (applyFundingSettlement_effect row) (by simp))
    (fun c t ht => ht.step (candleUpdate_effect c) (by simp)) h

theorem Stages.neutral (hst : Stages engine sdk newV4 s step s' reported charged replay)
    (h : step.iterated.crossPosition.exposure = .neutral) :
    reported.crossPosition.exposure = .neutral ∧
      (∀ charge ∈ step.settled, charge.2.crossPosition.exposure = .neutral) ∧
      s'.executor.crossPosition.exposure = .neutral :=
  hst.keeps (P := fun t => t.crossPosition.exposure = .neutral)
    (fun _ _ _ hcross ht => by rw [hcross, ht]) (fun row _ ht => settlement_neutral row ht)
    (fun c _ ht => candleUpdate_neutral c ht) h

/-- Trades opened by an iterate are entered at the executor's time. -/
theorem Stages.iterated_entered {Q : ℤ → Prop}
    (hst : Stages engine sdk newV4 s step s' reported charged replay)
    (h : EnteredAt Q s.executor) (hq : Q s.executor.time) : EnteredAt Q step.iterated := by
  refine (iterate_invariant (P := fun t => EnteredAt Q t ∧ t.time = s.executor.time) ?_
    hst.iterate ⟨h, rfl⟩).1
  rintro c t ⟨ht, htime⟩
  refine ⟨ht.step (call_effect c) fun _ _ => htime ▸ hq, ?_⟩
  rw [(call_clock c).time, htime]

end Stages

/-- The positions after a run: none is entered after the cursor, and a cross exposure was
opened by an iterate. -/
structure Opened (steps : List LoopStep) (s : BacktestState ε S ω) : Prop where
  time : s.executor.time ≤ s.replay.timeCursor
  entered : EnteredAt (· ≤ s.replay.timeCursor) s.executor
  cross : s.executor.crossPosition.exposure ≠ .neutral → ∃ c, crossTradedAt steps = some c

theorem starts_opened (h : Starts engine sdk newV4 first s) : Opened [] s := by
  have hcursor : s.replay.timeCursor = firstCursor first := (starts_follows h).1.cursor
  refine ⟨?_, ?_, ?_⟩
  · rw [(start_clock h).1, hcursor]
    unfold firstCursor Duration.seconds
    omega
  · rw [h.executor]
    exact enteredAt_new
  · intro hne
    rw [h.executor] at hne
    exact absurd rfl hne

section Turn

variable {reported charged : SimulatedTradeExecutorState} {replay : Replay}

/-- The exposure an iterate leaves was opened by it or by an earlier one. -/
theorem Opened.iterated (ho : Opened steps s)
    (hst : Stages engine sdk newV4 s step s' reported charged replay)
    (hne : step.iterated.crossPosition.exposure ≠ .neutral) :
    ∃ c, crossTradedAt (steps ++ [step]) = some c := by
  by_cases hsame : step.iterated.crossPosition.exposure = step.found.crossPosition.exposure
  · rw [crossTradedAt_concat_same hsame]
    rw [hsame, hst.found] at hne
    exact ho.cross hne
  · exact ⟨_, crossTradedAt_concat hsame⟩

theorem Opened.turn (ho : Opened steps s) (h : RunFollows engine first steps s)
    (hst : Stages engine sdk newV4 s step s' reported charged replay) :
    Opened (steps ++ [step]) s' := by
  obtain ⟨hcursor, hlt, -, -⟩ := turn_queue h hst
  refine ⟨?_, ?_, ?_⟩
  · rw [hst.updated, (replayCandle_clock hst.candle).1, hcursor]
    exact le_rfl
  · refine (hst.entered (hst.iterated_entered ho.entered ho.time)).2.2.imp ?_
    intro t ht
    rw [hcursor]
    exact ht.trans hlt.le
  · intro hne
    exact ho.iterated hst fun hneutral => hne (hst.neutral hneutral).2.2

end Turn

/-- The first buffer, the queue and the positions after a run. -/
theorem run_funded (h : (system engine sdk newV4).Run steps s) :
    ∃ first, StartsAt engine.db engine.config.bufferSize engine.lookbacks.maxLookback
      engine.startTime first ∧ RunFollows engine first steps s ∧ Drains engine first steps s ∧
      Opened steps s := by
  induction h with
  | start hs =>
      obtain ⟨first, hstart⟩ := start_spec hs
      exact ⟨first, hstart.startsAt, (starts_follows hstart).1, starts_drains hstart,
        starts_opened hstart⟩
  | step _ hs ih =>
      obtain ⟨first, hfirst, hfollows, hdrains, hopened⟩ := ih
      obtain ⟨reported, charged, replay, hst⟩ := turn_next_iff.mp hs
      exact ⟨first, hfirst, (turn_follows hfollows hst).2.2.1, hdrains.turn hfollows hst,
        hopened.turn hfollows hst⟩

/-- The start candle depends on the table and the start time alone. -/
theorem startsAt_unique {db : Database} {bufferSize bufferSize' : ℕ}
    {maxLookback maxLookback' : Option Lookback} {startTime : ℤ} {first' : FirstBuffer}
    (h : StartsAt db bufferSize maxLookback startTime first)
    (h' : StartsAt db bufferSize' maxLookback' startTime first') :
    first.startCandle = first'.startCandle := by
  have hle := h.least _ h'.mem h'.start_le
  have hge := h'.least _ h.mem h.start_le
  exact (candleRows_ascending db).eq_of_key_eq h.mem h'.mem (le_antisymm hle hge)

/-- The turn `step` of a run, with the states around it. -/
theorem run_turn (hfirst : StartsAt engine.db engine.config.bufferSize engine.lookbacks.maxLookback
      engine.startTime first) (h : (system engine sdk newV4).Run steps s) {before : List LoopStep}
    (hpre : before ++ [step] <+: steps) :
    ∃ s₁ s₂ reported charged replay, Stages engine sdk newV4 s₁ step s₂ reported charged replay ∧
      RunFollows engine first before s₁ ∧ Drains engine first before s₁ ∧ Opened before s₁ := by
  obtain ⟨s₁, s₂, hrun, hstep⟩ := h.of_prefix hpre
  obtain ⟨reported, charged, replay, hst⟩ := turn_next_iff.mp hstep
  obtain ⟨first', hfirst', hfollows, hdrains, hopened⟩ := run_funded hrun
  have hsame := startsAt_unique hfirst' hfirst
  refine ⟨s₁, s₂, reported, charged, replay, hst, ?_, ?_, hopened⟩
  · rw [RunFollows, ← hsame]
    exact hfollows
  · have hcur : firstCursor first' = firstCursor first := by rw [firstCursor, firstCursor, hsame]
    exact ⟨hdrains.queue, hdrains.reached, hdrains.rest, hcur ▸ hdrains.cursor, hdrains.later,
      hcur ▸ hdrains.firstAt⟩

end Quantoxide.Engine
