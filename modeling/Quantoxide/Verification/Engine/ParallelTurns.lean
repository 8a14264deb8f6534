import Quantoxide.Model.ParallelEngine
import Quantoxide.Library.Runs

/-! # Turns of the parallel engine

Each stage of a turn acts on every operator by itself, so a turn is a turn of each of them. -/

namespace Quantoxide.Engine

open DateTime Result SimulatedTradeExecutor

variable {ε κ : Type} {S ω : κ → Type} {engine : BacktestParallelEngine ε S ω}
  {sdk : LnmSdk ε} {newV4 : String → ℕ → Uuid} {steps : List (ParallelStep ε S ω)}
  {step : ParallelStep ε S ω} {s s' : ParallelState ε S ω} {i : ℕ}

def parallelSystem (engine : BacktestParallelEngine ε S ω) (sdk : LnmSdk ε)
    (newV4 : String → ℕ → Uuid) : Runs.System (ParallelState ε S ω) (ParallelStep ε S ω) where
  start s := engine.start sdk newV4 = .ok s
  step s step s' := engine.turn sdk newV4 s = .ok (.next step s')

/-! ### The stages of a parallel turn -/

structure ParallelStages (engine : BacktestParallelEngine ε S ω) (sdk : LnmSdk ε)
    (newV4 : String → ℕ → Uuid) (s : ParallelState ε S ω) (step : ParallelStep ε S ω)
    (s' : ParallelState ε S ω) (reported : List (Option TradingState × RunningOperator ε S ω))
    (charged : List (Charged ε S ω)) (replay : Replay) : Prop where
  timeCursor : step.timeCursor = s.replay.timeCursor
  found : step.found = s.runningOperators
  iterate : s.runningOperators.mapM (fun o => o.iterate (engine.executor sdk newV4)
    s.replay.timeCursor s.replay.consolidator) = .ok step.iterated
  report : step.iterated.mapM (fun o => o.report (engine.executor sdk newV4)
    s.replay.dueReport) = .ok reported
  reports : step.reports = reported.map (·.1)
  goesOn : s.replay.afterReport.isLast engine.endTime = false
  advance : s.replay.afterReport.advance engine.db engine.config.bufferSize engine.endTime =
    (.ok (step.candle, replay) : Except (BacktestError ε) _)
  charge : replay.dueSettlements.foldlM (fun charged settlement =>
      charged.mapM (Charged.charge (engine.executor sdk newV4) settlement))
    (reported.map fun o => ([], o.2)) = .ok charged
  settled : step.settled = charged.map (·.1)
  candle : charged.mapM (fun o => o.2.replayCandle (engine.executor sdk newV4) step.candle) =
    .ok step.updated
  push : replay.push step.candle = (.ok s'.replay : Except (BacktestError ε) _)
  updated : s'.runningOperators = step.updated

theorem parallelTurn_next (h : engine.turn sdk newV4 s = .ok (.next step s')) :
    ∃ reported charged replay,
      ParallelStages engine sdk newV4 s step s' reported charged replay := by
  simp only [BacktestParallelEngine.turn, bind_eq_ok] at h
  obtain ⟨iterated, hit, reported, hrep, h⟩ := h
  split_ifs at h with hlast
  · cases h
  · simp only [bind_eq_ok, Prod.exists, pure_eq_ok, Turn.next.injEq] at h
    obtain ⟨candle, replay, hadv, charged, hcharge, updated, hcan, replay', hpush, rfl, rfl⟩ := h
    exact ⟨reported, charged, replay, rfl, rfl, hit, hrep, rfl, by simpa using hlast, hadv,
      hcharge, rfl, hcan, hpush, rfl⟩

/-- The last turn stops at its reports. -/
theorem parallelTurn_finished {reports : List (Option TradingState)}
    (h : engine.turn sdk newV4 s = .ok (.finished reports s')) :
    s.replay.afterReport.isLast engine.endTime = true ∧ ∃ iterated reported,
      s.runningOperators.mapM (fun o => o.iterate (engine.executor sdk newV4)
        s.replay.timeCursor s.replay.consolidator) = .ok iterated ∧
      iterated.mapM (fun o => o.report (engine.executor sdk newV4) s.replay.dueReport) =
        .ok reported ∧
      reports = reported.map (·.1) ∧ s'.runningOperators = reported.map (·.2) := by
  simp only [BacktestParallelEngine.turn, bind_eq_ok] at h
  obtain ⟨iterated, hit, reported, hrep, h⟩ := h
  split_ifs at h with hlast
  · simp only [pure_eq_ok, Turn.finished.injEq] at h
    obtain ⟨rfl, rfl⟩ := h
    exact ⟨hlast, iterated, reported, hit, hrep, rfl, rfl⟩
  · simp only [bind_eq_ok, pure_eq_ok, reduceCtorEq, and_false, exists_false] at h

/-- The first two stages are those of each operator. -/
theorem operator_reported {iterated : List (RunningOperator ε S ω)}
    {reported : List (Option TradingState × RunningOperator ε S ω)}
    (hiterate : s.runningOperators.mapM (fun o => o.iterate (engine.executor sdk newV4)
      s.replay.timeCursor s.replay.consolidator) = .ok iterated)
    (hreport : iterated.mapM (fun o => o.report (engine.executor sdk newV4) s.replay.dueReport) =
      .ok reported) {name : String} {kind : κ} {running : OperatorRunning ε (S kind) (ω kind)}
    {t : SimulatedTradeExecutorState}
    (ho : s.runningOperators[i]? = some ⟨name, ⟨kind, running⟩, t⟩) :
    ∃ running' t₁ report t₂, running.iterate (engine.executor sdk newV4 name) s.replay.timeCursor
        s.replay.consolidator t = .ok (running', t₁) ∧
      (engine.executor sdk newV4 name).report s.replay.dueReport t₁ = .ok (report, t₂) ∧
      iterated[i]? = some ⟨name, ⟨kind, running'⟩, t₁⟩ ∧
      reported[i]? = some (report, ⟨name, ⟨kind, running'⟩, t₂⟩) := by
  obtain ⟨o₁, ho₁, hit⟩ := mapM_getElem hiterate ho
  simp only [RunningOperator.iterate, bind_eq_ok, mapError_eq_ok, pure_eq_ok, Prod.exists] at hit
  obtain ⟨running', t₁, hit, rfl⟩ := hit
  obtain ⟨⟨report, o₂⟩, ho₂, hrep⟩ := mapM_getElem hreport ho₁
  simp only [RunningOperator.report, bind_eq_ok, pure_eq_ok, Prod.exists, Prod.mk.injEq] at hrep
  obtain ⟨report, t₂, hrep, rfl, rfl⟩ := hrep
  exact ⟨running', t₁, report, t₂, hit, hrep, ho₁, ho₂⟩

/-- Charging an operator charges its executor and leaves the rest of it. -/
theorem foldlM_charged {ex : String → SimulatedTradeExecutor ε}
    {rows : List FundingSettlementRow} {c c' : Charged ε S ω}
    (h : rows.foldlM (fun c row => Charged.charge ex row c) c = .ok c') :
    ∃ t, rows.foldlM (fun acc row => (ex c.2.name).charge row acc) (c.1, c.2.executor) =
      .ok (c'.1, t) ∧ c'.2 = { c.2 with executor := t } := by
  induction rows generalizing c with
  | nil =>
      simp only [List.foldlM_nil, pure_eq_ok] at h
      subst h
      exact ⟨c.2.executor, rfl, rfl⟩
  | cons row rows ih =>
      simp only [List.foldlM_cons, bind_eq_ok, Charged.charge, pure_eq_ok] at h ⊢
      obtain ⟨_, ⟨acc, hacc, rfl⟩, h⟩ := h
      obtain ⟨t, hfold, heq⟩ := ih h
      exact ⟨t, ⟨acc, hacc, hfold⟩, heq⟩

/-- A turn as the executor of the `i`-th operator sees it. -/
structure Seen (i : ℕ) (step : ParallelStep ε S ω) (seen : LoopStep) : Prop where
  timeCursor : step.timeCursor = seen.timeCursor
  found : step.found[i]?.map (·.executor) = some seen.found
  iterated : step.iterated[i]?.map (·.executor) = some seen.iterated
  report : step.reports[i]? = some seen.report
  settled : step.settled[i]? = some seen.settled
  candle : step.candle = seen.candle
  updated : step.updated[i]?.map (·.executor) = some seen.updated

/-- What the stages of a turn do to one operator. -/
structure OperatorStages {S ω : Type} (ex : SimulatedTradeExecutor ε) (r replay : Replay)
    (running running' : OperatorRunning ε S ω) (seen : LoopStep)
    (reported charged : SimulatedTradeExecutorState) : Prop where
  iterate : running.iterate ex r.timeCursor r.consolidator seen.found =
    .ok (running', seen.iterated)
  report : ex.report r.dueReport seen.iterated = .ok (seen.report, reported)
  settle : ex.settle replay.dueSettlements reported = .ok (seen.settled, charged)
  candle : ex.replayCandle seen.candle charged = .ok seen.updated

theorem operator_stages {reported : List (Option TradingState × RunningOperator ε S ω)}
    {charged : List (Charged ε S ω)} {replay : Replay}
    (h : ParallelStages engine sdk newV4 s step s' reported charged replay) {name : String}
    {kind : κ} {running : OperatorRunning ε (S kind) (ω kind)} {t : SimulatedTradeExecutorState}
    (ho : s.runningOperators[i]? = some ⟨name, ⟨kind, running⟩, t⟩) :
    ∃ running' seen t₂ t₃, OperatorStages (engine.executor sdk newV4 name) s.replay replay
        running running' seen t₂ t₃ ∧ seen.found = t ∧ Seen i step seen ∧
      s'.runningOperators[i]? = some ⟨name, ⟨kind, running'⟩, seen.updated⟩ := by
  obtain ⟨running', t₁, report, t₂, hit, hrep, ho₁, ho₂⟩ :=
    operator_reported h.iterate h.report ho
  have hfresh : (reported.map fun o => (([], o.2) : Charged ε S ω))[i]? =
      some ([], ⟨name, ⟨kind, running'⟩, t₂⟩) := by
    rw [List.getElem?_map, ho₂]
    rfl
  obtain ⟨⟨settled, o₃⟩, ho₃, hcharge⟩ := foldlM_mapM_getElem h.charge hfresh
  obtain ⟨t₃, hsettle, heq⟩ := foldlM_charged hcharge
  obtain rfl : o₃ = ⟨name, ⟨kind, running'⟩, t₃⟩ := heq
  obtain ⟨o₄, ho₄, hcan⟩ := mapM_getElem h.candle ho₃
  simp only [RunningOperator.replayCandle, bind_eq_ok, pure_eq_ok] at hcan
  obtain ⟨t₄, hcan, rfl⟩ := hcan
  refine ⟨running', ⟨step.timeCursor, t, t₁, report, settled, step.candle, t₄⟩, t₂, t₃,
    ⟨hit, hrep, hsettle, hcan⟩, rfl, ⟨rfl, ?_, ?_, ?_, ?_, rfl, ?_⟩, by rw [h.updated, ho₄]⟩
  · rw [h.found, ho]
    rfl
  · rw [ho₁]
    rfl
  · rw [h.reports, List.getElem?_map, ho₂]
    rfl
  · rw [h.settled, List.getElem?_map, ho₃]
    rfl
  · rw [ho₄]
    rfl

end Quantoxide.Engine
