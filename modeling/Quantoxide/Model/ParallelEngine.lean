import Quantoxide.Model.Engine

/-! # The parallel backtest engine

Named operators share one replay, each with an executor of its own. Signal and memory
types may differ between operators: `S` and `ω` give them for each kind `κ`. -/

namespace Quantoxide

open DateTime

variable {ε κ : Type} {S ω : κ → Type}

/-- A pending operator whose types are erased. -/
structure ParallelOperatorPending (ε : Type) {κ : Type} (S ω : κ → Type) where
  kind : κ
  pending : OperatorPending ε (S kind) (ω kind)

structure ParallelOperatorRunning (ε : Type) {κ : Type} (S ω : κ → Type) where
  kind : κ
  running : OperatorRunning ε (S kind) (ω kind)

/-! ### Shared lookbacks -/

namespace Lookbacks

def mergeResolutionMap (shared operatorMap : OrdMap OhlcResolution Period) :
    OrdMap OhlcResolution Period :=
  operatorMap.entries.foldl (fun shared entry => notePeriod shared entry.1 entry.2) shared

def updateMaxLookback (maxLookback lookback : Option Lookback) : Option Lookback :=
  match lookback with
  | some lb => longerLookback maxLookback lb
  | none => maxLookback

def merge (shared lookbacks : Lookbacks) : Lookbacks where
  resolutionToMaxPeriod :=
    mergeResolutionMap shared.resolutionToMaxPeriod lookbacks.resolutionToMaxPeriod
  maxLookback := updateMaxLookback shared.maxLookback lookbacks.maxLookback

end Lookbacks

/-! ### The engine -/

/-- The operators added so far, with their lookbacks merged in the order they were added. -/
structure BacktestParallelEngine (ε : Type) {κ : Type} (S ω : κ → Type) where
  config : BacktestConfig
  db : Database
  operators : List (String × ParallelOperatorPending ε S ω)
  shared : Lookbacks
  startTime : ℤ
  endTime : ℤ
  startBalance : ℕ
  period : (checkPeriod startTime endTime : Except (BacktestError ε) Unit) = .ok ()
  settlements : (checkSettlements db startTime endTime : Except (BacktestError ε) Unit) = .ok ()
  merged : shared = operators.foldl (fun shared op => shared.merge op.2.pending.lookbacks) .empty
  named : ∀ op ∈ operators, op.1 ≠ ""
  distinct : (operators.map (·.1)).Nodup

/-- An operator of `run` with its executor. -/
structure RunningOperator (ε : Type) {κ : Type} (S ω : κ → Type) where
  name : String
  operator : ParallelOperatorRunning ε S ω
  executor : SimulatedTradeExecutorState

structure ParallelState (ε : Type) {κ : Type} (S ω : κ → Type) where
  replay : Replay
  runningOperators : List (RunningOperator ε S ω)

/-- A turn of the loop, with what each stage left of each operator. -/
structure ParallelStep (ε : Type) {κ : Type} (S ω : κ → Type) where
  timeCursor : ℤ
  found : List (RunningOperator ε S ω)
  iterated : List (RunningOperator ε S ω)
  reports : List (Option TradingState)
  settled : List (List (FundingSettlementRow × SimulatedTradeExecutorState))
  candle : OhlcCandleRow
  updated : List (RunningOperator ε S ω)

namespace RunningOperator

variable (ex : String → SimulatedTradeExecutor ε) (o : RunningOperator ε S ω)

def iterate (timeCursor : ℤ) (consolidator : Option MultiResolutionConsolidator) :
    Except (BacktestError ε) (RunningOperator ε S ω) := do
  let (running, executor) ←
    (o.operator.running.iterate (ex o.name) timeCursor consolidator o.executor).mapError
      (.parallelOperatorFailed o.name)
  pure ⟨o.name, ⟨o.operator.kind, running⟩, executor⟩

def report (reportTime : Option ℤ) :
    Except (BacktestError ε) (Option TradingState × RunningOperator ε S ω) := do
  let (report, executor) ← (ex o.name).report reportTime o.executor
  pure (report, { o with executor })

def replayCandle (candle : OhlcCandleRow) : Except (BacktestError ε) (RunningOperator ε S ω) := do
  let executor ← (ex o.name).replayCandle candle o.executor
  pure { o with executor }

end RunningOperator

/-- The settlements an operator has been charged in this turn, and the operator. -/
abbrev Charged (ε : Type) {κ : Type} (S ω : κ → Type) :=
  List (FundingSettlementRow × SimulatedTradeExecutorState) × RunningOperator ε S ω

def Charged.charge (ex : String → SimulatedTradeExecutor ε) (settlement : FundingSettlementRow)
    (o : Charged ε S ω) : Except (BacktestError ε) (Charged ε S ω) := do
  let (settled, executor) ← (ex o.2.name).charge settlement (o.1, o.2.executor)
  pure (settled, { o.2 with executor })

namespace BacktestParallelEngine

def new (config : BacktestConfig) (db : Database) (startTime endTime : ℤ) (startBalance : ℕ) :
    Except (BacktestError ε) (BacktestParallelEngine ε S ω) :=
  match hp : (checkPeriod startTime endTime : Except (BacktestError ε) Unit) with
  | .error e => .error e
  | .ok () =>
    match hs : (checkSettlements db startTime endTime : Except (BacktestError ε) Unit) with
    | .error e => .error e
    | .ok () =>
      .ok ⟨config, db, [], .empty, startTime, endTime, startBalance, hp, hs, rfl, by simp, by simp⟩

variable (engine : BacktestParallelEngine ε S ω)

/-- `validate_name`, then the operator's pending state, then both merges. -/
def addOperator (name : String)
    (pending : Except (BacktestError ε) (ParallelOperatorPending ε S ω)) :
    Except (BacktestError ε) (BacktestParallelEngine ε S ω) :=
  if hn : name = "" then .error .parallelEmptyOperatorName
  else if hd : name ∈ engine.operators.map (·.1) then
    .error (.parallelDuplicateOperatorName name)
  else
    match pending with
    | .error e => .error e
    | .ok pending =>
      .ok { engine with
        operators := engine.operators ++ [(name, pending)]
        shared := engine.shared.merge pending.pending.lookbacks
        merged := by
          rw [engine.merged, List.foldl_append]
          rfl
        named := by
          simpa [or_imp, forall_and] using ⟨fun a b h => engine.named (a, b) h, hn⟩
        distinct := by
          rw [List.map_append, List.nodup_append]
          refine ⟨engine.distinct, by simp, ?_⟩
          intro a ha b hb
          obtain rfl : b = name := by simpa using hb
          exact fun hab => hd (hab ▸ ha) }

def addRawOperator (name : String) (kind : κ) (operator : RawOperator ε (ω kind))
    (memory : ω kind) : Except (BacktestError ε) (BacktestParallelEngine ε S ω) :=
  engine.addOperator name
    ((RawOperatorPending.new operator memory).map fun pending => ⟨kind, .raw pending⟩)

def addSignalOperator (name : String) (kind : κ)
    (evaluators : List (SignalEvaluator (S kind) (ω kind)))
    (operator : SignalOperator ε (S kind) (ω kind)) (memory : ω kind) :
    Except (BacktestError ε) (BacktestParallelEngine ε S ω) :=
  engine.addOperator name
    ((SignalOperatorPending.new evaluators operator memory).map fun pending =>
      ⟨kind, .signal pending⟩)

variable (sdk : LnmSdk ε) (newV4 : String → ℕ → Uuid)

def executor (name : String) : SimulatedTradeExecutor ε :=
  ⟨engine.config.executorConfig, sdk, newV4 name⟩

def startOperator (startCandle : OhlcCandleRow) (op : String × ParallelOperatorPending ε S ω) :
    Except (BacktestError ε) (RunningOperator ε S ω) := do
  let running ← (OperatorRunning.start op.2.pending engine.startTime).mapError
    (.parallelOperatorFailed op.1)
  pure ⟨op.1, ⟨op.2.kind, running⟩,
    (engine.executor sdk newV4 op.1).new startCandle engine.startBalance⟩

/-- `run` up to its loop. -/
def start : Except (BacktestError ε) (ParallelState ε S ω) :=
  if engine.operators.isEmpty then .error .parallelNoOperators
  else do
    checkHistory engine.db engine.shared.maxLookback engine.startTime engine.endTime
    let first ← firstBuffer engine.db engine.config.bufferSize engine.shared.maxLookback
      engine.startTime
    let runningOperators ←
      engine.operators.mapM (engine.startOperator sdk newV4 first.startCandle)
    let replay ← Replay.new engine.db first engine.shared.resolutionToMaxPeriod
      engine.startTime engine.endTime
    pure ⟨replay, runningOperators⟩

/-- The loop body of `run`. -/
def turn (s : ParallelState ε S ω) :
    Except (BacktestError ε)
      (Turn (ParallelStep ε S ω) (List (Option TradingState)) (ParallelState ε S ω)) := do
  let ex := engine.executor sdk newV4
  let iterated ← s.runningOperators.mapM fun o =>
    o.iterate ex s.replay.timeCursor s.replay.consolidator
  let reported ← iterated.mapM fun o => o.report ex s.replay.dueReport
  let replay := s.replay.afterReport
  if replay.isLast engine.endTime then
    pure (.finished (reported.map (·.1)) ⟨replay, reported.map (·.2)⟩)
  else
    let (candle, replay) ← replay.advance engine.db engine.config.bufferSize engine.endTime
    let charged ← replay.dueSettlements.foldlM
      (fun charged settlement => charged.mapM (Charged.charge ex settlement))
      (reported.map fun o => ([], o.2))
    let updated ← charged.mapM fun o => o.2.replayCandle ex candle
    let replay ← replay.push candle
    let step := ⟨s.replay.timeCursor, s.runningOperators, iterated, reported.map (·.1),
      charged.map (·.1), candle, updated⟩
    pure (.next step ⟨replay, updated⟩)

end BacktestParallelEngine

end Quantoxide
