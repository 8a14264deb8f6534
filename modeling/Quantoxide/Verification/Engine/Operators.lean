import Quantoxide.Verification.Engine.Lookbacks

/-! # What an operator is given and what it can do

An iteration hands a slice to each evaluator that is due, or to the raw operator. It depends
on the consolidators through these slices alone, and changes the executor through calls. -/

namespace Quantoxide.Engine

open Result

variable {ε S ω : Type} {ex : SimulatedTradeExecutor ε}

/-! ### Calls -/

/-- What every call keeps, a program keeps. -/
theorem program_invariant {α : Type} {P : SimulatedTradeExecutorState → Prop}
    (hcall : ∀ (c : Call) s, P s → P (c.execute ex s).1) (program : Program ε α)
    {s : SimulatedTradeExecutorState} (h : P s) : P (program.run ex s).2 := by
  induction program generalizing s with
  | done result => exact h
  | call c next ih => exact ih _ (hcall c s h)

theorem evaluate_invariant {P : SimulatedTradeExecutorState → Prop}
    (hcall : ∀ (c : Call) s, P s → P (c.execute ex s).1) {op : SignalOperator ε S ω}
    {consolidator : Option MultiResolutionConsolidator} {ev : SignalEvaluator S ω}
    {memory memory' : ω} {s s' : SimulatedTradeExecutorState}
    (he : SignalOperatorRunning.evaluate ex op consolidator ev memory s = .ok (memory', s'))
    (h : P s) : P s' := by
  simp only [SignalOperatorRunning.evaluate, bind_eq_ok, mapError_eq_ok, pure_eq_ok,
    Prod.mk.injEq] at he
  obtain ⟨_, -, _, -, signal, -, _, -, -, rfl⟩ := he
  exact program_invariant hcall (op.processSignal signal _) h

/-- The first evaluator is skipped or evaluated, then the others follow. -/
theorem evaluateAll_cons {op : SignalOperator ε S ω} {timeCursor lastEval : ℤ}
    {consolidator : Option MultiResolutionConsolidator} {ev : SignalEvaluator S ω}
    {evaluators evaluators' : List (ℤ × SignalEvaluator S ω)} {memory memory' : ω}
    {s s' : SimulatedTradeExecutorState}
    (he : SignalOperatorRunning.evaluateAll ex op timeCursor consolidator
      ((lastEval, ev) :: evaluators) memory s = .ok (evaluators', memory', s')) :
    ∃ evaluated memory₁ s₁ rest, evaluators' = (evaluated, ev) :: rest ∧
      SignalOperatorRunning.evaluateAll ex op timeCursor consolidator evaluators memory₁ s₁ =
        .ok (rest, memory', s') ∧
      ((memory₁, s₁) = (memory, s) ∨
        SignalOperatorRunning.evaluate ex op consolidator ev memory s = .ok (memory₁, s₁)) := by
  simp only [SignalOperatorRunning.evaluateAll, bind_eq_ok] at he
  obtain ⟨interval, -, he⟩ := he
  split_ifs at he
  · simp only [bind_eq_ok, pure_eq_ok, Prod.exists, Prod.mk.injEq] at he
    obtain ⟨rest, _, _, hrest, rfl, rfl, rfl⟩ := he
    exact ⟨lastEval, memory, s, rest, rfl, hrest, Or.inl rfl⟩
  · simp only [bind_eq_ok, pure_eq_ok, Prod.exists, Prod.mk.injEq] at he
    obtain ⟨memory₁, s₁, heval, rest, _, _, hrest, rfl, rfl, rfl⟩ := he
    exact ⟨timeCursor, memory₁, s₁, rest, rfl, hrest, Or.inr heval⟩

theorem evaluateAll_invariant {P : SimulatedTradeExecutorState → Prop}
    (hcall : ∀ (c : Call) s, P s → P (c.execute ex s).1)
    {op : SignalOperator ε S ω} {timeCursor : ℤ} {consolidator : Option MultiResolutionConsolidator}
    {evaluators evaluators' : List (ℤ × SignalEvaluator S ω)} {memory memory' : ω}
    {s s' : SimulatedTradeExecutorState}
    (he : SignalOperatorRunning.evaluateAll ex op timeCursor consolidator evaluators memory s =
      .ok (evaluators', memory', s')) (h : P s) : P s' := by
  induction evaluators generalizing evaluators' memory memory' s with
  | nil =>
      simp only [SignalOperatorRunning.evaluateAll, Except.ok.injEq, Prod.mk.injEq] at he
      obtain ⟨-, -, rfl⟩ := he
      exact h
  | cons entry evaluators ih =>
      obtain ⟨_, memory₁, s₁, rest, -, hrest, hfirst⟩ := evaluateAll_cons he
      rcases hfirst with hskipped | heval
      · obtain ⟨rfl, rfl⟩ := Prod.mk.inj hskipped
        exact ih hrest h
      · exact ih hrest (evaluate_invariant hcall heval h)

theorem rawIterate_invariant {P : SimulatedTradeExecutorState → Prop}
    (hcall : ∀ (c : Call) s, P s → P (c.execute ex s).1) {running running' : RawOperatorRunning ε ω}
    {timeCursor : ℤ} {consolidator : Option MultiResolutionConsolidator}
    {s s' : SimulatedTradeExecutorState}
    (he : running.iterate ex timeCursor consolidator s = .ok (running', s')) (h : P s) : P s' := by
  simp only [RawOperatorRunning.iterate, bind_eq_ok] at he
  obtain ⟨interval, -, he⟩ := he
  split_ifs at he
  · simp only [bind_eq_ok, mapError_eq_ok, pure_eq_ok, Prod.mk.injEq] at he
    obtain ⟨_, -, candles, -, _, -, -, rfl⟩ := he
    exact program_invariant hcall (running.rawOperator.iterate candles running.memory) h
  · simp only [pure_eq_ok, Prod.mk.injEq] at he
    exact he.2 ▸ h

/-- What every call keeps, an iteration keeps. -/
theorem iterate_invariant {P : SimulatedTradeExecutorState → Prop}
    (hcall : ∀ (c : Call) s, P s → P (c.execute ex s).1) {running running' : OperatorRunning ε S ω}
    {timeCursor : ℤ} {consolidator : Option MultiResolutionConsolidator}
    {s s' : SimulatedTradeExecutorState}
    (he : running.iterate ex timeCursor consolidator s = .ok (running', s')) (h : P s) : P s' := by
  cases running with
  | signal running =>
      simp only [OperatorRunning.iterate, SignalOperatorRunning.iterate, exceptMap_eq_ok,
        bind_eq_ok, pure_eq_ok, Prod.exists, Prod.mk.injEq] at he
      obtain ⟨_, _, ⟨_, _, _, hall, -, rfl⟩, -, rfl⟩ := he
      exact evaluateAll_invariant hcall hall h
  | raw running =>
      simp only [OperatorRunning.iterate, exceptMap_eq_ok, Prod.exists,
        Prod.mk.injEq] at he
      obtain ⟨_, _, hraw, -, rfl⟩ := he
      exact rawIterate_invariant hcall hraw h

/-! ### What an iteration hands out -/

/-- The interval since the last evaluation has passed. -/
def isDue (timeCursor lastEval : ℤ) (interval : Except String MinIterationInterval) : Bool :=
  match interval with
  | .ok i => decide (¬ timeCursor < lastEval + i.asDuration)
  | .error _ => false

/-- The lookbacks of the evaluators that are due, in turn; that of a raw operator if it is. -/
def dueLookbacks (running : OperatorRunning ε S ω) (timeCursor : ℤ) : List (Option Lookback) :=
  match running with
  | .signal running =>
    (running.evaluators.filter fun entry =>
      isDue timeCursor entry.1 entry.2.minIterationInterval).map fun entry =>
        entry.2.lookback.toOption.join
  | .raw running =>
    if isDue timeCursor running.lastEval running.rawOperator.minIterationInterval then
      [running.rawOperator.lookback.toOption.join]
    else []

def slice (running : OperatorRunning ε S ω) (consolidator : Option MultiResolutionConsolidator)
    (lookback : Option Lookback) : Except (BacktestError ε) (List OhlcCandleRow) :=
  match running with
  | .signal _ => SignalOperatorRunning.evalCandles consolidator lookback
  | .raw _ => RawOperatorRunning.rawCandles consolidator lookback

/-- The slices handed out at the time cursor, each with the lookback it answers. -/
def handed (running : OperatorRunning ε S ω) (timeCursor : ℤ)
    (consolidator : Option MultiResolutionConsolidator) :
    List (Option Lookback × Except (BacktestError ε) (List OhlcCandleRow)) :=
  (dueLookbacks running timeCursor).map fun l => (l, slice running consolidator l)

variable {cons cons' : Option MultiResolutionConsolidator} {timeCursor : ℤ}
  {s : SimulatedTradeExecutorState}

theorem evaluate_congr {op : SignalOperator ε S ω} {ev : SignalEvaluator S ω} {memory : ω}
    (h : (SignalOperatorRunning.evalCandles cons ev.lookback.toOption.join :
        Except (BacktestError ε) _) =
      SignalOperatorRunning.evalCandles cons' ev.lookback.toOption.join) :
    SignalOperatorRunning.evaluate ex op cons ev memory s =
      SignalOperatorRunning.evaluate ex op cons' ev memory s := by
  unfold SignalOperatorRunning.evaluate WrappedSignalEvaluator.lookback
  cases hl : ev.lookback with
  | error e => rfl
  | ok lookback =>
      simp only [hl, Except.toOption, Option.join_some] at h
      simp only [mapError_ok, bind, Except.bind, h]

theorem evaluateAll_congr (op : SignalOperator ε S ω)
    {evaluators : List (ℤ × SignalEvaluator S ω)} (memory : ω) (s : SimulatedTradeExecutorState)
    (h : ∀ entry ∈ evaluators, isDue timeCursor entry.1 entry.2.minIterationInterval = true →
      (SignalOperatorRunning.evalCandles cons entry.2.lookback.toOption.join :
          Except (BacktestError ε) _) =
        SignalOperatorRunning.evalCandles cons' entry.2.lookback.toOption.join) :
    SignalOperatorRunning.evaluateAll ex op timeCursor cons evaluators memory s =
      SignalOperatorRunning.evaluateAll ex op timeCursor cons' evaluators memory s := by
  induction evaluators generalizing memory s with
  | nil => rfl
  | cons entry evaluators ih =>
      obtain ⟨lastEval, ev⟩ := entry
      have hrest := fun memory s => ih memory s
        fun entry he => h entry (List.mem_cons_of_mem _ he)
      unfold SignalOperatorRunning.evaluateAll WrappedSignalEvaluator.minIterationInterval
      cases hi : ev.minIterationInterval with
      | error e => rfl
      | ok i =>
          simp only [mapError_ok, bind, Except.bind, hrest]
          split_ifs with hnot
          · rfl
          · have hdue := h (lastEval, ev) List.mem_cons_self (by simp [isDue, hi, hnot])
            rw [evaluate_congr hdue]

/-- An iteration reads the consolidators only where it hands out a slice. -/
theorem iterate_congr {running : OperatorRunning ε S ω}
    (h : ∀ l ∈ dueLookbacks running timeCursor, slice running cons l = slice running cons' l) :
    running.iterate ex timeCursor cons s = running.iterate ex timeCursor cons' s := by
  cases running with
  | signal running =>
      have hall := @evaluateAll_congr ε S ω ex cons cons' timeCursor running.signalOperator
        running.evaluators running.memory s fun entry he hdue =>
          h _ (List.mem_map.mpr ⟨entry, List.mem_filter.mpr ⟨he, hdue⟩, rfl⟩)
      simp only [OperatorRunning.iterate, SignalOperatorRunning.iterate, hall]
  | raw running =>
      simp only [OperatorRunning.iterate, RawOperatorRunning.iterate,
        WrappedRawOperator.minIterationInterval, WrappedRawOperator.lookback]
      cases hi : running.rawOperator.minIterationInterval with
      | error e => rfl
      | ok i =>
          simp only [mapError_ok, bind, Except.bind]
          split_ifs with hge
          · cases hl : running.rawOperator.lookback with
            | error e => rfl
            | ok lookback =>
                have hdue : isDue timeCursor running.lastEval
                    running.rawOperator.minIterationInterval = true := by
                  simpa [isDue, hi] using hge
                have hsame := h lookback (by simp [dueLookbacks, hdue, hl, Except.toOption])
                simp only [slice] at hsame
                simp only [mapError_ok, hsame]
          · rfl

theorem handed_eq_iff {running : OperatorRunning ε S ω} :
    handed running timeCursor cons = handed running timeCursor cons' ↔
      ∀ l, some l ∈ dueLookbacks running timeCursor →
        slice running cons (some l) = slice running cons' (some l) := by
  rw [handed, handed, List.map_inj_left]
  constructor
  · intro h l hl
    exact (Prod.mk.inj (h _ hl)).2
  · intro h l hl
    cases l with
    | none => cases running <;> rfl
    | some l => rw [h l hl]

/-- What is handed out determines the iteration. -/
theorem iterate_of_handed {running : OperatorRunning ε S ω}
    (h : handed running timeCursor cons = handed running timeCursor cons') :
    running.iterate ex timeCursor cons s = running.iterate ex timeCursor cons' s := by
  rw [handed, handed, List.map_inj_left] at h
  exact iterate_congr fun l hl => (Prod.mk.inj (h l hl)).2

/-! ### The operator that was given -/

/-- A running operator is the pending one with its memory and clock. -/
def Runs (pending : OperatorPending ε S ω) (running : OperatorRunning ε S ω) : Prop :=
  match pending, running with
  | .signal p, .signal r =>
    r.evaluators.map (·.2) = p.evaluators ∧ r.signalOperator = p.signalOperator
  | .raw p, .raw r => r.rawOperator = p.rawOperator
  | _, _ => False

variable {pending : OperatorPending ε S ω} {running running' : OperatorRunning ε S ω}

theorem start_runs {startTime : ℤ} (h : OperatorRunning.start pending startTime = .ok running) :
    Runs pending running := by
  cases pending with
  | signal p =>
      simp only [OperatorRunning.start, exceptMap_eq_ok, SignalOperatorRunning.start, bind_eq_ok,
        mapError_eq_ok, pure_eq_ok] at h
      obtain ⟨_, ⟨_, -, rfl⟩, rfl⟩ := h
      exact ⟨by simp [Function.comp_def], rfl⟩
  | raw p =>
      simp only [OperatorRunning.start, exceptMap_eq_ok, RawOperatorRunning.start, bind_eq_ok,
        mapError_eq_ok, pure_eq_ok] at h
      obtain ⟨_, ⟨_, -, rfl⟩, rfl⟩ := h
      rfl

theorem evaluateAll_evaluators {op : SignalOperator ε S ω}
    {evaluators evaluators' : List (ℤ × SignalEvaluator S ω)} {memory memory' : ω}
    {s' : SimulatedTradeExecutorState}
    (he : SignalOperatorRunning.evaluateAll ex op timeCursor cons evaluators memory s =
      .ok (evaluators', memory', s')) : evaluators'.map (·.2) = evaluators.map (·.2) := by
  induction evaluators generalizing evaluators' memory memory' s s' with
  | nil =>
      simp only [SignalOperatorRunning.evaluateAll, Except.ok.injEq, Prod.mk.injEq] at he
      obtain ⟨rfl, -, -⟩ := he
      rfl
  | cons entry evaluators ih =>
      obtain ⟨_, _, _, rest, rfl, hrest, -⟩ := evaluateAll_cons he
      rw [List.map_cons, List.map_cons, ih hrest]

theorem iterate_runs {s' : SimulatedTradeExecutorState} (hr : Runs pending running)
    (h : running.iterate ex timeCursor cons s = .ok (running', s')) : Runs pending running' := by
  cases pending with
  | signal p =>
      cases running with
      | signal running =>
          simp only [OperatorRunning.iterate, SignalOperatorRunning.iterate, exceptMap_eq_ok,
            bind_eq_ok, pure_eq_ok, Prod.exists, Prod.mk.injEq] at h
          obtain ⟨_, _, ⟨_, _, _, hall, rfl, -⟩, rfl, -⟩ := h
          exact ⟨(evaluateAll_evaluators hall).trans hr.1, hr.2⟩
      | raw running => exact hr.elim
  | raw p =>
      cases running with
      | signal running => exact hr.elim
      | raw running =>
          simp only [OperatorRunning.iterate, RawOperatorRunning.iterate, exceptMap_eq_ok,
            bind_eq_ok, Prod.exists, Prod.mk.injEq] at h
          obtain ⟨_, _, ⟨_, -, h⟩, rfl, -⟩ := h
          split_ifs at h
          · simp only [bind_eq_ok, pure_eq_ok, Prod.mk.injEq] at h
            obtain ⟨_, -, _, -, _, -, rfl, -⟩ := h
            exact hr
          · simp only [pure_eq_ok, Prod.mk.injEq] at h
            obtain ⟨rfl, -⟩ := h
            exact hr

/-- The lookbacks that come due were asked for. -/
theorem due_asked (hr : Runs pending running) {l : Lookback}
    (hl : some l ∈ dueLookbacks running timeCursor) : l ∈ askedBy pending := by
  cases pending with
  | signal p =>
      cases running with
      | signal running =>
          obtain ⟨entry, he, hlook⟩ := List.mem_map.mp hl
          have hev : entry.2 ∈ p.evaluators := by
            rw [← hr.1]
            exact List.mem_map_of_mem (List.mem_filter.mp he).1
          exact List.mem_filterMap.mpr ⟨entry.2, hev, hlook⟩
      | raw running => exact hr.elim
  | raw p =>
      cases running with
      | signal running => exact hr.elim
      | raw running =>
          have hop : running.rawOperator = p.rawOperator := hr
          have hnoted := p.noted
          simp only [WrappedRawOperator.lookback, mapError_eq_ok] at hnoted
          simp only [dueLookbacks, hop, hnoted, Except.toOption, Option.join_some] at hl
          split_ifs at hl
          · simpa [askedBy, eq_comm] using hl
          · cases hl

end Quantoxide.Engine
