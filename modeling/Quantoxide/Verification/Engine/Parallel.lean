import Mathlib.Data.List.ReduceOption
import Quantoxide.Verification.Engine.ParallelTurns
import Quantoxide.Verification.Engine.Windows

/-! # An operator among others and alone

The turns of one operator are those of an engine of its own, as long as it is handed the
same slices. A signal operator always is; a raw operator is handed the whole shared buffer. -/

namespace Quantoxide.Engine

open DateTime Result Consolidator SimulatedTradeExecutor

variable {ε κ : Type} {S ω : κ → Type} {engine : BacktestParallelEngine ε S ω}
  {sdk : LnmSdk ε} {newV4 : String → ℕ → Uuid} {steps : List (ParallelStep ε S ω)}
  {step : ParallelStep ε S ω} {s s' : ParallelState ε S ω} {i : ℕ}

/-- An engine that runs one of the operators alone, over the same request. -/
structure Alone (engine : BacktestParallelEngine ε S ω) (op : ParallelOperatorPending ε S ω)
    (single : BacktestEngine ε (S op.kind) (ω op.kind)) : Prop where
  config : single.config = engine.config
  db : single.db = engine.db
  operatorPending : single.operatorPending = op.pending
  startTime : single.startTime = engine.startTime
  startBalance : single.startBalance = engine.startBalance
  endTime : single.endTime = engine.endTime

/-- What `Follows` says of a parallel run at its current candle. -/
abbrev ParallelFollows (engine : BacktestParallelEngine ε S ω) (fresh : Bool) (m : OhlcCandleRow)
    (r : Replay) : Prop :=
  Follows engine.db engine.shared.resolutionToMaxPeriod
    (bufferFrom engine.shared.maxLookback engine.startTime) fresh m r

/-- The `i`-th operator of a parallel run and the engine that runs it alone are at the same
point. -/
structure Agrees (engine : BacktestParallelEngine ε S ω) (i : ℕ) (name : String)
    (op : ParallelOperatorPending ε S ω) (single : BacktestEngine ε (S op.kind) (ω op.kind))
    (s : ParallelState ε S ω) (s₁ : BacktestState ε (S op.kind) (ω op.kind)) : Prop where
  follows : ∃ fresh m, engine.startTime ≤ m.time ∧ ParallelFollows engine fresh m s.replay ∧
    Follows single.db single.lookbacks.resolutionToMaxPeriod (historyFrom single) fresh m
      s₁.replay
  settlements : s₁.replay.settlements = s.replay.settlements
  sendNextUpdateAt : s₁.replay.sendNextUpdateAt = s.replay.sendNextUpdateAt
  operator : s.runningOperators[i]? = some ⟨name, ⟨op.kind, s₁.operator⟩, s₁.executor⟩
  runs : Runs op.pending s₁.operator

/-- A raw operator finds no more rows in the buffer of its resolution than it asked for. -/
def FitsLookback {S ω : Type} (running : OperatorRunning ε S ω)
    (consolidator : Option MultiResolutionConsolidator) (l : Lookback) : Prop :=
  match running with
  | .signal _ => True
  | .raw _ => ∀ rows, (ctxCandles consolidator l : Except (BacktestError ε) _) = .ok rows →
      rows.length ≤ l.period.asUsize

instance {S ω : Type} (running : OperatorRunning ε S ω)
    (consolidator : Option MultiResolutionConsolidator) (l : Lookback) :
    Decidable (FitsLookback running consolidator l) :=
  match running with
  | .signal _ => isTrue trivial
  | .raw _ =>
    match h : (ctxCandles consolidator l : Except (BacktestError ε) _) with
    | .ok rows => decidable_of_iff (rows.length ≤ l.period.asUsize) (by simp [FitsLookback, h])
    | .error _ => isTrue (by simp [FitsLookback, h])

/-- The lookbacks that are due fit. -/
def Fits {S ω : Type} (running : OperatorRunning ε S ω) (timeCursor : ℤ)
    (consolidator : Option MultiResolutionConsolidator) : Prop :=
  ∀ l, some l ∈ dueLookbacks running timeCursor → FitsLookback running consolidator l

instance {S ω : Type} (running : OperatorRunning ε S ω) (timeCursor : ℤ)
    (consolidator : Option MultiResolutionConsolidator) :
    Decidable (Fits running timeCursor consolidator) :=
  decidable_of_iff
    (∀ l ∈ (dueLookbacks running timeCursor).reduceOption, FitsLookback running consolidator l)
    (by simp [Fits, List.reduceOption_mem_iff])

section Agreement

variable {name : String} {op : ParallelOperatorPending ε S ω}
  {single : BacktestEngine ε (S op.kind) (ω op.kind)}
  {s₁ s₁' : BacktestState ε (S op.kind) (ω op.kind)}

theorem asked_shared (hop : engine.operators[i]? = some (name, op)) {l : Lookback}
    (hl : l ∈ askedBy op.pending) : l ∈ engine.operators.flatMap fun op => askedBy op.2.pending :=
  List.mem_flatMap.mpr ⟨(name, op), List.mem_of_getElem? hop, hl⟩

/-- The shared buffer starts no later than the operator's own. -/
theorem bufferFrom_shared (hop : engine.operators[i]? = some (name, op))
    (halone : Alone engine op single) :
    bufferFrom engine.shared.maxLookback engine.startTime ≤ historyFrom single := by
  rw [historyFrom, halone.startTime, BacktestEngine.lookbacks, halone.operatorPending]
  cases hown : op.pending.lookbacks.maxLookback with
  | none =>
      have hle := bufferFrom_le engine.shared.maxLookback engine.startTime
      simpa [bufferFrom] using hle
  | some own =>
      have hasked := (lookbacks_covers op.pending).longest_mem own hown
      obtain ⟨longest, hmax, hle⟩ := (shared_covers engine).longest own (asked_shared hop hasked)
      rw [hmax]
      simp only [bufferFrom, Option.map_some, Option.getD_some]
      omega

/-- The operator's own buffer reaches back the duration of each of its lookbacks. -/
theorem historyFrom_reach (halone : Alone engine op single) {m : OhlcCandleRow}
    (hm : engine.startTime ≤ m.time) {l : Lookback} (hl : l ∈ askedBy op.pending) :
    historyFrom single + l.asDuration ≤ m.time := by
  rw [historyFrom, halone.startTime, BacktestEngine.lookbacks, halone.operatorPending]
  obtain ⟨longest, hmax, hle⟩ := (lookbacks_covers op.pending).longest l hl
  rw [hmax]
  simp only [bufferFrom, Option.map_some, Option.getD_some]
  omega

/-- Among others an operator is handed the slice it would be handed alone if and only if
that slice fits. -/
theorem Agrees.slice_iff (hfree : Unbroken engine.db)
    (hop : engine.operators[i]? = some (name, op)) (halone : Alone engine op single)
    (h : Agrees engine i name op single s s₁) {l : Lookback} (hl : l ∈ askedBy op.pending) :
    slice s₁.operator s.replay.consolidator (some l) =
        slice s₁.operator s₁.replay.consolidator (some l) ↔
      FitsLookback s₁.operator s.replay.consolidator l := by
  obtain ⟨fresh, m, hm, hshared, hown⟩ := h.follows
  obtain ⟨p, hp, hle⟩ := (shared_covers engine).period l (asked_shared hop hl)
  have hruns : Runs single.operatorPending s₁.operator := halone.operatorPending ▸ h.runs
  have hl' : l ∈ askedBy single.operatorPending := halone.operatorPending ▸ hl
  have hwindow := window_eq fresh hfree hshared.mem (bufferFrom_shared hop halone)
    (historyFrom_reach halone hm hl)
  rw [slice_eq hown hruns hl', halone.db, ← hwindow]
  cases s₁.operator with
  | signal running =>
      rw [slice, evalCandles_eq ε hshared hp hle]
      simp [FitsLookback]
  | raw running =>
      have hple : l.period.asUsize ≤ p.asUsize := Int.toNat_le_toNat hle
      simp only [slice, RawOperatorRunning.rawCandles, FitsLookback, ctxCandles_eq ε hshared hp,
        Except.ok.injEq, forall_eq', rtake_eq_iff hple]

theorem Agrees.timeCursor (h : Agrees engine i name op single s s₁) :
    s₁.replay.timeCursor = s.replay.timeCursor := by
  obtain ⟨fresh, m, -, hshared, hown⟩ := h.follows
  rw [hown.cursor, hshared.cursor]

theorem Agrees.handed_iff (hfree : Unbroken engine.db)
    (hop : engine.operators[i]? = some (name, op)) (halone : Alone engine op single)
    (h : Agrees engine i name op single s s₁) :
    handed s₁.operator s.replay.timeCursor s.replay.consolidator =
        handed s₁.operator s₁.replay.timeCursor s₁.replay.consolidator ↔
      Fits s₁.operator s.replay.timeCursor s.replay.consolidator := by
  rw [h.timeCursor, handed_eq_iff]
  constructor
  · intro hall l hl
    exact (h.slice_iff hfree hop halone (due_asked h.runs hl)).mp (hall l hl)
  · intro hall l hl
    exact (h.slice_iff hfree hop halone (due_asked h.runs hl)).mpr (hall l hl)

/-! ### One turn -/

theorem afterReport_settlements (r : Replay) : r.afterReport.settlements = r.settlements := by
  unfold Replay.afterReport
  split_ifs <;> rfl

theorem afterReport_timeCursor (r : Replay) : r.afterReport.timeCursor = r.timeCursor := by
  unfold Replay.afterReport
  split_ifs <;> rfl

/-- Replays with the same cursor and the same next update report alike. -/
theorem Agrees.report (h : Agrees engine i name op single s s₁) :
    s₁.replay.dueReport = s.replay.dueReport ∧
      s₁.replay.afterReport.sendNextUpdateAt = s.replay.afterReport.sendNextUpdateAt := by
  constructor
  · rw [Replay.dueReport, h.timeCursor, h.sendNextUpdateAt, Replay.dueReport]
  · unfold Replay.afterReport
    rw [h.timeCursor, h.sendNextUpdateAt]
    split_ifs
    · rfl
    · exact h.sendNextUpdateAt

theorem Alone.executor_eq (halone : Alone engine op single) :
    single.executor sdk (newV4 name) = engine.executor sdk newV4 name := by
  rw [BacktestEngine.executor, BacktestParallelEngine.executor, halone.config]

theorem one_le_minBufferSize : 1 ≤ MIN_BUFFER_SIZE := by decide

/-- Both engines are at their last turn, or neither is. -/
theorem Agrees.isLast (halone : Alone engine op single)
    (h : Agrees engine i name op single s s₁) :
    s₁.replay.afterReport.isLast single.endTime = s.replay.afterReport.isLast engine.endTime := by
  rw [Replay.isLast, Replay.isLast, afterReport_timeCursor, afterReport_timeCursor, h.timeCursor,
    halone.endTime]

/-- With a slice that fits, the operator alone is handed what it is handed among others. -/
theorem Agrees.iterate (hfree : Unbroken engine.db) (hop : engine.operators[i]? = some (name, op))
    (halone : Alone engine op single) (h : Agrees engine i name op single s s₁)
    (hfits : Fits s₁.operator s.replay.timeCursor s.replay.consolidator) :
    s₁.operator.iterate (single.executor sdk (newV4 name)) s₁.replay.timeCursor
        s₁.replay.consolidator s₁.executor =
      s₁.operator.iterate (engine.executor sdk newV4 name) s.replay.timeCursor
        s.replay.consolidator s₁.executor := by
  have hslices := (h.handed_iff hfree hop halone).mpr hfits
  rw [h.timeCursor] at hslices
  rw [halone.executor_eq, h.timeCursor, ← iterate_of_handed hslices]

/-- A slice that fits leaves the operator alone with its turn. -/
theorem Agrees.turn (hfree : Unbroken engine.db) (hop : engine.operators[i]? = some (name, op))
    (halone : Alone engine op single) (h : Agrees engine i name op single s s₁)
    (hfits : Fits s₁.operator s.replay.timeCursor s.replay.consolidator)
    (hs : engine.turn sdk newV4 s = .ok (.next step s')) :
    ∃ seen s₁', single.turn sdk (newV4 name) s₁ = .ok (.next seen s₁') ∧ Seen i step seen ∧
      Agrees engine i name op single s' s₁' := by
  obtain ⟨reported, charged, replay, hst⟩ := parallelTurn_next hs
  obtain ⟨running', seen, t₂, t₃, hstages, hfound, hseen, hnext⟩ := operator_stages hst h.operator
  obtain ⟨fresh, m, hm, hshared, hown⟩ := h.follows
  have hcursor := h.timeCursor
  obtain ⟨hdue, hsend⟩ := h.report
  -- The next stored candle is the next minute, so the other buffer reaches it too.
  obtain ⟨hcandle, hadv⟩ := advance_spec hshared.afterReport hst.advance
  have hminute := hfree.next_le hshared.mem hcandle
  have hgo := hst.goesOn
  simp only [Replay.isLast, ge_iff_le, decide_eq_false_iff_not, not_le, afterReport_timeCursor,
    hshared.cursor] at hgo
  have hsize : 1 ≤ engine.config.bufferSize := one_le_minBufferSize.trans
    engine.config.min_le_bufferSize
  have hreach : step.candle.time ≤
      s₁.replay.afterReport.timeCursor + Duration.minutes single.config.bufferSize := by
    rw [afterReport_timeCursor, hcursor, hshared.cursor, halone.config]
    unfold Duration.minutes at hminute ⊢
    unfold Duration.seconds
    omega
  have hend : step.candle.time ≤ single.endTime := by
    rw [halone.endTime]
    unfold Duration.minutes at hminute
    unfold Duration.seconds at hgo
    omega
  have hcandle₁ : IsNextCandle single.db m.time step.candle := halone.db ▸ hcandle
  obtain ⟨replay₁, hadvance₁, hadv₁⟩ := advance_isOk ε hown.afterReport hcandle₁ hreach hend
  obtain ⟨r, hpush, hfollows, hdrop, hupdate⟩ := push_follows ε hshared.afterReport hcandle hadv
  obtain ⟨r₁, hpush₁, hfollows₁, hdrop₁, hupdate₁⟩ :=
    push_follows ε hown.afterReport hcandle₁ hadv₁
  obtain rfl := Except.ok.inj (hst.push.symm.trans hpush)
  have hqueue : replay₁.settlements = replay.settlements := by
    rw [hadv₁.settlements, hadv.settlements, afterReport_settlements, afterReport_settlements,
      h.settlements]
  have hat : replay₁.timeCursor = replay.timeCursor := by rw [hadv₁.cursor, hadv.cursor]
  have hiterate : s₁.operator.iterate (single.executor sdk (newV4 name)) s₁.replay.timeCursor
      s₁.replay.consolidator s₁.executor = .ok (running', seen.iterated) := by
    rw [h.iterate hfree hop halone hfits, ← hfound]
    exact hstages.iterate
  have htime : seen.timeCursor = s₁.replay.timeCursor := by
    rw [← hseen.timeCursor, hst.timeCursor, hcursor]
  have hreport : (single.executor sdk (newV4 name)).report s₁.replay.dueReport seen.iterated =
      .ok (seen.report, t₂) := by
    rw [halone.executor_eq, hdue]
    exact hstages.report
  have hgo₁ : s₁.replay.afterReport.isLast single.endTime = false := by
    rw [h.isLast halone, hst.goesOn]
  have hadvance : s₁.replay.afterReport.advance single.db single.config.bufferSize
      single.endTime = (.ok (seen.candle, replay₁) : Except (BacktestError ε) _) := by
    rw [← hseen.candle]
    exact hadvance₁
  have hsettle : (single.executor sdk (newV4 name)).settle replay₁.dueSettlements t₂ =
      .ok (seen.settled, t₃) := by
    rw [halone.executor_eq, Replay.dueSettlements, hqueue, hat]
    exact hstages.settle
  have hupdated : (single.executor sdk (newV4 name)).replayCandle seen.candle t₃ =
      .ok seen.updated := by
    rw [halone.executor_eq]
    exact hstages.candle
  refine ⟨seen, ⟨r₁, running', seen.updated⟩, turn_next_iff.mpr ⟨t₂, t₃, replay₁, htime, hfound,
    hiterate, hreport, hgo₁, hadvance, hsettle, hupdated, hseen.candle ▸ hpush₁, rfl⟩, hseen, ?_⟩
  refine ⟨⟨false, step.candle, hm.trans hcandle.lt.le, hfollows, hfollows₁⟩, ?_, ?_, hnext,
    iterate_runs h.runs hiterate⟩
  · rw [hdrop₁, hdrop, hqueue, hat]
  · rw [hupdate₁, hupdate, hadv₁.sendNextUpdateAt, hadv.sendNextUpdateAt, hsend]

/-- The last turn of the operator alone: its report and its executor are those it has among
others. -/
theorem Agrees.finished (hfree : Unbroken engine.db)
    (hop : engine.operators[i]? = some (name, op)) (halone : Alone engine op single)
    (h : Agrees engine i name op single s s₁)
    (hfits : Fits s₁.operator s.replay.timeCursor s.replay.consolidator)
    {reports : List (Option TradingState)}
    (hs : engine.turn sdk newV4 s = .ok (.finished reports s')) :
    ∃ report s₁', single.turn sdk (newV4 name) s₁ = .ok (.finished report s₁') ∧
      reports[i]? = some report ∧
      s'.runningOperators[i]? = some ⟨name, ⟨op.kind, s₁'.operator⟩, s₁'.executor⟩ := by
  obtain ⟨hlast, iterated, reported, hit, hrep, rfl, hrunning⟩ := parallelTurn_finished hs
  obtain ⟨running', t₁, report, t₂, hiterate, hreport, -, hreported⟩ :=
    operator_reported hit hrep h.operator
  refine ⟨report, ⟨s₁.replay.afterReport, running', t₂⟩,
    turn_finished_iff.mpr ⟨?_, rfl, t₁, ?_, ?_⟩, ?_, ?_⟩
  · rw [h.isLast halone, hlast]
  · rw [h.iterate hfree hop halone hfits, hiterate]
  · rw [halone.executor_eq, h.report.1, hreport]
  · rw [List.getElem?_map, hreported]
    rfl
  · rw [hrunning, List.getElem?_map, hreported]
    rfl

/-! ### The start -/

theorem parallelStart_spec (h : engine.start sdk newV4 = .ok s) :
    ∃ first, StartsAt engine.db engine.config.bufferSize engine.shared.maxLookback
        engine.startTime first ∧
      engine.operators.mapM (engine.startOperator sdk newV4 first.startCandle) =
        .ok s.runningOperators ∧
      Replay.new engine.db first engine.shared.resolutionToMaxPeriod engine.startTime
        engine.endTime = (.ok s.replay : Except (BacktestError ε) _) := by
  unfold BacktestParallelEngine.start at h
  split_ifs at h
  simp only [bind_eq_ok, pure_eq_ok] at h
  obtain ⟨_, -, first, hfirst, running, hrunning, replay, hreplay, rfl⟩ := h
  exact ⟨first, firstBuffer_spec hfirst, hrunning, hreplay⟩

/-- Both engines start at the same candle. -/
theorem agrees_start (hop : engine.operators[i]? = some (name, op))
    (halone : Alone engine op single) (h : engine.start sdk newV4 = .ok s) :
    ∃ s₁, single.start sdk (newV4 name) = .ok s₁ ∧ Agrees engine i name op single s s₁ := by
  obtain ⟨first, hfirst, hrunning, hreplay⟩ := parallelStart_spec h
  obtain ⟨o, ho, hstart⟩ := mapM_getElem hrunning hop
  simp only [BacktestParallelEngine.startOperator, bind_eq_ok, mapError_eq_ok, pure_eq_ok]
    at hstart
  obtain ⟨running, hrun, rfl⟩ := hstart
  -- The start candle is within the first buffer of the engine that runs the operator alone.
  have hfrom := bufferFrom_shared hop halone
  have hreach := (mem_getCandles.mp hfirst.mem_buffer).2.2
  have hbuf : first.startCandle.time ≤ bufferFrom single.lookbacks.maxLookback single.startTime +
      Duration.minutes single.config.bufferSize := by
    rw [halone.config]
    rw [historyFrom] at hfrom
    omega
  obtain ⟨first₁, hfirst₁⟩ := firstBuffer_isOk ε (halone.db ▸ hfirst.mem)
    (halone.startTime ▸ hfirst.start_le) hbuf
  have hstarts := firstBuffer_spec hfirst₁
  have hsame : first₁.startCandle = first.startCandle := by
    have hown := hstarts
    rw [halone.db, halone.startTime] at hown
    exact startsAt_unique hown hfirst
  obtain ⟨r, hr, hfollows, hstarted⟩ := new_follows ε (shared_covers engine).validMap hfirst
  obtain rfl := Except.ok.inj (hreplay.symm.trans hr)
  obtain ⟨r₁, hr₁, hfollows₁, hstarted₁⟩ :=
    new_follows ε (lookbacks_covers single.operatorPending).validMap hstarts
  have hrun₁ : OperatorRunning.start single.operatorPending single.startTime = .ok running := by
    rw [halone.operatorPending, halone.startTime]
    exact hrun
  refine ⟨⟨r₁, running, (single.executor sdk (newV4 name)).new first₁.startCandle
    single.startBalance⟩, ?_, ⟨⟨true, first.startCandle, hfirst.start_le, hfollows, ?_⟩, ?_, ?_,
      ?_, start_runs hrun⟩⟩
  · simp only [BacktestEngine.start, bind_eq_ok, pure_eq_ok]
    exact ⟨first₁, hfirst₁, running, hrun₁, r₁, hr₁, rfl⟩
  · rw [← hsame]
    exact hfollows₁
  · rw [hstarted₁.settlements, hstarted.settlements, halone.db, halone.startTime, halone.endTime]
  · rw [hstarted₁.sendNextUpdateAt, hstarted.sendNextUpdateAt, halone.startTime]
  · rw [ho, halone.executor_eq, hsame, halone.startBalance]

/-- The slices the `i`-th operator is due fit. -/
def FitsAt (i : ℕ) (s : ParallelState ε S ω) : Prop :=
  ∀ o, s.runningOperators[i]? = some o →
    Fits o.operator.running s.replay.timeCursor s.replay.consolidator

theorem Agrees.fitsAt_iff (h : Agrees engine i name op single s s₁) :
    FitsAt i s ↔ Fits s₁.operator s.replay.timeCursor s.replay.consolidator := by
  simp [FitsAt, h.operator]

instance (i : ℕ) (s : ParallelState ε S ω) : Decidable (FitsAt i s) :=
  match h : s.runningOperators[i]? with
  | some o => decidable_of_iff
      (Fits o.operator.running s.replay.timeCursor s.replay.consolidator) (by simp [FitsAt, h])
  | none => isTrue (by simp [FitsAt, h])

/-- Nobody asks for more at the resolution of a raw operator. -/
def OwnPeriod (engine : BacktestParallelEngine ε S ω) (op : ParallelOperatorPending ε S ω) : Prop :=
  match op.pending with
  | .signal _ => True
  | .raw pending => ∀ l ∈ pending.lookback,
      engine.shared.resolutionToMaxPeriod.get l.resolution = some l.period

/-- With its own period the slices of an operator always fit. -/
theorem Agrees.fitsAt (h : Agrees engine i name op single s s₁) (hown : OwnPeriod engine op) :
    FitsAt i s := by
  rw [h.fitsAt_iff]
  intro l hl
  have hasked := due_asked h.runs hl
  have hruns := h.runs
  unfold OwnPeriod at hown
  cases hrun : s₁.operator with
  | signal running => trivial
  | raw running =>
      cases hpend : op.pending with
      | signal pending =>
          rw [hpend, hrun] at hruns
          exact hruns.elim
      | raw pending =>
          obtain ⟨fresh, m, -, hshared, -⟩ := h.follows
          simp only [hpend] at hown
          rw [hpend] at hasked
          have hp := hown l (by simpa [askedBy] using hasked)
          intro rows hrows
          rw [ctxCandles_eq ε hshared hp] at hrows
          rw [← Except.ok.inj hrows]
          exact Window.length_rtake_le _ _

/-- The rest of a parallel run, as the `i`-th operator and the engine that runs it alone see
it: they are iterated alike and end in the same turn, with the same report and state. -/
structure EndsAlike (engine : BacktestParallelEngine ε S ω) (sdk : LnmSdk ε)
    (newV4 : String → ℕ → Uuid) (i : ℕ) (name : String) (op : ParallelOperatorPending ε S ω)
    (single : BacktestEngine ε (S op.kind) (ω op.kind)) (s : ParallelState ε S ω)
    (s₁ : BacktestState ε (S op.kind) (ω op.kind)) : Prop where
  iterated : s₁.operator.iterate (single.executor sdk (newV4 name)) s₁.replay.timeCursor
      s₁.replay.consolidator s₁.executor =
    s₁.operator.iterate (engine.executor sdk newV4 name) s.replay.timeCursor
      s.replay.consolidator s₁.executor
  finished : ∀ reports s', engine.turn sdk newV4 s = .ok (.finished reports s') →
    ∃ report s₁', single.turn sdk (newV4 name) s₁ = .ok (.finished report s₁') ∧
      reports[i]? = some report ∧
      s'.runningOperators[i]? = some ⟨name, ⟨op.kind, s₁'.operator⟩, s₁'.executor⟩

theorem Agrees.endsAlike (hfree : Unbroken engine.db)
    (hop : engine.operators[i]? = some (name, op)) (halone : Alone engine op single)
    (h : Agrees engine i name op single s s₁) (hfits : FitsAt i s) :
    EndsAlike engine sdk newV4 i name op single s s₁ :=
  ⟨h.iterate hfree hop halone (h.fitsAt_iff.mp hfits),
    fun _ _ hs => h.finished hfree hop halone (h.fitsAt_iff.mp hfits) hs⟩

/-- Along a parallel run in which an operator's slices have fit, its executor goes through
the states of a run of its own, its last turn included; its next slices are those it would be
handed alone if and only if they fit too. -/
theorem parallel_agrees_iff (engine : BacktestParallelEngine ε S ω) (sdk : LnmSdk ε)
    (newV4 : String → ℕ → Uuid) (hfree : Unbroken engine.db)
    (hop : engine.operators[i]? = some (name, op)) (halone : Alone engine op single)
    {steps : List (ParallelStep ε S ω)} {s : ParallelState ε S ω}
    (h : ((parallelSystem engine sdk newV4).restrict fun s _ => FitsAt i s).Run steps s) :
    ∃ seen s₁, (system single sdk (newV4 name)).Run seen s₁ ∧ List.Forall₂ (Seen i) steps seen ∧
      s.runningOperators[i]? = some ⟨name, ⟨op.kind, s₁.operator⟩, s₁.executor⟩ ∧
      s₁.replay.timeCursor = s.replay.timeCursor ∧
      (handed s₁.operator s.replay.timeCursor s.replay.consolidator =
          handed s₁.operator s₁.replay.timeCursor s₁.replay.consolidator ↔ FitsAt i s) ∧
      s₁.replay.afterReport.isLast single.endTime = s.replay.afterReport.isLast engine.endTime ∧
      (FitsAt i s → EndsAlike engine sdk newV4 i name op single s s₁) := by
  obtain ⟨seen, s₁, hrun, hseen, hagrees⟩ :=
    h.simulate (system single sdk (newV4 name)) (R := Agrees engine i name op single)
      (L := Seen i) (fun s hs => agrees_start hop halone hs) (by
        intro s step s' s₁ hagrees hs
        exact hagrees.turn hfree hop halone (hagrees.fitsAt_iff.mp hs.1) hs.2)
  refine ⟨seen, s₁, hrun, hseen, hagrees.operator, hagrees.timeCursor, ?_, hagrees.isLast halone,
    hagrees.endsAlike hfree hop halone⟩
  rw [hagrees.fitsAt_iff]
  exact hagrees.handed_iff hfree hop halone

/-- A signal operator, or a raw one that nobody outbids, goes through the states of a run of
its own in every parallel run, its last turn included. -/
theorem parallel_agrees_of_ownPeriod (hfree : Unbroken engine.db)
    (hop : engine.operators[i]? = some (name, op)) (halone : Alone engine op single)
    (hown : OwnPeriod engine op) (h : (parallelSystem engine sdk newV4).Run steps s) :
    ∃ seen s₁, (system single sdk (newV4 name)).Run seen s₁ ∧ List.Forall₂ (Seen i) steps seen ∧
      Agrees engine i name op single s s₁ ∧ EndsAlike engine sdk newV4 i name op single s s₁ := by
  obtain ⟨seen, s₁, hrun, hseen, hagrees⟩ :=
    h.simulate (system single sdk (newV4 name)) (R := Agrees engine i name op single)
      (L := Seen i) (fun s hs => agrees_start hop halone hs) (by
        intro s step s' s₁ hagrees hs
        exact hagrees.turn hfree hop halone (hagrees.fitsAt_iff.mp (hagrees.fitsAt hown)) hs)
  exact ⟨seen, s₁, hrun, hseen, hagrees,
    hagrees.endsAlike hfree hop halone (hagrees.fitsAt hown)⟩

end Agreement

/-! ### Two watchers -/

/-- A watcher of the last `period` minutes. -/
def watcherOf (period : Period) (h : period.asDuration .oneMinute ≤ Lookback.MAX) :
    ParallelOperatorPending Refusal (fun _ : Unit => Unit) (fun _ : Unit => Unit) :=
  ⟨(), .raw ⟨watcher period h, (), _, rfl⟩⟩

def shortWatcher := watcherOf onePeriod oneMinute_le

def longWatcher := watcherOf twoPeriods (by decide)

/-- The second day of 1970 with the minute before it. -/
def watchedPair :
    BacktestParallelEngine Refusal (fun _ : Unit => Unit) (fun _ : Unit => Unit) where
  config := referenceConfig
  db := minuteDatabase 1439 1442 (by decide)
  operators := [("short", shortWatcher), ("long", longWatcher)]
  shared := _
  startTime := Duration.minutes 1440
  endTime := Duration.minutes 2880
  startBalance := 10000000
  period := secondDay_period
  settlements := eq_ok_of_isOk (by decide +kernel)
  merged := rfl
  named := by decide
  distinct := by decide

def shortAlone : BacktestEngine Refusal Unit Unit where
  config := referenceConfig
  db := minuteDatabase 1439 1442 (by decide)
  operatorPending := shortWatcher.pending
  startTime := Duration.minutes 1440
  startBalance := 10000000
  endTime := Duration.minutes 2880
  period := secondDay_period
  history := eq_ok_of_isOk (by decide +kernel)
  settlements := eq_ok_of_isOk (by decide +kernel)

def longAlone : BacktestEngine Refusal Unit Unit where
  config := referenceConfig
  db := minuteDatabase 1439 1442 (by decide)
  operatorPending := longWatcher.pending
  startTime := Duration.minutes 1440
  startBalance := 10000000
  endTime := Duration.minutes 2880
  period := secondDay_period
  history := eq_ok_of_isOk (by decide +kernel)
  settlements := eq_ok_of_isOk (by decide +kernel)

theorem shortAlone_alone : Alone watchedPair shortWatcher shortAlone :=
  ⟨rfl, rfl, rfl, rfl, rfl, rfl⟩

theorem longAlone_alone : Alone watchedPair longWatcher longAlone :=
  ⟨rfl, rfl, rfl, rfl, rfl, rfl⟩

def Turn.isNext {ι ρ σ : Type*} : Turn ι ρ σ → Bool
  | .finished _ _ => false
  | .next _ _ => true

/-- A first turn before which the slices of an operator fit. -/
theorem exists_turn (engine : BacktestParallelEngine ε S ω) (sdk : LnmSdk ε)
    (newV4 : String → ℕ → Uuid) (i : ℕ)
    (h : (engine.start sdk newV4).toOption.any (fun s =>
      decide (FitsAt i s) && (engine.turn sdk newV4 s).toOption.any Turn.isNext) = true) :
    ∃ step s, ((parallelSystem engine sdk newV4).restrict fun s _ => FitsAt i s).Run [step] s := by
  cases hs : engine.start sdk newV4 with
  | error e => simp [hs, Except.toOption] at h
  | ok s =>
      simp only [hs, Except.toOption, Option.any_some, Bool.and_eq_true, decide_eq_true_eq] at h
      obtain ⟨hfits, hturn⟩ := h
      cases ht : engine.turn sdk newV4 s with
      | error e => simp [ht] at hturn
      | ok turn =>
          cases turn with
          | finished reports s' => simp [ht, Turn.isNext] at hturn
          | next step s' => exact ⟨step, s', .step (.start hs) ⟨hfits, ht⟩⟩

theorem parallel_agrees_iff_long : ∃ step s seen s₁,
    ((parallelSystem watchedPair referenceSdk fun _ => Uuid.mk).restrict
      fun s _ => FitsAt 1 s).Run [step] s ∧
    (system longAlone referenceSdk Uuid.mk).Run seen s₁ ∧ List.Forall₂ (Seen 1) [step] seen ∧
    s.runningOperators[1]? = some ⟨"long", ⟨(), s₁.operator⟩, s₁.executor⟩ ∧
    s₁.replay.timeCursor = s.replay.timeCursor ∧
    (handed s₁.operator s.replay.timeCursor s.replay.consolidator =
      handed s₁.operator s₁.replay.timeCursor s₁.replay.consolidator ↔ FitsAt 1 s) ∧
    s₁.replay.afterReport.isLast longAlone.endTime =
      s.replay.afterReport.isLast watchedPair.endTime ∧
    (FitsAt 1 s → EndsAlike watchedPair referenceSdk (fun _ => Uuid.mk) 1 "long" longWatcher
      longAlone s s₁) := by
  obtain ⟨step, s, hrun⟩ := exists_turn watchedPair referenceSdk (fun _ => Uuid.mk) 1
    (by decide +kernel)
  obtain ⟨seen, s₁, h⟩ := parallel_agrees_iff watchedPair referenceSdk (fun _ => Uuid.mk)
    (minuteDatabase_unbroken (by decide)) (i := 1) rfl longAlone_alone hrun
  exact ⟨step, s, seen, s₁, hrun, h⟩

/-- How many candles each slice holds. -/
def sizes (slices : List (Option Lookback × Except (BacktestError ε) (List OhlcCandleRow))) :
    List (Option ℕ) :=
  slices.map fun x => x.2.toOption.map (·.length)

/-- At its first call the watcher of one minute is handed two candles, because the other
asks for two; alone it is handed one. -/
theorem short_watcher_sees_more :
    Unbroken watchedPair.db ∧ watchedPair.operators[0]? = some ("short", shortWatcher) ∧
    Alone watchedPair shortWatcher shortAlone ∧ ∃ s s₁ o,
      (parallelSystem watchedPair referenceSdk fun _ => Uuid.mk).Run [] s ∧
      (system shortAlone referenceSdk Uuid.mk).Run [] s₁ ∧ s.runningOperators[0]? = some o ∧
      handed o.operator.running s.replay.timeCursor s.replay.consolidator ≠
        handed s₁.operator s₁.replay.timeCursor s₁.replay.consolidator := by
  refine ⟨minuteDatabase_unbroken (by decide), rfl, shortAlone_alone, ?_⟩
  have hshared : (watchedPair.start referenceSdk fun _ => Uuid.mk).toOption.any (fun s =>
      s.runningOperators[0]?.any fun o => sizes (handed o.operator.running s.replay.timeCursor
        s.replay.consolidator) = [some 2]) = true := by
    decide +kernel
  have halone : (shortAlone.start referenceSdk Uuid.mk).toOption.any (fun s₁ =>
      sizes (handed s₁.operator s₁.replay.timeCursor s₁.replay.consolidator) = [some 1]) =
        true := by
    decide +kernel
  cases hs : watchedPair.start referenceSdk fun _ => Uuid.mk with
  | error e => simp [hs, Except.toOption] at hshared
  | ok s =>
      cases hs₁ : shortAlone.start referenceSdk Uuid.mk with
      | error e => simp [hs₁, Except.toOption] at halone
      | ok s₁ =>
          simp only [hs, Except.toOption, Option.any_some, Option.any_eq_true] at hshared
          obtain ⟨o, ho, hshared⟩ := hshared
          simp only [hs₁, Except.toOption, Option.any_some, decide_eq_true_eq] at halone
          refine ⟨s, s₁, o, .start hs, .start hs₁, ho, fun heq => ?_⟩
          rw [heq, halone] at hshared
          simp at hshared

end Quantoxide.Engine
