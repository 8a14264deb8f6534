import Quantoxide.Verification.CandleTable.Marks
import Quantoxide.Verification.Consolidator.Coverage
import Quantoxide.Verification.Engine.Charges

/-! # Warm-up of an accepted backtest

The slice handed out for a lookback is the end of the rows for the stored minutes from the
start of the first buffer on, one row a bucket with a stored minute. The history check
covers the bucket the longest lookback steps back to, which another lookback may reach
beyond. -/

namespace Quantoxide.Engine

open DateTime Result Consolidator

variable {ε S ω : Type} {engine : BacktestEngine ε S ω} {sdk : LnmSdk ε} {newV4 : ℕ → Uuid}
  {steps : List LoopStep} {s : BacktestState ε S ω} {first : FirstBuffer}

/-! ### Slices -/

section Slices

variable {db : Database} {resolutionMap : OrdMap OhlcResolution Period} {bufFrom : ℤ}
  {fresh : Bool} {m : OhlcCandleRow} {r : Replay} {l : Lookback} {p : Period}

variable (ε) in
/-- The shared buffer of a resolution holds as many rows as its period allows. -/
theorem ctxCandles_eq (h : Follows db resolutionMap bufFrom fresh m r)
    (hp : resolutionMap.get l.resolution = some p) :
    (ctxCandles r.consolidator l : Except (BacktestError ε) _) =
      .ok ((view l.resolution fresh (db.getCandles bufFrom m.time)).rtake p.asUsize) := by
  cases hc : r.consolidator with
  | none =>
      rw [h.unneeded hc] at hp
      cases hp
  | some multi =>
      have hcons := h.consolidated multi hc
      obtain ⟨s, hs⟩ := hcons.present _ _ hp
      obtain ⟨lb, hr, hp', hholds⟩ := hcons.held _ _ hs
      obtain rfl : p = lb.period := Option.some.inj (hp.symm.trans hp')
      simp [ctxCandles, MultiResolutionConsolidator.getCandles, hs, hholds.getCandles, hr]

variable (ε) in
/-- An evaluator is given as many of its last rows as it asked for. -/
theorem evalCandles_eq (h : Follows db resolutionMap bufFrom fresh m r)
    (hp : resolutionMap.get l.resolution = some p) (hle : l.period ≤ p) :
    (SignalOperatorRunning.evalCandles r.consolidator (some l) : Except (BacktestError ε) _) =
      .ok ((view l.resolution fresh (db.getCandles bufFrom m.time)).rtake l.period.asUsize) := by
  have hmin : min l.period.asUsize p.asUsize = l.period.asUsize :=
    min_eq_left (Int.toNat_le_toNat hle)
  rw [SignalOperatorRunning.evalCandles, ctxCandles_eq ε h hp]
  change Except.ok (List.rtake _ l.period.asUsize) = _
  rw [Window.rtake_rtake, hmin]

end Slices

/-- The operator of a reached state is the one that was given. -/
theorem run_runs (h : (system engine sdk newV4).Run steps s) :
    Runs engine.operatorPending s.operator := by
  induction h with
  | start hs =>
      obtain ⟨first, hstart⟩ := start_spec hs
      exact start_runs hstart.operator
  | step _ hs ih =>
      obtain ⟨reported, charged, replay, hst⟩ := turn_next_iff.mp hs
      exact iterate_runs ih hst.iterate

/-- A raw operator alone has the buffer of its resolution to itself. -/
theorem raw_period {pending : RawOperatorPending ε ω} {l : Lookback}
    (hl : l ∈ askedBy (OperatorPending.raw (S := S) pending)) :
    (OperatorPending.raw (S := S) pending).lookbacks.resolutionToMaxPeriod.get l.resolution =
      some l.period := by
  have hsome : pending.lookback = some l := by simpa [askedBy] using hl
  simp [OperatorPending.lookbacks, RawOperatorPending.lookbacks, hsome, OrdMap.get_insert_self]

/-- What an operator run alone is handed for a lookback. -/
theorem slice_eq {m : OhlcCandleRow} {fresh : Bool}
    (h : Follows engine.db engine.lookbacks.resolutionToMaxPeriod (historyFrom engine) fresh m
      s.replay)
    (hr : Runs engine.operatorPending s.operator) {l : Lookback}
    (hl : l ∈ askedBy engine.operatorPending) :
    slice s.operator s.replay.consolidator (some l) =
      .ok ((view l.resolution fresh (engine.db.getCandles (historyFrom engine) m.time)).rtake
        l.period.asUsize) := by
  obtain ⟨p, hp, hle⟩ := (lookbacks_covers engine.operatorPending).period l hl
  cases ho : s.operator with
  | signal running => exact evalCandles_eq ε h hp hle
  | raw running =>
      cases hpend : engine.operatorPending with
      | signal pending =>
          rw [hpend, ho] at hr
          exact hr.elim
      | raw pending =>
          rw [hpend] at hl
          have hown := raw_period hl
          rw [← hpend] at hown
          exact ctxCandles_eq ε h hown

/-! ### Warmed-up slices -/

/-- As many candles as were asked for, up to the bucket of the current minute. -/
def Warm (l : Lookback) (m : OhlcCandleRow)
    (candles : Except (BacktestError ε) (List OhlcCandleRow)) : Prop :=
  ∃ rows, candles = .ok rows ∧ rows.length = l.period.asUsize ∧
    rows.getLast?.map (·.time) = some (floorToResolution m.time l.resolution)

/-- The buckets with a stored minute, from the start of the first buffer to the minute `m`. -/
def filledBuckets (engine : BacktestEngine ε S ω) (r : OhlcResolution) (m : OhlcCandleRow) :
    List ℤ :=
  Groups.keys (fun c : OhlcCandleRow => floorToResolution c.time r)
    (engine.db.getCandles (historyFrom engine) m.time)

/-- The last row shown is that of the newest minute. -/
theorem getLast_view {r : OhlcResolution} {fresh : Bool} {rows : List OhlcCandleRow}
    {m : OhlcCandleRow} (hf : Feed (rows ++ [m])) :
    (view r fresh (rows ++ [m])).getLast?.map (·.time) = some (bucketOf r m) := by
  rw [← List.getLast?_map, times_view r fresh hf, Groups.keys_concat, List.getLast?_concat]

theorem getLast_rtake {α : Type} {p : ℕ} (hp : 0 < p) (xs : List α) :
    (xs.rtake p).getLast? = xs.getLast? := by
  rcases List.eq_nil_or_concat xs with rfl | ⟨ys, x, rfl⟩
  · simp
  · obtain ⟨q, rfl⟩ := Nat.exists_eq_succ_of_ne_zero hp.ne'
    simp [List.rtake_concat_succ]

theorem warm_slice_iff {fresh : Bool} {m : OhlcCandleRow} {l : Lookback}
    (hm : m ∈ engine.db.candleRows) (hfrom : historyFrom engine ≤ m.time) :
    Warm l m (.ok ((view l.resolution fresh
        (engine.db.getCandles (historyFrom engine) m.time)).rtake l.period.asUsize) :
          Except (BacktestError ε) _) ↔
      l.period.asUsize ≤ (filledBuckets engine l.resolution m).length := by
  have hfeed := getCandles_feed engine.db (historyFrom engine) m.time
  have hlen := length_view l.resolution fresh hfeed
  obtain ⟨rows, hrows⟩ := getCandles_last hm hfrom
  have hfilled : (filledBuckets engine l.resolution m).length = (view l.resolution fresh
      (engine.db.getCandles (historyFrom engine) m.time)).length := hlen.symm
  rw [hfilled]
  constructor
  · rintro ⟨_, heq, hperiod, -⟩
    rw [← Except.ok.inj heq, Window.length_rtake] at hperiod
    omega
  · intro hle
    refine ⟨_, rfl, by rw [Window.length_rtake, min_eq_left hle], ?_⟩
    rw [hrows] at hfeed
    rw [getLast_rtake l.period.asUsize_pos, hrows, getLast_view hfeed]
    rfl

/-! ### The history check -/

/-- Every minute of a range reported as available is stored. -/
def HoleFree (db : Database) : Prop :=
  ∀ state, PriceHistoryState.evaluate db = .ok state → ∀ lo hi,
    state.isRangeAvailable lo hi = .ok true → Stored db.candleRows lo hi

/-- Every minute between two stored ones is stored. -/
def Unbroken (db : Database) : Prop :=
  ∀ a ∈ db.candleRows, ∀ b ∈ db.candleRows, Stored db.candleRows a.time b.time

/-- The start of the range the history check asks for. -/
def checkedFrom (engine : BacktestEngine ε S ω) : ℤ :=
  lookbackTime engine.lookbacks.maxLookback engine.startTime

theorem accepted_stored (engine : BacktestEngine ε S ω) (hfree : HoleFree engine.db) :
    Stored engine.db.candleRows (checkedFrom engine) engine.endTime ∧
      checkedFrom engine < engine.endTime := by
  have h := engine.history
  simp only [checkHistory, bind_eq_ok, mapError_eq_ok] at h
  obtain ⟨state, hstate, available, havail, h⟩ := h
  cases available with
  | false => simp at h
  | true =>
      refine ⟨hfree state hstate _ _ havail, ?_⟩
      unfold PriceHistoryState.isRangeAvailable at havail
      split_ifs at havail with hge
      exact not_le.mp hge

/-- The first buffer reaches back beyond the bucket the check steps back to. -/
theorem historyFrom_le (engine : BacktestEngine ε S ω) :
    historyFrom engine ≤ checkedFrom engine := by
  unfold historyFrom checkedFrom bufferFrom lookbackTime
  cases engine.lookbacks.maxLookback with
  | none => simp
  | some l =>
      have hlt := sub_lt_bucketBack l engine.startTime
      simp only [Option.map_some, Option.getD_some, stepBack_eq]
      exact hlt.le

theorem period_spec (engine : BacktestEngine ε S ω) :
    isRoundMinute engine.endTime = true ∧ engine.startTime < engine.endTime := by
  have h := engine.period
  unfold checkPeriod at h
  simp only at h
  split_ifs at h with hround hle
  simp only [Bool.or_eq_true, Bool.not_eq_true', not_or, Bool.not_eq_false] at hround
  exact ⟨hround.2, not_le.mp hle⟩

/-- With the end minute stored a run stays between the start and the end. -/
theorem run_between {e : OhlcCandleRow} (he : e ∈ engine.db.candleRows)
    (hend : e.time = engine.endTime) (h : (system engine sdk newV4).Run steps s) :
    ∃ first, RunFollows engine first steps s ∧
      engine.startTime ≤ (newestCandle first.startCandle steps).time ∧
      (newestCandle first.startCandle steps).time ≤ engine.endTime := by
  induction h with
  | start hs =>
      obtain ⟨first, hstart⟩ := start_spec hs
      have hle := hstart.startsAt.least e he (hend ▸ (period_spec engine).2.le)
      exact ⟨first, (starts_follows hstart).1, hstart.startsAt.start_le, hend ▸ hle⟩
  | step _ hs ih =>
      obtain ⟨first, hfollows, hlo, -⟩ := ih
      obtain ⟨reported, charged, replay, hst⟩ := turn_next_iff.mp hs
      obtain ⟨hnext, -, hfollows', -⟩ := turn_follows hfollows hst
      refine ⟨first, hfollows', ?_⟩
      rw [newestCandle_concat]
      have hgo := hst.goesOn
      have hcursor := hfollows.afterReport.cursor
      simp only [Replay.isLast, ge_iff_le, decide_eq_false_iff_not, not_le, hcursor] at hgo
      refine ⟨hlo.trans hnext.lt.le, hend ▸ hnext.least e he ?_⟩
      unfold Duration.seconds at hgo
      omega

/-- A lookback that steps back no further than the check is warmed up. -/
theorem filled_of_checked (engine : BacktestEngine ε S ω) (hfree : HoleFree engine.db)
    {m : OhlcCandleRow} (hm : m ∈ engine.db.candleRows) (hstart : engine.startTime ≤ m.time)
    (hend : m.time ≤ engine.endTime) {l : Lookback}
    (hl : checkedFrom engine ≤
      stepBackCandles engine.startTime l.resolution (l.period.asInt - 1)) :
    l.period.asUsize ≤ (filledBuckets engine l.resolution m).length := by
  obtain ⟨hstored, -⟩ := accepted_stored engine hfree
  have hreach : checkedFrom engine ≤ bucketBack l.resolution m.time (l.period.asUsize - 1) := by
    rw [stepBack_eq] at hl
    exact hl.trans (bucketBack_mono _ _ hstart)
  have hepoch := ((candleRows_feed engine.db).minutes m hm).epoch_le
  have hback := bucketBack_le l.resolution (l.period.asUsize - 1) hepoch
  have hnonneg : 0 ≤ bucketBack l.resolution m.time (l.period.asUsize - 1) := by
    obtain ⟨c, hc, htime⟩ := hstored _ (bucketBack_round l.resolution _ hepoch) hreach
      (hback.trans hend)
    rw [← htime]
    exact ((candleRows_feed engine.db).minutes c hc).epoch_le
  apply le_length_keys _ hepoch hnonneg
  intro t ht hlo hhi
  obtain ⟨c, hc, rfl⟩ := hstored t ht (hreach.trans hlo) (hhi.trans hend)
  exact ⟨c, mem_getCandles.mpr ⟨hc, ((historyFrom_le engine).trans hreach).trans hlo, hhi⟩, rfl⟩

/-- At every iteration of every run, a slice handed out is warmed up if and only if the
stored minutes fill as many buckets as it should have candles. -/
theorem warm_iff_filled (h : (system engine sdk newV4).Run steps s) :
    ∃ first, RunFollows engine first steps s ∧
      ∀ l candles, (some l, candles) ∈ handed s.operator s.replay.timeCursor
          s.replay.consolidator →
        (Warm l (newestCandle first.startCandle steps) candles ↔ l.period.asUsize ≤
          (filledBuckets engine l.resolution (newestCandle first.startCandle steps)).length) := by
  obtain ⟨first, -, hfollows⟩ := run_follows h
  refine ⟨first, hfollows, ?_⟩
  intro l candles hmem
  obtain ⟨due, hdue, heq⟩ := List.mem_map.mp hmem
  obtain ⟨rfl, rfl⟩ := Prod.mk.inj heq
  have hruns := run_runs h
  rw [slice_eq hfollows hruns (due_asked hruns hdue)]
  exact warm_slice_iff hfollows.mem hfollows.from_le

theorem runFollows_unique {first' : FirstBuffer} (h : RunFollows engine first steps s)
    (h' : RunFollows engine first' steps s) :
    newestCandle first'.startCandle steps = newestCandle first.startCandle steps :=
  Option.some.inj (h'.current.symm.trans h.current)

/-- A slice handed out is warmed up if and only if the stored minutes fill as many buckets
as it should have candles. In a history without holes they do for a lookback that steps back
no further than the history check. -/
theorem warmed_up_iff (engine : BacktestEngine ε S ω) (sdk : LnmSdk ε) (newV4 : ℕ → Uuid)
    {steps : List LoopStep} {s : BacktestState ε S ω}
    (h : (system engine sdk newV4).Run steps s) :
    ∃ m ∈ engine.db.candleRows, s.replay.timeCursor = m.time + Duration.seconds 59 ∧
      ∀ l candles, (some l, candles) ∈ handed s.operator s.replay.timeCursor
          s.replay.consolidator →
        (Warm l m candles ↔
          l.period.asUsize ≤ (filledBuckets engine l.resolution m).length) ∧
        (HoleFree engine.db → checkedFrom engine ≤
            stepBackCandles engine.startTime l.resolution (l.period.asInt - 1) →
          Warm l m candles) := by
  obtain ⟨first, hfollows, hiff⟩ := warm_iff_filled h
  refine ⟨newestCandle first.startCandle steps, hfollows.mem, hfollows.cursor, ?_⟩
  intro l candles hmem
  refine ⟨hiff l candles hmem, fun hfree hl => (hiff l candles hmem).mpr ?_⟩
  obtain ⟨hstored, hlt⟩ := accepted_stored engine hfree
  obtain ⟨e, he, hend⟩ := hstored _ (period_spec engine).1 hlt.le le_rfl
  obtain ⟨first', hfollows', hlo, hhi⟩ := run_between he hend h
  rw [runFollows_unique hfollows hfollows'] at hlo hhi
  exact filled_of_checked engine hfree hfollows.mem hlo hhi hl

/-! ### A check that keeps the shorter reach -/

theorem mem_minuteDatabase {n count : ℕ} (h : n + count ≤ 100000000) {c : OhlcCandleRow} :
    c ∈ (minuteDatabase n count h).candleRows ↔
      ∃ i < count, c = Executor.minuteCandle (n + i) 100000 101000 99000 100500 := by
  simp [minuteDatabase, Database.candleRows, minuteHistory, eq_comm]

/-- The bounds of the history are stored minutes. -/
theorem bounds_stored {db : Database} {state : PriceHistoryState} {b : ℤ × ℤ}
    (h : PriceHistoryState.evaluate db = .ok state) (hb : state.bounds = some b) :
    (∃ c ∈ db.candleRows, c.time = b.1) ∧ ∃ c ∈ db.candleRows, c.time = b.2 := by
  obtain ⟨-, -, hstart, hend⟩ := CandleTable.new_eq_ok h
  rw [PriceHistoryState.boundStart, hb, Option.map_some, eq_comm] at hstart
  rw [PriceHistoryState.boundEnd, hb, Option.map_some, eq_comm] at hend
  have hearliest := (CandleTable.getEarliest_eq_some.mp hstart).1
  have hlatest := (CandleTable.getLatest_eq_some.mp hend).1
  exact ⟨CandleTable.stored_iff.mp hearliest, CandleTable.stored_iff.mp hlatest⟩

theorem available_within {state : PriceHistoryState} {lo hi : ℤ}
    (h : state.isRangeAvailable lo hi = .ok true) :
    ∃ b, state.bounds = some b ∧ b.1 ≤ lo ∧ hi ≤ b.2 := by
  unfold PriceHistoryState.isRangeAvailable at h
  split_ifs at h
  cases hb : state.bounds with
  | none => simp [hb] at h
  | some b =>
      simp only [hb, Except.ok.injEq, Bool.and_eq_true, decide_eq_true_eq] at h
      exact ⟨b, rfl, h.1⟩

theorem Unbroken.holeFree {db : Database} (h : Unbroken db) : HoleFree db := by
  intro state hstate lo hi havail
  obtain ⟨b, hb, hlo, hhi⟩ := available_within havail
  obtain ⟨⟨c₁, hc₁, h₁⟩, c₂, hc₂, h₂⟩ := bounds_stored hstate hb
  exact (h c₁ hc₁ c₂ hc₂).mono (h₁ ▸ hlo) (h₂ ▸ hhi)

theorem minuteDatabase_unbroken {n count : ℕ} (h : n + count ≤ 100000000) :
    Unbroken (minuteDatabase n count h) := by
  intro a ha b hb t ht hlo hhi
  obtain ⟨i, hi, rfl⟩ := (mem_minuteDatabase h).mp ha
  obtain ⟨j, hj, rfl⟩ := (mem_minuteDatabase h).mp hb
  simp only [Executor.minuteCandle, Duration.minutes] at hlo hhi
  simp only [isRoundMinute, floorMinute, beq_iff_eq] at ht
  refine ⟨Executor.minuteCandle (n + (t / 60000000000 - n).toNat) 100000 101000 99000 100500,
    (mem_minuteDatabase h).mpr ⟨_, by omega, rfl⟩, ?_⟩
  simp only [Executor.minuteCandle, Duration.minutes]
  omega

/-- An evaluator that asks for candles and signals nothing of them. -/
def listener (resolution : OhlcResolution) (period : Period)
    (h : period.asDuration resolution ≤ Lookback.MAX) : SignalEvaluator Unit Unit where
  lookback := .ok (some ⟨resolution, period, h⟩)
  minIterationInterval := .ok shortestInterval
  evaluate _ memory := (memory, .ok ())

def idleOperator : SignalOperator Refusal Unit Unit where
  setTradeExecutor memory := (memory, .ok ())
  processSignal _ memory := .done (memory, .ok ())

/-- The second day of 1970 and no earlier history, heard through a one-day candle and
through 24 one-hour candles. -/
def heardDay : BacktestEngine Refusal Unit Unit where
  config := referenceConfig
  db := secondDay
  operatorPending := .signal
    ⟨[listener .oneDay onePeriod (by decide),
      listener .oneHour ⟨24, by decide, by decide⟩ (by decide)], idleOperator, (), _, rfl⟩
  startTime := Duration.minutes 1440
  startBalance := 10000000
  endTime := Duration.minutes 2880
  period := secondDay_period
  history := eq_ok_of_isOk (by decide +kernel)
  settlements := secondDay_settlements

theorem warmed_up_iff_heardDay : ∃ steps s m,
    runFor heardDay referenceSdk Uuid.mk 1 = some (steps, s) ∧ m ∈ heardDay.db.candleRows ∧
      ∀ l candles, (some l, candles) ∈ handed s.operator s.replay.timeCursor
          s.replay.consolidator →
        (Warm l m candles ↔
          l.period.asUsize ≤ (filledBuckets heardDay l.resolution m).length) ∧
        (HoleFree heardDay.db → checkedFrom heardDay ≤
            stepBackCandles heardDay.startTime l.resolution (l.period.asInt - 1) →
          Warm l m candles) := by
  obtain ⟨steps, s, -, hrun, -, -⟩ :=
    runFor_current heardDay referenceSdk Uuid.mk 1 (fun _ _ => True) (by decide +kernel)
  obtain ⟨m, hm, -, hiff⟩ := warmed_up_iff heardDay referenceSdk Uuid.mk (runFor_run hrun)
  exact ⟨steps, s, m, hrun, hm, hiff⟩

/-- Fewer candles than were asked for. -/
def isShort {ε : Type} (lookback : Option Lookback)
    (candles : Except (BacktestError ε) (List OhlcCandleRow)) : Bool :=
  match lookback, candles with
  | some l, .ok rows => rows.length < l.period.asUsize
  | _, _ => false

theorem not_warm_of_isShort {l : Lookback}
    {candles : Except (BacktestError ε) (List OhlcCandleRow)}
    (h : isShort (some l) candles = true) (m : OhlcCandleRow) : ¬ Warm l m candles := by
  rintro ⟨rows, rfl, hlen, -⟩
  simp only [isShort, decide_eq_true_eq] at h
  omega

/-- At its first call the evaluator of 24 hours is handed one candle: the check has asked
for the one day alone. -/
theorem first_call_is_short : HoleFree heardDay.db ∧ ∃ s l candles,
    (system heardDay referenceSdk Uuid.mk).Run [] s ∧
      (some l, candles) ∈ handed s.operator s.replay.timeCursor s.replay.consolidator ∧
      ∀ m, ¬ Warm l m candles := by
  refine ⟨(minuteDatabase_unbroken (by decide)).holeFree, ?_⟩
  obtain ⟨steps, s, first, hrun, -, hshort⟩ :=
    runFor_current heardDay referenceSdk Uuid.mk 0
      (fun s _ => (handed s.operator s.replay.timeCursor s.replay.consolidator).any
        (fun x => isShort x.1 x.2) = true) (by decide +kernel)
  obtain ⟨⟨lookback, candles⟩, hmem, hx⟩ := List.any_eq_true.mp hshort
  cases lookback with
  | none => simp [isShort] at hx
  | some l =>
      obtain rfl := steps_of_runFor_zero hrun
      exact ⟨s, l, candles, runFor_run hrun, hmem, not_warm_of_isShort hx⟩

end Quantoxide.Engine
