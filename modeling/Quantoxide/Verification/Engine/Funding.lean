import Quantoxide.Verification.Engine.Charges
import Quantoxide.Verification.Settlements.Exactness

/-! # Funding of the positions open at settlement

The first turn applies the settlements the first cursor has passed to what the first call of
the operator has left open. Every other settlement of the queue charges positions that were
opened before it. -/

namespace Quantoxide.Engine

open DateTime Result Timeline SimulatedTradeExecutor Executor

variable {ε S ω : Type} {engine : BacktestEngine ε S ω} {sdk : LnmSdk ε} {newV4 : ℕ → Uuid}
  {steps : List LoopStep} {step : LoopStep} {s s' : BacktestState ε S ω} {first : FirstBuffer}

/-! ### Funding on time -/

/-- The settlements of a turn charge what was open at their time. -/
structure ChargesOpen (before : List LoopStep) (step : LoopStep) : Prop where
  trades : ∀ charge ∈ step.settled, ∀ entry ∈ charge.2.runningMap.tradesDesc,
    entry.1.entryTime < charge.1.time
  cross : ∀ charge ∈ step.settled, charge.2.crossPosition.exposure ≠ .neutral →
    ∃ c, crossTradedAt (before ++ [step]) = some c ∧ c < charge.1.time

/-- A settlement is applied once, by the first turn that reaches it. -/
structure AppliedOnce (steps : List LoopStep) (row : FundingSettlementRow) : Prop where
  once : (applied steps).count row = 1
  firstAt : ∃ step, steps.find? (fun step => row.time ≤ minuteEnd step) = some step ∧
    row ∈ step.settled.map (·.1)

/-- Funding is charged to what was open, and each settlement between the first and the last
cursor is applied once, before the candle that reaches it is replayed. -/
structure FundedOnTime (ex : SimulatedTradeExecutor ε) (db : Database) (first last : ℤ)
    (steps : List LoopStep) : Prop where
  charges : ∀ before step, before ++ [step] <+: steps → ChargesOpen before step
  applied : ∀ row ∈ db.fundingSettlements, first < row.time → row.time ≤ last →
    AppliedOnce steps row
  order : ∀ step ∈ steps, ∃ reported charged,
    ex.settle (step.settled.map (·.1)) reported = .ok (step.settled, charged) ∧
      (ex.replayCandle step.candle charged : Except (BacktestError ε) _) = .ok step.updated

/-- What the first call of the operator may leave open, and what the settlements table may
hold, for funding to be on time. -/
structure NothingEarly (engine : BacktestEngine ε S ω) (first : FirstBuffer) (last : ℤ)
    (steps : List LoopStep) : Prop where
  cross : ∀ step ∈ steps.head?, ∀ row ∈ fetched engine, row.time ≤ firstCursor first →
    step.iterated.crossPosition.exposure = .neutral
  trades : ∀ step ∈ steps.head?, ∀ row ∈ fetched engine, row.time ≤ first.startCandle.time →
    step.iterated.runningMap.tradesDesc = []
  fetches : ∀ row ∈ engine.db.fundingSettlements, firstCursor first < row.time →
    row.time ≤ last → row ∈ fetched engine

section Charges

variable {reported charged : SimulatedTradeExecutorState} {replay : Replay}

/-- A charge after the cursor of the turn's iterate is to what was open. -/
theorem Opened.charges {charge : FundingSettlementRow × SimulatedTradeExecutorState}
    (ho : Opened steps s) (hd : Drains engine first steps s)
    (hst : Stages engine sdk newV4 s step s' reported charged replay)
    (hc : charge ∈ step.settled) (hlt : step.timeCursor < charge.1.time) :
    (∀ entry ∈ charge.2.runningMap.tradesDesc, entry.1.entryTime < charge.1.time) ∧
      (charge.2.crossPosition.exposure ≠ .neutral →
        ∃ c, crossTradedAt (steps ++ [step]) = some c ∧ c < charge.1.time) := by
  constructor
  · intro entry he
    have hentered := hst.entered (hst.iterated_entered ho.entered ho.time)
    have hle := (hentered.2.1 charge hc).tradesDesc he
    rw [← hst.timeCursor] at hle
    exact lt_of_le_of_lt hle hlt
  · intro hne
    have hiter : step.iterated.crossPosition.exposure ≠ .neutral :=
      fun hneutral => hne ((hst.neutral hneutral).2.1 charge hc)
    obtain ⟨c, hcross⟩ := ho.iterated hst hiter
    refine ⟨c, hcross, lt_of_le_of_lt ?_ hlt⟩
    obtain ⟨st, hmem, rfl⟩ := crossTradedAt_mem hcross
    rcases List.mem_append.mp hmem with hmem | hmem
    · rw [hst.timeCursor]
      exact (hd.later st hmem).1.le
    · rw [List.mem_singleton.mp hmem]

/-- The first turn's positions were all opened by its iterate, at the start candle's time. -/
theorem first_entered (h : Starts engine sdk newV4 first s)
    (hst : Stages engine sdk newV4 s step s' reported charged replay) :
    EnteredAt (· = first.startCandle.time) step.iterated :=
  hst.iterated_entered (h.executor ▸ enteredAt_new) (start_clock h).1

/-- A settlement the first cursor has passed finds positions the first iterate has left. -/
theorem first_charges {charge : FundingSettlementRow × SimulatedTradeExecutorState}
    (h : Starts engine sdk newV4 first s)
    (hst : Stages engine sdk newV4 s step s' reported charged replay)
    (hc : charge ∈ step.settled)
    (hcross : step.iterated.crossPosition.exposure = .neutral)
    (htrades : charge.1.time ≤ first.startCandle.time → step.iterated.runningMap.tradesDesc = []) :
    (∀ entry ∈ charge.2.runningMap.tradesDesc, entry.1.entryTime < charge.1.time) ∧
      charge.2.crossPosition.exposure = .neutral := by
  refine ⟨?_, (hst.neutral hcross).2.1 charge hc⟩
  intro entry he
  rcases le_or_gt charge.1.time first.startCandle.time with hle | hlt
  · have hnone : EnteredAt (fun _ => False) step.iterated := by
      intro key e hmem
      have hin := mem_tradesDesc.mpr ⟨key, hmem⟩
      rw [htrades hle] at hin
      cases hin
    exact (((hst.entered hnone).2.1 charge hc).tradesDesc he).elim
  · have htime := ((hst.entered (first_entered h hst)).2.1 charge hc).tradesDesc he
    rwa [htime]

end Charges

/-- The first turn of a run, with the states around it. -/
theorem run_first (hfirst : StartsAt engine.db engine.config.bufferSize
      engine.lookbacks.maxLookback engine.startTime first)
    (h : (system engine sdk newV4).Run steps s) (hhead : steps.head? = some step) :
    ∃ first' s₁ s₂ reported charged replay, first'.startCandle = first.startCandle ∧
      Starts engine sdk newV4 first' s₁ ∧
      Stages engine sdk newV4 s₁ step s₂ reported charged replay := by
  obtain ⟨s₁, s₂, hrun, hstep⟩ := h.of_prefix (Runs.System.prefixed_of_head hhead)
  obtain ⟨first', hstart⟩ := start_spec hrun.of_nil
  obtain ⟨reported, charged, replay, hst⟩ := turn_next_iff.mp hstep
  exact ⟨first', s₁, s₂, reported, charged, replay, startsAt_unique hstart.startsAt hfirst, hstart,
    hst⟩

theorem settled_fetched {reported charged : SimulatedTradeExecutorState} {replay : Replay}
    {row : FundingSettlementRow} (hd : Drains engine first steps s)
    (h : RunFollows engine first steps s)
    (hst : Stages engine sdk newV4 s step s' reported charged replay)
    (hrow : row ∈ step.settled.map (·.1)) :
    row ∈ fetched engine ∧ (steps ≠ [] → step.timeCursor < row.time) := by
  obtain ⟨-, -, htake, -⟩ := turn_queue h hst
  rw [htake] at hrow
  have hin := List.takeWhile_subset _ hrow
  constructor
  · rw [← hd.queue]
    exact List.mem_append_right _ hin
  · intro hne
    rw [hst.timeCursor]
    exact hd.rest hne row hin

theorem NothingEarly.charges (hfirst : StartsAt engine.db engine.config.bufferSize
      engine.lookbacks.maxLookback engine.startTime first)
    (h : (system engine sdk newV4).Run steps s) {last : ℤ}
    (hn : NothingEarly engine first last steps) {before : List LoopStep}
    (hpre : before ++ [step] <+: steps) : ChargesOpen before step := by
  obtain ⟨s₁, s₂, reported, charged, replay, hst, hfollows, hdrains, hopened⟩ :=
    run_turn hfirst h hpre
  have hlate {charge : FundingSettlementRow × SimulatedTradeExecutorState}
      (hc : charge ∈ step.settled) (hlt : step.timeCursor < charge.1.time) :=
    hopened.charges hdrains hst hc hlt
  have hfetched {charge : FundingSettlementRow × SimulatedTradeExecutorState}
      (hc : charge ∈ step.settled) := settled_fetched hdrains hfollows hst (List.mem_map_of_mem hc)
  cases before with
  | cons st before =>
      have hall {charge : FundingSettlementRow × SimulatedTradeExecutorState}
          (hc : charge ∈ step.settled) := hlate hc ((hfetched hc).2 (by simp))
      exact ⟨fun charge hc => (hall hc).1, fun charge hc => (hall hc).2⟩
  | nil =>
      have hhead : steps.head? = some step := by
        obtain ⟨rest, rfl⟩ := hpre
        rfl
      obtain ⟨first', s₁', s₂', rep', cha', re', hsame, hstart, hst'⟩ := run_first hfirst h hhead
      have hcursor : step.timeCursor = firstCursor first := by
        rw [hst.timeCursor, hdrains.cursor rfl]
      -- Either the settlement comes after the first cursor, or nothing early is left open.
      have hall : ∀ charge ∈ step.settled,
          (∀ entry ∈ charge.2.runningMap.tradesDesc, entry.1.entryTime < charge.1.time) ∧
          (charge.2.crossPosition.exposure ≠ .neutral →
            ∃ c, crossTradedAt [step] = some c ∧ c < charge.1.time) := by
        intro charge hc
        rcases lt_or_ge step.timeCursor charge.1.time with hlt | hge
        · exact hlate hc hlt
        · have hin := (hfetched hc).1
          obtain ⟨htrades, hneutral⟩ := first_charges hstart hst' hc
            (hn.cross step hhead _ hin (hcursor ▸ hge))
            (fun hle => hn.trades step hhead _ hin (hsame ▸ hle))
          exact ⟨htrades, fun hne => absurd hneutral hne⟩
      exact ⟨fun charge hc => (hall charge hc).1, fun charge hc => (hall charge hc).2⟩

/-- When a settlement has been passed by the first cursor, the first of them finds the
positions the first iterate has left. -/
theorem first_found {reported charged : SimulatedTradeExecutorState} {replay : Replay}
    {row : FundingSettlementRow} (h : Starts engine sdk newV4 first s)
    (hst : Stages engine sdk newV4 s step s' reported charged replay)
    (hrow : row ∈ fetched engine) (hle : row.time ≤ firstCursor first) :
    ∃ found, (found, reported) ∈ step.settled ∧ found.time ≤ row.time := by
  obtain ⟨hfollows, -⟩ := starts_follows h
  have hdrains := starts_drains h
  obtain ⟨-, hlt, htake, -⟩ := turn_queue hfollows hst
  rw [hdrains.cursor rfl] at hlt
  have hqueue := hdrains.queue
  rw [applied_nil, List.nil_append] at hqueue
  rw [← hqueue] at hrow
  cases hq : s.replay.settlements with
  | nil => simp [hq] at hrow
  | cons found rest =>
      have hasc := fetched_ascending engine
      rw [← hqueue, hq] at hasc
      rw [hq] at hrow
      have hmin : found.time ≤ row.time := by
        rcases List.mem_cons.mp hrow with rfl | hmem
        · exact le_rfl
        · exact ((List.pairwise_cons.mp hasc).1 row hmem).le
      have hreach : found.time ≤ minuteEnd step := by omega
      refine ⟨found, settle_head hst.settle ?_, hmin⟩
      rw [← settle_rows hst.settle, htake, hq, List.takeWhile_cons_of_pos (by simpa using hreach)]
      rfl

theorem FundedOnTime.nothingEarly (hfirst : StartsAt engine.db engine.config.bufferSize
      engine.lookbacks.maxLookback engine.startTime first)
    (h : (system engine sdk newV4).Run steps s) {last : ℤ}
    (hf : FundedOnTime (engine.executor sdk newV4) engine.db (firstCursor first) last steps) :
    NothingEarly engine first last steps := by
  refine ⟨?_, ?_, ?_⟩
  · intro step hhead row hrow hle
    obtain ⟨first', s₁, s₂, reported, charged, replay, hsame, hstart, hst⟩ :=
      run_first hfirst h hhead
    have hcur : firstCursor first' = firstCursor first := by rw [firstCursor, firstCursor, hsame]
    obtain ⟨found, hmem, hfound⟩ := first_found hstart hst hrow (hcur ▸ hle)
    by_contra hne
    rw [← (report_positions hst.report).2] at hne
    have hcharges := hf.charges [] step (Runs.System.prefixed_of_head hhead)
    obtain ⟨c, hc, hlt⟩ := hcharges.cross _ hmem hne
    obtain ⟨st, hst', rfl⟩ := crossTradedAt_mem hc
    obtain rfl : st = step := by simpa using hst'
    rw [hst.timeCursor, (starts_drains hstart).cursor rfl, hcur] at hlt
    exact absurd (hlt.trans_le hfound) hle.not_gt
  · intro step hhead row hrow hle
    obtain ⟨first', s₁, s₂, reported, charged, replay, hsame, hstart, hst⟩ :=
      run_first hfirst h hhead
    have hcur : row.time ≤ firstCursor first' := by
      rw [firstCursor, hsame]
      unfold Duration.seconds
      omega
    obtain ⟨found, hmem, hfound⟩ := first_found hstart hst hrow hcur
    rw [List.eq_nil_iff_forall_not_mem]
    intro entry he
    have htime := (first_entered hstart hst).tradesDesc he
    rw [← (report_positions hst.report).1] at he
    have hlt := (hf.charges [] step (Runs.System.prefixed_of_head hhead)).trades _ hmem entry he
    rw [htime, hsame] at hlt
    exact absurd (hlt.trans_le hfound) hle.not_gt
  · intro row hrow hlt hle
    obtain ⟨step, hfind, hmem⟩ := (hf.applied row hrow hlt hle).firstAt
    obtain ⟨before, hpre⟩ := Runs.System.prefixed_of_mem (List.mem_of_find?_eq_some hfind)
    obtain ⟨s₁, s₂, reported, charged, replay, hst, hfollows, hdrains, -⟩ := run_turn hfirst h hpre
    exact (settled_fetched hdrains hfollows hst hmem).1

/-- Funding is on time in exactly the runs whose first iterate leaves nothing open that an
earlier settlement of the queue would charge, and whose queue holds every settlement
between the cursors. -/
theorem funded_on_time_iff (engine : BacktestEngine ε S ω) (sdk : LnmSdk ε) (newV4 : ℕ → Uuid)
    {steps : List LoopStep} {s : BacktestState ε S ω}
    (h : (system engine sdk newV4).Run steps s) :
    ∃ first, StartsAt engine.db engine.config.bufferSize engine.lookbacks.maxLookback
        engine.startTime first ∧
      (FundedOnTime (engine.executor sdk newV4) engine.db (firstCursor first)
          s.replay.timeCursor steps ↔
        NothingEarly engine first s.replay.timeCursor steps) := by
  obtain ⟨first, hfirst, hfollows, hdrains, -⟩ := run_funded h
  refine ⟨first, hfirst, fun hf => hf.nothingEarly hfirst h, fun hn => ⟨?_, ?_, ?_⟩⟩
  · exact fun before step hpre => hn.charges hfirst h hpre
  · intro row hrow hlt hle
    have hin := hn.fetches row hrow hlt hle
    obtain ⟨step, hfind, hmem⟩ := hdrains.firstAt row hin hlt hle
    have hnodup : (applied steps).Nodup :=
      (hdrains.queue ▸ (fetched_ascending engine).nodup).sublist (List.sublist_append_left _ _)
    refine ⟨List.count_eq_one_of_mem hnodup ?_, step, hfind, hmem⟩
    exact List.mem_flatMap.mpr ⟨step, List.mem_of_find?_eq_some hfind, hmem⟩
  · intro step hmem
    obtain ⟨before, hpre⟩ := Runs.System.prefixed_of_mem hmem
    obtain ⟨s₁, s₂, reported, charged, replay, hst, -, -, -⟩ := run_turn hfirst h hpre
    refine ⟨reported, charged, ?_, hst.candle⟩
    rw [settle_rows hst.settle]
    exact hst.settle

/-- A settlement at a valid time between the start and the end is fetched. -/
theorem fetched_of_valid {row : FundingSettlementRow} (hrow : row ∈ engine.db.fundingSettlements)
    (hvalid : isValidFundingSettlementTime row.time = true)
    (hstart : Settlements.RoundsExactly engine.startTime)
    (hend : Settlements.RoundsExactly engine.endTime)
    (hA : LNM_SETTLEMENT_A_START ≤ row.time) (hlo : engine.startTime ≤ row.time)
    (hhi : row.time ≤ engine.endTime) : row ∈ fetched engine :=
  mem_fetched.mpr ⟨hrow, hstart.1.2 ⟨hlo, hvalid⟩, hend.2.2 ⟨hhi, hvalid, hA⟩⟩

/-! ### A start at a settlement -/

/-- Buys 500 dollars at its first iteration. -/
def earlyBuyer : RawOperator Refusal Bool where
  setTradeExecutor bought := (bought, .ok ())
  lookback := .ok none
  minIterationInterval := .ok shortestInterval
  iterate _ bought :=
    if bought then .done (true, .ok ())
    else .call (.isolatedOrder (longOrder 500 2 none)) fun _ => .done (true, .ok ())

/-- The settlement of an eight-hour slot. -/
def slotSettlement (slot : ℕ) : FundingSettlementRow :=
  ⟨Duration.hours (8 * slot), F64.clamp 100000, F64.clamp (1 / 1000)⟩

/-- 2026-01-15, whose first minute opens at a settlement. -/
def settledDay : BacktestEngine Refusal Unit Bool where
  config := referenceConfig
  db := { minuteDatabase 29473920 1441 (by decide) with
    fundingSettlements := [slotSettlement 61404, slotSettlement 61405, slotSettlement 61406,
      slotSettlement 61407]
    settlementsAscending := by decide }
  operatorPending := .raw ⟨earlyBuyer, false, _, rfl⟩
  startTime := Duration.minutes 29473920
  startBalance := 10000000
  endTime := Duration.minutes 29475360
  period := eq_ok_of_isOk (by decide +kernel)
  history := eq_ok_of_isOk (by decide +kernel)
  settlements := eq_ok_of_isOk (by decide +kernel)

theorem funded_on_time_iff_settledDay : ∃ steps s first,
    runFor settledDay referenceSdk Uuid.mk 2 = some (steps, s) ∧
      (FundedOnTime (settledDay.executor referenceSdk Uuid.mk) settledDay.db (firstCursor first)
          s.replay.timeCursor steps ↔
        NothingEarly settledDay first s.replay.timeCursor steps) := by
  obtain ⟨steps, s, -, hrun, -, -⟩ :=
    runFor_current settledDay referenceSdk Uuid.mk 2 (fun _ _ => True) (by decide +kernel)
  obtain ⟨first, -, hiff⟩ := funded_on_time_iff settledDay referenceSdk Uuid.mk (runFor_run hrun)
  exact ⟨steps, s, first, hrun, hiff⟩

/-- A trade charged by a settlement that is not after its entry. -/
def chargedOnEntry (steps : List LoopStep) : Bool :=
  steps.any fun step => step.settled.any fun charge =>
    charge.2.runningMap.tradesDesc.any fun entry => charge.1.time ≤ entry.1.entryTime

theorem ChargesOpen.not_chargedOnEntry
    (h : ∀ before step, before ++ [step] <+: steps → ChargesOpen before step) :
    chargedOnEntry steps = false := by
  simp only [chargedOnEntry, List.any_eq_false, List.any_eq_true, not_exists, not_and,
    decide_eq_true_eq, not_le]
  intro step hstep charge hcharge entry hentry
  obtain ⟨before, hpre⟩ := Runs.System.prefixed_of_mem hstep
  exact (h before step hpre).trades charge hcharge entry hentry

/-- The trade opened at 00:00:00 by the first call, made at 00:00:59, pays the settlement of
00:00:00. -/
theorem opening_trade_charged : ∃ steps s first,
    (system settledDay referenceSdk Uuid.mk).Run steps s ∧
      StartsAt settledDay.db settledDay.config.bufferSize settledDay.lookbacks.maxLookback
        settledDay.startTime first ∧
      ¬ FundedOnTime (settledDay.executor referenceSdk Uuid.mk) settledDay.db (firstCursor first)
        s.replay.timeCursor steps := by
  have hcharged : (runFor settledDay referenceSdk Uuid.mk 1).any
      (fun x => chargedOnEntry x.1) = true := by
    decide +kernel
  cases hrun : runFor settledDay referenceSdk Uuid.mk 1 with
  | none => simp [hrun] at hcharged
  | some x =>
      rw [hrun, Option.any_some] at hcharged
      obtain ⟨first, hfirst, -⟩ := run_follows (runFor_run hrun)
      refine ⟨x.1, x.2, first, runFor_run hrun, hfirst, fun hf => ?_⟩
      rw [ChargesOpen.not_chargedOnEntry hf.charges] at hcharged
      cases hcharged

end Quantoxide.Engine
