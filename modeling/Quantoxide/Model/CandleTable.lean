import Quantoxide.Library.Timeline
import Quantoxide.Model.Database
import Quantoxide.Model.Sdk

/-! # Writing the candle table

What `add_candles`, `remove_gap_flag` and `flag_missing_candles` leave of the table. Each
runs in one transaction, so a call that fails leaves the table as it was. -/

namespace Quantoxide

open DateTime

/-- The readings of `Utc::now()` and of `NOW()` in one call. -/
structure Clock where
  utcNow : ℤ
  transactionNow : ℤ
  min_le : minUtc ≤ transactionNow
  le_max : transactionNow ≤ maxUtc
deriving DecidableEq

/-- `OhlcCandle` of the API. -/
structure OhlcCandle where
  time : ℤ
  openPrice : Price
  high : Price
  low : Price
  close : Price
  volume : UInt64
  epoch_le : 0 ≤ time
  time_le : time ≤ maxUtc
deriving DecidableEq

def CANDLE_STABLE_AGE : ℤ := Duration.hours 1

/-- The check that times are round minutes in descending order, made of a batch before it is
written and of a page of the API. -/
def checkMinutesDesc {ε : Type} (notRounded : ε) (notDescending : ℤ → ε) :
    List OhlcCandle → Except ε Unit
  | [] => .ok ()
  | [last] =>
    if second last.time ≠ 0 ∨ nanosecond last.time ≠ 0 then .error notRounded else .ok ()
  | current :: next :: rest =>
    if second current.time ≠ 0 ∨ nanosecond current.time ≠ 0 then .error notRounded
    else if next.time ≥ current.time then .error (notDescending next.time)
    else checkMinutesDesc notRounded notDescending (next :: rest)

theorem isRoundMinute_of_seconds {t : ℤ} (h : ¬ (second t ≠ 0 ∨ nanosecond t ≠ 0)) :
    isRoundMinute t = true := by
  simp only [ne_eq, not_or, not_not, second, nanosecond] at h
  simp only [isRoundMinute, floorMinute, beq_iff_eq]
  omega

/-- A checked list is a descending one of round minutes. -/
theorem checkMinutesDesc_eq_ok {ε : Type} {notRounded : ε} {notDescending : ℤ → ε}
    {cs : List OhlcCandle} (h : checkMinutesDesc notRounded notDescending cs = .ok ()) :
    (∀ c ∈ cs, isRoundMinute c.time = true) ∧ cs.Pairwise (fun a b => b.time < a.time) := by
  induction cs with
  | nil => exact ⟨by simp, List.Pairwise.nil⟩
  | cons c cs ih =>
      cases cs with
      | nil =>
          simp only [checkMinutesDesc] at h
          split_ifs at h with hround
          exact ⟨by simpa using isRoundMinute_of_seconds hround, List.pairwise_singleton _ c⟩
      | cons d cs =>
          simp only [checkMinutesDesc] at h
          split_ifs at h with hround hdesc
          obtain ⟨hrounds, hpair⟩ := ih h
          have hlt := not_le.mp hdesc
          refine ⟨List.forall_mem_cons.mpr ⟨isRoundMinute_of_seconds hround, hrounds⟩, ?_⟩
          refine List.pairwise_cons.mpr ⟨?_, hpair⟩
          intro e he
          rcases List.mem_cons.mp he with rfl | he
          · exact hlt
          · exact ((List.pairwise_cons.mp hpair).1 e he).trans hlt

namespace CandleRecord

/-- The right-hand side of a `SET`. -/
inductive Assignment
  | gap (value : Bool)
  | stable (value : Bool)

/-- A row that an `UPDATE` touches; the trigger stamps it. -/
def touch (clock : Clock) (assignment : Assignment) (r : CandleRecord) : CandleRecord :=
  match assignment with
  | .gap value => { row := { r.row with updatedAt := clock.transactionNow }, gap := value }
  | .stable value =>
    { r with row := { r.row with stable := value, updatedAt := clock.transactionNow } }

/-- The row an `INSERT` makes of a new candle. -/
def ofCandle (clock : Clock) (c : OhlcCandle) (gap stable : Bool) : CandleRecord where
  row :=
    { time := c.time
      openPrice := c.openPrice.asF64
      high := c.high.asF64
      low := c.low.asF64
      close := c.close.asF64
      volume := c.volume.toInt64
      createdAt := clock.transactionNow
      updatedAt := clock.transactionNow
      stable }
  gap

/-- `ON CONFLICT (time) DO UPDATE … WHERE`: a row that differs takes the new values. -/
def onConflict (excluded existing : CandleRecord) : CandleRecord :=
  if existing.row.openPrice ≠ excluded.row.openPrice ∨ existing.row.high ≠ excluded.row.high ∨
      existing.row.low ≠ excluded.row.low ∨ existing.row.close ≠ excluded.row.close ∨
      existing.row.volume ≠ excluded.row.volume ∨ existing.gap ≠ excluded.gap ∨
      existing.row.stable ≠ excluded.row.stable then
    { excluded with row := { excluded.row with
      time := existing.row.time, createdAt := existing.row.createdAt } }
  else existing

theorem time_touch (clock : Clock) (assignment : Assignment) (r : CandleRecord) :
    (r.touch clock assignment).row.time = r.row.time := by
  cases assignment <;> rfl

theorem touch_isMinute {clock : Clock} {assignment : Assignment} {r : CandleRecord}
    (h : r.row.IsMinute) : (r.touch clock assignment).row.IsMinute := by
  cases assignment <;> exact ⟨h.round, h.epoch_le, h.time_le, h.created_le, clock.min_le⟩

theorem ofCandle_isMinute {clock : Clock} {c : OhlcCandle} {gap stable : Bool}
    (h : isRoundMinute c.time = true) : (ofCandle clock c gap stable).row.IsMinute :=
  ⟨h, c.epoch_le, c.time_le, clock.le_max, clock.min_le⟩

theorem time_onConflict (excluded existing : CandleRecord) :
    (onConflict excluded existing).row.time = existing.row.time := by
  unfold onConflict
  split_ifs <;> rfl

theorem onConflict_isMinute {excluded existing : CandleRecord} (h : excluded.row.IsMinute)
    (h' : existing.row.IsMinute) : (onConflict excluded existing).row.IsMinute := by
  unfold onConflict
  split_ifs
  · exact ⟨h'.round, h'.epoch_le, h'.time_le, h'.created_le, h.le_updated⟩
  · exact h'

end CandleRecord

inductive DbError
  | query
  | newDbCandlesTimesNotRoundedToMinute
  | newDbCandlesNotOrderedByTimeDesc (inconsistencyAt : ℤ)
  | invalidFundingSettlementTime (time : ℤ)
deriving DecidableEq, Repr

namespace Database

variable (db : Database) (clock : Clock)

/-- `UPDATE ohlc_candles SET … WHERE …`. -/
def updateWhere (assignment : CandleRecord.Assignment) (selects : CandleRecord → Bool) :
    Database where
  ohlcCandles := db.ohlcCandles.map fun r => if selects r then r.touch clock assignment else r
  fundingSettlements := db.fundingSettlements
  candlesAscending := by
    rw [List.pairwise_map]
    refine db.candlesAscending.imp fun h => ?_
    split_ifs <;> simpa only [CandleRecord.time_touch] using h
  candlesMinutes := by
    intro c hc
    obtain ⟨r, hr, rfl⟩ := List.mem_map.mp hc
    split_ifs
    · exact CandleRecord.touch_isMinute (db.candlesMinutes r hr)
    · exact db.candlesMinutes r hr
  settlementsAscending := db.settlementsAscending

/-- Inserts a row, or resolves its conflict with the row of the same time. -/
def insertCandle (r : CandleRecord) (hr : r.row.IsMinute) : Database where
  ohlcCandles := Timeline.upsert (fun r : CandleRecord => r.row.time) CandleRecord.onConflict r
    db.ohlcCandles
  fundingSettlements := db.fundingSettlements
  candlesAscending := by
    apply Timeline.Ascending.upsert _ db.candlesAscending
    intro x hx
    rw [CandleRecord.time_onConflict, hx]
  candlesMinutes := by
    intro c hc
    rcases Timeline.mem_of_mem_upsert hc with rfl | ⟨x, hx, -, rfl⟩ | hc
    · exact hr
    · exact CandleRecord.onConflict_isMinute hr (db.candlesMinutes x hx)
    · exact db.candlesMinutes c hc
  settlementsAscending := db.settlementsAscending

/-- The batch upsert of candles with their gap flags. -/
def insertCandles (clock : Clock) (stableCutoff : ℤ) :
    Database → (batch : List (OhlcCandle × Bool)) →
      (∀ e ∈ batch, isRoundMinute e.1.time = true) → Database
  | db, [], _ => db
  | db, (c, gap) :: batch, h =>
    insertCandles clock stableCutoff
      (insertCandle db (.ofCandle clock c gap (c.time ≤ stableCutoff))
        (CandleRecord.ofCandle_isMinute (h _ List.mem_cons_self)))
      batch fun e he => h e (List.mem_cons_of_mem _ he)

/-- The flags of a batch: only the oldest candle may carry one. -/
def batchGaps (newCandles : List OhlcCandle) (beforePeriodCandleExists : Bool) : List Bool :=
  (List.replicate newCandles.length false).set (newCandles.length - 1) !beforePeriodCandleExists

/-- `UPDATE ohlc_candles SET gap = false WHERE time = $1`. -/
def removeGapFlag (time : ℤ) : Database :=
  db.updateWhere clock (.gap false) fun r => r.row.time = time

/-- `SELECT EXISTS(SELECT 1 FROM ohlc_candles WHERE time = $1 AND stable = true)`. -/
def stableExists (time : ℤ) : Bool :=
  db.candleRows.any fun c => decide (c.time = time) && c.stable

def addCandles (beforeCandleTime : Option ℤ) (newCandles : List OhlcCandle) :
    Except DbError Database :=
  match newCandles.getLast? with
  | none => .ok db
  | some last =>
    match h : checkMinutesDesc DbError.newDbCandlesTimesNotRoundedToMinute
        DbError.newDbCandlesNotOrderedByTimeDesc newCandles with
    | .error e => .error e
    | .ok () =>
      let periodStart := last.time
      let cleared := match beforeCandleTime with
        | some time => db.removeGapFlag clock time
        | none => db
      let beforePeriodTime := periodStart - Duration.minutes 1
      let beforePeriodCandleExists := cleared.stableExists beforePeriodTime
      let gaps := batchGaps newCandles beforePeriodCandleExists
      let stableCutoff := clock.utcNow - CANDLE_STABLE_AGE
      .ok (insertCandles clock stableCutoff cleared (newCandles.zip gaps) fun e he =>
        (checkMinutesDesc_eq_ok h).1 e.1 (List.of_mem_zip he).1)

/-! ### Missing candles -/

/-- The stable candles since the cutoff whose next candle is stable, more than a minute later
and not flagged. -/
def gapAfterTimes (cutoffTime : ℤ) : List ℤ :=
  db.ohlcCandles.filterMap fun c1 =>
    match (db.ohlcCandles.filter fun c => c1.row.time < c.row.time).head? with
    | none => none
    | some c2 =>
      if c1.row.time ≥ cutoffTime ∧ c1.row.stable = true ∧
          c2.row.time > c1.row.time + Duration.minutes 1 ∧ c2.row.stable = true ∧
          c2.gap = false then
        some c1.row.time
      else none

/-- The candles since the cutoff up to a time, and those after it. -/
def upTo (cutoffTime gapTime : ℤ) : List CandleRecord :=
  db.ohlcCandles.filter fun c => cutoffTime ≤ c.row.time ∧ c.row.time ≤ gapTime

def afterGap (cutoffTime gapTime : ℤ) : List CandleRecord :=
  db.ohlcCandles.filter fun c => cutoffTime ≤ c.row.time ∧ gapTime < c.row.time

/-- The five candles before and the five after each gap. -/
def unstableTimes (cutoffTime : ℤ) (gapTimes : List ℤ) : List ℤ :=
  gapTimes.flatMap fun gapTime =>
    (((db.upTo cutoffTime gapTime).reverse.take 5) ++
      ((db.afterGap cutoffTime gapTime).take 5)).map (·.row.time)

/-- The sixth candle after each gap. -/
def sixthCandles (cutoffTime : ℤ) (gapTimes : List ℤ) : List ℤ :=
  gapTimes.filterMap fun gapTime =>
    ((db.afterGap cutoffTime gapTime).drop 5).head?.map (·.row.time)

/-- The stable candles since the cutoff, not flagged, that follow an unstable one. -/
def unflaggedAfterUnstable (cutoffTime : ℤ) : List ℤ :=
  db.ohlcCandles.filterMap fun c =>
    match (db.ohlcCandles.filter fun p => p.row.time < c.row.time).getLast? with
    | none => none
    | some prev =>
      if c.row.time ≥ cutoffTime ∧ c.row.stable = true ∧ c.gap = false ∧
          prev.row.stable = false then
        some c.row.time
      else none

def flagMissingCandles (range : ℤ) : Database :=
  let cutoffTime := clock.utcNow - range
  let gapTimes := db.gapAfterTimes cutoffTime
  let buffered :=
    if gapTimes.isEmpty then db
    else
      let unstable := db.unstableTimes cutoffTime gapTimes
      let marked := db.updateWhere clock (.stable false) fun r => unstable.contains r.row.time
      let sixth := marked.sixthCandles cutoffTime gapTimes
      marked.updateWhere clock (.gap true) fun r => sixth.contains r.row.time
  let lacking := buffered.unflaggedAfterUnstable cutoffTime
  buffered.updateWhere clock (.gap true) fun r => lacking.contains r.row.time

end Database

end Quantoxide
