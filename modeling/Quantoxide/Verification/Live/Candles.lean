import Quantoxide.Model.LiveCandles
import Quantoxide.Verification.Engine.Windows

/-! # Live and backtest candles

The query a live operator asks for and the buffer of a consolidator are two ways to the same
buckets. What both show of a bucket does not depend on whether it is complete. -/

namespace Quantoxide.Live

open DateTime Result Consolidator Engine

variable {db : Database} {r : OhlcResolution} {cs : List OhlcCandleRow} {c : OhlcCandleRow}
  {t now lo : ℤ} {l : Lookback}

/-- Time, open, high, low, close and volume. -/
def quote (c : OhlcCandleRow) : ℤ × F64 × F64 × F64 × F64 × Int64 :=
  (c.time, c.openPrice, c.high, c.low, c.close, c.volume)

/-! ### Buckets -/

theorem epoch_of_round (ht : isRoundMinute t = true) (h0 : 0 ≤ t) :
    Sql.epoch t = timestamp t := by
  simp only [isRoundMinute, floorMinute, beq_iff_eq] at ht
  rw [Sql.epoch, if_pos h0, timestamp]
  omega

theorem epochBucket_eq (r : OhlcResolution) (ht : isRoundMinute t = true) (h0 : 0 ≤ t) :
    Sql.epochBucket r.asSeconds t = floorToResolution t r := by
  rw [Sql.epochBucket, epoch_of_round ht h0, floorToResolution]

theorem dateTruncDay_eq (h0 : 0 ≤ t) : Sql.dateTruncDay t = floorToResolution t .oneDay := by
  have hday : bucketLength .oneDay = 86400000000000 := by decide
  rw [floor_of_nonneg _ h0, hday, Sql.dateTruncDay]
  omega

/-! ### One bucket -/

/-- The wrapped sum of volumes is the exact one, wrapped. -/
theorem sum_eq_ofInt (vs : List Int64) : vs.sum = Int64.ofInt (vs.map Int64.toInt).sum := by
  induction vs with
  | nil => rfl
  | cons v vs ih =>
      rw [List.sum_cons, ih, List.map_cons, List.sum_cons, Int64.ofInt_add, Int64.ofInt_toInt]

/-- The total volume of a bucket fits a `BIGINT`. -/
def Fits (group : List OhlcCandleRow) : Prop :=
  I64.InRange ((group.map (·.volume)).map Int64.toInt).sum

theorem sumBigint_eq_ok {vs : List Int64} {v : Int64} :
    Sql.sumBigint vs = .ok v ↔ I64.InRange (vs.map Int64.toInt).sum ∧ v = vs.sum := by
  rw [Sql.sumBigint, sum_eq_ofInt]
  by_cases h : I64.InRange (vs.map Int64.toInt).sum
  · simp [I64.checked, h, @eq_comm _ v]
  · simp [I64.checked, h]

theorem head?_mergeSort_asc (hf : Feed cs) :
    (cs.mergeSort fun a b => a.time ≤ b.time).head? = cs.head? := by
  rw [List.mergeSort_of_pairwise]
  exact hf.ascending.imp fun h => by simpa using h.le

theorem sorted_desc (cs : List OhlcCandleRow) :
    (cs.mergeSort fun a b => b.time ≤ a.time).Pairwise (fun a b => b.time ≤ a.time) := by
  have htrans : ∀ a b c : OhlcCandleRow, decide (b.time ≤ a.time) = true →
      decide (c.time ≤ b.time) = true → decide (c.time ≤ a.time) = true := by
    intro a b c hab hbc
    simp only [decide_eq_true_eq] at hab hbc ⊢
    exact hbc.trans hab
  have htotal : ∀ a b : OhlcCandleRow,
      (decide (b.time ≤ a.time) || decide (a.time ≤ b.time)) = true := by
    intro a b
    simpa only [Bool.or_eq_true, decide_eq_true_eq] using le_total b.time a.time
  exact (List.pairwise_mergeSort htrans htotal cs).imp fun h => by simpa using h

/-- The first of a feed's candles in descending order is its last. -/
theorem head?_mergeSort_desc (hf : Feed cs) :
    (cs.mergeSort fun a b => b.time ≤ a.time).head? = cs.getLast? := by
  have hperm : (cs.mergeSort fun a b => b.time ≤ a.time).Perm cs.reverse :=
    (List.mergeSort_perm _ _).trans (List.reverse_perm cs).symm
  have hrev : cs.reverse.Pairwise (fun a b => b.time ≤ a.time) :=
    List.pairwise_reverse.mpr (hf.ascending.imp fun h => h.le)
  have hsorted : (cs.mergeSort fun a b => b.time ≤ a.time) = cs.reverse := by
    refine List.Perm.eq_of_pairwise ?_ (sorted_desc cs) hrev hperm
    intro a b ha hb hab hba
    have hasc : Timeline.Ascending (·.time) cs := hf.ascending
    exact hasc.eq_of_key_eq (List.mem_mergeSort.mp ha) (List.mem_reverse.mp hb)
      (le_antisymm hba hab)
  rw [hsorted, List.head?_reverse]

/-- The selected row shows what the batch row shows. -/
theorem bucketRow_quote {resolution toTime b : ℤ} {row : OhlcCandleRow} (hf : Feed cs)
    (h : Database.bucketRow resolution toTime b cs = .ok row) :
    quote row = quote (aggregate b cs true) := by
  simp only [Database.bucketRow, bind_eq_ok, pure_eq_ok, sumBigint_eq_ok] at h
  obtain ⟨v, ⟨-, rfl⟩, rfl⟩ := h
  simp only [quote, aggregate, head?_mergeSort_asc hf, head?_mergeSort_desc hf]

theorem bucketRow_isOk {resolution toTime b : ℤ} :
    (∃ row, Database.bucketRow resolution toTime b cs = .ok row) ↔ Fits cs := by
  simp only [Database.bucketRow, bind_eq_ok, pure_eq_ok, sumBigint_eq_ok]
  constructor
  · rintro ⟨_, _, ⟨hfits, -⟩, -⟩
    exact hfits
  · intro hfits
    exact ⟨_, _, ⟨hfits, rfl⟩, rfl⟩

/-! ### The query -/

/-- The query groups by the bucket a consolidator floors to, and its order is the feed's. -/
theorem groupByBucket_eq {bucket : ℤ → ℤ} {resolution fromTime toTime : ℤ}
    (hbucket : ∀ t, isRoundMinute t = true → 0 ≤ t → bucket t = floorToResolution t r) :
    db.groupByBucket bucket resolution fromTime toTime =
      (Groups.keys (bucketOf r) (db.getCandles fromTime toTime)).mapM fun b =>
        Database.bucketRow resolution toTime b
          (Groups.group (bucketOf r) (db.getCandles fromTime toTime) b) := by
  have hf := getCandles_feed db fromTime toTime
  have hsame : ∀ c ∈ db.getCandles fromTime toTime, bucket c.time = bucketOf r c := fun c hc =>
    hbucket c.time (hf.minutes c hc).round (hf.minutes c hc).epoch_le
  have hkeys : Groups.keys (fun c => bucket c.time) (db.getCandles fromTime toTime) =
      Groups.keys (bucketOf r) (db.getCandles fromTime toTime) := by
    rw [Groups.keys, Groups.keys, List.map_congr_left hsame]
  have hgroup : ∀ b, Groups.group (fun c => bucket c.time) (db.getCandles fromTime toTime) b =
      Groups.group (bucketOf r) (db.getCandles fromTime toTime) b := by
    intro b
    apply List.filter_congr
    intro c hc
    simp only [hsame c hc]
  have hsorted : (Groups.keys (bucketOf r) (db.getCandles fromTime toTime)).mergeSort
      (fun a b => a ≤ b) = Groups.keys (bucketOf r) (db.getCandles fromTime toTime) := by
    apply List.mergeSort_of_pairwise
    exact (hf.buckets_ascending r).imp fun h => by simpa using h.le
  simp only [Database.groupByBucket, hkeys, hgroup, hsorted]

/-- What the rows of the batch show. -/
theorem batch_quotes (r : OhlcResolution) (cs : List OhlcCandleRow) :
    (batch r cs).map quote = (Groups.keys (bucketOf r) cs).map fun b =>
      quote (aggregate b (Groups.group (bucketOf r) cs b) true) := by
  rw [batch, List.map_map]
  rfl

theorem batch_oneMinute_quotes (hf : Feed cs) : (batch .oneMinute cs).map quote = cs.map quote := by
  rw [batch_quotes, keys_oneMinute hf, List.map_map]
  apply List.map_congr_left
  intro c hc
  simp only [Function.comp_apply, group_oneMinute hf hc, aggregate_oneMinute]

theorem view_quotes (r : OhlcResolution) (fresh : Bool) (hf : Feed cs) :
    (view r fresh cs).map quote = (batch r cs).map quote := by
  unfold view
  split_ifs with h
  · rw [h.1, batch_oneMinute_quotes hf]
  · rfl

/-- Every bucket the query aggregates has a volume it can return. -/
def VolumesFit (db : Database) (r : OhlcResolution) (fromTime toTime : ℤ) : Prop :=
  r ≠ .oneMinute → ∀ b ∈ Groups.keys (bucketOf r) (db.getCandles fromTime toTime),
    Fits (Groups.group (bucketOf r) (db.getCandles fromTime toTime) b)

instance (group : List OhlcCandleRow) : Decidable (Fits group) :=
  inferInstanceAs (Decidable (I64.InRange _))

instance (db : Database) (r : OhlcResolution) (fromTime toTime : ℤ) :
    Decidable (VolumesFit db r fromTime toTime) :=
  inferInstanceAs (Decidable (_ → _))

/-- The consolidating query answers unless a volume overflows, with what the batch shows. -/
theorem getCandlesConsolidated_spec (db : Database) (r : OhlcResolution) (fromTime toTime : ℤ) :
    ((∃ rows, db.getCandlesConsolidated fromTime toTime r = .ok rows) ↔
      VolumesFit db r fromTime toTime) ∧
    ∀ rows, db.getCandlesConsolidated fromTime toTime r = .ok rows →
      rows.map quote = (batch r (db.getCandles fromTime toTime)).map quote := by
  have hgroups : ∀ (bucket : ℤ → ℤ) (resolution : ℤ), r ≠ .oneMinute →
      (∀ t, isRoundMinute t = true → 0 ≤ t → bucket t = floorToResolution t r) →
      ((∃ rows, db.groupByBucket bucket resolution fromTime toTime = .ok rows) ↔
        VolumesFit db r fromTime toTime) ∧
      ∀ rows, db.groupByBucket bucket resolution fromTime toTime = .ok rows →
        rows.map quote = (batch r (db.getCandles fromTime toTime)).map quote := by
    intro bucket resolution hr hbucket
    rw [groupByBucket_eq hbucket, mapM_isOk]
    refine ⟨?_, ?_⟩
    · simp only [bucketRow_isOk, VolumesFit, hr, ne_eq, not_false_eq_true, forall_const]
    · intro rows hrows
      have hf := getCandles_feed db fromTime toTime
      rw [batch_quotes]
      exact map_eq_of_mapM
        (fun b _ row hrow => bucketRow_quote (hf.sublist (Groups.group_sublist b)) hrow) hrows
  have hepoch : ∀ t, isRoundMinute t = true → 0 ≤ t →
      Sql.epochBucket r.asSeconds t = floorToResolution t r :=
    fun t ht h0 => epochBucket_eq r ht h0
  cases r with
  | oneMinute =>
      refine ⟨⟨fun _ hne => absurd rfl hne, fun _ => ⟨_, rfl⟩⟩, ?_⟩
      intro rows hrows
      obtain rfl := Except.ok.inj hrows
      exact (batch_oneMinute_quotes (getCandles_feed db fromTime toTime)).symm
  | oneDay => exact hgroups _ _ (by decide) fun t _ h0 => dateTruncDay_eq h0
  | _ => exact hgroups _ _ (by decide) hepoch

/-! ### The window -/

/-- Where the live operator's query starts. -/
def liveFrom (l : Lookback) (now : ℤ) : ℤ :=
  stepBackCandles (floorToResolution now l.resolution) l.resolution (l.period.asInt - 1)

theorem liveFrom_eq (l : Lookback) (h : 0 ≤ now) :
    liveFrom l now = bucketBack l.resolution now (l.period.asUsize - 1) := by
  have hfloor : floorToResolution (floorToResolution now l.resolution) l.resolution =
      floorToResolution now l.resolution := by
    have hzero : bucketBack l.resolution now 0 = floorToResolution now l.resolution := by
      simp [bucketBack]
    have hback := bucketBack_floor l.resolution 0 h (by rw [hzero]; exact floor_nonneg _ h)
    rwa [hzero] at hback
  rw [← stepBack_eq, liveFrom, stepBackCandles, stepBackCandles, hfloor]

/-- A consolidator that has read the minutes up to now shows what the live operator fetches:
the minutes from `liveFrom` on are stored, and it has read from there or before. -/
theorem live_candles_are_backtest_candles (db : Database) (l : Lookback) {timeCursor : ℤ}
    {initial pushed : List OhlcCandleRow} (hepoch : 0 ≤ now)
    (hstored : Stored db.candleRows (liveFrom l now) now) (hlo : lo ≤ liveFrom l now)
    (hread : initial ++ pushed = db.getCandles lo now)
    (hcursor : ∀ c ∈ initial, c.time < timeCursor) :
    ∃ s s', RuntimeConsolidator.new l initial timeCursor = .ok s ∧
      s.pushAll pushed = (s', .ok ()) ∧
      ((∃ rows, fetchCandles db (some l) now = .ok rows) ↔
        VolumesFit db l.resolution (liveFrom l now) now) ∧
      ∀ rows, fetchCandles db (some l) now = .ok rows →
        s'.getCandles.map quote = rows.map quote := by
  have hp := l.period.asUsize_pos
  have hback := liveFrom_eq l hepoch
  have hround := bucketBack_round l.resolution (l.period.asUsize - 1) hepoch
  have hle := bucketBack_le l.resolution (l.period.asUsize - 1) hepoch
  rw [← hback] at hround hle
  obtain ⟨first, hfirst, hfirstTime⟩ := hstored _ hround le_rfl hle
  have hnonneg : 0 ≤ liveFrom l now := by
    rw [← hfirstTime]
    exact ((candleRows_feed db).minutes first hfirst).epoch_le
  have hfeed : Feed (initial ++ pushed) := hread ▸ getCandles_feed db lo now
  have hne : initial ++ pushed ≠ [] := by
    rw [hread]
    exact List.ne_nil_of_mem (mem_getCandles.mpr
      ⟨hfirst, hfirstTime ▸ hlo, hfirstTime ▸ hle⟩)
  obtain ⟨s, s', fresh, hnew, hpush, hholds⟩ := new_pushAll_holds l hfeed hne hcursor
  obtain ⟨hok, hrows⟩ := getCandlesConsolidated_spec db l.resolution (liveFrom l now) now
  refine ⟨s, s', hnew, hpush, hok, ?_⟩
  intro rows hfetch
  rw [hrows rows hfetch, ← view_quotes l.resolution fresh (getCandles_feed db _ _),
    hholds.getCandles, hread]
  rw [hback] at hlo hstored hnonneg ⊢
  -- The window sees no further back than the query, and the query returns no more than it.
  rw [rtake_view_from hp hepoch hnonneg hlo hstored, Window.rtake_of_length_le]
  rw [length_view _ _ (getCandles_feed db _ _)]
  exact length_keys_le hp hepoch hnonneg fun c hc => (mem_getCandles.mp hc).2

/-- Two buckets of three minutes, the second in progress. -/
def twoBuckets : Lookback := ⟨.threeMinutes, twoPeriods, by decide⟩

theorem live_candles_are_backtest_candles_twoBuckets :
    ∃ s s', RuntimeConsolidator.new twoBuckets [] 0 = .ok s ∧
      s.pushAll ((minuteDatabase 0 20 (by decide)).getCandles 0 (Duration.seconds 450)) =
        (s', .ok ()) ∧
      ((∃ rows, fetchCandles (minuteDatabase 0 20 (by decide)) (some twoBuckets)
        (Duration.seconds 450) = .ok rows) ↔
        VolumesFit (minuteDatabase 0 20 (by decide)) .threeMinutes
          (liveFrom twoBuckets (Duration.seconds 450)) (Duration.seconds 450)) ∧
      ∀ rows, fetchCandles (minuteDatabase 0 20 (by decide)) (some twoBuckets)
        (Duration.seconds 450) = .ok rows → s'.getCandles.map quote = rows.map quote :=
  live_candles_are_backtest_candles (minuteDatabase 0 20 (by decide)) twoBuckets (by decide)
    ((minuteDatabase_unbroken (by decide) _
      ((mem_minuteDatabase (by decide)).mpr ⟨0, by decide, rfl⟩) _
      ((mem_minuteDatabase (by decide)).mpr ⟨19, by decide, rfl⟩)).mono (by decide) (by decide))
    (by decide) (List.nil_append _) (by simp)

end Quantoxide.Live
