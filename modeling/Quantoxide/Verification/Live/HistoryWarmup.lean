import Quantoxide.Verification.Live.Candles
import Quantoxide.Verification.Sync.LiveProgress

/-! # The lookback that the live history leaves an operator

The task measures the lookback in minutes back from the newest candle, the operator's query
counts buckets back from the current one. While the newest candle lies in the current bucket
the first reaches as far back as the second. -/

namespace Quantoxide.Live

open DateTime Consolidator Engine Runs CandleTable Sync SyncPriceHistoryTask

variable {ε : Type} {db db' : Database} {config : SyncPriceHistoryTaskConfig}
  {turns : ℕ → SyncTurn ε} {now now₀ last : ℤ} {l : Lookback}

/-- The lookback before a minute fills the query's window up to it. -/
theorem window_stored (hlast : 0 ≤ last) (hle : last ≤ now)
    (hstored : ∀ m, isRoundMinute m = true → last - l.asDuration ≤ m → m ≤ last →
      ∃ c ∈ db.candleRows, c.time = m) :
    Consolidator.Stored db.candleRows (liveFrom l now) last := by
  have hlt := sub_lt_bucketBack l last
  have hmono := bucketBack_mono l.resolution (l.period.asUsize - 1) hle
  intro m hround hlo hhi
  rw [liveFrom_eq l (hlast.trans hle)] at hlo
  exact hstored m hround (by omega) hhi

/-- A window that is filled up to a minute of the current bucket gives as many candles as the
period. -/
theorem fetched_length {rows : List OhlcCandleRow} (hlast : 0 ≤ last) (hle : last ≤ now)
    (hbucket : floorToResolution last l.resolution = floorToResolution now l.resolution)
    (hstored : Consolidator.Stored db.candleRows (liveFrom l now) last)
    (hfetch : fetchCandles db (some l) now = .ok rows) : rows.length = l.period.asUsize := by
  have hnow := hlast.trans hle
  obtain ⟨-, hrows⟩ := getCandlesConsolidated_spec db l.resolution (liveFrom l now) now
  have hlength : rows.length = (Groups.keys (bucketOf l.resolution)
      (db.getCandles (liveFrom l now) now)).length := by
    have hquotes := congrArg List.length (hrows rows hfetch)
    rwa [batch_quotes, List.length_map, List.length_map] at hquotes
  have hback := liveFrom_eq l hnow
  have hsame : bucketBack l.resolution now (l.period.asUsize - 1) =
      bucketBack l.resolution last (l.period.asUsize - 1) := by
    rw [bucketBack, bucketBack, hbucket]
  have hopen := hstored _ (bucketBack_round l.resolution (l.period.asUsize - 1) hlast)
    (hback.trans hsame).le (bucketBack_le l.resolution (l.period.asUsize - 1) hlast)
  obtain ⟨first, hfirst, htime⟩ := hopen
  have hfrom : 0 ≤ bucketBack l.resolution last (l.period.asUsize - 1) := by
    rw [← htime]
    exact ((candleRows_feed db).minutes first hfirst).epoch_le
  have hread : Consolidator.Stored (db.getCandles (liveFrom l now) now)
      (bucketBack l.resolution last (l.period.asUsize - 1)) last := by
    intro m hround hlo hhi
    obtain ⟨c, hc, rfl⟩ := hstored m hround ((hback.trans hsame).le.trans hlo) hhi
    exact ⟨c, mem_getCandles.mpr ⟨hc, (hback.trans hsame).le.trans hlo, hhi.trans hle⟩, rfl⟩
  rw [hlength]
  apply le_antisymm
  · refine length_keys_le l.period.asUsize_pos hnow (hfrom.trans_eq hsame.symm) fun d hd => ?_
    rw [← hback]
    exact (mem_getCandles.mp hd).2
  · exact le_length_keys _ hlast hfrom hread

/-- After a live history for its lookback, an operator that fetches in the bucket of the newest
candle gets as many candles as its period, each of them made of all the minutes of its bucket
up to the newest. -/
theorem live_warms_operator {writes : List (TaskWrite ε)} {fuel : ℕ} (l : Lookback)
    (hbatch : 61 ≤ config.priceHistoryBatchSize)
    (hrun : (taskWrites ε config).Run writes (db, now₀)) (hserving : Serving now₀ turns)
    (hok : live config now l.asDuration turns fuel db = some (.ok db')) :
    ∃ latest, db'.getLatestCandleTime = some latest ∧ ∀ fetchNow rows, latest ≤ fetchNow →
      floorToResolution latest l.resolution = floorToResolution fetchNow l.resolution →
      fetchCandles db' (some l) fetchNow = .ok rows →
      Consolidator.Stored db'.candleRows (liveFrom l fetchNow) latest ∧
      rows.length = l.period.asUsize ∧
      rows.map quote =
        (batch l.resolution (db'.getCandles (liveFrom l fetchNow) fetchNow)).map quote := by
  obtain ⟨hcovers, -⟩ := live_history_spec hbatch hrun hserving hok
  obtain ⟨latest, hlatest, hstored⟩ := hcovers.rows
  obtain ⟨c, hc, htime⟩ := stored_iff.mp (getLatest_eq_some.mp hlatest).1
  have hnonneg : 0 ≤ latest := htime ▸ ((candleRows_feed db').minutes c hc).epoch_le
  refine ⟨latest, hlatest, fun fetchNow rows hle hbucket hfetch => ?_⟩
  have hwindow := window_stored hnonneg hle hstored
  obtain ⟨-, hrows⟩ := getCandlesConsolidated_spec db' l.resolution (liveFrom l fetchNow) fetchNow
  exact ⟨hwindow, fetched_length hnonneg hle hbucket hwindow hfetch, hrows rows hfetch⟩

/-- Whether the table's newest candle is that of a minute and a fetch is answered. -/
def answersAt (l : Lookback) (latest fetchNow : ℤ) (db : Database) : Bool :=
  decide (db.getLatestCandleTime = some latest ∧
    VolumesFit db l.resolution (liveFrom l fetchNow) fetchNow)

/-- Two buckets of three minutes, fetched half a minute after the newest candle of a first
download into an empty table. -/
theorem live_warms_operator_twoBuckets :
    ∃ db' rows, live (batchConfig 60) lateClock.utcNow twoBuckets.asDuration
        (fun _ => lateTurn) 1 emptyTable = some (.ok db') ∧
      fetchCandles db' (some twoBuckets) lateClock.utcNow = .ok rows ∧
      Consolidator.Stored db'.candleRows (liveFrom twoBuckets lateClock.utcNow)
        (Duration.minutes 2000) ∧
      rows.length = 2 ∧
      rows.map quote = (batch .threeMinutes
        (db'.getCandles (liveFrom twoBuckets lateClock.utcNow) lateClock.utcNow)).map quote := by
  have hmakes : makes (answersAt twoBuckets (Duration.minutes 2000) lateClock.utcNow)
      (live (batchConfig 60) lateClock.utcNow twoBuckets.asDuration (fun _ => lateTurn) 1
        emptyTable) = true := by
    decide +kernel
  obtain ⟨db', hok, hanswers⟩ := exists_of_makes hmakes
  obtain ⟨hnewest, hfits⟩ := of_decide_eq_true hanswers
  obtain ⟨rows, hfetch⟩ := (getCandlesConsolidated_spec db' _ _ _).1.mpr hfits
  have hrun : (taskWrites Unit (batchConfig 60)).Run [] (emptyTable, 0) := .start rfl
  obtain ⟨latest, hlatest, hwarm⟩ := live_warms_operator twoBuckets (by decide) hrun
    (lateTurn_serving (by decide)) hok
  obtain rfl := Option.some.inj (hlatest.symm.trans hnewest)
  exact ⟨db', rows, hok, hfetch, hwarm lateClock.utcNow rows (by decide) (by decide) hfetch⟩

end Quantoxide.Live
