import Quantoxide.Verification.Sync.Backfill

/-! # The history behind a live feed

`live` stops when the stretch after the last gap is as long as the lookback. The first of its
downloads joins the newest minutes to a stable row, and no later one opens a hole above that
row, so that the stretch it measures is filled. -/

namespace Quantoxide.Sync

open DateTime (isRoundMinute)
open GapMarkers Result Runs CandleTable SyncPriceHistoryTask

variable {ε : Type} {db db' : Database} {config : SyncPriceHistoryTaskConfig} {turn : SyncTurn ε}
  {turns : ℕ → SyncTurn ε} {range : DownloadRange} {state : PriceHistoryState}
  {now now₀ lo hi lookback b : ℤ} {limit : ℕ} {clock : Clock}

/-! ### Tables that the task has written -/

/-- The ranges that `backfill` and `live` download. -/
inductive Asked (config : SyncPriceHistoryTaskConfig) (db : Database) : DownloadRange → Prop
  | next {state : PriceHistoryState} {backfilling : Bool} {range : DownloadRange}
      (hstate : PriceHistoryState.evaluateWithReach db config.priceHistoryReach = .ok state)
      (hrange : state.nextDownloadRange backfilling = .ok range) : Asked config db range
  | initial {state : PriceHistoryState}
      (hstate : PriceHistoryState.evaluateWithReach db config.priceHistoryReach = .ok state) :
      Asked config db (initialRange state)

theorem toTime?_initialRange (state : PriceHistoryState) :
    (initialRange state).toTime? = none := by
  unfold initialRange
  cases state.boundEnd <;> rfl

theorem Asked.bounded (h : Asked config db range) : Bounded db range := by
  cases h with
  | next hstate hrange => exact nextDownloadRange_bounded hstate hrange
  | initial _ =>
      intro t ht
      rw [toTime?_initialRange] at ht
      cases ht

inductive TaskWrite (ε : Type)
  | download (turn : SyncTurn ε) (range : DownloadRange)
  | flag (clock : Clock) (range : ℤ)

/-- What the calls of the task do to an empty table, one write after another; the clock does
not go back, and every page that arrives is the newest of its range. -/
def taskWrites (ε : Type) (config : SyncPriceHistoryTaskConfig) :
    System (Database × ℤ) (TaskWrite ε) where
  start s := s.1.ohlcCandles = []
  step s write s' :=
    match write with
    | .download turn range => s.2 ≤ turn.limitNow ∧ Serves turn ∧ Asked config s.1 range ∧
        partialDownload config turn range s.1 = .ok s'.1 ∧ s'.2 = turn.addClock.utcNow
    | .flag clock range => s' = (s.1.flagMissingCandles clock range, s.2)

/-- Filled up to its first stable row, if it has a row. -/
def HeadFilled (db : Database) : Prop := ∀ reach, HeadOk db reach

/-- A flag stands only where the row before is not stable. -/
def SharpFlags (db : Database) : Prop :=
  ∀ t, Flagged (marks db) t → ¬ Stable (marks db) (t - minute)

structure Written (s : Database × ℤ) : Prop where
  tidy : Tidy s.1 s.2
  head : HeadFilled s.1
  sharp : SharpFlags s.1

theorem Written.mono (h : Written (db, now)) {now' : ℤ} (hle : now ≤ now') : Written (db, now') :=
  ⟨h.tidy.mono hle, h.head, h.sharp⟩

theorem written_of_empty (h : db.ohlcCandles = []) (now : ℤ) : Written (db, now) := by
  have hnone : ∀ t, ¬ Stored (marks db) t := by
    intro t ht
    obtain ⟨r, hr, -⟩ := exists_of_stored ht
    rw [h] at hr
    cases hr
  obtain ⟨hmarked, haged⟩ := marked_of_empty db now h
  refine ⟨⟨hmarked, haged, fun t ht => absurd ht (hnone t)⟩, ?_, ?_⟩
  · intro reach
    exact Or.inl fun t ht => absurd ht (hnone t)
  · rintro t ⟨k, hk, -⟩ _
    exact hnone t ⟨k, hk⟩

/-- What a download leaves of a table the task has written. -/
theorem partialDownload_written (hbatch : 61 ≤ config.priceHistoryBatchSize)
    (h : Written (db, turn.limitNow)) (hserves : Serves turn) (hbounded : Bounded db range)
    (hok : partialDownload config turn range db = .ok db') :
    Written (db', turn.addClock.utcNow) ∧ ∃ lo hi,
      Downloaded (candlesLimit config range turn.limitNow) range turn.addClock db db' lo hi ∧
      Stable (marks db') lo ∧ (∀ b, range.toTime? = some b → hi + minute = b) ∧
      (range.toTime? = none → turn.limitNow ≤ hi + minute) := by
  obtain ⟨lo, hi, hdown, hbelow, hfresh⟩ := partialDownload_placed h.tidy hserves hbounded hok
  have hstable := hdown.oldest_stable (candlesLimit_ge range turn.limitNow hbatch)
  refine ⟨⟨hdown.tidy, fun reach => hdown.headOk hstable (h.head reach), ?_⟩, lo, hi, hdown,
    hstable, hbelow, hfresh⟩
  intro t ht
  exact hdown.writes.sharp (by decide) hbelow hdown.newest h.sharp ht

theorem written_of_run {writes : List (TaskWrite ε)} (hbatch : 61 ≤ config.priceHistoryBatchSize)
    (h : (taskWrites ε config).Run writes (db, now)) : Written (db, now) := by
  refine h.invariant (fun s hempty => written_of_empty hempty s.2) ?_
  rintro ⟨db, now⟩ write ⟨db', now'⟩ hs hstep
  cases write with
  | download turn range =>
      obtain ⟨hclock, hserves, hasked, hok, rfl⟩ := hstep
      exact (partialDownload_written hbatch (hs.mono hclock) hserves hasked.bounded hok).1
  | flag clock range =>
      simp only [taskWrites, Prod.mk.injEq] at hstep
      obtain ⟨rfl, rfl⟩ := hstep
      rwa [flagMissingCandles_of_marked hs.tidy.marked]

/-! ### The tail of the table -/

/-- No hole above some stable row. -/
def TailFilled (db : Database) : Prop :=
  ∃ s, Stable (marks db) s ∧ ∀ t m, Stored (marks db) t → isRoundMinute m = true → s ≤ m →
    m ≤ t → Stored (marks db) m

theorem Downloaded.stored_mono (h : Downloaded limit range clock db db' lo hi) {t : ℤ}
    (ht : Stored (marks db) t) : Stored (marks db') t :=
  h.writes.stored_iff.mpr (Or.inr ht)

/-- A download of the newest minutes is itself such a tail. -/
theorem Downloaded.tailFilled_of_newest (h : Downloaded limit range clock db db' lo hi)
    (hnewest : range.toTime? = none) (hstable : Stable (marks db') lo) : TailFilled db' := by
  refine ⟨lo, hstable, fun t m ht hround hlo hmt => ?_⟩
  have hthi : t ≤ hi := by
    rcases h.writes.stored_iff.mp ht with hrun | hold
    · exact hrun.2.1
    · exact h.newest hnewest t hold
  have hdvd := minute_dvd (round_of_stored hstable.stored) hround
  exact h.writes.stored_iff.mpr (Or.inl ⟨hlo, hmt.trans hthi, hdvd⟩)

/-- A download below a row opens no hole above it. -/
theorem Downloaded.tailFilled_of_below (h : Downloaded limit range clock db db' lo hi)
    (hb : Stored (marks db) b) (hbelow : hi + minute = b) (htail : TailFilled db) :
    TailFilled db' := by
  obtain ⟨s, hs, hfilled⟩ := htail
  refine ⟨s, h.writes.stable_mono h.aged hs, fun t m ht hround hsm hmt => ?_⟩
  rcases h.writes.stored_iff.mp ht with hrun | hold
  · have hmb : m ≤ b := by
      have := hrun.2.1
      rw [minute_eq] at hbelow
      omega
    exact h.stored_mono (hfilled b m hb hround hsm hmb)
  · exact h.stored_mono (hfilled t m hold hround hsm hmt)

/-- Where the tail of a state starts: the end of the last gap, or the first candle. -/
theorem tail_cases {duration : ℤ}
    (hstate : PriceHistoryState.evaluateWithReach db config.priceHistoryReach = .ok state)
    (h : state.tailContinuousDuration = some duration) :
    ∃ latest, db.getLatestCandleTime = some latest ∧
      ((∃ g ∈ db.getGaps, g.2 = latest - duration ∧ ∀ g' ∈ db.getGaps, g'.2 ≤ g.2) ∨
        (db.getGaps = [] ∧ db.getEarliestCandleTime = some (latest - duration))) := by
  obtain ⟨-, hgaps, hstart, hend⟩ := new_eq_ok hstate
  obtain ⟨bounds, hb, hduration⟩ := Option.map_eq_some_iff.mp h
  rw [PriceHistoryState.boundStart, hb, Option.map_some] at hstart
  rw [PriceHistoryState.boundEnd, hb, Option.map_some] at hend
  refine ⟨bounds.2, hend.symm, ?_⟩
  rw [hgaps] at hduration
  cases hlast : db.getGaps.getLast? with
  | some g =>
      obtain ⟨hmem, hgreatest⟩ := (getGaps_ascending db).getLast?_eq_some.mp hlast
      simp only [hlast] at hduration
      exact Or.inl ⟨g, hmem, by omega, hgreatest⟩
  | none =>
      simp only [hlast] at hduration
      refine Or.inr ⟨List.getLast?_eq_none_iff.mp hlast, hstart.symm.trans (congrArg some ?_)⟩
      omega

/-- The last `lookback` of the table is stored, minute by minute. -/
def Covers (db : Database) (lookback : ℤ) : Prop :=
  ∃ latest, db.getLatestCandleTime = some latest ∧ ∀ m, isRoundMinute m = true →
    latest - lookback ≤ m → m ≤ latest → Stored (marks db) m

/-- The stretch that a state measures is filled. -/
theorem covers_of_tail {duration : ℤ} (hwritten : Written (db, now)) (htail : TailFilled db)
    (hstate : PriceHistoryState.evaluateWithReach db config.priceHistoryReach = .ok state)
    (hduration : state.tailContinuousDuration = some duration) (hle : lookback ≤ duration) :
    Covers db lookback := by
  obtain ⟨latest, hlatest, hstart⟩ := tail_cases hstate hduration
  obtain ⟨s, hs, hfilled⟩ := htail
  refine ⟨latest, hlatest, fun m hround hlo hhi => ?_⟩
  have hend := (getLatest_eq_some.mp hlatest).1
  by_cases hsm : s ≤ m
  · exact hfilled latest m hend hround hsm hhi
  by_contra hm
  have hcover : ∀ t, Stable (marks db) t → t < m → ∃ g ∈ db.getGaps, g.1 < m ∧ m < g.2 :=
    fun t ht hlt => Marked.getGaps_cover hwritten.tidy.marked hround
      (fun hst => hm hst.stored) ⟨t, ht, hlt⟩ ⟨s, hs, not_le.mp hsm⟩
  rcases hstart with ⟨g, hg, hstart, hgreatest⟩ | ⟨hnone, hfirst⟩
  · -- Above the last gap no gap covers a minute.
    have hupper := (mem_getGaps.mp hg).upper
    have hgm : g.2 < m := by
      refine lt_of_le_of_ne (by omega) ?_
      rintro rfl
      exact hm hupper.stored
    obtain ⟨g', hg', -, hlt⟩ := hcover g.2 hupper hgm
    exact absurd (hgreatest g' hg') (not_le.mpr (hgm.trans hlt))
  · -- Without a gap a stable row below leaves no hole, and the head has none.
    obtain ⟨hstored, hleast⟩ := getEarliest_eq_some.mp hfirst
    rcases hwritten.head (latest - duration) with hbeyond | ⟨s', hs', hhead⟩
    · exact absurd (hbeyond _ hstored) (lt_irrefl _)
    by_cases hms : m ≤ s'
    · exact hm (hhead _ m hstored hround (by omega) hms)
    · obtain ⟨g, hg, -⟩ := hcover s' hs' (not_le.mp hms)
      rw [hnone] at hg
      cases hg

/-! ### Runs -/

/-- What the loop keeps after the first download, which was asked for at `start`. -/
structure Following (start : ℤ) (s : Database × ℤ) : Prop where
  written : Written s
  tail : TailFilled s.1
  fresh : ∃ t, Stored (marks s.1) t ∧ start ≤ t + minute

theorem Following.mono {start now' : ℤ} (h : Following start (db, now)) (hle : now ≤ now') :
    Following start (db, now') :=
  ⟨h.written.mono hle, h.tail, h.fresh⟩

/-- The first download. -/
theorem following_of_newest (hbatch : 61 ≤ config.priceHistoryBatchSize)
    (h : Written (db, turn.limitNow)) (hserves : Serves turn) (hnewest : range.toTime? = none)
    (hok : partialDownload config turn range db = .ok db') :
    Following turn.limitNow (db', turn.addClock.utcNow) := by
  have hbounded : Bounded db range := by
    intro t ht
    rw [hnewest] at ht
    cases ht
  obtain ⟨hwritten, lo, hi, hdown, hstable, -, hfresh⟩ :=
    partialDownload_written hbatch h hserves hbounded hok
  have hend : Stored (marks db') hi := hdown.writes.stored_iff.mpr (Or.inl hdown.writes.last)
  exact ⟨hwritten, hdown.tailFilled_of_newest hnewest hstable, hi, hend, hfresh hnewest⟩

theorem Following.download {start : ℤ} (hbatch : 61 ≤ config.priceHistoryBatchSize)
    (h : Following start (db, turn.limitNow)) (hserves : Serves turn)
    (hbounded : Bounded db range) (hok : partialDownload config turn range db = .ok db') :
    Following start (db', turn.addClock.utcNow) := by
  obtain ⟨hwritten, lo, hi, hdown, hstable, hbelow, -⟩ :=
    partialDownload_written hbatch h.written hserves hbounded hok
  obtain ⟨t, ht, hstart⟩ := h.fresh
  refine ⟨hwritten, ?_, t, hdown.stored_mono ht, hstart⟩
  cases hto : range.toTime? with
  | none => exact hdown.tailFilled_of_newest hto hstable
  | some b => exact hdown.tailFilled_of_below (hbounded b hto) (hbelow b hto) h.tail

/-- A turn that ends the loop finds the lookback stored, and any other keeps the tail. -/
theorem liveTurn_spec {start : ℤ} {next : Option Database}
    (hbatch : 61 ≤ config.priceHistoryBatchSize) (h : Following start (db, turn.limitNow))
    (hserves : Serves turn) (hok : liveTurn config turn lookback db = .ok next) :
    match next with
    | none => Covers db lookback
    | some db' => Following start (db', turn.addClock.utcNow) := by
  simp only [liveTurn, liftFatal, bind_eq_ok, mapError_eq_ok] at hok
  obtain ⟨state, hstate, hok⟩ := hok
  split_ifs at hok with hlong
  · obtain rfl := pure_eq_ok.mp hok
    obtain ⟨duration, hduration, hle⟩ := (Option.any_eq_true _ _).mp hlong
    exact covers_of_tail h.written h.tail hstate hduration (of_decide_eq_true hle)
  · simp only [bind_eq_ok, mapError_eq_ok, pure_eq_ok] at hok
    obtain ⟨range, hrange, db', hdownload, rfl⟩ := hok
    exact h.download hbatch hserves (nextDownloadRange_bounded hstate hrange) hdownload

theorem liveLoop_spec {start : ℤ} {fuel i : ℕ} (hbatch : 61 ≤ config.priceHistoryBatchSize)
    (hserving : Serving now₀ turns) (h : Following start (db, (turns i).limitNow))
    (hok : liveLoop config lookback turns fuel i db = some (.ok db')) :
    Covers db' lookback ∧ ∃ t, Stored (marks db') t ∧ start ≤ t + minute := by
  induction fuel generalizing i db with
  | zero => cases hok
  | succ fuel ih =>
      rw [liveLoop] at hok
      cases hturn : liveTurn config (turns i) lookback db with
      | error e => simp [hturn] at hok
      | ok next =>
          have hnext := liveTurn_spec hbatch h (hserving.serves i) hturn
          cases next with
          | none =>
              simp only [hturn, Option.some.injEq, Except.ok.injEq] at hok
              exact ⟨hok ▸ hnext, hok ▸ h.fresh⟩
          | some db₁ =>
              simp only [hturn] at hok
              exact ih (hnext.mono (hserving.forward i)) hok

theorem liveStart_spec (hbatch : 61 ≤ config.priceHistoryBatchSize)
    (h : Written (db, turn.limitNow)) (hserves : Serves turn)
    (hok : liveStart config turn db = .ok db') :
    Following turn.limitNow (db', turn.addClock.utcNow) := by
  simp only [liveStart, liftFatal, bind_eq_ok, mapError_eq_ok] at hok
  obtain ⟨state, -, hdownload⟩ := hok
  exact following_of_newest hbatch h hserves (toTime?_initialRange state) hdownload

theorem live_history_spec {writes : List (TaskWrite ε)} {fuel : ℕ}
    (hbatch : 61 ≤ config.priceHistoryBatchSize)
    (hrun : (taskWrites ε config).Run writes (db, now₀)) (hserving : Serving now₀ turns)
    (hok : live config now lookback turns fuel db = some (.ok db')) :
    Covers db' lookback ∧ ∃ t, Stored (marks db') t ∧ (turns 0).limitNow ≤ t + minute := by
  have hwritten := (written_of_run hbatch hrun).mono hserving.first
  unfold live at hok
  split_ifs at hok with hreach
  · cases hok
  cases hstart : liveStart config (turns 0) db with
  | error e => simp [hstart] at hok
  | ok db₁ =>
      simp only [hstart, Option.map_eq_some_iff] at hok
      obtain ⟨looped, hloop, hlooped⟩ := hok
      obtain rfl := mapError_eq_ok.mp hlooped
      have hfollowing := liveStart_spec hbatch hwritten (hserving.serves 0) hstart
      exact liveLoop_spec hbatch hserving (hfollowing.mono (hserving.forward 0)) hloop

theorem Covers.rows (h : Covers db lookback) :
    ∃ latest, db.getLatestCandleTime = some latest ∧
      ∀ m, isRoundMinute m = true → latest - lookback ≤ m → m ≤ latest →
        ∃ c ∈ db.candleRows, c.time = m := by
  obtain ⟨latest, hlatest, hstored⟩ := h
  exact ⟨latest, hlatest, fun m hround hlo hhi => stored_iff.mp (hstored m hround hlo hhi)⟩

/-! ### One run -/

/-- A live history that is reported complete has every minute of the lookback, up to one that
was current when the task began. -/
theorem live_covers_lookback {writes : List (TaskWrite ε)} {fuel : ℕ}
    (hbatch : 61 ≤ config.priceHistoryBatchSize)
    (hrun : (taskWrites ε config).Run writes (db, now₀)) (hserving : Serving now₀ turns)
    (hok : live config now lookback turns fuel db = some (.ok db')) :
    ∃ latest, db'.getLatestCandleTime = some latest ∧ (turns 0).limitNow ≤ latest + minute ∧
      ∀ m, isRoundMinute m = true → latest - lookback ≤ m → m ≤ latest →
        ∃ c ∈ db'.candleRows, c.time = m := by
  obtain ⟨hcovers, t, ht, hfresh⟩ := live_history_spec hbatch hrun hserving hok
  obtain ⟨latest, hlatest, hrows⟩ := hcovers.rows
  have hle := (getLatest_eq_some.mp hlatest).2 t ht
  exact ⟨latest, hlatest, hfresh.trans (add_le_add_left hle minute), hrows⟩

/-- With an empty table the newest 61 minutes are a lookback of half an hour. -/
theorem live_covers_lookback_halfHour :
    ∃ db' latest, live (batchConfig 60) lateClock.utcNow (Duration.minutes 30)
        (fun _ => lateTurn) 1 emptyTable = some (.ok db') ∧
      db'.getLatestCandleTime = some latest ∧ lateTurn.limitNow ≤ latest + minute ∧
      ∀ m, isRoundMinute m = true → latest - Duration.minutes 30 ≤ m → m ≤ latest →
        ∃ c ∈ db'.candleRows, c.time = m := by
  have hends : ∃ db', live (batchConfig 60) lateClock.utcNow (Duration.minutes 30)
      (fun _ => lateTurn) 1 emptyTable = some (.ok db') := by
    have hmakes : makes (fun _ => true) (live (batchConfig 60) lateClock.utcNow
      (Duration.minutes 30) (fun _ => lateTurn) 1 emptyTable) = true := by decide +kernel
    obtain ⟨db', hok, -⟩ := exists_of_makes hmakes
    exact ⟨db', hok⟩
  obtain ⟨db', hok⟩ := hends
  have hrun : (taskWrites Unit (batchConfig 60)).Run [] (emptyTable, 0) := .start rfl
  obtain ⟨latest, hlatest⟩ := live_covers_lookback (by decide) hrun
    (lateTurn_serving (by decide)) hok
  exact ⟨db', latest, hok, hlatest⟩

end Quantoxide.Sync
