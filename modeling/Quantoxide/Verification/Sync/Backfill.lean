import Quantoxide.Model.PriceHistorySync
import Quantoxide.Verification.CandleTable.Holes

/-! # A backfill that ends has a complete history

Each page is a run of minutes, so the table stays marked. When every page reaches past the
age at which a candle is stable, a hole between two pages shows as a gap. -/

namespace Quantoxide.Sync

open DateTime (isRoundMinute)
open GapMarkers Result Runs CandleTable SyncPriceHistoryTask

variable {ε : Type} {db db' : Database} {config : SyncPriceHistoryTaskConfig} {turn : SyncTurn ε}
  {turns : ℕ → SyncTurn ε} {range : DownloadRange} {state state' : PriceHistoryState}
  {now bound lo hi reach : ℤ} {limit : ℕ} {page : List OhlcCandle}

/-! ### Tables written before now -/

/-- Marked, with its stable rows old enough and every row in the past. -/
structure Tidy (db : Database) (now : ℤ) : Prop where
  marked : Marked minute (marks db)
  aged : Aged db now
  past : ∀ t, Stored (marks db) t → t < now

theorem Tidy.mono {now' : ℤ} (h : Tidy db now) (hle : now ≤ now') : Tidy db now' :=
  ⟨h.marked, h.aged.mono hle, fun t ht => (h.past t ht).trans_le hle⟩

theorem addCandles_tidy {clock : Clock} {before : Option ℤ} {cs : List OhlcCandle}
    (h : Tidy db clock.utcNow) (hplace : Places db before cs)
    (hpast : ∀ c ∈ cs, c.time < clock.utcNow) (hok : db.addCandles clock before cs = .ok db') :
    Tidy db' clock.utcNow := by
  obtain ⟨hmarked, haged⟩ := addCandles_marked h.marked h.aged hplace hok
  refine ⟨hmarked, haged, ?_⟩
  cases hlast : cs.getLast? with
  | none =>
      rw [List.getLast?_eq_none_iff.mp hlast] at hok
      obtain rfl := Except.ok.inj hok
      exact h.past
  | some last =>
      have hne : cs ≠ [] := by
        rintro rfl
        cases hlast
      have hfirst := List.head?_eq_some_head hne
      obtain ⟨_, hok', hwrites⟩ := addCandles_writes db clock before hplace.minutes hfirst hlast
      obtain rfl := Except.ok.inj (hok.symm.trans hok')
      intro t ht
      rcases hwrites.stored_iff.mp ht with hrun | hold
      · obtain ⟨c, hc, rfl⟩ := ((hplace.minutes.inRun hfirst hlast).2 t).mp hrun
        exact hpast c hc
      · exact h.past t hold

/-- Successive calls with candles of the past. -/
def pastAdditions : System (Database × ℤ) AddCall :=
  additions.restrict fun _ call => ∀ c ∈ call.batch, c.time < call.clock.utcNow

/-- The table that earlier calls have made of the empty one, the last of them at `now`. -/
def Produced (db : Database) (now : ℤ) : Prop := ∃ calls, pastAdditions.Run calls (db, now)

def TidyState (s : Database × ℤ) : Prop := Tidy s.1 s.2

theorem Produced.tidy (h : Produced db now) : Tidy db now := by
  obtain ⟨calls, hrun⟩ := h
  have htidy : TidyState (db, now) := by
    refine hrun.invariant ?_ ?_
    · intro s hempty
      obtain ⟨hmarked, haged⟩ := marked_of_empty s.1 s.2 hempty
      refine ⟨hmarked, haged, fun t ht => ?_⟩
      obtain ⟨r, hr, -⟩ := exists_of_stored ht
      rw [hempty] at hr
      cases hr
    · rintro s call s' hs ⟨hpast, hclock, hplace, hok, hnow⟩
      rw [TidyState, hnow]
      exact addCandles_tidy (hs.mono hclock) hplace hpast hok
  exact htidy

/-! ### Pages -/

/-- The `limit` newest minutes strictly before a bound, the latest first. -/
structure NewestBefore (bound : ℤ) (limit : ℕ) (page : List OhlcCandle) : Prop where
  length : page.length = limit
  minutes : MinuteRun page
  newest : ∀ first, page.head? = some first → first.time < bound ∧ bound ≤ first.time + minute

/-- Every page of the turn has the newest minutes before its upper bound, or before the
API's own clock, which reads no earlier than the task's before it and no later than after. -/
def Serves (turn : SyncTurn ε) : Prop :=
  ∀ trial limit candlesTo page, turn.getCandles trial limit candlesTo = .ok page →
    ∃ apiNow, turn.limitNow ≤ apiNow ∧ apiNow ≤ turn.addClock.utcNow ∧
      NewestBefore (candlesTo.getD apiNow) limit page

theorem length_of_run {cs : List OhlcCandle} {first last : OhlcCandle} (h : MinuteRun cs)
    (hfirst : cs.head? = some first) (hlast : cs.getLast? = some last) :
    first.time + minute = last.time + cs.length * minute := by
  induction cs generalizing first with
  | nil => cases hfirst
  | cons c cs ih =>
      obtain rfl : c = first := Option.some.inj hfirst
      cases cs with
      | nil =>
          obtain rfl : c = last := by simpa using hlast
          simp
      | cons d cs =>
          rw [List.getLast?_cons_cons] at hlast
          have hstep : c.time = d.time + minute := (List.isChain_cons_cons.mp h.contiguous).1
          have htail := ih h.tail rfl hlast
          rw [hstep, htail, List.length_cons (a := c), Nat.cast_succ, add_mul, one_mul, add_assoc]

theorem fetchPage_eq_ok {getCandles : ℕ → Except ε (List OhlcCandle)} {trial left : ℕ}
    (h : fetchPage getCandles trial left = .ok page) : ∃ i, getCandles i = .ok page := by
  induction left generalizing trial with
  | zero =>
      rw [fetchPage, mapError_eq_ok] at h
      exact ⟨trial, h⟩
  | succ left ih =>
      rw [fetchPage] at h
      cases hpage : getCandles trial with
      | ok page' =>
          simp only [hpage, Except.ok.injEq] at h
          exact ⟨trial, h ▸ hpage⟩
      | error e =>
          simp only [hpage] at h
          exact ih h

/-! ### One download -/

/-- The upper bound of the range is a row of the table. -/
def Bounded (db : Database) (range : DownloadRange) : Prop :=
  ∀ t, range.toTime? = some t → Stored (marks db) t

theorem NewestBefore.places (h : NewestBefore (range.toTime?.getD bound) limit page)
    (hbounded : Bounded db range) (hpast : ∀ t, Stored (marks db) t → t < bound) :
    Places db range.toTime? page := by
  refine ⟨h.minutes, fun first hfirst => ?_⟩
  have hround := h.minutes.round first (List.mem_of_head? hfirst)
  obtain ⟨hlt, hle⟩ := h.newest first hfirst
  cases hto : range.toTime? with
  | none =>
      rw [hto, Option.getD_none] at hlt hle
      refine Or.inl ⟨rfl, fun c hc => ?_⟩
      have hstored : Stored (marks db) c.time := stored_iff.mpr ⟨c, hc, rfl⟩
      by_contra hgt
      have hnext := minute_le_of_lt hround (round_of_stored hstored) (not_le.mp hgt)
      exact absurd (hpast _ hstored) (not_lt.mpr (hle.trans hnext))
  | some t =>
      rw [hto, Option.getD_some] at hlt hle
      have hnext := minute_le_of_lt hround (round_of_stored (hbounded t hto)) hlt
      rw [le_antisymm hle hnext]
      exact Or.inr rfl

/-- What a download leaves: the table with a run of `limit` minutes written. -/
structure Downloaded (limit : ℕ) (range : DownloadRange) (clock : Clock) (db db' : Database)
    (lo hi : ℤ) : Prop where
  aged : Aged db clock.utcNow
  tidy : Tidy db' clock.utcNow
  writes : Writes minute (stableCutoff clock.utcNow) lo hi range.toTime? (marks db) (marks db')
  length : hi + minute = lo + limit * minute
  past : hi < clock.utcNow
  newest : range.toTime? = none → ∀ t, Stored (marks db) t → t ≤ hi

theorem candlesLimit_pos (config : SyncPriceHistoryTaskConfig) (range : DownloadRange)
    (limitNow : ℤ) : 0 < candlesLimit config range limitNow := by
  have hpos := config.batch_pos
  have hmin : 66 = Duration.numMinutes CANDLE_STABLE_AGE * 11 / 10 := by decide
  unfold candlesLimit
  cases range.fromTime? with
  | none => exact hpos
  | some fromTime =>
      simp only [← hmin]
      omega

/-- Every page asked for reaches 61 minutes back when a batch may. -/
theorem candlesLimit_ge (range : DownloadRange) (limitNow : ℤ)
    (h : 61 ≤ config.priceHistoryBatchSize) : 61 ≤ candlesLimit config range limitNow := by
  have hmin : 66 = Duration.numMinutes CANDLE_STABLE_AGE * 11 / 10 := by decide
  unfold candlesLimit
  cases range.fromTime? with
  | none => exact h
  | some fromTime =>
      simp only [← hmin]
      omega

/-- A download, and where its newest minute lies. -/
theorem partialDownload_placed (htidy : Tidy db turn.limitNow) (hserves : Serves turn)
    (hbounded : Bounded db range) (h : partialDownload config turn range db = .ok db') :
    ∃ lo hi, Downloaded (candlesLimit config range turn.limitNow) range turn.addClock db db'
      lo hi ∧ (∀ b, range.toTime? = some b → hi + minute = b) ∧
      (range.toTime? = none → turn.limitNow ≤ hi + minute) := by
  simp only [partialDownload, getNewOhlcCandles, liftFatal, liftDb, bind_eq_ok, mapError_eq_ok,
    pure_eq_ok] at h
  obtain ⟨_, ⟨page, hfetch, -, -, rfl⟩, added, hadd, h⟩ := h
  obtain ⟨trial, hpage⟩ := fetchPage_eq_ok hfetch
  obtain ⟨apiNow, hlimit, hadded, hnewest⟩ := hserves _ _ _ _ hpage
  have hpast : ∀ t, Stored (marks db) t → t < apiNow := fun t ht =>
    (htidy.past t ht).trans_le hlimit
  have hplace := hnewest.places hbounded hpast
  have hne : page ≠ [] := by
    rintro rfl
    exact absurd hnewest.length (candlesLimit_pos config range turn.limitNow).ne
  have hfirst := List.head?_eq_some_head hne
  have hlast := List.getLast?_eq_some_getLast hne
  rw [List.isEmpty_eq_false_iff.mpr hne] at h
  obtain rfl : added = db' := by simpa using h
  have hbefore : range.toTime?.getD apiNow ≤ turn.addClock.utcNow := by
    cases hto : range.toTime? with
    | none => exact hadded
    | some t => exact (hpast t (hbounded t hto)).le.trans hadded
  have hhead := (hnewest.newest _ hfirst).1.trans_le hbefore
  have hpages : ∀ c ∈ page, c.time < turn.addClock.utcNow := by
    intro c hc
    have hrun := ((hnewest.minutes.inRun hfirst hlast).2 c.time).mpr ⟨c, hc, rfl⟩
    exact hrun.2.1.trans_lt hhead
  obtain ⟨_, hok, hwrites⟩ := addCandles_writes db turn.addClock range.toTime? hnewest.minutes
    hfirst hlast
  obtain rfl := Except.ok.inj (hadd.symm.trans hok)
  have htidy' := htidy.mono (hlimit.trans hadded)
  refine ⟨_, _, ⟨htidy'.aged, ?_, hwrites, ?_, hhead, ?_⟩, ?_, ?_⟩
  · exact addCandles_tidy htidy' hplace hpages hadd
  · rw [length_of_run hnewest.minutes hfirst hlast, hnewest.length]
  · intro hnone t ht
    rcases hplace.place _ hfirst with ⟨-, hle⟩ | hsome
    · obtain ⟨c, hc, rfl⟩ := stored_iff.mp ht
      exact hle c hc
    · rw [hnone] at hsome
      cases hsome
  · intro b hb
    rcases hplace.place _ hfirst with ⟨hnone, -⟩ | hsome
    · rw [hnone] at hb
      cases hb
    · exact Option.some.inj (hsome.symm.trans hb)
  · intro hnone
    rw [hnone, Option.getD_none] at hnewest
    exact hlimit.trans (hnewest.newest _ hfirst).2

theorem partialDownload_downloaded (htidy : Tidy db turn.limitNow) (hserves : Serves turn)
    (hbounded : Bounded db range) (h : partialDownload config turn range db = .ok db') :
    ∃ lo hi, Downloaded (candlesLimit config range turn.limitNow) range turn.addClock db db'
      lo hi := by
  obtain ⟨lo, hi, hdown, -⟩ := partialDownload_placed htidy hserves hbounded h
  exact ⟨lo, hi, hdown⟩

/-- The oldest of 61 minutes is old enough to be stable. -/
theorem Downloaded.oldest_stable {clock : Clock}
    (h : Downloaded limit range clock db db' lo hi) (hlimit : 61 ≤ limit) :
    Stable (marks db') lo := by
  have hlength := h.length
  have hpast := h.past
  have hlo : lo ≤ hi := h.writes.last.1
  have hage : CANDLE_STABLE_AGE = 60 * minute := by decide
  rw [h.writes.stable_inside ⟨le_rfl, hlo, by simp⟩, stableCutoff, hage]
  rw [minute_eq] at hlength ⊢
  omega

/-! ### The head of the table -/

/-- No row reaches back to the reach, or the rows have no hole up to some stable one. -/
def HeadOk (db : Database) (reach : ℤ) : Prop :=
  (∀ t, Stored (marks db) t → reach < t) ∨
    ∃ s, Stable (marks db) s ∧ ∀ e m, Stored (marks db) e → isRoundMinute m = true → e ≤ m →
      m ≤ s → Stored (marks db) m

theorem Downloaded.headOk {clock : Clock} (h : Downloaded limit range clock db db' lo hi)
    (hstable : Stable (marks db') lo) (hhead : HeadOk db reach) : HeadOk db' reach := by
  by_cases hbelow : ∃ e, Stored (marks db) e ∧ e < lo
  · obtain ⟨e₀, he₀, hlt⟩ := hbelow
    have hkeep : ∀ t, Stored (marks db) t → Stored (marks db') t := fun t ht =>
      h.writes.stored_iff.mpr (Or.inr ht)
    rcases hhead with hreach | ⟨s, hs, hfilled⟩
    · refine Or.inl fun t ht => ?_
      rcases h.writes.stored_iff.mp ht with hrun | hold
      · exact ((hreach e₀ he₀).trans hlt).trans_le hrun.1
      · exact hreach t hold
    · refine Or.inr ⟨s, h.writes.stable_mono h.aged hs, fun e m he hround hem hms => ?_⟩
      apply hkeep
      rcases h.writes.stored_iff.mp he with hrun | hold
      · exact hfilled e₀ m he₀ hround (hlt.le.trans (hrun.1.trans hem)) hms
      · exact hfilled e m hold hround hem hms
  · -- The run is the new head, and its oldest row is stable.
    refine Or.inr ⟨lo, hstable, fun e m he _ hem hmlo => ?_⟩
    have hle : lo ≤ e := by
      rcases h.writes.stored_iff.mp he with hrun | hold
      · exact hrun.1
      · by_contra hlt
        exact hbelow ⟨e, hold, not_le.mp hlt⟩
    rw [le_antisymm hmlo (hle.trans hem)]
    exact hstable.stored

/-! ### The end of a backfill -/

/-- Every minute between two rows is stored. -/
def Complete (db : Database) : Prop :=
  ∀ e t m, Stored (marks db) e → Stored (marks db) t → isRoundMinute m = true → e ≤ m → m ≤ t →
    Stored (marks db) m

/-- The earliest row is at or before the reach. -/
def Reaches (db : Database) (reach : ℤ) : Prop :=
  ∃ e, db.getEarliestCandleTime = some e ∧ e ≤ reach

/-- After a download of the newest minutes, a table without gaps is complete. -/
theorem Downloaded.complete {clock : Clock} (h : Downloaded limit range clock db db' lo hi)
    (hnewest : range.toTime? = none) (hstable : Stable (marks db') lo) (hhead : HeadOk db' reach)
    (hreaches : Reaches db' reach) (hgaps : db'.getGaps = []) : Complete db' := by
  obtain ⟨first, hfirst, hle⟩ := hreaches
  rcases hhead with hbeyond | ⟨s, hs, hfilled⟩
  · exact absurd (hbeyond first (getEarliest_eq_some.mp hfirst).1) (not_lt.mpr hle)
  intro e t m he ht hround hem hmt
  by_cases hms : m ≤ s
  · exact hfilled e m he hround hem hms
  by_cases hlom : lo ≤ m
  · have hthi : t ≤ hi := by
      rcases h.writes.stored_iff.mp ht with hrun | hold
      · exact hrun.2.1
      · exact h.newest hnewest t hold
    have hdvd := minute_dvd (round_of_stored hstable.stored) hround
    exact h.writes.stored_iff.mpr (Or.inl ⟨hlom, hmt.trans hthi, hdvd⟩)
  · -- Between two stable rows of a marked table what is not stable lies in a gap.
    by_contra hm
    obtain ⟨g, hg, -⟩ := Marked.getGaps_cover h.tidy.marked hround (fun hst => hm hst.stored)
      ⟨s, hs, not_le.mp hms⟩ ⟨lo, hstable, not_le.mp hlom⟩
    rw [hgaps] at hg
    cases hg

theorem hasGaps_eq_false (hstate : PriceHistoryState.evaluateWithReach db reach = .ok state)
    (h : state.hasGaps = .ok false) : db.getGaps = [] ∧ Reaches db reach := by
  obtain ⟨hreach, hgaps, hstart, -⟩ := new_eq_ok hstate
  simp only [PriceHistoryState.hasGaps, hreach, Except.ok.injEq] at h
  cases hb : state.bounds with
  | none => simp [hb] at h
  | some bounds =>
      simp only [hb, Option.all_some, Bool.or_eq_false_iff, Bool.not_eq_false',
        List.isEmpty_iff, decide_eq_false_iff_not, not_lt] at h
      rw [PriceHistoryState.boundStart, hb] at hstart
      exact ⟨hgaps ▸ h.1, bounds.1, hstart.symm, h.2⟩

/-- A range is bounded above by the earliest row or by a flagged one. -/
theorem nextDownloadRange_bounded {backfilling : Bool}
    (hstate : PriceHistoryState.evaluateWithReach db reach = .ok state)
    (h : state.nextDownloadRange backfilling = .ok range) : Bounded db range := by
  obtain ⟨-, hgaps, hstart, -⟩ := new_eq_ok hstate
  unfold PriceHistoryState.nextDownloadRange at h
  intro t ht
  cases hb : state.bounds with
  | none =>
      simp only [hb, Except.ok.injEq] at h
      rw [← h] at ht
      cases ht
  | some bounds =>
      simp only [hb] at h
      split at h
      · cases h
      cases hgap : (if backfilling then state.gaps.head? else state.gaps.getLast?) with
      | some gap =>
          simp only [hgap] at h
          split at h
          · cases h
          · obtain rfl := Except.ok.inj h
            obtain rfl : gap.2 = t := Option.some.inj ht
            have hmem : gap ∈ db.getGaps := by
              rw [← hgaps]
              cases backfilling with
              | true => exact List.mem_of_head? hgap
              | false => exact List.mem_of_getLast? hgap
            exact (mem_getGaps.mp hmem).upper.stored
      | none =>
          simp only [hgap] at h
          split_ifs at h
          · obtain rfl := Except.ok.inj h
            obtain rfl : bounds.1 = t := Option.some.inj ht
            rw [PriceHistoryState.boundStart, hb] at hstart
            exact (getEarliest_eq_some.mp hstart.symm).1
          · obtain rfl := Except.ok.inj h
            cases ht

theorem toTime?_of_isNewest (h : isNewest range = true) : range.toTime? = none := by
  cases range <;> first | rfl | cases h

/-! ### Runs -/

/-- The clock does not go back, and every page that arrives is the newest of its range. -/
structure Serving (now : ℤ) (turns : ℕ → SyncTurn ε) : Prop where
  first : now ≤ (turns 0).limitNow
  forward : ∀ i, (turns i).addClock.utcNow ≤ (turns (i + 1)).limitNow
  serves : ∀ i, Serves (turns i)

/-- One turn keeps the table tidy and its head filled, and ends with a complete table. -/
theorem backfillTurn_spec {finished : Bool} (hbatch : 61 ≤ config.priceHistoryBatchSize)
    (htidy : Tidy db turn.limitNow) (hserves : Serves turn)
    (hhead : HeadOk db config.priceHistoryReach)
    (hstate : PriceHistoryState.evaluateWithReach db config.priceHistoryReach = .ok state)
    (h : backfillTurn config turn db state = .ok (db', state', finished)) :
    Tidy db' turn.addClock.utcNow ∧ HeadOk db' config.priceHistoryReach ∧
      PriceHistoryState.evaluateWithReach db' config.priceHistoryReach = .ok state' ∧
      (finished = true → Complete db' ∧ Reaches db' config.priceHistoryReach) := by
  simp only [backfillTurn, liftFatal, bind_eq_ok, mapError_eq_ok, pure_eq_ok, Prod.mk.injEq] at h
  obtain ⟨range, hrange, _, hdownload, _, hstate', gaps, hgaps, rfl, rfl, rfl⟩ := h
  have hbounded := nextDownloadRange_bounded hstate hrange
  obtain ⟨lo, hi, hdown⟩ := partialDownload_downloaded htidy hserves hbounded hdownload
  have hstable := hdown.oldest_stable (candlesLimit_ge range turn.limitNow hbatch)
  have hhead' := hdown.headOk hstable hhead
  refine ⟨hdown.tidy, hhead', hstate', fun hfinished => ?_⟩
  rw [Bool.and_eq_true, Bool.not_eq_true'] at hfinished
  rw [hfinished.1] at hgaps
  obtain ⟨hnone, hreaches⟩ := hasGaps_eq_false hstate' hgaps
  exact ⟨hdown.complete (toTime?_of_isNewest hfinished.2) hstable hhead' hreaches hnone, hreaches⟩

theorem backfillLoop_complete {fuel i : ℕ} (hbatch : 61 ≤ config.priceHistoryBatchSize)
    (hserving : Serving now turns) (htidy : Tidy db (turns i).limitNow)
    (hhead : HeadOk db config.priceHistoryReach)
    (hstate : PriceHistoryState.evaluateWithReach db config.priceHistoryReach = .ok state)
    (h : backfillLoop config turns fuel i db state = some (.ok db')) :
    Complete db' ∧ Reaches db' config.priceHistoryReach := by
  induction fuel generalizing i db state with
  | zero => cases h
  | succ fuel ih =>
      rw [backfillLoop] at h
      cases hturn : backfillTurn config (turns i) db state with
      | error e => simp [hturn] at h
      | ok result =>
          obtain ⟨db₁, state₁, finished⟩ := result
          obtain ⟨htidy₁, hhead₁, hstate₁, hfinished⟩ :=
            backfillTurn_spec hbatch htidy (hserving.serves i) hhead hstate hturn
          simp only [hturn] at h
          split_ifs at h with hlast
          · obtain rfl := Except.ok.inj (Option.some.inj h)
            exact hfinished hlast
          · exact ih (htidy₁.mono (hserving.forward i)) hhead₁ hstate₁ h

theorem backfill_complete {fuel : ℕ} {flagGapsRange : Option ℤ} {flagClock : Clock}
    (hbatch : 61 ≤ config.priceHistoryBatchSize) (hproduced : Produced db now)
    (hserving : Serving now turns) (hhead : HeadOk db config.priceHistoryReach)
    (h : backfill config flagGapsRange flagClock turns fuel db = some (.ok db')) :
    Complete db' ∧ Reaches db' config.priceHistoryReach := by
  have htidy := hproduced.tidy
  have hstart : flagged flagGapsRange flagClock db = db := by
    cases flagGapsRange with
    | none => rfl
    | some range => exact flagMissingCandles_of_marked htidy.marked flagClock range
  simp only [backfill, hstart] at h
  cases hstate : PriceHistoryState.evaluateWithReach db config.priceHistoryReach with
  | error e => simp [hstate, liftFatal] at h
  | ok state =>
      simp only [hstate, liftFatal, mapError_ok] at h
      exact backfillLoop_complete hbatch hserving (htidy.mono hserving.first) hhead hstate h

/-! ### Short batches -/

/-- A backfill from a table that was added before its clock's first reading ends. -/
def EndsIn (config : SyncPriceHistoryTaskConfig) (db db' : Database) : Prop :=
  ∃ (ε : Type) (now : ℤ) (turns : ℕ → SyncTurn ε) (flagGapsRange : Option ℤ) (flagClock : Clock)
    (fuel : ℕ), Produced db now ∧ Serving now turns ∧
      backfill config flagGapsRange flagClock turns fuel db = some (.ok db')

/-- The `n` minutes down from a minute. -/
def minutesDown : (top n : ℕ) → List OhlcCandle
  | _, 0 => []
  | top, n + 1 => apiMinute (min top 100000000) (min_le_right _ _) :: minutesDown (top - 1) n

/-- Half a minute into a minute. -/
def halfPast (top : ℕ) : Clock :=
  wallClock (Duration.minutes top + Duration.seconds 30)

/-- The API answers requests for at most so many of the newest minutes. -/
def newestTurn (top most : ℕ) : SyncTurn Unit where
  limitNow := (halfPast top).utcNow
  getCandles _ limit candlesTo :=
    if candlesTo = none ∧ 0 < limit ∧ limit ≤ most then .ok (minutesDown top limit) else .error ()
  addClock := halfPast top
  removeClock := halfPast top

theorem newestTurn_serving {top most : ℕ} (htop : top ≤ 100000000)
    (hpages : ∀ limit ∈ List.range (most + 1), (minutesDown top limit).length = limit ∧
      (∀ c ∈ minutesDown top limit, isRoundMinute c.time = true) ∧
      (minutesDown top limit).IsChain (fun a b => a.time = b.time + minute))
    (h : now ≤ (halfPast top).utcNow) : Serving now fun _ : ℕ => newestTurn top most := by
  refine ⟨h, fun _ => le_rfl, fun _ trial limit candlesTo page hpage => ?_⟩
  simp only [newestTurn] at hpage
  split_ifs at hpage with hasked
  obtain ⟨rfl, hpos, hle⟩ := hasked
  obtain rfl := Except.ok.inj hpage
  obtain ⟨hlength, hround, hchain⟩ := hpages limit (List.mem_range.mpr (by omega))
  refine ⟨(halfPast top).utcNow, le_rfl, le_rfl, hlength, ⟨hround, hchain⟩, fun first hfirst => ?_⟩
  cases limit with
  | zero => cases hpos
  | succ n =>
      obtain rfl := Option.some.inj hfirst
      simp only [apiMinute, min_eq_left htop, halfPast, wallClock, Option.getD_none,
        Duration.minutes, Duration.seconds, minute]
      omega

/-- Half a minute into the 2000th minute. -/
def lateClock : Clock := halfPast 2000

def lateTurn : SyncTurn Unit := newestTurn 2000 61

theorem lateTurn_serving (h : now ≤ lateClock.utcNow) : Serving now fun _ : ℕ => lateTurn :=
  newestTurn_serving (by decide) (by decide +kernel) h

/-- A first call that adds the first minute. -/
def firstRow (n : ℕ) : AddCall := ⟨clockAt n, none, [firstMinute]⟩

def tableOf (call : AddCall) : Database :=
  match emptyTable.addCandles call.clock call.before call.batch with
  | .ok db => db
  | .error _ => emptyTable

theorem firstRow_produced {n : ℕ} (h : 0 < n) :
    Produced (tableOf (firstRow n)) (Duration.minutes n) := by
  have hplace : Places emptyTable none [firstMinute] :=
    ⟨⟨by decide, by decide⟩, fun c _ => Or.inl ⟨rfl, by simp [emptyTable, Database.candleRows]⟩⟩
  obtain ⟨db, hok⟩ : ∃ db, emptyTable.addCandles (firstRow n).clock (firstRow n).before
      (firstRow n).batch = .ok db := addCandles_ok (clockAt n) hplace
  have htable : tableOf (firstRow n) = db := by rw [tableOf, hok]
  have hstart : pastAdditions.Run [] (emptyTable, 0) := System.Run.start rfl
  refine ⟨[] ++ [firstRow n], hstart.step ⟨?_, ?_⟩⟩
  · intro c hc
    rw [List.mem_singleton.mp hc]
    simp only [apiMinute, firstMinute, firstRow, clockAt, wallClock, Duration.minutes]
    omega
  · refine ⟨?_, hplace, ?_, rfl⟩
    · simp only [firstRow, clockAt, wallClock, Duration.minutes]
      omega
    · rw [htable]
      exact hok

/-- Whether a task has ended, with a table that passes a test. -/
def makes {α : Type} (test : Database → Bool) : Option (Except α Database) → Bool
  | some (.ok db) => test db
  | _ => false

theorem exists_of_makes {α : Type} {test : Database → Bool}
    {result : Option (Except α Database)} (h : makes test result = true) :
    ∃ db, result = some (.ok db) ∧ test db = true := by
  unfold makes at h
  split at h
  · exact ⟨_, rfl, h⟩
  · cases h

/-- The first and the newest minute are stored and the second is not. -/
def hidesHole (db : Database) : Bool :=
  (db.candleRows.any fun c => c.time = 0) &&
    (db.candleRows.any fun c => c.time = Duration.minutes 2000) &&
    db.candleRows.all fun c => c.time ≠ Duration.minutes 1

theorem not_complete_of_hidesHole {db : Database} (h : hidesHole db = true) : ¬ Complete db := by
  simp only [hidesHole, Bool.and_eq_true, List.any_eq_true, List.all_eq_true,
    decide_eq_true_eq] at h
  obtain ⟨⟨hfirst, hlast⟩, hmissing⟩ := h
  intro hcomplete
  have hstored := hcomplete 0 (Duration.minutes 2000) (Duration.minutes 1) (stored_iff.mpr hfirst)
    (stored_iff.mpr hlast) (by decide) (by decide) (by decide)
  obtain ⟨c, hc, htime⟩ := stored_iff.mp hstored
  exact hmissing c hc htime

/-- Back to the epoch, in batches of `n + 1` candles. -/
def batchConfig (n : ℕ) : SyncPriceHistoryTaskConfig := ⟨1, n + 1, 0, by decide, Nat.succ_pos n⟩

/-- A page within the hour has its flag on an unstable row, and the backfill ends. -/
theorem short_batch_ends {n : ℕ} (h : n < 60) :
    ∃ db', EndsIn (batchConfig n) (tableOf (firstRow 1440)) db' ∧ ¬ Complete db' := by
  have hruns : ∀ n ∈ List.range 60, makes hidesHole (backfill (batchConfig n) none lateClock
      (fun _ => lateTurn) 1 (tableOf (firstRow 1440))) = true := by decide +kernel
  obtain ⟨db', hend, hhole⟩ := exists_of_makes (hruns n (List.mem_range.mpr h))
  exact ⟨db', ⟨Unit, _, _, none, lateClock, 1, firstRow_produced (by decide),
    lateTurn_serving (by decide), hend⟩, not_complete_of_hidesHole hhole⟩

/-- Behind an unstable head the flag has no stable row to report from. -/
theorem unstable_head_ends :
    ∃ db', EndsIn (batchConfig 60) (tableOf (firstRow 10)) db' ∧ ¬ Complete db' := by
  have hrun : makes hidesHole (backfill (batchConfig 60) none lateClock (fun _ => lateTurn) 1
      (tableOf (firstRow 10))) = true := by decide +kernel
  obtain ⟨db', hend, hhole⟩ := exists_of_makes hrun
  exact ⟨db', ⟨Unit, _, _, none, lateClock, 1, firstRow_produced (by decide),
    lateTurn_serving (by decide), hend⟩, not_complete_of_hidesHole hhole⟩

theorem firstRow_headOk {n : ℕ} (hrow : (tableOf (firstRow n)).ohlcCandles =
    [.ofCandle (clockAt n) firstMinute true true]) : HeadOk (tableOf (firstRow n)) 0 := by
  have hstored : ∀ t, Stored (marks (tableOf (firstRow n))) t → t = 0 := by
    intro t ht
    obtain ⟨r, hr, rfl⟩ := exists_of_stored ht
    rw [hrow, List.mem_singleton] at hr
    rw [hr]
    rfl
  refine Or.inr ⟨0, stable_iff.mpr ⟨_, hrow ▸ List.mem_singleton_self _, rfl, rfl⟩, ?_⟩
  intro e m he _ hem hm
  rw [hstored e he] at hem
  rwa [le_antisymm hm hem, ← hstored e he]

/-- From every table with a filled head a backfill that ends is complete, if and only if a
batch has more than an hour of candles. -/
theorem backfill_complete_iff (b : ℕ) (hb : 0 < b) :
    (∀ config db db', config.priceHistoryBatchSize = b → HeadOk db config.priceHistoryReach →
      EndsIn config db db' → Complete db' ∧ Reaches db' config.priceHistoryReach) ↔ 61 ≤ b := by
  constructor
  · intro hall
    by_contra hlt
    obtain ⟨n, rfl⟩ := Nat.exists_eq_succ_of_ne_zero hb.ne'
    obtain ⟨db', hend, hhole⟩ := short_batch_ends (n := n) (by omega)
    exact hhole (hall (batchConfig n) _ db' rfl (firstRow_headOk (by decide +kernel)) hend).1
  · rintro hbatch config db db' rfl hhead ⟨ε, now, turns, flagGapsRange, flagClock, fuel,
      hproduced, hserving, h⟩
    exact backfill_complete hbatch hproduced hserving hhead h

/-- The first minute is stored and stable, and the hour after it is downloaded at once. -/
theorem backfill_complete_iff_hour :
    ∃ db', EndsIn (batchConfig 99) (tableOf (firstRow 61)) db' ∧ db'.candleRows.length = 66 ∧
      Complete db' ∧ Reaches db' 0 := by
  have hrun : makes (fun db => db.candleRows.length = 66) (backfill (batchConfig 99) none
      (halfPast 65) (fun _ => newestTurn 65 66) 1 (tableOf (firstRow 61))) = true := by
    decide +kernel
  obtain ⟨db', hend, hrows⟩ := exists_of_makes hrun
  have hends : EndsIn (batchConfig 99) (tableOf (firstRow 61)) db' :=
    ⟨Unit, _, _, none, halfPast 65, 1, firstRow_produced (by decide),
      newestTurn_serving (by decide) (by decide +kernel) (by decide), hend⟩
  exact ⟨db', hends, of_decide_eq_true hrows,
    (backfill_complete_iff 100 (by decide)).mpr (by decide) _ _ db' rfl
      (firstRow_headOk (by decide +kernel)) hends⟩

theorem hidden_hole_at_end : ¬ ∀ config db db', EndsIn config db db' →
    Complete db' ∧ Reaches db' config.priceHistoryReach := by
  intro hclaim
  obtain ⟨db', hend, hhole⟩ := short_batch_ends (n := 59) (by decide)
  exact hhole (hclaim _ _ _ hend).1

end Quantoxide.Sync
