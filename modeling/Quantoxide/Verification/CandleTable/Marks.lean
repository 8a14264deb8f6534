import Quantoxide.Library.GapMarkers
import Quantoxide.Library.Result
import Quantoxide.Model.CandleTable

/-! # The marks of the candle table

The flags of the rows as marks on the line of minutes: what each write does to them, and what
the gap query reads off them. -/

namespace Quantoxide.CandleTable

open DateTime GapMarkers Result Timeline

variable {db db' : Database} {clock : Clock} {t : ℤ} {k : Mark} {r : CandleRecord}

def minute : ℤ := Duration.minutes 1

theorem minute_eq : minute = 60000000000 := rfl

def markOf (r : CandleRecord) : Mark := ⟨r.row.stable, r.gap⟩

def marks (db : Database) : Marks := fun t =>
  (db.ohlcCandles.find? fun r => r.row.time = t).map markOf

theorem marks_eq_some :
    marks db t = some k ↔ ∃ r ∈ db.ohlcCandles, r.row.time = t ∧ markOf r = k := by
  have hasc : Ascending (fun r : CandleRecord => r.row.time) db.ohlcCandles := db.candlesAscending
  unfold marks
  rw [Option.map_eq_some_iff]
  simp only [hasc.find?_eq_some, and_assoc]

theorem stored_iff : Stored (marks db) t ↔ ∃ c ∈ db.candleRows, c.time = t := by
  simp only [Stored, marks_eq_some, Database.candleRows, List.mem_map]
  constructor
  · rintro ⟨k, r, hr, ht, -⟩
    exact ⟨r.row, ⟨r, hr, rfl⟩, ht⟩
  · rintro ⟨c, ⟨r, hr, rfl⟩, ht⟩
    exact ⟨_, r, hr, ht, rfl⟩

theorem stable_iff :
    Stable (marks db) t ↔ ∃ r ∈ db.ohlcCandles, r.row.time = t ∧ r.row.stable = true := by
  simp only [Stable, marks_eq_some]
  constructor
  · rintro ⟨k, ⟨r, hr, ht, rfl⟩, hstable⟩
    exact ⟨r, hr, ht, hstable⟩
  · rintro ⟨r, hr, ht, hstable⟩
    exact ⟨_, ⟨r, hr, ht, rfl⟩, hstable⟩

theorem flagged_iff :
    Flagged (marks db) t ↔ ∃ r ∈ db.ohlcCandles, r.row.time = t ∧ r.gap = true := by
  simp only [Flagged, marks_eq_some]
  constructor
  · rintro ⟨k, ⟨r, hr, ht, rfl⟩, hgap⟩
    exact ⟨r, hr, ht, hgap⟩
  · rintro ⟨r, hr, ht, hgap⟩
    exact ⟨_, ⟨r, hr, ht, rfl⟩, hgap⟩

theorem round_of_stored (h : Stored (marks db) t) : isRoundMinute t = true := by
  obtain ⟨k, hk⟩ := h
  obtain ⟨r, hr, rfl, -⟩ := marks_eq_some.mp hk
  exact (db.candlesMinutes r hr).round

/-- Round minutes lie a whole number of minutes apart. -/
theorem minute_dvd {s t : ℤ} (hs : isRoundMinute s = true) (ht : isRoundMinute t = true) :
    minute ∣ t - s := by
  simp only [isRoundMinute, floorMinute, beq_iff_eq] at hs ht
  rw [minute_eq]
  omega

theorem minute_le_of_lt {s t : ℤ} (hs : isRoundMinute s = true) (ht : isRoundMinute t = true)
    (h : s < t) : s + minute ≤ t := by
  simp only [isRoundMinute, floorMinute, beq_iff_eq] at hs ht
  rw [minute_eq]
  omega

/-! ### Writes -/

def assign : CandleRecord.Assignment → Mark → Mark
  | .gap value, k => { k with gap := value }
  | .stable value, k => { k with stable := value }

theorem markOf_touch (assignment : CandleRecord.Assignment) (r : CandleRecord) :
    markOf (r.touch clock assignment) = assign assignment (markOf r) := by
  cases assignment <;> rfl

/-- An update whose condition is on the time changes the marks of those times. -/
theorem marks_updateWhere (assignment : CandleRecord.Assignment) (p : ℤ → Bool) (t : ℤ) :
    marks (db.updateWhere clock assignment fun r => p r.row.time) t =
      if p t then (marks db t).map (assign assignment) else marks db t := by
  unfold marks Database.updateWhere
  simp only
  generalize db.ohlcCandles = rows
  induction rows with
  | nil => simp
  | cons r rows ih =>
      have htime : (if p r.row.time then r.touch clock assignment else r).row.time =
          r.row.time := by
        split_ifs
        · exact CandleRecord.time_touch clock assignment r
        · rfl
      rw [List.map_cons]
      by_cases hr : r.row.time = t
      · rw [List.find?_cons_of_pos (by simpa [htime] using hr),
          List.find?_cons_of_pos (by simpa using hr)]
        subst hr
        split_ifs <;> simp [markOf_touch]
      · rw [List.find?_cons_of_neg (by simpa [htime] using hr), ih,
          List.find?_cons_of_neg (by simpa using hr)]

theorem markOf_onConflict (excluded existing : CandleRecord) :
    markOf (CandleRecord.onConflict excluded existing) = markOf excluded := by
  unfold CandleRecord.onConflict
  split_ifs with h
  · rfl
  · simp only [ne_eq, not_or, not_not] at h
    simp [markOf, h]

theorem marks_insertCandle (hr : r.row.IsMinute) (t : ℤ) :
    marks (db.insertCandle r hr) t = if t = r.row.time then some (markOf r) else marks db t := by
  have hasc : Ascending (fun r : CandleRecord => r.row.time) db.ohlcCandles := db.candlesAscending
  have hmerge : ∀ x : CandleRecord, x.row.time = r.row.time →
      (CandleRecord.onConflict r x).row.time = r.row.time := by
    intro x hx
    rw [CandleRecord.time_onConflict, hx]
  unfold marks Database.insertCandle
  rw [find?_upsert hmerge hasc]
  by_cases ht : t = r.row.time
  · rw [if_pos ht, if_pos ht]
    cases db.ohlcCandles.find? (fun x => x.row.time = t) with
    | none => rfl
    | some x => simp [markOf_onConflict]
  · rw [if_neg ht, if_neg ht]

section Batch

variable {cutoff : ℤ} {batch : List (OhlcCandle × Bool)}

/-- A batch leaves the other times alone. -/
theorem marks_insertCandles_of_notMem (h : ∀ e ∈ batch, isRoundMinute e.1.time = true)
    (ht : ∀ e ∈ batch, e.1.time ≠ t) :
    marks (Database.insertCandles clock cutoff db batch h) t = marks db t := by
  induction batch generalizing db with
  | nil => rfl
  | cons e batch ih =>
      obtain ⟨c, gap⟩ := e
      have hne : t ≠ c.time := fun heq => ht _ List.mem_cons_self heq.symm
      rw [Database.insertCandles, ih _ fun e he => ht e (List.mem_cons_of_mem _ he),
        marks_insertCandle, CandleRecord.ofCandle, if_neg hne]

/-- A batch writes the marks of its own times. -/
theorem marks_insertCandles_of_mem (h : ∀ e ∈ batch, isRoundMinute e.1.time = true)
    (hdesc : batch.Pairwise (fun a b => b.1.time < a.1.time)) {e : OhlcCandle × Bool}
    (he : e ∈ batch) : marks (Database.insertCandles clock cutoff db batch h) e.1.time =
      some ⟨e.1.time ≤ cutoff, e.2⟩ := by
  induction batch generalizing db with
  | nil => cases he
  | cons d batch ih =>
      obtain ⟨c, gap⟩ := d
      obtain ⟨hd, hrest⟩ := List.pairwise_cons.mp hdesc
      rw [Database.insertCandles]
      rcases List.mem_cons.mp he with rfl | he
      · rw [marks_insertCandles_of_notMem _ fun e he => (hd e he).ne, marks_insertCandle]
        simp [CandleRecord.ofCandle, markOf]
      · exact ih _ hrest he

end Batch

/-! ### The gap query -/

theorem filter_ascending (db : Database) (p : CandleRecord → Bool) :
    Ascending (fun r : CandleRecord => r.row.time) (db.ohlcCandles.filter p) :=
  Ascending.filter p db.candlesAscending

theorem stableBefore_eq_some {f : ℤ} :
    db.stableBefore t = some f ↔ Stable (marks db) f ∧ f < t ∧
      ∀ s, Stable (marks db) s → s < t → s ≤ f := by
  have hrows : db.stableBefore t = (db.ohlcCandles.filter fun r =>
      r.row.time < t ∧ r.row.stable = true).getLast?.map (·.row.time) := by
    rw [Database.stableBefore, Database.candleRows, List.filter_map, List.getLast?_map,
      Option.map_map]
    rfl
  rw [hrows, Option.map_eq_some_iff]
  simp only [(filter_ascending db _).getLast?_eq_some, List.mem_filter, decide_eq_true_eq]
  constructor
  · rintro ⟨r, ⟨⟨hr, hlt, hstable⟩, hlast⟩, rfl⟩
    refine ⟨stable_iff.mpr ⟨r, hr, rfl, hstable⟩, hlt, ?_⟩
    intro s hs hst
    obtain ⟨c, hc, rfl, hcs⟩ := stable_iff.mp hs
    exact hlast c ⟨hc, hst, hcs⟩
  · rintro ⟨hf, hlt, hlast⟩
    obtain ⟨r, hr, rfl, hstable⟩ := stable_iff.mp hf
    refine ⟨r, ⟨⟨hr, hlt, hstable⟩, ?_⟩, rfl⟩
    intro c ⟨hc, hct, hcs⟩
    exact hlast _ (stable_iff.mpr ⟨c, hc, rfl, hcs⟩) hct

/-- The query answers the intervals that the flags report. -/
theorem mem_getGaps {g : ℤ × ℤ} : g ∈ db.getGaps ↔ Interval (marks db) g.1 g.2 := by
  unfold Database.getGaps
  rw [List.mem_filterMap]
  constructor
  · rintro ⟨r, hr, hg⟩
    split_ifs at hg with hflag
    obtain ⟨f, hf, rfl⟩ := Option.map_eq_some_iff.mp hg
    obtain ⟨hstable, hlt, hlast⟩ := stableBefore_eq_some.mp hf
    exact ⟨hlt, hstable, stable_iff.mpr ⟨r, hr, rfl, hflag.2⟩,
      flagged_iff.mpr ⟨r, hr, rfl, hflag.1⟩, hlast⟩
  · intro hg
    obtain ⟨k, hk, hgap⟩ := hg.flagged
    obtain ⟨r, hr, ht, rfl⟩ := marks_eq_some.mp hk
    obtain ⟨k', hk', hstable⟩ := hg.upper
    obtain rfl := Option.some.inj (hk.symm.trans hk')
    refine ⟨r, hr, ?_⟩
    rw [if_pos ⟨hgap, hstable⟩, Option.map_eq_some_iff]
    refine ⟨g.1, stableBefore_eq_some.mpr ⟨hg.lower, ht ▸ hg.lt, ?_⟩, by rw [ht]⟩
    intro s hs hst
    exact hg.last s hs (ht ▸ hst)

theorem covered_iff {m : ℤ} :
    Covered (marks db) m ↔ ∃ g ∈ db.getGaps, g.1 < m ∧ m < g.2 := by
  simp only [mem_getGaps, Prod.exists]
  rfl

/-- The intervals come in the order of the candles that end them. -/
theorem getGaps_ascending (db : Database) : Ascending (fun g : ℤ × ℤ => g.2) db.getGaps := by
  unfold Database.getGaps Ascending
  refine List.Pairwise.filterMap _ ?_ db.candlesAscending
  intro r r' hlt g hg g' hg'
  split_ifs at hg hg'
  obtain ⟨_, -, rfl⟩ := Option.map_eq_some_iff.mp hg
  obtain ⟨_, -, rfl⟩ := Option.map_eq_some_iff.mp hg'
  exact hlt

/-! ### The price history state -/

theorem getEarliest_eq_some {e : ℤ} : db.getEarliestCandleTime = some e ↔
    Stored (marks db) e ∧ ∀ s, Stored (marks db) s → e ≤ s := by
  have hasc : Ascending (fun c : OhlcCandleRow => c.time) db.candleRows :=
    List.pairwise_map.mpr db.candlesAscending
  rw [Database.getEarliestCandleTime, Option.map_eq_some_iff]
  simp only [hasc.head?_eq_some, stored_iff]
  constructor
  · rintro ⟨c, ⟨hc, hleast⟩, rfl⟩
    exact ⟨⟨c, hc, rfl⟩, fun s ⟨d, hd, hs⟩ => hs ▸ hleast d hd⟩
  · rintro ⟨⟨c, hc, rfl⟩, hleast⟩
    exact ⟨c, ⟨hc, fun d hd => hleast _ ⟨d, hd, rfl⟩⟩, rfl⟩

theorem getLatest_eq_some {e : ℤ} : db.getLatestCandleTime = some e ↔
    Stored (marks db) e ∧ ∀ s, Stored (marks db) s → s ≤ e := by
  have hasc : Ascending (fun c : OhlcCandleRow => c.time) db.candleRows :=
    List.pairwise_map.mpr db.candlesAscending
  rw [Database.getLatestCandleTime, Option.map_eq_some_iff]
  simp only [hasc.getLast?_eq_some, stored_iff]
  constructor
  · rintro ⟨c, ⟨hc, hgreatest⟩, rfl⟩
    exact ⟨⟨c, hc, rfl⟩, fun s ⟨d, hd, hs⟩ => hs ▸ hgreatest d hd⟩
  · rintro ⟨⟨c, hc, rfl⟩, hgreatest⟩
    exact ⟨c, ⟨hc, fun d hd => hgreatest _ ⟨d, hd, rfl⟩⟩, rfl⟩

/-- A table of one row has no interval to report. -/
theorem getGaps_of_single {e : ℤ} (hearliest : db.getEarliestCandleTime = some e)
    (hlatest : db.getLatestCandleTime = some e) : db.getGaps = [] := by
  rw [List.eq_nil_iff_forall_not_mem]
  intro g hg
  have hint := mem_getGaps.mp hg
  have hlo := (getEarliest_eq_some.mp hearliest).2 _ hint.lower.stored
  have hhi := (getLatest_eq_some.mp hlatest).2 _ hint.upper.stored
  exact absurd hint.lt (not_lt.mpr (hhi.trans hlo))

theorem earliest_eq_none : db.getEarliestCandleTime = none ↔ db.ohlcCandles = [] := by
  simp [Database.getEarliestCandleTime, Database.candleRows]

theorem latest_eq_none : db.getLatestCandleTime = none ↔ db.ohlcCandles = [] := by
  simp [Database.getLatestCandleTime, Database.candleRows]

theorem getGaps_of_empty (h : db.ohlcCandles = []) : db.getGaps = [] := by
  rw [Database.getGaps, h]
  rfl

/-- A state that is built holds the bounds of the table and the gaps of the query. -/
theorem new_eq_ok {reach : Option ℤ} {state : PriceHistoryState}
    (h : PriceHistoryState.new db reach = .ok state) :
    state.reachTime = reach ∧ state.gaps = db.getGaps ∧
      state.boundStart = db.getEarliestCandleTime ∧ state.boundEnd = db.getLatestCandleTime := by
  unfold PriceHistoryState.new at h
  cases he : db.getEarliestCandleTime with
  | none =>
      have hempty := earliest_eq_none.mp he
      simp only [he, Except.ok.injEq] at h
      rw [← h, getGaps_of_empty hempty, latest_eq_none.mpr hempty]
      exact ⟨rfl, rfl, rfl, rfl⟩
  | some earliest =>
      cases hl : db.getLatestCandleTime with
      | none => simp [earliest_eq_none.mpr (latest_eq_none.mp hl)] at he
      | some latest =>
          simp only [he, hl] at h
          split_ifs at h with hsame
          · obtain ⟨_, -, h⟩ := bind_eq_ok.mp h
            subst hsame
            rw [← pure_eq_ok.mp h, getGaps_of_single he hl]
            exact ⟨rfl, rfl, rfl, rfl⟩
          · cases hg : db.getGaps with
            | nil =>
                simp only [hg, Except.ok.injEq] at h
                rw [← h]
                exact ⟨rfl, rfl, rfl, rfl⟩
            | cons gap gaps =>
                simp only [hg] at h
                obtain ⟨_, -, h⟩ := bind_eq_ok.mp h
                rw [← pure_eq_ok.mp h]
                exact ⟨rfl, rfl, rfl, rfl⟩

end Quantoxide.CandleTable
