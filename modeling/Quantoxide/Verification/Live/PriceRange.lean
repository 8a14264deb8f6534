import Quantoxide.Model.PriceTicks
import Quantoxide.Verification.CandleTable.Holes

/-! # Prices stored over time

What the range query reads of the two tables, and that writes never drop an entry. -/

namespace Quantoxide.PriceTables

open CandleTable DateTime GapMarkers Result Spread Timeline

variable {tables : PriceTables} {start t : ℤ}

/-! ### The range query -/

/-- The lows and highs of the entries from a time on. -/
def readingsFrom (tables : PriceTables) (start : ℤ) : List (F64 × F64) :=
  (tables.ticksFrom start).map (fun t => (t.lastPrice, t.lastPrice)) ++
    (tables.candlesFrom start).map fun c => (c.low, c.high)

/-- Some tick or candle is stored at the time. -/
def HasEntry (tables : PriceTables) (t : ℤ) : Prop :=
  (∃ tick ∈ tables.priceTicks, tick.time = t) ∨ Stored (marks tables.db) t

theorem mem_readingsFrom {r : F64 × F64} : r ∈ tables.readingsFrom start ↔
    (∃ tick ∈ tables.priceTicks, start ≤ tick.time ∧ (tick.lastPrice, tick.lastPrice) = r) ∨
      ∃ c ∈ tables.db.candleRows, start ≤ c.time ∧ (c.low, c.high) = r := by
  simp [readingsFrom, ticksFrom, candlesFrom, and_assoc]

theorem latestOf_cases {lastTick lastCandle : Option PriceEntry} {entry : PriceEntry}
    (h : latestOf lastTick lastCandle = some entry) :
    lastTick = some entry ∨ lastCandle = some entry := by
  cases lastTick with
  | none => exact Or.inr h
  | some tick =>
      cases lastCandle with
      | none => exact Or.inl h
      | some candle =>
          by_cases hle : tick.time ≤ candle.time
          · exact Or.inr (by simpa [latestOf, hle] using h)
          · exact Or.inl (by simpa [latestOf, hle] using h)

theorem latestOf_eq_none {lastTick lastCandle : Option PriceEntry} :
    latestOf lastTick lastCandle = none ↔ lastTick = none ∧ lastCandle = none := by
  cases lastTick with
  | none => simp [latestOf]
  | some tick =>
      cases lastCandle with
      | none => simp [latestOf]
      | some candle =>
          simp only [latestOf, reduceCtorEq, and_self, iff_false]
          split_ifs <;> simp

theorem hasEntry_of_lastTick {ticks : List PriceTickRow} {entry : PriceEntry}
    (hsub : ∀ tick ∈ ticks, tick ∈ tables.priceTicks) (h : lastTick ticks = some entry) :
    tables.HasEntry entry.time := by
  obtain ⟨tick, htick, rfl⟩ := Option.map_eq_some_iff.mp h
  exact Or.inl ⟨tick, hsub tick (List.mem_of_getLast? htick), rfl⟩

theorem hasEntry_of_lastCandle {candles : List OhlcCandleRow} {entry : PriceEntry}
    (hsub : ∀ c ∈ candles, c ∈ tables.db.candleRows) (h : lastCandle candles = some entry) :
    tables.HasEntry entry.time := by
  obtain ⟨c, hc, rfl⟩ := Option.map_eq_some_iff.mp h
  exact Or.inr (stored_iff.mpr ⟨c, hsub c (List.mem_of_getLast? hc), rfl⟩)

/-- The latest entry is a stored one. -/
theorem hasEntry_of_latest {entry : PriceEntry} (h : tables.getLatestEntry = some entry) :
    tables.HasEntry entry.time := by
  rcases latestOf_cases h with h | h
  · exact hasEntry_of_lastTick (fun _ hm => hm) h
  · exact hasEntry_of_lastCandle (fun _ hm => hm) h

/-- The query returns the spread of the entries from the start on and the latest of them. -/
theorem getPriceRangeFrom_spec {range : F64 × F64} {entry : PriceEntry}
    (h : tables.getPriceRangeFrom start = some (range, entry)) :
    range = spread (tables.readingsFrom start) ∧ tables.HasEntry entry.time := by
  obtain ⟨latest, hlatest, heq⟩ := Option.map_eq_some_iff.mp h
  obtain ⟨rfl, rfl⟩ := Prod.mk.inj heq
  refine ⟨?_, ?_⟩
  · rw [spread, readingsFrom, List.foldl_append, List.foldl_map, List.foldl_map]
  · rcases latestOf_cases hlatest with hlast | hlast
    · exact hasEntry_of_lastTick (fun _ hm => List.mem_of_mem_filter hm) hlast
    · exact hasEntry_of_lastCandle (fun _ hm => List.mem_of_mem_filter hm) hlast

theorem readingsFrom_ne_nil (h : tables.HasEntry t) (hle : start ≤ t) :
    tables.readingsFrom start ≠ [] := by
  intro hnil
  rcases h with ⟨tick, htick, rfl⟩ | hstored
  · have hmem := mem_readingsFrom.mpr (Or.inl ⟨tick, htick, hle, rfl⟩)
    rw [hnil] at hmem
    simp at hmem
  · obtain ⟨c, hc, rfl⟩ := stored_iff.mp hstored
    have hmem := mem_readingsFrom.mpr (Or.inr ⟨c, hc, hle, rfl⟩)
    rw [hnil] at hmem
    simp at hmem

theorem getPriceRangeFrom_isSome (hne : tables.readingsFrom start ≠ []) :
    ∃ range entry, tables.getPriceRangeFrom start = some (range, entry) := by
  cases hlatest : latestOf (lastTick (tables.ticksFrom start))
      (lastCandle (tables.candlesFrom start)) with
  | none =>
      obtain ⟨hticks, hcandles⟩ := latestOf_eq_none.mp hlatest
      rw [lastTick, Option.map_eq_none_iff, List.getLast?_eq_none_iff] at hticks
      rw [lastCandle, Option.map_eq_none_iff, List.getLast?_eq_none_iff] at hcandles
      exact absurd (by simp [readingsFrom, hticks, hcandles]) hne
  | some entry =>
      simp only [getPriceRangeFrom, hlatest]
      exact ⟨_, entry, rfl⟩

/-! ### Writes -/

/-- Every entry is still stored. -/
def Keeps (tables tables' : PriceTables) : Prop := ∀ t, tables.HasEntry t → tables'.HasEntry t

theorem Keeps.trans {tables' tables'' : PriceTables} (h : tables.Keeps tables')
    (h' : tables'.Keeps tables'') : tables.Keeps tables'' := fun t ht => h' t (h t ht)

theorem keeps_insertTick (row : PriceTickRow) : tables.Keeps (tables.insertTick row) := by
  rintro t (⟨tick, htick, rfl⟩ | hstored)
  · exact Or.inl ((exists_key_upsert fun _ h => h).mpr (Or.inr ⟨tick, htick, rfl⟩))
  · exact Or.inr hstored

theorem keeps_addTicks (clock : Clock) (ticks : List LastPrice) :
    tables.Keeps (tables.addTicks clock ticks).1 := by
  suffices h : ∀ acc : PriceTables × List PriceTickRow,
      acc.1.Keeps (ticks.foldl (addTick clock) acc).1 from h (tables, [])
  induction ticks with
  | nil => exact fun acc t ht => ht
  | cons tick ticks ih =>
      intro acc
      refine Keeps.trans ?_ (ih _)
      simp only [addTick]
      split_ifs
      · exact fun t ht => ht
      · exact keeps_insertTick _

theorem stored_insertCandles {db : Database} {clock : Clock} {cutoff : ℤ}
    {batch : List (OhlcCandle × Bool)} (h : ∀ e ∈ batch, isRoundMinute e.1.time = true)
    (hstored : Stored (marks db) t) :
    Stored (marks (Database.insertCandles clock cutoff db batch h)) t := by
  induction batch generalizing db with
  | nil => exact hstored
  | cons e batch ih =>
      apply ih
      unfold Stored
      rw [marks_insertCandle]
      split_ifs
      · exact ⟨_, rfl⟩
      · exact hstored

theorem stored_addCandles {db db' : Database} {clock : Clock} {before : Option ℤ}
    {candles : List OhlcCandle} (h : db.addCandles clock before candles = .ok db')
    (hstored : Stored (marks db) t) : Stored (marks db') t := by
  unfold Database.addCandles at h
  split at h
  · obtain rfl := Except.ok.inj h
    exact hstored
  · split at h
    · cases h
    · obtain rfl := Except.ok.inj h
      apply stored_insertCandles
      cases before with
      | none => exact hstored
      | some time =>
          exact (stored_updateWhere (.gap false) fun t => decide (t = time)).mpr hstored

end Quantoxide.PriceTables
