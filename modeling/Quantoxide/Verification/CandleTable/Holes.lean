import Quantoxide.Verification.CandleTable.Markers

/-! # The holes that `flag_missing_candles` reports

A gap between stable rows takes the five rows on either side out of the stable ones, and
only stable rows bound the intervals of the gap query. A hole is reported when some stable
row is left on both sides of it. -/

namespace Quantoxide.CandleTable

open DateTime GapMarkers Timeline

variable {db : Database} {clock : Clock} {range t a b : ℤ}

/-- A missing minute strictly between stored rows. -/
structure Hole (db : Database) (m : ℤ) : Prop where
  round : isRoundMinute m = true
  missing : ¬ Stored (marks db) m
  lower : ∃ t, Stored (marks db) t ∧ t < m
  upper : ∃ t, Stored (marks db) t ∧ m < t

/-- Consecutive stable rows more than a minute apart, the later one not flagged. -/
structure UnflaggedGap (db : Database) (a b : ℤ) : Prop where
  lower : Stable (marks db) a
  upper : Stable (marks db) b
  unflagged : ¬ Flagged (marks db) b
  lt : a + minute < b
  next : ∀ t, Stored (marks db) t → a < t → b ≤ t

/-- One of the five rows up to `a` or of the five from `b` on. -/
def Beside (db : Database) (a b t : ℤ) : Prop :=
  (t ≤ a ∧ (db.ohlcCandles.filter fun r => t < r.row.time ∧ r.row.time ≤ a).length < 5) ∨
    (b ≤ t ∧ (db.ohlcCandles.filter fun r => b ≤ r.row.time ∧ r.row.time < t).length < 5)

/-- A stable row that no gap takes into its margin. -/
def Sheltered (db : Database) (t : ℤ) : Prop :=
  Stable (marks db) t ∧ ∀ a b, UnflaggedGap db a b → ¬ Beside db a b t

/-- An interval of the gap query holds the minute, and no range around it is available. -/
def Reported (db : Database) (m : ℤ) : Prop :=
  (∃ g ∈ db.getGaps, g.1 < m ∧ m < g.2) ∧
    ∀ state lo hi, PriceHistoryState.evaluate db = .ok state → lo < hi → lo ≤ m → m ≤ hi →
      state.isRangeAvailable lo hi = .ok false

/-! ### The passes -/

theorem stored_of_mem {r : CandleRecord} (hr : r ∈ db.ohlcCandles) :
    Stored (marks db) r.row.time := ⟨markOf r, marks_eq_some.mpr ⟨r, hr, rfl, rfl⟩⟩

theorem exists_of_stored (h : Stored (marks db) t) : ∃ r ∈ db.ohlcCandles, r.row.time = t := by
  obtain ⟨k, hk⟩ := h
  obtain ⟨r, hr, htime, -⟩ := marks_eq_some.mp hk
  exact ⟨r, hr, htime⟩

theorem stable_time {r : CandleRecord} (hr : r ∈ db.ohlcCandles) :
    Stable (marks db) r.row.time ↔ r.row.stable = true := by
  rw [Stable, marks_eq_some.mpr ⟨r, hr, rfl, rfl⟩]
  simp [markOf]

theorem flagged_time {r : CandleRecord} (hr : r ∈ db.ohlcCandles) :
    Flagged (marks db) r.row.time ↔ r.gap = true := by
  rw [Flagged, marks_eq_some.mpr ⟨r, hr, rfl, rfl⟩]
  simp [markOf]

/-- The row after a time is the first of those beyond it. -/
theorem head?_after {c : CandleRecord} :
    (db.ohlcCandles.filter fun r => t < r.row.time).head? = some c ↔
      c ∈ db.ohlcCandles ∧ t < c.row.time ∧
        ∀ s, Stored (marks db) s → t < s → c.row.time ≤ s := by
  simp only [(filter_ascending db _).head?_eq_some, List.mem_filter, decide_eq_true_eq, and_assoc]
  refine and_congr_right fun _ => and_congr_right fun _ => ?_
  constructor
  · intro hleast s hs hlt
    obtain ⟨r, hr, rfl⟩ := exists_of_stored hs
    exact hleast r ⟨hr, hlt⟩
  · intro hleast r hr
    exact hleast _ (stored_of_mem hr.1) hr.2

/-- The row before a time is the last of those below it. -/
theorem getLast?_before {c : CandleRecord} :
    (db.ohlcCandles.filter fun r => r.row.time < t).getLast? = some c ↔
      c ∈ db.ohlcCandles ∧ c.row.time < t ∧
        ∀ s, Stored (marks db) s → s < t → s ≤ c.row.time := by
  simp only [(filter_ascending db _).getLast?_eq_some, List.mem_filter, decide_eq_true_eq,
    and_assoc]
  refine and_congr_right fun _ => and_congr_right fun _ => ?_
  constructor
  · intro hlast s hs hlt
    obtain ⟨r, hr, rfl⟩ := exists_of_stored hs
    exact hlast r ⟨hr, hlt⟩
  · intro hlast r hr
    exact hlast _ (stored_of_mem hr.1) hr.2

theorem mem_gapAfterTimes {cutoff : ℤ} :
    a ∈ db.gapAfterTimes cutoff ↔ cutoff ≤ a ∧ ∃ b, UnflaggedGap db a b := by
  unfold Database.gapAfterTimes
  rw [List.mem_filterMap]
  constructor
  · rintro ⟨c1, hc1, h⟩
    split at h
    · cases h
    · rename_i c2 hnext
      obtain ⟨hc2, -, hnext⟩ := head?_after.mp hnext
      split_ifs at h with hgap
      obtain ⟨hcutoff, hlower, hlt, hupper, hflag⟩ := hgap
      obtain rfl := Option.some.inj h
      refine ⟨hcutoff, c2.row.time, (stable_time hc1).mpr hlower, (stable_time hc2).mpr hupper, ?_,
        hlt, hnext⟩
      simp [flagged_time hc2, hflag]
  · rintro ⟨hcutoff, b, hlower, hupper, hflag, hlt, hnext⟩
    obtain ⟨c1, hc1, rfl⟩ := exists_of_stored hlower.stored
    obtain ⟨c2, hc2, rfl⟩ := exists_of_stored hupper.stored
    rw [stable_time hc1] at hlower
    rw [stable_time hc2] at hupper
    rw [flagged_time hc2, Bool.not_eq_true] at hflag
    have hafter : c1.row.time < c2.row.time := by
      rw [minute_eq] at hlt
      omega
    refine ⟨c1, hc1, ?_⟩
    rw [head?_after.mpr ⟨hc2, hafter, hnext⟩]
    simp only
    exact if_pos ⟨hcutoff, hlower, hlt, hupper, hflag⟩

section Margins

variable {cutoff : ℤ} (hcutoff : ∀ c ∈ db.candleRows, cutoff ≤ c.time)

include hcutoff in
theorem cutoff_le (h : Stored (marks db) t) : cutoff ≤ t := by
  obtain ⟨c, hc, rfl⟩ := stored_iff.mp h
  exact hcutoff c hc

include hcutoff in
theorem mem_lowerMargin : (∃ r ∈ (db.upTo cutoff a).reverse.take 5, r.row.time = t) ↔
    Stored (marks db) t ∧ t ≤ a ∧
      (db.ohlcCandles.filter fun r => t < r.row.time ∧ r.row.time ≤ a).length < 5 := by
  have hdesc : (db.upTo cutoff a).reverse.Pairwise (fun x y => y.row.time < x.row.time) :=
    List.pairwise_reverse.mpr (filter_ascending db _)
  have hmem : (∃ r ∈ (db.upTo cutoff a).reverse, r.row.time = t) ↔ Stored (marks db) t ∧ t ≤ a := by
    constructor
    · rintro ⟨r, hr, rfl⟩
      rw [List.mem_reverse, Database.upTo, List.mem_filter, decide_eq_true_eq] at hr
      exact ⟨stored_of_mem hr.1, hr.2.2⟩
    · rintro ⟨hstored, hle⟩
      obtain ⟨r, hr, rfl⟩ := exists_of_stored hstored
      refine ⟨r, ?_, rfl⟩
      rw [List.mem_reverse, Database.upTo, List.mem_filter, decide_eq_true_eq]
      exact ⟨hr, cutoff_le hcutoff hstored, hle⟩
  have hcount : ((db.upTo cutoff a).reverse.filter fun r => t < r.row.time).length =
      (db.ohlcCandles.filter fun r => t < r.row.time ∧ r.row.time ≤ a).length := by
    rw [List.filter_reverse, List.length_reverse, Database.upTo, List.filter_filter]
    congr 1
    apply List.filter_congr
    intro r hr
    have hle := cutoff_le hcutoff (stored_of_mem hr)
    simp [hle]
  rw [exists_mem_take_iff (R := fun x y : ℤ => y < x) (fun _ _ => lt_asymm) hdesc, hmem, hcount,
    and_assoc]

include hcutoff in
theorem mem_upperMargin (hgap : UnflaggedGap db a b) :
    (∃ r ∈ (db.afterGap cutoff a).take 5, r.row.time = t) ↔
      Stored (marks db) t ∧ b ≤ t ∧
        (db.ohlcCandles.filter fun r => b ≤ r.row.time ∧ r.row.time < t).length < 5 := by
  have hbeyond : ∀ s, Stored (marks db) s → (a < s ↔ b ≤ s) := by
    intro s hs
    have hlt := hgap.lt
    rw [minute_eq] at hlt
    exact ⟨hgap.next s hs, fun hle => by omega⟩
  have hasc : (db.afterGap cutoff a).Pairwise (fun x y => x.row.time < y.row.time) :=
    filter_ascending db _
  have hmem : (∃ r ∈ db.afterGap cutoff a, r.row.time = t) ↔ Stored (marks db) t ∧ b ≤ t := by
    constructor
    · rintro ⟨r, hr, rfl⟩
      rw [Database.afterGap, List.mem_filter, decide_eq_true_eq] at hr
      have hstored := stored_of_mem hr.1
      exact ⟨hstored, (hbeyond _ hstored).mp hr.2.2⟩
    · rintro ⟨hstored, hle⟩
      obtain ⟨r, hr, rfl⟩ := exists_of_stored hstored
      refine ⟨r, ?_, rfl⟩
      rw [Database.afterGap, List.mem_filter, decide_eq_true_eq]
      exact ⟨hr, cutoff_le hcutoff hstored, (hbeyond _ hstored).mpr hle⟩
  have hcount : ((db.afterGap cutoff a).filter fun r => r.row.time < t).length =
      (db.ohlcCandles.filter fun r => b ≤ r.row.time ∧ r.row.time < t).length := by
    rw [Database.afterGap, List.filter_filter]
    congr 1
    apply List.filter_congr
    intro r hr
    have hle := cutoff_le hcutoff (stored_of_mem hr)
    simp [hle, hbeyond _ (stored_of_mem hr), Bool.and_comm]
  rw [exists_mem_take_iff (R := fun x y : ℤ => x < y) (fun _ _ => lt_asymm) hasc, hmem, hcount,
    and_assoc]

include hcutoff in
/-- The rows taken out are those beside some gap. -/
theorem mem_unstableTimes : t ∈ db.unstableTimes cutoff (db.gapAfterTimes cutoff) ↔
    Stored (marks db) t ∧ ∃ a b, UnflaggedGap db a b ∧ Beside db a b t := by
  unfold Database.unstableTimes
  simp only [List.mem_flatMap, mem_gapAfterTimes, List.mem_map, List.mem_append, or_and_right,
    exists_or]
  constructor
  · rintro ⟨a, ⟨-, b, hgap⟩, h⟩
    rcases h with h | h
    · obtain ⟨hstored, h⟩ := (mem_lowerMargin hcutoff).mp h
      exact ⟨hstored, a, b, hgap, Or.inl h⟩
    · obtain ⟨hstored, h⟩ := (mem_upperMargin hcutoff hgap).mp h
      exact ⟨hstored, a, b, hgap, Or.inr h⟩
  · rintro ⟨hstored, a, b, hgap, h⟩
    refine ⟨a, ⟨cutoff_le hcutoff hgap.lower.stored, b, hgap⟩, ?_⟩
    rcases h with h | h
    · exact Or.inl ((mem_lowerMargin hcutoff).mpr ⟨hstored, h⟩)
    · exact Or.inr ((mem_upperMargin hcutoff hgap).mpr ⟨hstored, h⟩)

end Margins

/-! ### What the passes leave -/

theorem stable_updateGap (p : ℤ → Bool) :
    Stable (marks (db.updateWhere clock (.gap true) fun r => p r.row.time)) t ↔
      Stable (marks db) t := by
  unfold Stable
  rw [marks_updateWhere]
  split_ifs
  · simp [assign]
  · rfl

theorem flagged_updateGap (p : ℤ → Bool) :
    Flagged (marks (db.updateWhere clock (.gap true) fun r => p r.row.time)) t ↔
      Flagged (marks db) t ∨ p t = true ∧ Stored (marks db) t := by
  unfold Flagged Stored
  rw [marks_updateWhere]
  by_cases hp : p t = true
  · cases hk : marks db t with
    | none => simp
    | some k => simp [hp, assign]
  · simp [hp]

theorem stored_updateWhere (assignment : CandleRecord.Assignment) (p : ℤ → Bool) :
    Stored (marks (db.updateWhere clock assignment fun r => p r.row.time)) t ↔
      Stored (marks db) t := by
  unfold Stored
  rw [marks_updateWhere]
  split_ifs
  · simp
  · rfl

theorem stable_updateStable (p : ℤ → Bool) :
    Stable (marks (db.updateWhere clock (.stable false) fun r => p r.row.time)) t ↔
      Stable (marks db) t ∧ ¬ p t = true := by
  unfold Stable
  rw [marks_updateWhere]
  by_cases hp : p t = true
  · simp [hp, assign]
  · simp [hp]

theorem flagged_updateStable (p : ℤ → Bool) :
    Flagged (marks (db.updateWhere clock (.stable false) fun r => p r.row.time)) t ↔
      Flagged (marks db) t := by
  unfold Flagged
  rw [marks_updateWhere]
  split_ifs
  · simp [assign]
  · rfl

/-- The row before a stored one. -/
theorem exists_row_before (h : ∃ s, Stored (marks db) s ∧ s < t) :
    ∃ p ∈ db.ohlcCandles, p.row.time < t ∧
      ∀ s, Stored (marks db) s → s < t → s ≤ p.row.time := by
  obtain ⟨s, hs, hlt⟩ := h
  obtain ⟨r, hr, rfl⟩ := exists_of_stored hs
  cases hlast : (db.ohlcCandles.filter fun r => r.row.time < t).getLast? with
  | none =>
      rw [List.getLast?_eq_none_iff, List.filter_eq_nil_iff] at hlast
      exact absurd hlt (by simpa using hlast r hr)
  | some p => exact ⟨p, getLast?_before.mp hlast⟩

/-- The third pass selects a stable row that follows an unstable one. -/
theorem mem_unflaggedAfterUnstable {cutoff : ℤ} (hcutoff : cutoff ≤ t)
    (ht : Stable (marks db) t) (hflag : ¬ Flagged (marks db) t) {p : CandleRecord}
    (hp : p ∈ db.ohlcCandles) (hlt : p.row.time < t)
    (hlast : ∀ s, Stored (marks db) s → s < t → s ≤ p.row.time)
    (hunstable : ¬ Stable (marks db) p.row.time) : t ∈ db.unflaggedAfterUnstable cutoff := by
  obtain ⟨c, hc, rfl⟩ := exists_of_stored ht.stored
  rw [stable_time hc] at ht
  rw [flagged_time hc, Bool.not_eq_true] at hflag
  rw [stable_time hp, Bool.not_eq_true] at hunstable
  refine List.mem_filterMap.mpr ⟨c, hc, ?_⟩
  rw [getLast?_before.mpr ⟨hp, hlt, hlast⟩]
  exact if_pos ⟨hcutoff, ht, hflag, hunstable⟩

/-- The table after the first two passes has the stable rows that no margin took, and keeps
its flags. -/
theorem buffered_spec (hcutoff : ∀ c ∈ db.candleRows, clock.utcNow - range ≤ c.time) :
    ∃ buffered : Database, db.flagMissingCandles clock range =
        buffered.updateWhere clock (.gap true) (fun r =>
          (buffered.unflaggedAfterUnstable (clock.utcNow - range)).contains r.row.time) ∧
      (∀ t, Stored (marks buffered) t ↔ Stored (marks db) t) ∧
      (∀ t, Stable (marks buffered) t ↔ Sheltered db t) ∧
      ∀ t, Flagged (marks db) t → Flagged (marks buffered) t := by
  have hsheltered : ∀ t, (Stable (marks db) t ∧
      ¬ t ∈ db.unstableTimes (clock.utcNow - range) (db.gapAfterTimes (clock.utcNow - range))) ↔
      Sheltered db t := by
    intro t
    refine and_congr_right fun ht => ?_
    rw [mem_unstableTimes hcutoff]
    push Not
    exact ⟨fun h a b => h ht.stored a b, fun h _ a b => h a b⟩
  unfold Database.flagMissingCandles
  by_cases hnone : db.gapAfterTimes (clock.utcNow - range) = []
  · refine ⟨db, by simp only [hnone, List.isEmpty_nil, if_true], fun _ => Iff.rfl, fun t => ?_,
      fun _ => id⟩
    rw [← hsheltered t, hnone]
    simp [Database.unstableTimes]
  · have hempty : ¬ (db.gapAfterTimes (clock.utcNow - range)).isEmpty = true := by
      simpa using hnone
    simp only [if_neg hempty]
    refine ⟨_, rfl, fun t => ?_, fun t => ?_, fun t ht => ?_⟩
    · rw [stored_updateWhere (.gap true) fun time => List.contains _ time,
        stored_updateWhere (.stable false) fun time => List.contains _ time]
    · rw [stable_updateGap fun time => List.contains _ time,
        stable_updateStable fun time => List.contains _ time, ← hsheltered t, List.contains_iff_mem]
    · rw [flagged_updateGap fun time => List.contains _ time,
        flagged_updateStable fun time => List.contains _ time]
      exact Or.inl ht

theorem sheltered_iff_stable (hcutoff : ∀ c ∈ db.candleRows, clock.utcNow - range ≤ c.time) :
    Stable (marks (db.flagMissingCandles clock range)) t ↔ Sheltered db t := by
  obtain ⟨buffered, heq, -, hstable, -⟩ := buffered_spec hcutoff
  rw [heq, stable_updateGap fun time => List.contains _ time, hstable]

theorem stored_flagMissingCandles
    (hcutoff : ∀ c ∈ db.candleRows, clock.utcNow - range ≤ c.time) :
    Stored (marks (db.flagMissingCandles clock range)) t ↔ Stored (marks db) t := by
  obtain ⟨buffered, heq, hstored, -⟩ := buffered_spec hcutoff
  rw [heq, stored_updateWhere (.gap true) fun time => List.contains _ time, hstored]

/-- Afterwards a stable row with a row before it follows on a stable one or is flagged. -/
theorem marked_flagMissingCandles
    (hcutoff : ∀ c ∈ db.candleRows, clock.utcNow - range ≤ c.time) (ht : Sheltered db t)
    (hbelow : ∃ s, Stored (marks db) s ∧ s < t) :
    Sheltered db (t - minute) ∨ Flagged (marks (db.flagMissingCandles clock range)) t := by
  obtain ⟨buffered, heq, hstored, hstable, hflagged⟩ := buffered_spec hcutoff
  rw [heq, flagged_updateGap fun time => List.contains _ time, List.contains_iff_mem, hstored]
  obtain ⟨p, hp, hlt, hlast⟩ := exists_row_before hbelow
  have hround := minute_le_of_lt (round_of_stored (stored_of_mem hp))
    (round_of_stored ht.1.stored) hlt
  by_cases hflag : Flagged (marks buffered) t
  · exact Or.inr (Or.inl hflag)
  by_cases hshelter : Sheltered db p.row.time
  · rcases eq_or_lt_of_le hround with hadj | hfar
    · exact Or.inl (by rwa [← hadj, add_sub_cancel_right])
    · -- A row right after an unflagged gap is in the gap's margin.
      have hgap : UnflaggedGap db p.row.time t := by
        refine ⟨hshelter.1, ht.1, fun h => hflag (hflagged t h), hfar, fun s hs hps => ?_⟩
        by_contra hst
        exact absurd (hlast s hs (not_le.mp hst)) (not_le.mpr hps)
      have hnone : (db.ohlcCandles.filter fun r => t ≤ r.row.time ∧ r.row.time < t) = [] := by
        rw [List.filter_eq_nil_iff]
        intro r _
        simp
      exact absurd (Or.inr ⟨le_rfl, by rw [hnone]; decide⟩) (ht.2 _ _ hgap)
  · obtain ⟨q, hq, hqt⟩ := exists_of_stored ((hstored _).mpr (stored_of_mem hp))
    refine Or.inr (Or.inr ⟨mem_unflaggedAfterUnstable ?_ ((hstable t).mpr ht) hflag hq (hqt ▸ hlt)
      (fun s hs hst => ?_) ?_, ht.1.stored⟩)
    · exact cutoff_le hcutoff ht.1.stored
    · rw [hqt]
      exact hlast s ((hstored s).mp hs) hst
    · rw [hqt, hstable]
      exact hshelter

/-! ### Marked tables -/

theorem updateWhere_none (assignment : CandleRecord.Assignment) :
    (db.updateWhere clock assignment fun r => List.contains [] r.row.time) = db := by
  cases db
  simp [Database.updateWhere]

/-- A marked table has no gap to flag. -/
theorem gapAfterTimes_of_marked (h : Marked minute (marks db)) (cutoff : ℤ) :
    db.gapAfterTimes cutoff = [] := by
  rw [List.eq_nil_iff_forall_not_mem]
  intro a ha
  obtain ⟨-, b, hgap⟩ := mem_gapAfterTimes.mp ha
  have hlt := hgap.lt
  rcases h b hgap.upper with hprev | hflag
  · have hle := hgap.next _ hprev.stored (by omega)
    rw [minute_eq] at hle
    omega
  · exact hgap.unflagged hflag

theorem unflaggedAfterUnstable_of_marked (h : Marked minute (marks db)) (cutoff : ℤ) :
    db.unflaggedAfterUnstable cutoff = [] := by
  rw [Database.unflaggedAfterUnstable, List.filterMap_eq_nil_iff]
  intro c hc
  split
  · rfl
  · rename_i p hlast
    obtain ⟨hp, hlt, hlast⟩ := getLast?_before.mp hlast
    rw [if_neg]
    rintro ⟨-, hstable, hflag, hunstable⟩
    rcases h _ ((stable_time hc).mpr hstable) with hprev | hflagged
    · -- The row before is the one a minute earlier.
      have hle := hlast _ hprev.stored (by rw [minute_eq]; omega)
      have hround := minute_le_of_lt (round_of_stored (stored_of_mem hp))
        (round_of_stored (stored_of_mem hc)) hlt
      rw [show c.row.time - minute = p.row.time by omega, stable_time hp, hunstable] at hprev
      cases hprev
    · rw [flagged_time hc, hflag] at hflagged
      cases hflagged

/-- On a marked table nothing is flagged. -/
theorem flagMissingCandles_of_marked (h : Marked minute (marks db)) (clock : Clock) (range : ℤ) :
    db.flagMissingCandles clock range = db := by
  unfold Database.flagMissingCandles
  simp only [gapAfterTimes_of_marked h, List.isEmpty_nil, if_true,
    unflaggedAfterUnstable_of_marked h, updateWhere_none]

/-! ### The holes -/

theorem reported_of_gap {m : ℤ} {g : ℤ × ℤ} (hg : g ∈ db.getGaps) (hlo : g.1 < m)
    (hhi : m < g.2) : Reported db m := by
  refine ⟨⟨g, hg, hlo, hhi⟩, fun state lo hi hstate hlt hlom hmhi => ?_⟩
  have hgap : g ∈ state.gaps := by rwa [(new_eq_ok hstate).2.1]
  unfold PriceHistoryState.isRangeAvailable
  rw [if_neg (not_le.mpr hlt)]
  cases state.bounds with
  | none => rfl
  | some bounds =>
      have hany : (state.gaps.any fun gap => decide (lo < gap.2) && decide (gap.1 < hi)) = true :=
        List.any_eq_true.mpr ⟨g, hgap, by simp; omega⟩
      simp [hany]

/-- After the passes a hole is reported if and only if a sheltered row is left on both sides. -/
theorem hole_reported_iff {m : ℤ} (clock : Clock) (range : ℤ)
    (hcutoff : ∀ c ∈ db.candleRows, clock.utcNow - range ≤ c.time) (hhole : Hole db m) :
    Reported (db.flagMissingCandles clock range) m ↔
      (∃ t, Sheltered db t ∧ t < m) ∧ ∃ t, Sheltered db t ∧ m < t := by
  constructor
  · rintro ⟨hcovered, -⟩
    rw [← covered_iff] at hcovered
    obtain ⟨a, ha, ham⟩ := hcovered.stable_below
    obtain ⟨b, hb, hmb⟩ := hcovered.stable_above
    exact ⟨⟨a, (sheltered_iff_stable hcutoff).mp ha, ham⟩,
      b, (sheltered_iff_stable hcutoff).mp hb, hmb⟩
  · rintro ⟨⟨a, ha, ham⟩, b, hb, hmb⟩
    set db' := db.flagMissingCandles clock range
    have hmark : ∀ t, m < t → Stable (marks db') t →
        Stable (marks db') (t - minute) ∨ Flagged (marks db') t := by
      intro t hmt ht
      rw [sheltered_iff_stable hcutoff] at ht ⊢
      exact marked_flagMissingCandles hcutoff ht ⟨a, ha.1.stored, ham.trans hmt⟩
    have hgrid : ∀ t, Stable (marks db') t → m < t → m + minute ≤ t := by
      intro t ht hmt
      exact minute_le_of_lt hhole.round (round_of_stored ht.stored) hmt
    have hmissing : ¬ Stable (marks db') m := by
      intro hm
      exact hhole.missing ((stored_flagMissingCandles hcutoff).mp hm.stored)
    have hcovered : Covered (marks db') m :=
      covered_of_marked hmark hgrid (by decide) hmissing
        ⟨a, (sheltered_iff_stable hcutoff).mpr ha, ham⟩
        ⟨b, (sheltered_iff_stable hcutoff).mpr hb, hmb⟩
    obtain ⟨g, hg, hlo, hhi⟩ := covered_iff.mp hcovered
    exact reported_of_gap hg hlo hhi

/-! ### A wide margin and a narrow one -/

/-- The given minutes, all stable and none flagged. -/
def stableTable (minutes : List ℕ) (h : minutes.Pairwise fun a b =>
    (storedMinute a true false).row.time < (storedMinute b true false).row.time)
    (hround : ∀ n ∈ minutes, isRoundMinute (storedMinute n true false).row.time = true) :
    Database where
  ohlcCandles := minutes.map fun n => storedMinute n true false
  fundingSettlements := []
  candlesAscending := List.pairwise_map.mpr h
  candlesMinutes := by
    intro c hc
    obtain ⟨n, hn, rfl⟩ := List.mem_map.mp hc
    exact CandleRecord.ofCandle_isMinute (hround n hn)
  settlementsAscending := Database.noSettlements

/-- The minutes 0 to 20 without the tenth. -/
def wideMargins : Database :=
  stableTable (List.range 10 ++ List.range' 11 10) (by decide) (by decide)

/-- The minutes 0 to 20 without the second. -/
def narrowMargin : Database :=
  stableTable (List.range 2 ++ List.range' 3 18) (by decide) (by decide)

theorem hole_of_minutes (n lo hi : ℕ) (hround : isRoundMinute (Duration.minutes n) = true)
    (hmissing : ∀ c ∈ db.candleRows, c.time ≠ Duration.minutes n)
    (hlo : ∃ c ∈ db.candleRows, c.time = Duration.minutes lo)
    (hhi : ∃ c ∈ db.candleRows, c.time = Duration.minutes hi) (h : lo < n ∧ n < hi) :
    Hole db (Duration.minutes n) := by
  refine ⟨hround, ?_, ⟨_, stored_iff.mpr hlo, ?_⟩, _, stored_iff.mpr hhi, ?_⟩
  · rw [stored_iff]
    rintro ⟨c, hc, htime⟩
    exact hmissing c hc htime
  · simp only [Duration.minutes]
    omega
  · simp only [Duration.minutes]
    omega

theorem hole_reported_iff_wideMargins :
    Reported (wideMargins.flagMissingCandles (clockAt 1440) (Duration.minutes 1440))
        (Duration.minutes 10) ↔
      (∃ t, Sheltered wideMargins t ∧ t < Duration.minutes 10) ∧
        ∃ t, Sheltered wideMargins t ∧ Duration.minutes 10 < t :=
  hole_reported_iff (clockAt 1440) (Duration.minutes 1440) (by decide)
    (hole_of_minutes 10 9 11 (by decide) (by decide) (by decide) (by decide) (by decide))

/-- Right after the start of the table the margin takes every row before the hole. -/
theorem hole_near_start_unreported : ¬ ∀ (db : Database) (clock : Clock) (range : ℤ),
    (∀ c ∈ db.candleRows, clock.utcNow - range ≤ c.time) → ∀ m, Hole db m →
      Reported (db.flagMissingCandles clock range) m := by
  intro hclaim
  have hhole : Hole narrowMargin (Duration.minutes 2) :=
    hole_of_minutes 2 1 3 (by decide) (by decide) (by decide) (by decide) (by decide)
  obtain ⟨-, hrange⟩ := hclaim narrowMargin (clockAt 1440) (Duration.minutes 1440) (by decide) _
    hhole
  have hstate : ∃ state, PriceHistoryState.evaluate (narrowMargin.flagMissingCandles (clockAt 1440)
      (Duration.minutes 1440)) = .ok state ∧
      state.isRangeAvailable 0 (Duration.minutes 20) = .ok true := by
    exact ⟨⟨none, some (0, Duration.minutes 20), []⟩, by decide +kernel, by decide +kernel⟩
  obtain ⟨state, hstate, havail⟩ := hstate
  have hnot := hrange state 0 (Duration.minutes 20) hstate (by decide) (by decide) (by decide)
  rw [havail] at hnot
  cases hnot

end Quantoxide.CandleTable
