import Quantoxide.Library.Window
import Quantoxide.Verification.Consolidator.Batch

/-! # The consolidator is incremental batch aggregation

After any feed the buffer is the window of the batch rows and the bucket in progress is
the accumulator of the newest group. One push keeps both. -/

namespace Quantoxide.Consolidator

open DateTime RuntimeConsolidator

/-! ### Buckets -/

theorem floorToResolution_mono {s t : ℤ} (r : OhlcResolution) (h : s ≤ t) :
    floorToResolution s r ≤ floorToResolution t r := by
  have hst : timestamp s ≤ timestamp t := Int.ediv_le_ediv (by decide) h
  have hd := Int.tdiv_le_tdiv r.asSeconds_pos hst
  have hm := Int.mul_le_mul_of_nonneg_right hd r.asSeconds_pos.le
  unfold floorToResolution fromTimestamp
  omega

theorem Feed.bucket_le {cs : List OhlcCandleRow} {c d : OhlcCandleRow} (r : OhlcResolution)
    (h : Feed (cs ++ [c])) (hd : d ∈ cs) : bucketOf r d ≤ bucketOf r c :=
  floorToResolution_mono r (h.lt_last hd).le

theorem Feed.buckets_ascending {cs : List OhlcCandleRow} (r : OhlcResolution) (h : Feed cs) :
    (Groups.keys (bucketOf r) cs).Pairwise (· < ·) := by
  apply Groups.keys_ascending
  rw [List.pairwise_map]
  exact h.ascending.imp fun hab => floorToResolution_mono r hab.le

/-! ### The batch rows of a longer feed -/

/-- The rows of all buckets but `b`, each of them complete. -/
def closedRows (r : OhlcResolution) (cs : List OhlcCandleRow) (b : ℤ) : List OhlcCandleRow :=
  (Groups.keysBut (bucketOf r) cs b).map fun k =>
    aggregate k (Groups.group (bucketOf r) cs k) true

variable {r : OhlcResolution} {cs : List OhlcCandleRow} {c d : OhlcCandleRow}

theorem closedRows_concat_self :
    closedRows r (cs ++ [c]) (bucketOf r c) = closedRows r cs (bucketOf r c) := by
  unfold closedRows
  rw [Groups.keysBut_concat_self]
  apply List.map_congr_left
  intro k hk
  rw [Groups.group_concat_of_ne (Groups.ne_of_mem_keysBut hk).symm]

theorem batch_concat : batch r (cs ++ [c]) = closedRows r cs (bucketOf r c) ++
    [aggregate (bucketOf r c) (Groups.group (bucketOf r) (cs ++ [c]) (bucketOf r c)) false] := by
  rw [← closedRows_concat_self, closedRows, Groups.keysBut_concat_self]
  simp only [batch, Groups.keys_concat, List.getLast?_concat, List.map_append, List.map_cons,
    List.map_nil]
  congr 1
  · apply List.map_congr_left
    intro k hk
    simp [Groups.ne_of_mem_keysBut hk]
  · simp

/-- A new bucket completes the one before it. -/
theorem closedRows_of_new (h : ∀ x ∈ cs ++ [d], bucketOf r x ≠ bucketOf r c) :
    closedRows r (cs ++ [d]) (bucketOf r c) = closedRows r cs (bucketOf r d) ++
      [aggregate (bucketOf r d) (Groups.group (bucketOf r) (cs ++ [d]) (bucketOf r d)) true] := by
  rw [← closedRows_concat_self (c := d), closedRows, closedRows, Groups.keysBut_of_notMem h,
    Groups.keys_concat, Groups.keysBut_concat_self, List.map_append]
  rfl

theorem times_batch : (batch r cs).map (·.time) = Groups.keys (bucketOf r) cs := by
  simp [batch, aggregate, Function.comp_def]

/-! ### The buffer operations -/

theorem trim_eq (period : ℕ) (rows : List OhlcCandleRow) :
    trim period rows = rows.rtake period := by
  induction rows with
  | nil => simp [trim]
  | cons row rows ih =>
      unfold trim
      split_ifs with h
      · have hsub : (row :: rows).length - period = rows.length - period + 1 := by
          simp only [List.length_cons] at h ⊢
          omega
        rw [ih, List.rtake, List.rtake, hsub, List.drop_succ_cons]
      · exact (Window.rtake_of_length_le period _ (not_lt.mp h)).symm

theorem setLast_eq {rows : List OhlcCandleRow} (row : OhlcCandleRow) (h : rows ≠ []) :
    setLast rows row = Window.amend row rows := by
  simp [setLast, Window.amend, h]

/-! ### One push -/

/-- The accumulator of the newest bucket of `cs ++ [c]`. -/
def newest (r : OhlcResolution) (cs : List OhlcCandleRow) (c : OhlcCandleRow) :
    BucketAccumulator :=
  ofGroup (bucketOf r c) (Groups.group (bucketOf r) (cs ++ [c]) (bucketOf r c))

theorem bucketTime_newest : (newest r cs c).bucketTime = bucketOf r c := bucketTime_ofGroup _ _

theorem newest_of_same (h : bucketOf r d = bucketOf r c) :
    newest r (cs ++ [d]) c = (newest r cs d).addCandle c := by
  have hgroup : Groups.group (bucketOf r) (cs ++ [d] ++ [c]) (bucketOf r c) =
      Groups.group (bucketOf r) (cs ++ [d]) (bucketOf r c) ++ [c] :=
    Groups.group_concat_self c
  rw [newest, newest, hgroup, ofGroup_concat, h]

theorem newest_of_new (h : ∀ x ∈ cs, bucketOf r x ≠ bucketOf r c) :
    newest r cs c = (BucketAccumulator.new (bucketOf r c)).addCandle c := by
  rw [newest, Groups.group_concat_self, Groups.group_eq_nil h]
  rfl

theorem newest_row (hf : Feed (cs ++ [c])) (done : Bool) :
    (newest r cs c).toCandleRow done =
      aggregate (bucketOf r c) (Groups.group (bucketOf r) (cs ++ [c]) (bucketOf r c)) done := by
  apply toCandleRow_ofGroup
  · rw [Groups.group_concat_self]
    exact List.append_ne_nil_of_right_ne_nil _ (List.cons_ne_nil c [])
  · exact hf.sublist (Groups.group_sublist _)

theorem batch_eq_newest (hf : Feed (cs ++ [c])) :
    batch r (cs ++ [c]) =
      closedRows r cs (bucketOf r c) ++ [(newest r cs c).toCandleRow false] := by
  rw [batch_concat, newest_row hf]

/-- What the consolidator holds after the feed `cs ++ [c]`. -/
structure Tracks (l : Lookback) (cs : List OhlcCandleRow) (c : OhlcCandleRow)
    (s : RuntimeConsolidator) : Prop where
  lookback : s.lookback = l
  bucket : s.currentBucket = some (newest l.resolution cs c)
  rows : s.candles = (batch l.resolution (cs ++ [c])).rtake l.period.asUsize

namespace Tracks

variable {l : Lookback} {s : RuntimeConsolidator}

theorem floorToBucket (h : Tracks l cs d s) (c : OhlcCandleRow) :
    s.floorToBucket c.time = bucketOf l.resolution c := by
  rw [RuntimeConsolidator.floorToBucket, h.lookback, bucketOf]

theorem candles_ne_nil (h : Tracks l cs d s) : s.candles ≠ [] := by
  rw [h.rows, batch_concat]
  exact Window.rtake_concat_ne_nil _ _ l.period.asUsize_pos

/-- A candle of the bucket in progress amends the newest row. -/
theorem push_same (h : Tracks l cs d s) (hf : Feed (cs ++ [d] ++ [c]))
    (hb : bucketOf l.resolution d = bucketOf l.resolution c) :
    (s.push c).2 = .ok () ∧ Tracks l (cs ++ [d]) c (s.push c).1 := by
  have hpush : s.push c =
      (syncCurrentBucket { s with currentBucket := some (newest l.resolution (cs ++ [d]) c) },
        .ok ()) := by
    simp only [push, h.bucket, h.floorToBucket, bucketTime_newest, hb, if_true, newest_of_same hb]
  rw [hpush]
  refine ⟨rfl, ?_⟩
  simp only [syncCurrentBucket, List.isEmpty_iff, h.candles_ne_nil, if_false]
  refine ⟨h.lookback, rfl, ?_⟩
  rw [setLast_eq _ h.candles_ne_nil, h.rows, batch_concat,
    Window.amend_rtake _ _ _ l.period.asUsize_pos, batch_eq_newest hf, ← hb,
    closedRows_concat_self]

/-- A candle of a later bucket completes the newest row and slides the window. -/
theorem push_later (h : Tracks l cs d s) (hf : Feed (cs ++ [d] ++ [c]))
    (hb : bucketOf l.resolution d < bucketOf l.resolution c) :
    (s.push c).2 = .ok () ∧ Tracks l (cs ++ [d]) c (s.push c).1 := by
  have hnew : ∀ x ∈ cs ++ [d], bucketOf l.resolution x ≠ bucketOf l.resolution c := by
    intro x hx
    rcases List.mem_append.mp hx with hx | hx
    · exact ((hf.left.bucket_le l.resolution hx).trans_lt hb).ne
    · obtain rfl := List.mem_singleton.mp hx
      exact hb.ne
  have hpush : s.push c = (s.startBucket c, .ok ()) := by
    simp only [push, h.bucket, h.floorToBucket, bucketTime_newest, hb.ne, if_false,
      not_lt.mpr hb.le]
  rw [hpush]
  refine ⟨rfl, ?_⟩
  simp only [startBucket, finalizeCurrentBucket, h.bucket, trimOldCandles, h.floorToBucket,
    ← newest_of_new hnew, trim_eq, setLast_eq _ h.candles_ne_nil]
  refine ⟨h.lookback, rfl, ?_⟩
  change Window.slide _ _ _ = _
  rw [h.lookback, h.rows, batch_concat, Window.amend_rtake _ _ _ l.period.asUsize_pos,
    Window.rtake_rtake, Nat.min_self, Window.slide_rtake, batch_eq_newest hf,
    closedRows_of_new hnew, newest_row hf.left]

theorem push_step (h : Tracks l cs d s) (hf : Feed (cs ++ [d] ++ [c])) :
    (s.push c).2 = .ok () ∧ Tracks l (cs ++ [d]) c (s.push c).1 := by
  rcases (hf.bucket_le l.resolution (List.mem_append_right cs (List.mem_singleton_self d))).eq_or_lt
    with hb | hb
  · exact h.push_same hf hb
  · exact h.push_later hf hb

/-- A candle of an older bucket is refused and nothing changes. -/
theorem push_older (h : Tracks l cs c s) (hb : bucketOf l.resolution d < bucketOf l.resolution c) :
    s.push d = (s, .error ⟨d.time, bucketOf l.resolution c⟩) := by
  simp only [push, h.bucket, h.floorToBucket, bucketTime_newest, hb, hb.ne', if_false, if_true]

end Tracks

theorem tracks_first (l : Lookback) (hc : c.IsMinute) :
    ((RuntimeConsolidator.empty l).push c).2 = .ok () ∧
      Tracks l [] c ((RuntimeConsolidator.empty l).push c).1 := by
  have hf : Feed ([] ++ [c]) := ⟨List.pairwise_singleton _ c, by simpa using hc⟩
  have hnew : newest l.resolution [] c = _ := newest_of_new (by simp)
  refine ⟨rfl, rfl, ?_, ?_⟩
  · rw [hnew]
    rfl
  · rw [batch_eq_newest hf, hnew]
    exact trim_eq _ _

/-! ### Whole feeds -/

theorem pushAll_append (s : RuntimeConsolidator) (cs ds : List OhlcCandleRow)
    (h : (s.pushAll cs).2 = .ok ()) :
    s.pushAll (cs ++ ds) = (s.pushAll cs).1.pushAll ds := by
  induction cs generalizing s with
  | nil => rfl
  | cons c cs ih =>
      cases hp : s.push c with
      | mk s' res =>
          cases res with
          | error e => simp [pushAll, hp] at h
          | ok _ =>
              simp only [pushAll, hp, List.cons_append] at h ⊢
              exact ih s' h

theorem pushAll_singleton (s : RuntimeConsolidator) (c : OhlcCandleRow)
    (h : (s.push c).2 = .ok ()) : s.pushAll [c] = s.push c := by
  cases hp : s.push c with
  | mk s' res =>
      rw [hp] at h
      cases h
      simp [pushAll, hp]

/-- After a feed that is not empty every push has succeeded and the state is tracked. -/
theorem pushAll_tracks (l : Lookback) (hf : Feed (cs ++ [c])) :
    ((RuntimeConsolidator.empty l).pushAll (cs ++ [c])).2 = .ok () ∧
      Tracks l cs c ((RuntimeConsolidator.empty l).pushAll (cs ++ [c])).1 := by
  induction cs using List.reverseRecOn generalizing c with
  | nil =>
      have h := tracks_first l hf.last_minute
      rwa [List.nil_append, pushAll_singleton _ _ h.1]
  | append_singleton cs d ih =>
      obtain ⟨hok, htr⟩ := ih hf.left
      have h := htr.push_step hf
      rwa [pushAll_append _ _ _ hok, pushAll_singleton _ _ h.1]

/-- What feeding `cs` to a fresh consolidator must leave behind. -/
structure BatchSpec (l : Lookback) (cs : List OhlcCandleRow)
    (out : RuntimeConsolidator × Except OutOfOrderCandle Unit) : Prop where
  succeeds : out.2 = .ok ()
  candles : out.1.getCandles = (batch l.resolution cs).rtake l.period.asUsize
  ascending : (out.1.getCandles.map (·.time)).Pairwise (· < ·)
  bounded : out.1.getCandles.length ≤ l.period.asUsize
  rejects : ∀ d, cs.getLast? = some d → ∀ c, bucketOf l.resolution c < bucketOf l.resolution d →
    out.1.push c = (out.1, .error ⟨c.time, bucketOf l.resolution d⟩)

theorem times_window_ascending (l : Lookback) (hf : Feed cs) :
    (((batch l.resolution cs).rtake l.period.asUsize).map (·.time)).Pairwise (· < ·) := by
  have h := hf.buckets_ascending l.resolution
  rw [← times_batch] at h
  exact h.sublist ((Window.rtake_sublist _ _).map _)

/-- Every feed of stored minutes is consolidated as the batch reference does at once. -/
theorem consolidator_is_batch (l : Lookback) (cs : List OhlcCandleRow) (timeCursor : ℤ)
    (hf : Feed cs) :
    ∃ s, RuntimeConsolidator.new l [] timeCursor = .ok s ∧ BatchSpec l cs (s.pushAll cs) := by
  refine ⟨RuntimeConsolidator.empty l, by simp [RuntimeConsolidator.new, newOneMinute, pushAll], ?_⟩
  rcases List.eq_nil_or_concat cs with rfl | ⟨ds, d, rfl⟩
  · have hb : batch l.resolution [] = [] := by simp [batch]
    exact ⟨rfl, by rw [hb, List.rtake_nil]; rfl, List.Pairwise.nil, Nat.zero_le _, by simp⟩
  · rw [List.concat_eq_append] at hf ⊢
    obtain ⟨hok, htr⟩ := pushAll_tracks l hf
    refine ⟨hok, htr.rows, ?_, ?_, ?_⟩
    · rw [getCandles, htr.rows]
      exact times_window_ascending l hf
    · rw [getCandles, htr.rows]
      exact Window.length_rtake_le _ _
    · intro d' hd' c hc
      rw [List.getLast?_concat] at hd'
      obtain rfl := Option.some.inj hd'
      exact htr.push_older hc

/-- A stored minute of unit prices. -/
def flatMinute (time : ℤ) : OhlcCandleRow where
  time := time
  openPrice := 0
  high := 0
  low := 0
  close := 0
  volume := 1
  createdAt := time
  updatedAt := time
  stable := true

theorem consolidator_is_batch_two_buckets :
    ∃ s,
      RuntimeConsolidator.new ⟨.threeMinutes, ⟨2, by decide, by decide⟩, by decide⟩ [] 0 = .ok s ∧
      BatchSpec ⟨.threeMinutes, ⟨2, by decide, by decide⟩, by decide⟩
        ([0, 1, 4].map fun n => flatMinute (Duration.minutes n))
        (s.pushAll ([0, 1, 4].map fun n => flatMinute (Duration.minutes n))) :=
  consolidator_is_batch ⟨.threeMinutes, ⟨2, by decide, by decide⟩, by decide⟩ _ 0
    ⟨by decide, by
      intro c hc
      simp only [List.map_cons, List.map_nil, List.mem_cons, List.not_mem_nil, or_false] at hc
      rcases hc with rfl | rfl | rfl <;> constructor <;> decide⟩

end Quantoxide.Consolidator
