import Quantoxide.Library.Timeline
import Quantoxide.Verification.Consolidator.Correctness

/-! # A consolidator after its warm-up

A consolidator built over stored minutes and then fed shows the window of the batch rows.
Only at one-minute resolution, and only before the first push, the rows are the stored
candles themselves. -/

namespace Quantoxide.Consolidator

open DateTime RuntimeConsolidator

variable {cs rows : List OhlcCandleRow} {c : OhlcCandleRow} {l : Lookback} {fresh : Bool}
  {s : RuntimeConsolidator}

/-! ### One-minute buckets -/

theorem bucketOf_oneMinute (hc : c.IsMinute) : bucketOf .oneMinute c = c.time := by
  have hr := hc.round
  have h0 := hc.epoch_le
  simp only [isRoundMinute, floorMinute, beq_iff_eq] at hr
  simp only [bucketOf, floorToResolution, fromTimestamp, timestamp, OhlcResolution.asSeconds,
    OhlcResolution.asMinutes]
  rw [Int.tdiv_eq_ediv_of_nonneg (Int.ediv_nonneg h0 (by decide))]
  omega

theorem aggregate_oneMinute (c : OhlcCandleRow) : aggregate c.time [c] true = c := by
  simp [aggregate]

theorem keys_oneMinute (hf : Feed cs) :
    Groups.keys (bucketOf .oneMinute) cs = cs.map (·.time) := by
  have hmap : cs.map (bucketOf .oneMinute) = cs.map (·.time) :=
    List.map_congr_left fun c hc => bucketOf_oneMinute (hf.minutes c hc)
  have hnodup : (cs.map (·.time)).Nodup :=
    List.pairwise_map.mpr (hf.ascending.imp fun h => h.ne)
  rw [Groups.keys, hmap, hnodup.dedup]

theorem group_oneMinute (hf : Feed cs) (hc : c ∈ cs) :
    Groups.group (bucketOf .oneMinute) cs c.time = [c] := by
  have hasc : Timeline.Ascending (·.time) (Groups.group (bucketOf .oneMinute) cs c.time) :=
    hf.ascending.sublist (Groups.group_sublist _)
  apply hasc.ext (List.pairwise_singleton _ _)
  intro d
  rw [Groups.mem_group, List.mem_singleton]
  constructor
  · rintro ⟨hd, ht⟩
    rw [bucketOf_oneMinute (hf.minutes d hd)] at ht
    have hfa : Timeline.Ascending (·.time) cs := hf.ascending
    exact hfa.eq_of_key_eq hd hc ht
  · rintro rfl
    exact ⟨hc, bucketOf_oneMinute (hf.minutes d hc)⟩

/-- Completed one-minute rows are the candles themselves. -/
theorem closedRows_oneMinute (hf : Feed (cs ++ [c])) :
    closedRows .oneMinute cs (bucketOf .oneMinute c) = cs := by
  have hne : ∀ x ∈ cs, bucketOf .oneMinute x ≠ bucketOf .oneMinute c := by
    intro x hx
    rw [bucketOf_oneMinute (hf.left.minutes x hx), bucketOf_oneMinute hf.last_minute]
    exact (hf.lt_last hx).ne
  have hid : ∀ x ∈ cs, aggregate x.time
      (Groups.group (bucketOf .oneMinute) cs x.time) true = id x := by
    intro x hx
    rw [group_oneMinute hf.left hx, aggregate_oneMinute, id]
  rw [closedRows, Groups.keysBut_of_notMem hne, keys_oneMinute hf.left, List.map_map]
  exact (List.map_congr_left hid).trans (List.map_id cs)

/-! ### The rows a consolidator shows -/

/-- The rows for the candles read so far; `fresh` before the first push. -/
def view (r : OhlcResolution) (fresh : Bool) (rows : List OhlcCandleRow) : List OhlcCandleRow :=
  if r = .oneMinute ∧ fresh = true then rows else batch r rows

theorem times_view (r : OhlcResolution) (fresh : Bool) (hf : Feed rows) :
    (view r fresh rows).map (·.time) = Groups.keys (bucketOf r) rows := by
  unfold view
  split_ifs with h
  · rw [h.1, keys_oneMinute hf]
  · exact times_batch

theorem length_view (r : OhlcResolution) (fresh : Bool) (hf : Feed rows) :
    (view r fresh rows).length = (Groups.keys (bucketOf r) rows).length := by
  rw [← times_view r fresh hf, List.length_map]

/-- What a consolidator holds for the candles read so far. -/
inductive Holds (l : Lookback) (rows : List OhlcCandleRow) :
    Bool → RuntimeConsolidator → Prop
  | stored (hr : l.resolution = .oneMinute) :
      Holds l rows true ⟨l, rows.rtake l.period.asUsize, none⟩
  | tracked {fresh : Bool} {s : RuntimeConsolidator} {cs : List OhlcCandleRow}
      {c : OhlcCandleRow} (hrows : rows = cs ++ [c])
      (hmode : ¬ (l.resolution = .oneMinute ∧ fresh = true)) (h : Tracks l cs c s) :
      Holds l rows fresh s

theorem Holds.getCandles (h : Holds l rows fresh s) :
    s.getCandles = (view l.resolution fresh rows).rtake l.period.asUsize := by
  cases h with
  | stored hr => simp [RuntimeConsolidator.getCandles, view, hr]
  | tracked hrows hmode h =>
      rw [view, if_neg hmode, hrows]
      exact h.rows

/-! ### Warm-up -/

/-- At one-minute resolution candles before the cursor are stored as they are. -/
theorem newOneMinute_stored (timeCursor : ℤ) (pre : List OhlcCandleRow) (hf : Feed cs)
    (hcur : ∀ c ∈ cs, c.time < timeCursor) (lastTime : Option ℤ)
    (hlast : ∀ t, lastTime = some t → ∀ c ∈ cs, t ≤ c.time) :
    newOneMinute ⟨l, pre.rtake l.period.asUsize, none⟩ timeCursor lastTime cs =
      .ok ⟨l, (pre ++ cs).rtake l.period.asUsize, none⟩ := by
  induction cs generalizing pre lastTime with
  | nil => simp [newOneMinute]
  | cons c cs ih =>
      have hc := hcur c List.mem_cons_self
      have hfilter : lastTime.filter (fun prevTime => c.time < prevTime) = none := by
        cases lastTime with
        | none => rfl
        | some t => simpa using hlast t rfl c List.mem_cons_self
      obtain ⟨hlt, hasc⟩ := List.pairwise_cons.mp hf.ascending
      have hslide : trim l.period.asUsize (pre.rtake l.period.asUsize ++ [c]) =
          (pre ++ [c]).rtake l.period.asUsize := by
        rw [trim_eq]
        exact Window.slide_rtake _ _ _
      simp only [newOneMinute, not_lt.mpr hc.le, if_false, hfilter, hc, if_true,
        trimOldCandles, hslide]
      rw [List.append_cons pre c cs]
      apply ih (pre ++ [c]) ⟨hasc, fun d hd => hf.minutes d (List.mem_cons_of_mem c hd)⟩
      · exact fun d hd => hcur d (List.mem_cons_of_mem c hd)
      · rintro t ⟨⟩ d hd
        exact (hlt d hd).le

theorem new_holds (l : Lookback) {timeCursor : ℤ} (hf : Feed (cs ++ [c]))
    (hcur : ∀ d ∈ cs ++ [c], d.time < timeCursor) :
    ∃ s, RuntimeConsolidator.new l (cs ++ [c]) timeCursor = .ok s ∧ Holds l (cs ++ [c]) true s := by
  by_cases hr : l.resolution = .oneMinute
  · refine ⟨⟨l, (cs ++ [c]).rtake l.period.asUsize, none⟩, ?_, .stored hr⟩
    rw [RuntimeConsolidator.new, if_pos hr]
    have h := newOneMinute_stored (l := l) timeCursor [] hf hcur none (by simp)
    rwa [List.rtake_nil, List.nil_append] at h
  · obtain ⟨hok, htr⟩ := pushAll_tracks l hf
    have hfilter : (cs ++ [c]).filter (fun d => ¬ d.time > timeCursor) = cs ++ [c] := by
      rw [List.filter_eq_self]
      intro d hd
      simpa using (hcur d hd).le
    refine ⟨_, ?_, .tracked rfl (fun h => hr h.1) htr⟩
    rw [RuntimeConsolidator.new, if_neg hr, hfilter]
    rcases h : (RuntimeConsolidator.empty l).pushAll (cs ++ [c]) with ⟨s, res⟩
    rw [h] at hok
    cases hok
    rfl

/-- The first push after a one-minute warm-up opens a bucket behind the stored rows. -/
theorem push_stored (hr : l.resolution = .oneMinute) (hf : Feed (rows ++ [c])) :
    ((RuntimeConsolidator.mk l (rows.rtake l.period.asUsize) none).push c).2 = .ok () ∧
      Tracks l rows c ((RuntimeConsolidator.mk l (rows.rtake l.period.asUsize) none).push c).1 := by
  have hnew : newest l.resolution rows c =
      (BucketAccumulator.new (bucketOf l.resolution c)).addCandle c := by
    apply newest_of_new
    intro x hx
    rw [hr, bucketOf_oneMinute (hf.left.minutes x hx), bucketOf_oneMinute hf.last_minute]
    exact (hf.lt_last hx).ne
  refine ⟨rfl, rfl, ?_, ?_⟩
  · rw [hnew]
    rfl
  · rw [batch_eq_newest hf, hr, closedRows_oneMinute hf, ← hr, hnew, ← Window.slide_rtake]
    exact trim_eq _ _

theorem Holds.push (h : Holds l rows fresh s) (hf : Feed (rows ++ [c])) :
    ∃ s', s.push c = (s', .ok ()) ∧ Holds l (rows ++ [c]) false s' := by
  have hsplit {s : RuntimeConsolidator} (h : (s.push c).2 = .ok () ∧ Tracks l rows c (s.push c).1) :
      ∃ s', s.push c = (s', .ok ()) ∧ Holds l (rows ++ [c]) false s' :=
    ⟨(s.push c).1, Prod.ext rfl h.1, .tracked rfl (by simp) h.2⟩
  cases h with
  | stored hr => exact hsplit (push_stored hr hf)
  | tracked hrows _ h =>
      subst hrows
      exact hsplit (h.push_step hf)

/-- After a warm-up every further push succeeds. -/
theorem Holds.pushAll {pushed : List OhlcCandleRow} (h : Holds l rows fresh s)
    (hf : Feed (rows ++ pushed)) :
    ∃ s' fresh', s.pushAll pushed = (s', .ok ()) ∧ Holds l (rows ++ pushed) fresh' s' := by
  induction pushed generalizing rows fresh s with
  | nil => exact ⟨s, fresh, rfl, by rwa [List.append_nil]⟩
  | cons c pushed ih =>
      rw [List.append_cons] at hf ⊢
      obtain ⟨s', hpush, hs'⟩ := h.push hf.left
      obtain ⟨s'', fresh', hrest, hs''⟩ := ih hs' hf
      refine ⟨s'', fresh', ?_, hs''⟩
      simp only [RuntimeConsolidator.pushAll, hpush, hrest]

/-- A consolidator built over the first candles of a feed and given the rest. -/
theorem new_pushAll_holds (l : Lookback) {timeCursor : ℤ} {initial pushed : List OhlcCandleRow}
    (hf : Feed (initial ++ pushed)) (hne : initial ++ pushed ≠ [])
    (hcur : ∀ d ∈ initial, d.time < timeCursor) :
    ∃ s s' fresh, RuntimeConsolidator.new l initial timeCursor = .ok s ∧
      s.pushAll pushed = (s', .ok ()) ∧ Holds l (initial ++ pushed) fresh s' := by
  rcases List.eq_nil_or_concat initial with rfl | ⟨cs, c, rfl⟩
  · rcases List.eq_nil_or_concat pushed with rfl | ⟨cs, c, rfl⟩
    · exact absurd rfl hne
    · rw [List.concat_eq_append] at hf ⊢
      obtain ⟨hok, htr⟩ := pushAll_tracks l hf
      refine ⟨RuntimeConsolidator.empty l, _, false, ?_, Prod.ext rfl hok, ?_⟩
      · simp [RuntimeConsolidator.new, newOneMinute, RuntimeConsolidator.pushAll]
      · exact .tracked rfl (by simp) htr
  · rw [List.concat_eq_append] at hf hcur ⊢
    obtain ⟨s, hnew, hs⟩ := new_holds l hf.left hcur
    obtain ⟨s', fresh, hpush, hs'⟩ := hs.pushAll hf
    exact ⟨s, s', fresh, hnew, hpush, hs'⟩

end Quantoxide.Consolidator
