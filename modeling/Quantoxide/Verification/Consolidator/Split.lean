import Quantoxide.Verification.Consolidator.Warmup

/-! # Where the warm-up ends

The same feed is read by the constructor alone, or by the constructor up to some candle and
by pushes after it. The pushes always show the newest bucket as incomplete; at one-minute
resolution the constructor shows the newest candle as it is stored. -/

namespace Quantoxide.Consolidator

open DateTime RuntimeConsolidator

variable {cs : List OhlcCandleRow} {c : OhlcCandleRow} {l : Lookback}

/-- The consolidator built over candles, with the cursor at the end of the last one's minute. -/
def builtOver (l : Lookback) (cs : List OhlcCandleRow) (c : OhlcCandleRow) :
    Except OutOfOrderCandle RuntimeConsolidator :=
  RuntimeConsolidator.new l (cs ++ [c]) (c.time + Duration.seconds 59)

theorem Feed.before_cursor (hf : Feed (cs ++ [c])) :
    ∀ d ∈ cs ++ [c], d.time < c.time + Duration.seconds 59 := by
  intro d hd
  have hle : d.time ≤ c.time := by
    rcases List.mem_append.mp hd with hd | hd
    · exact (hf.lt_last hd).le
    · rw [List.mem_singleton.mp hd]
  unfold Duration.seconds
  omega

/-- Batched one-minute candles are the candles, the newest one marked as not stable. -/
theorem batch_oneMinute (hf : Feed (cs ++ [c])) :
    batch .oneMinute (cs ++ [c]) = cs ++ [{ c with stable := false }] := by
  have hgroup := group_oneMinute hf (List.mem_append_right cs (List.mem_singleton_self c))
  have hrow : aggregate c.time [c] false = { c with stable := false } := by
    simp [aggregate]
  rw [batch_concat, closedRows_oneMinute hf, bucketOf_oneMinute hf.last_minute, hgroup, hrow]

/-- Windows of lists that differ in the newest element alone agree when these agree. -/
theorem rtake_concat_inj {n : ℕ} (hn : 0 < n) {d : OhlcCandleRow} :
    (cs ++ [c]).rtake n = (cs ++ [d]).rtake n ↔ c = d := by
  obtain ⟨m, rfl⟩ := Nat.exists_eq_succ_of_ne_zero hn.ne'
  simp [List.rtake_concat_succ]

/-- Constructor and pushes show the same rows, unless the newest minute is stored as stable
and shown at one-minute resolution. -/
theorem view_rtake_iff (l : Lookback) (hf : Feed (cs ++ [c])) :
    (view l.resolution true (cs ++ [c])).rtake l.period.asUsize =
        (view l.resolution false (cs ++ [c])).rtake l.period.asUsize ↔
      l.resolution ≠ .oneMinute ∨ c.stable = false := by
  by_cases hr : l.resolution = .oneMinute
  · have hsame : c = { c with stable := false } ↔ c.stable = false := by
      constructor
      · intro h
        exact congrArg (·.stable) h
      · intro h
        rw [← h]
    simp only [hr, view, and_self, if_true, Bool.false_eq_true, and_false, if_false,
      batch_oneMinute hf, rtake_concat_inj l.period.asUsize_pos, hsame, ne_eq, not_true, false_or]
  · simp [view, hr]

/-- Splitting a feed between constructor and pushes does not show, exactly when the resolution
is not one minute or the newest candle is not stable. -/
theorem warmup_split_iff (l : Lookback) (xs ys : List OhlcCandleRow) (x y : OhlcCandleRow)
    (hf : Feed ((xs ++ [x]) ++ (ys ++ [y]))) :
    ∃ whole start pushed, builtOver l ((xs ++ [x]) ++ ys) y = .ok whole ∧
      builtOver l xs x = .ok start ∧ start.pushAll (ys ++ [y]) = (pushed, .ok ()) ∧
      (whole.getCandles = pushed.getCandles ↔ l.resolution ≠ .oneMinute ∨ y.stable = false) := by
  rw [← List.append_assoc] at hf
  obtain ⟨whole, hwhole, hw⟩ := new_holds l hf hf.before_cursor
  obtain ⟨start, hstart, hs⟩ := new_holds l hf.left.left hf.left.left.before_cursor
  obtain ⟨s₁, fresh, hpush, hs₁⟩ := hs.pushAll hf.left
  obtain ⟨s₂, hlast, hs₂⟩ := hs₁.push hf
  have hall : start.pushAll (ys ++ [y]) = (s₂, .ok ()) := by
    rw [pushAll_append _ _ _ (by rw [hpush]), hpush, pushAll_singleton _ _ (by rw [hlast]), hlast]
  refine ⟨whole, start, s₂, hwhole, hstart, hall, ?_⟩
  rw [hw.getCandles, hs₂.getCandles, view_rtake_iff l hf]

/-! ### Two stable minutes -/

def minuteWindow : Lookback := ⟨.oneMinute, ⟨5, by decide, by decide⟩, by decide⟩

def stableMinute (n : ℤ) : OhlcCandleRow := flatMinute (Duration.minutes n)

theorem twoMinutes_feed :
    Feed (([] ++ [stableMinute 0]) ++ ([] ++ [stableMinute 1])) where
  ascending := by decide
  minutes := by
    intro c hc
    simp only [List.nil_append, List.cons_append, List.mem_cons, List.not_mem_nil, or_false] at hc
    rcases hc with rfl | rfl <;> constructor <;> decide

theorem warmup_split_iff_two :
    ∃ whole start pushed,
      builtOver minuteWindow (([] ++ [stableMinute 0]) ++ []) (stableMinute 1) = .ok whole ∧
      builtOver minuteWindow [] (stableMinute 0) = .ok start ∧
      start.pushAll ([] ++ [stableMinute 1]) = (pushed, .ok ()) ∧
      (whole.getCandles = pushed.getCandles ↔
        minuteWindow.resolution ≠ .oneMinute ∨ (stableMinute 1).stable = false) :=
  warmup_split_iff minuteWindow [] [] (stableMinute 0) (stableMinute 1) twoMinutes_feed

/-- Built over both minutes the newest row is stable; pushed, the same row is not. -/
theorem pushed_minute_not_stable :
    (builtOver minuteWindow [stableMinute 0] (stableMinute 1)).map (·.getCandles) =
        .ok [stableMinute 0, stableMinute 1] ∧
      (builtOver minuteWindow [] (stableMinute 0)).map
          (fun start => start.pushAll [stableMinute 1]) =
        .ok (⟨minuteWindow, [stableMinute 0, { stableMinute 1 with stable := false }],
          some ((BucketAccumulator.new (stableMinute 1).time).addCandle (stableMinute 1))⟩,
          .ok ()) ∧
      stableMinute 1 ≠ { stableMinute 1 with stable := false } :=
  ⟨by decide +kernel, by decide +kernel, by decide +kernel⟩

end Quantoxide.Consolidator
