import Mathlib.Data.List.Induction
import Quantoxide.Library.Groups
import Quantoxide.Model.Consolidator

/-! # Batch aggregation

The reference reads the whole list at once: candles are grouped by bucket and each group
is aggregated to one row. The accumulator of a group computes that row. -/

namespace Quantoxide.Consolidator

open DateTime BucketAccumulator

def bucketOf (r : OhlcResolution) (c : OhlcCandleRow) : ℤ := floorToResolution c.time r

/-- First open, highest high, lowest low, last close and total volume of a group. -/
def aggregate (bucketTime : ℤ) (ms : List OhlcCandleRow) (isComplete : Bool) : OhlcCandleRow where
  time := bucketTime
  openPrice := (ms.head?.map (·.openPrice)).getD 0
  high := (ms.map (·.high)).max?.getD 0
  low := (ms.map (·.low)).min?.getD 0
  close := (ms.getLast?.map (·.close)).getD 0
  volume := (ms.map (·.volume)).sum
  createdAt := (ms.map (·.createdAt)).min?.getD 0
  updatedAt := (ms.map (·.updatedAt)).max?.getD 0
  stable := ms.all (·.stable) && isComplete

/-- One row a bucket; the newest bucket is not complete. -/
def batch (r : OhlcResolution) (cs : List OhlcCandleRow) : List OhlcCandleRow :=
  let buckets := Groups.keys (bucketOf r) cs
  buckets.map fun b =>
    aggregate b (Groups.group (bucketOf r) cs b) (some b ≠ buckets.getLast?)

/-- Strictly later candles, all of them stored minutes. -/
structure Feed (cs : List OhlcCandleRow) : Prop where
  ascending : cs.Pairwise (fun a b => a.time < b.time)
  minutes : ∀ c ∈ cs, c.IsMinute

namespace Feed

variable {cs ds : List OhlcCandleRow} {c : OhlcCandleRow}

theorem sublist (h : Feed cs) (hs : ds.Sublist cs) : Feed ds :=
  ⟨h.ascending.sublist hs, fun d hd => h.minutes d (hs.subset hd)⟩

theorem left (h : Feed (cs ++ ds)) : Feed cs := h.sublist (List.sublist_append_left cs ds)

theorem lt_last (h : Feed (cs ++ [c])) {d : OhlcCandleRow} (hd : d ∈ cs) : d.time < c.time :=
  (List.pairwise_append.mp h.ascending).2.2 d hd c (List.mem_singleton_self c)

theorem last_minute (h : Feed (cs ++ [c])) : c.IsMinute := h.minutes c (by simp)

end Feed

/-! ### Minutes lie strictly inside the sentinels -/

theorem lt_maxUtc {c : OhlcCandleRow} (h : c.IsMinute) : c.time < maxUtc := by
  have hr := h.round
  have hle := h.time_le
  have hm : maxUtc % 60000000000 = 59999999999 := rfl
  simp only [isRoundMinute, floorMinute, beq_iff_eq] at hr
  rcases eq_or_lt_of_le hle with he | hlt
  · rw [he] at hr
    omega
  · exact hlt

theorem minUtc_lt {c : OhlcCandleRow} (h : c.IsMinute) : minUtc < c.time :=
  lt_of_lt_of_le (by decide) h.epoch_le

/-! ### The accumulator of a group -/

def ofGroup (b : ℤ) (ms : List OhlcCandleRow) : BucketAccumulator :=
  ms.foldl addCandle (BucketAccumulator.new b)

@[simp] theorem ofGroup_concat (b : ℤ) (ms : List OhlcCandleRow) (c : OhlcCandleRow) :
    ofGroup b (ms ++ [c]) = (ofGroup b ms).addCandle c := by
  simp [ofGroup]

@[simp] theorem bucketTime_ofGroup (b : ℤ) (ms : List OhlcCandleRow) :
    (ofGroup b ms).bucketTime = b := by
  induction ms using List.reverseRecOn with
  | nil => rfl
  | append_singleton ms c ih => simpa [addCandle] using ih

theorem max?_concat {α : Type} [LinearOrder α] {xs : List α} (x : α) (d : α) (h : xs ≠ []) :
    (xs ++ [x]).max?.getD d = max (xs.max?.getD d) x := by
  cases xs with
  | nil => exact absurd rfl h
  | cons y ys =>
      rw [List.cons_append, List.max?_cons', List.max?_cons', List.foldl_append]
      rfl

theorem min?_concat {α : Type} [LinearOrder α] {xs : List α} (x : α) (d : α) (h : xs ≠ []) :
    (xs ++ [x]).min?.getD d = min (xs.min?.getD d) x := by
  cases xs with
  | nil => exact absurd rfl h
  | cons y ys =>
      rw [List.cons_append, List.min?_cons', List.min?_cons', List.foldl_append]
      rfl

/-- A group's row after one more candle. -/
theorem aggregate_concat (b : ℤ) {ms : List OhlcCandleRow} (c : OhlcCandleRow) (done : Bool)
    (h : ms ≠ []) :
    aggregate b (ms ++ [c]) done =
      let row := aggregate b ms true
      { row with
        high := max row.high c.high
        low := min row.low c.low
        close := c.close
        volume := row.volume + c.volume
        createdAt := min row.createdAt c.createdAt
        updatedAt := max row.updatedAt c.updatedAt
        stable := (row.stable && c.stable) && done } := by
  have hm {α : Type} (f : OhlcCandleRow → α) : ms.map f ≠ [] := by simpa using h
  simp [aggregate, List.head?_append_of_ne_nil _ h, max?_concat _ _ (hm _),
    min?_concat _ _ (hm _), List.sum_append]

/-- The accumulator mirrors the group it has read. -/
structure Mirrors (b : ℤ) (ms : List OhlcCandleRow) (acc : BucketAccumulator) : Prop where
  first : ∀ m ∈ ms, acc.firstCandleTime ≤ m.time
  last : ∀ c : OhlcCandleRow, (∀ m ∈ ms, m.time < c.time) → acc.lastCandleTime < c.time
  row : ∀ done, acc.toCandleRow done = aggregate b ms done

theorem mirrors_singleton (b : ℤ) {c : OhlcCandleRow} (hc : c.IsMinute) :
    Mirrors b [c] ((BucketAccumulator.new b).addCandle c) where
  first m hm := by
    obtain rfl := List.mem_singleton.mp hm
    simp [addCandle, BucketAccumulator.new, lt_maxUtc hc]
  last d hd := by
    simpa [addCandle, BucketAccumulator.new, minUtc_lt hc] using hd c (List.mem_singleton_self c)
  row done := by
    have hv : (0 : Int64) + c.volume = c.volume := Int64.zero_add _
    simp [addCandle, BucketAccumulator.new, toCandleRow, aggregate, lt_maxUtc hc, minUtc_lt hc,
      hc.created_le, hc.le_updated, hv]

theorem Mirrors.concat {b : ℤ} {ms : List OhlcCandleRow} {acc : BucketAccumulator}
    {c : OhlcCandleRow} (h : Mirrors b ms acc) (hne : ms ≠ [])
    (hlt : ∀ m ∈ ms, m.time < c.time) : Mirrors b (ms ++ [c]) (acc.addCandle c) := by
  have hfirst : ¬ c.time < acc.firstCandleTime := by
    obtain ⟨m, hm⟩ := List.exists_mem_of_ne_nil ms hne
    have h1 := h.first m hm
    have h2 := hlt m hm
    omega
  have hlast : acc.lastCandleTime < c.time := h.last c hlt
  refine ⟨?_, ?_, ?_⟩
  · intro m hm
    simp only [addCandle, if_neg hfirst]
    rcases List.mem_append.mp hm with hm | hm
    · exact h.first m hm
    · obtain rfl := List.mem_singleton.mp hm
      omega
  · intro d hd
    simpa [addCandle, hlast] using hd c (by simp)
  · intro done
    rw [aggregate_concat b c done hne, ← h.row true]
    simp [addCandle, toCandleRow, hfirst, hlast]

theorem mirrors_ofGroup (b : ℤ) {ms : List OhlcCandleRow} (hne : ms ≠ []) (hf : Feed ms) :
    Mirrors b ms (ofGroup b ms) := by
  induction ms using List.reverseRecOn with
  | nil => exact absurd rfl hne
  | append_singleton ms c ih =>
      rw [ofGroup_concat]
      cases ms with
      | nil => exact mirrors_singleton b hf.last_minute
      | cons m ms =>
          have hne' : m :: ms ≠ [] := List.cons_ne_nil m ms
          exact (ih hne' hf.left).concat hne' fun d hd => hf.lt_last hd

theorem toCandleRow_ofGroup (b : ℤ) {ms : List OhlcCandleRow} (hne : ms ≠ []) (hf : Feed ms)
    (done : Bool) : (ofGroup b ms).toCandleRow done = aggregate b ms done :=
  (mirrors_ofGroup b hne hf).row done

end Quantoxide.Consolidator
