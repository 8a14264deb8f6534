import Quantoxide.Verification.Engine.Warmup

/-! # Windows do not see how far back the first buffer reaches

In an unbroken history, when candles from before the shorter of two buffers are stored at
all, every bucket of a window that starts inside it is filled. -/

namespace Quantoxide.Engine

open DateTime Timeline Consolidator

variable {db : Database} {m : OhlcCandleRow} {lo lo' : ℤ}

/-- The next stored candle is the next minute. -/
theorem Unbroken.next_le (h : Unbroken db) {c : OhlcCandleRow} (hm : m ∈ db.candleRows)
    (hc : IsNextCandle db m.time c) : c.time ≤ m.time + Duration.minutes 1 := by
  have hround := ((candleRows_feed db).minutes m hm).round
  have hround' : isRoundMinute (m.time + Duration.minutes 1) = true := by
    simp only [isRoundMinute, floorMinute, Duration.minutes, beq_iff_eq] at hround ⊢
    omega
  have hle := minute_le ((candleRows_feed db).minutes m hm)
    ((candleRows_feed db).minutes c hc.mem) hc.lt
  obtain ⟨d, hd, htime⟩ := h m hm c hc.mem _ hround' (by unfold Duration.minutes; omega)
    (by unfold Duration.seconds at hle; unfold Duration.minutes; omega)
  rw [← htime]
  refine hc.least d hd ?_
  rw [htime]
  unfold Duration.minutes
  omega

theorem getCandles_split (db : Database) {mid hi : ℤ} (h : lo ≤ mid) :
    db.getCandles lo hi =
      (db.getCandles lo hi).filter (fun c => c.time < mid) ++ db.getCandles mid hi :=
  between_split (candleRows_ascending db) h

/-- Minutes before the opening of a bucket lie in earlier buckets. -/
theorem bucketOf_ne_of_lt {r : OhlcResolution} {b : ℤ} {a c : OhlcCandleRow} (ha : a.IsMinute)
    (hb : floorToResolution b r = b) (hab : a.time < b) (hbc : b ≤ c.time) :
    bucketOf r a ≠ bucketOf r c := by
  have h1 := floor_le r ha.epoch_le
  have h2 := floorToResolution_mono r hbc
  unfold bucketOf
  omega

/-- A stored range is stored in its buffer. -/
theorem stored_getCandles {hi : ℤ} (h : Stored db.candleRows lo hi) :
    Stored (db.getCandles lo hi) lo hi := by
  intro t ht hl hh
  obtain ⟨c, hc, rfl⟩ := h t ht hl hh
  exact ⟨c, mem_getCandles.mpr ⟨hc, hl, hh⟩, rfl⟩

/-- Rows from before a filled bucket do not show in the window from it on. -/
theorem rtake_view_from {r : OhlcResolution} {p : ℕ} {t : ℤ} (hp : 0 < p) (hepoch : 0 ≤ t)
    (hb : 0 ≤ bucketBack r t (p - 1)) (hlo : lo ≤ bucketBack r t (p - 1))
    (hstored : Stored db.candleRows (bucketBack r t (p - 1)) t) :
    (view r fresh (db.getCandles lo t)).rtake p =
      (view r fresh (db.getCandles (bucketBack r t (p - 1)) t)).rtake p := by
  have hfloor := bucketBack_floor r (p - 1) hepoch hb
  rw [getCandles_split db hlo]
  apply rtake_view_append (getCandles_feed db _ _) hp
  · exact le_length_keys p hepoch hb (stored_getCandles hstored)
  · intro a ha c hc
    obtain ⟨ha, hlt⟩ := List.mem_filter.mp ha
    exact bucketOf_ne_of_lt ((getCandles_feed db _ _).minutes a ha) hfloor (by simpa using hlt)
      (mem_getCandles.mp hc).2.1

/-- A window is the same over two buffers that both reach back its whole duration. -/
theorem window_eq (fresh : Bool) (h : Unbroken db) (hm : m ∈ db.candleRows) (hle : lo ≤ lo')
    {l : Lookback} (hreach : lo' + l.asDuration ≤ m.time) :
    (view l.resolution fresh (db.getCandles lo m.time)).rtake l.period.asUsize =
      (view l.resolution fresh (db.getCandles lo' m.time)).rtake l.period.asUsize := by
  have hepoch := ((candleRows_feed db).minutes m hm).epoch_le
  have hp := l.period.asUsize_pos
  have hback : lo' < bucketBack l.resolution m.time (l.period.asUsize - 1) := by
    have hlt := sub_lt_bucketBack l m.time
    omega
  rcases (db.getCandles lo m.time).filter (fun c => c.time < lo') |>.eq_nil_or_concat with
    hnil | ⟨_, a, hcons⟩
  · rw [getCandles_split db hle, hnil, List.nil_append]
  · -- A candle before the shorter buffer is stored, so all minutes from it on are.
    have ha : a ∈ (db.getCandles lo m.time).filter (fun c => c.time < lo') := by
      rw [hcons]
      simp
    obtain ⟨hmem, hlt⟩ := List.mem_filter.mp ha
    have hrow := (mem_getCandles.mp hmem).1
    have hlt' : a.time < lo' := by simpa using hlt
    have hstored := (h a hrow m hm).mono (hlt'.trans hback).le le_rfl
    have hnonneg := ((candleRows_feed db).minutes a hrow).epoch_le.trans (hlt'.trans hback).le
    rw [rtake_view_from hp hepoch hnonneg (hle.trans hback.le) hstored,
      rtake_view_from hp hepoch hnonneg hback.le hstored]

/-- A longer window shows more only if it holds more rows. -/
theorem rtake_eq_iff {α : Type} {p q : ℕ} (hle : p ≤ q) (xs : List α) :
    xs.rtake q = xs.rtake p ↔ (xs.rtake q).length ≤ p := by
  constructor
  · intro heq
    rw [heq]
    exact Window.length_rtake_le p xs
  · intro hlen
    have hsame := Window.rtake_of_length_le p _ hlen
    rwa [Window.rtake_rtake, min_eq_left hle, eq_comm] at hsame

end Quantoxide.Engine
