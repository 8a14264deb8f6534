import Mathlib.Data.List.Perm.Subperm
import Quantoxide.Verification.Consolidator.Warmup

/-! # Minutes that fill buckets

When every minute from the opening of a bucket on is stored, each bucket from it on has a
row, and the rows before it do not show in a window that spans them. -/

namespace Quantoxide.Consolidator

open DateTime

variable {r : OhlcResolution} {rows before tail : List OhlcCandleRow} {m : OhlcCandleRow}
  {fresh : Bool} {s t b : ℤ}

/-! ### The grid of a resolution -/

def bucketLength (r : OhlcResolution) : ℤ := Duration.minutes r.asMinutes

theorem bucketLength_eq (r : OhlcResolution) : bucketLength r = r.asSeconds * 1000000000 := by
  unfold bucketLength Duration.minutes OhlcResolution.asSeconds
  omega

theorem bucketLength_pos (r : OhlcResolution) : 0 < bucketLength r := by
  have h := r.asSeconds_pos
  rw [bucketLength_eq]
  omega

theorem floor_of_nonneg (r : OhlcResolution) (h : 0 ≤ t) :
    floorToResolution t r = t / bucketLength r * bucketLength r := by
  have hs : 0 ≤ timestamp t := Int.ediv_nonneg h (by decide)
  rw [floorToResolution, fromTimestamp, Int.tdiv_eq_ediv_of_nonneg hs, timestamp,
    bucketLength_eq, Int.ediv_ediv_of_nonneg (by decide), mul_comm (1000000000 : ℤ), mul_assoc]

theorem floor_le (r : OhlcResolution) (h : 0 ≤ t) : floorToResolution t r ≤ t := by
  rw [floor_of_nonneg r h]
  exact Int.ediv_mul_le t (bucketLength_pos r).ne'

theorem lt_floor_add (r : OhlcResolution) (t : ℤ) :
    t < floorToResolution t r + bucketLength r := by
  have hmod := Int.tmod_lt_of_pos (timestamp t) r.asSeconds_pos
  have hdiv := Int.tmod_add_tdiv_mul (timestamp t) r.asSeconds
  have ht : t < (timestamp t + 1) * 1000000000 := by
    unfold timestamp
    omega
  rw [bucketLength_eq, floorToResolution, fromTimestamp]
  omega

theorem floor_nonneg (r : OhlcResolution) (h : 0 ≤ t) : 0 ≤ floorToResolution t r := by
  rw [floor_of_nonneg r h]
  exact mul_nonneg (Int.ediv_nonneg h (bucketLength_pos r).le) (bucketLength_pos r).le

/-- The bucket `i` steps before that of `t`. -/
def bucketBack (r : OhlcResolution) (t : ℤ) (i : ℕ) : ℤ :=
  floorToResolution t r - i * bucketLength r

theorem stepBack_eq (l : Lookback) (t : ℤ) :
    stepBackCandles t l.resolution (l.period.asInt - 1) =
      bucketBack l.resolution t (l.period.asUsize - 1) := by
  have hp := l.period.asUsize_pos
  have hcast := l.period.asUsize_cast
  have hi : ((l.period.asUsize - 1 : ℕ) : ℤ) = l.period.asInt - 1 := by omega
  rw [stepBackCandles, bucketBack, hi, bucketLength, Duration.minutes, Duration.minutes]
  ring

/-- The window of a lookback opens within its duration. -/
theorem sub_lt_bucketBack (l : Lookback) (t : ℤ) :
    t - l.asDuration < bucketBack l.resolution t (l.period.asUsize - 1) := by
  have hlt := lt_floor_add l.resolution t
  have hp := l.period.asUsize_pos
  have hcast := l.period.asUsize_cast
  have hi : ((l.period.asUsize - 1 : ℕ) : ℤ) = l.period.asInt - 1 := by omega
  have hdur : l.asDuration = (l.period.asInt - 1) * bucketLength l.resolution +
      bucketLength l.resolution := by
    rw [Lookback.asDuration, Period.asDuration, bucketLength, Duration.minutes, Duration.minutes]
    ring
  rw [hdur, bucketBack, hi]
  omega

theorem bucketBack_mono (r : OhlcResolution) (i : ℕ) (h : s ≤ t) :
    bucketBack r s i ≤ bucketBack r t i :=
  sub_le_sub_right (floorToResolution_mono r h) _

theorem bucketBack_le (r : OhlcResolution) (i : ℕ) (ht : 0 ≤ t) : bucketBack r t i ≤ t := by
  have hmul : 0 ≤ (i : ℤ) * bucketLength r := mul_nonneg (by omega) (bucketLength_pos r).le
  have hfloor := floor_le r ht
  unfold bucketBack
  omega

theorem bucketBack_floor (r : OhlcResolution) (i : ℕ) (ht : 0 ≤ t) (h : 0 ≤ bucketBack r t i) :
    floorToResolution (bucketBack r t i) r = bucketBack r t i := by
  rw [floor_of_nonneg r h, bucketBack, floor_of_nonneg r ht, ← sub_mul,
    Int.mul_ediv_cancel _ (bucketLength_pos r).ne']

theorem bucketBack_round (r : OhlcResolution) (i : ℕ) (ht : 0 ≤ t) :
    isRoundMinute (bucketBack r t i) = true := by
  have hdvd : bucketBack r t i = (t / bucketLength r - i) * r.asMinutes * 60000000000 := by
    rw [bucketBack, floor_of_nonneg r ht, ← sub_mul, bucketLength, Duration.minutes, mul_assoc]
  rw [hdvd, isRoundMinute, floorMinute, Int.mul_emod_left, sub_zero, beq_self_eq_true]

/-! ### Buckets with a row -/

/-- Every minute from `lo` to `hi` is among the rows. -/
def Stored (rows : List OhlcCandleRow) (lo hi : ℤ) : Prop :=
  ∀ t, isRoundMinute t = true → lo ≤ t → t ≤ hi → ∃ c ∈ rows, c.time = t

theorem Stored.mono {lo hi lo' hi' : ℤ} (h : Stored rows lo hi) (hlo : lo ≤ lo') (hhi : hi' ≤ hi) :
    Stored rows lo' hi' :=
  fun t ht hl hh => h t ht (hlo.trans hl) (hh.trans hhi)

/-- The last `p` buckets up to that of `t` each have a row. -/
theorem le_length_keys (p : ℕ) (ht : 0 ≤ t) (hb : 0 ≤ bucketBack r t (p - 1))
    (h : Stored rows (bucketBack r t (p - 1)) t) :
    p ≤ (Groups.keys (bucketOf r) rows).length := by
  have hr := bucketLength_pos r
  have hnodup : ((List.range p).map (bucketBack r t)).Nodup := by
    refine List.Nodup.map ?_ List.nodup_range
    intro i j hij
    have hmul : (i : ℤ) * bucketLength r = j * bucketLength r := by
      unfold bucketBack at hij
      omega
    exact_mod_cast Int.eq_of_mul_eq_mul_right hr.ne' hmul
  have hsub : (List.range p).map (bucketBack r t) ⊆ Groups.keys (bucketOf r) rows := by
    intro b hmem
    obtain ⟨i, hi, rfl⟩ := List.mem_map.mp hmem
    have hi' := List.mem_range.mp hi
    have hle : bucketBack r t (p - 1) ≤ bucketBack r t i := by
      have hmul := Int.mul_le_mul_of_nonneg_right (show (i : ℤ) ≤ (p - 1 : ℕ) by omega) hr.le
      unfold bucketBack
      omega
    obtain ⟨c, hc, htime⟩ := h _ (bucketBack_round r i ht) hle (bucketBack_le r i ht)
    refine Groups.mem_keys.mpr ⟨c, hc, ?_⟩
    rw [bucketOf, htime, bucketBack_floor r i ht (hb.trans hle)]
  have hlen := (List.Nodup.subperm hnodup hsub).length_le
  rwa [List.length_map, List.length_range] at hlen

/-- Rows from a bucket on lie in the buckets from it on. -/
theorem length_keys_le {p : ℕ} (hp : 0 < p) (ht : 0 ≤ t) (hb : 0 ≤ bucketBack r t (p - 1))
    (h : ∀ c ∈ rows, bucketBack r t (p - 1) ≤ c.time ∧ c.time ≤ t) :
    (Groups.keys (bucketOf r) rows).length ≤ p := by
  have hr := bucketLength_pos r
  have hsub : Groups.keys (bucketOf r) rows ⊆ (List.range p).map (bucketBack r t) := by
    intro b hmem
    obtain ⟨c, hc, rfl⟩ := Groups.mem_keys.mp hmem
    obtain ⟨hlo, hhi⟩ := h c hc
    have hdiv : c.time / bucketLength r ≤ t / bucketLength r := Int.ediv_le_ediv hr hhi
    have hback : t / bucketLength r - (p - 1 : ℕ) ≤ c.time / bucketLength r := by
      rw [Int.le_ediv_iff_mul_le hr, sub_mul, ← floor_of_nonneg r ht]
      exact hlo
    refine List.mem_map.mpr ⟨(t / bucketLength r - c.time / bucketLength r).toNat, ?_, ?_⟩
    · rw [List.mem_range]
      omega
    · rw [bucketBack, bucketOf, floor_of_nonneg r ht, floor_of_nonneg r (hb.trans hlo),
        Int.toNat_of_nonneg (sub_nonneg.mpr hdiv)]
      ring
  have hlen := (List.Nodup.subperm Groups.keys_nodup hsub).length_le
  rwa [List.length_map, List.length_range] at hlen

/-! ### Rows before a bucket -/

/-- Rows of earlier buckets come first and leave the later ones as they are. -/
theorem view_append (ht : tail ≠ [])
    (h : ∀ a ∈ before, ∀ c ∈ tail, bucketOf r a ≠ bucketOf r c) :
    ∃ earlier, view r fresh (before ++ tail) = earlier ++ view r fresh tail := by
  unfold view
  split_ifs
  · exact ⟨before, rfl⟩
  · have hkeys := Groups.keys_append h
    have hlast : (Groups.keys (bucketOf r) before ++ Groups.keys (bucketOf r) tail).getLast? =
        (Groups.keys (bucketOf r) tail).getLast? := by
      apply List.getLast?_append_of_ne_nil
      obtain ⟨c, hc⟩ := List.exists_mem_of_ne_nil tail ht
      exact List.ne_nil_of_mem (Groups.mem_keys.mpr ⟨c, hc, rfl⟩)
    simp only [batch, hkeys, List.map_append, hlast]
    refine ⟨_, congrArg _ (List.map_congr_left ?_)⟩
    intro b hb
    obtain ⟨c, hc, rfl⟩ := Groups.mem_keys.mp hb
    rw [Groups.group_append, Groups.group_eq_nil fun a ha => h a ha c hc, List.nil_append]

/-- They do not show in a window that the later rows fill. -/
theorem rtake_view_append {p : ℕ} (hf : Feed tail) (hp : 0 < p)
    (hlen : p ≤ (Groups.keys (bucketOf r) tail).length)
    (h : ∀ a ∈ before, ∀ c ∈ tail, bucketOf r a ≠ bucketOf r c) :
    (view r fresh (before ++ tail)).rtake p = (view r fresh tail).rtake p := by
  have ht : tail ≠ [] := by
    rintro rfl
    simp at hlen
    omega
  obtain ⟨earlier, hview⟩ := view_append ht h
  rw [hview, Window.rtake_append]
  rwa [length_view r fresh hf]

end Quantoxide.Consolidator
