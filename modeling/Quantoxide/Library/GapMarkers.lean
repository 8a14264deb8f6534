import Mathlib.Data.Int.LeastGreatest

/-! # Gap markers

Positions on a line hold marks: a stored position is stable or not and may be flagged. A
flagged stable position reports the interval down to the stable position before it. When
every stable position either follows on a stable one or is flagged, the intervals cover
whatever is not stable between two stable positions. -/

namespace GapMarkers

structure Mark where
  stable : Bool
  gap : Bool
deriving DecidableEq

/-- The marks of the positions that are stored. -/
abbrev Marks := ℤ → Option Mark

def Stored (T : Marks) (t : ℤ) : Prop := ∃ k, T t = some k

def Stable (T : Marks) (t : ℤ) : Prop := ∃ k, T t = some k ∧ k.stable = true

def Flagged (T : Marks) (t : ℤ) : Prop := ∃ k, T t = some k ∧ k.gap = true

variable {T T' : Marks} {m t lo hi step cutoff : ℤ}

theorem Stable.stored (h : Stable T t) : Stored T t := by
  obtain ⟨k, hk, -⟩ := h
  exact ⟨k, hk⟩

/-- What a flag reports: the stretch from the last stable position up to the flagged one. -/
structure Interval (T : Marks) (lo hi : ℤ) : Prop where
  lt : lo < hi
  lower : Stable T lo
  upper : Stable T hi
  flagged : Flagged T hi
  last : ∀ t, Stable T t → t < hi → t ≤ lo

def Covered (T : Marks) (m : ℤ) : Prop := ∃ lo hi, Interval T lo hi ∧ lo < m ∧ m < hi

/-! ### The stable neighbours of a position -/

theorem exists_first_stable (h : ∃ t, Stable T t ∧ m < t) :
    ∃ t, Stable T t ∧ m < t ∧ ∀ s, Stable T s → m < s → t ≤ s := by
  obtain ⟨t, ⟨hstable, hlt⟩, hleast⟩ := Int.exists_least_of_bdd
    (P := fun t => Stable T t ∧ m < t) ⟨m, fun _ ht => ht.2.le⟩ h
  exact ⟨t, hstable, hlt, fun s hs hms => hleast s ⟨hs, hms⟩⟩

theorem exists_last_stable (h : ∃ t, Stable T t ∧ t < m) :
    ∃ t, Stable T t ∧ t < m ∧ ∀ s, Stable T s → s < m → s ≤ t := by
  obtain ⟨t, ⟨hstable, hlt⟩, hgreatest⟩ := Int.exists_greatest_of_bdd
    (P := fun t => Stable T t ∧ t < m) ⟨m, fun _ ht => ht.2.le⟩ h
  exact ⟨t, hstable, hlt, fun s hs hms => hgreatest s ⟨hs, hms⟩⟩

theorem Covered.stable_below (h : Covered T m) : ∃ t, Stable T t ∧ t < m := by
  obtain ⟨lo, hi, hi', hlo, -⟩ := h
  exact ⟨lo, hi'.lower, hlo⟩

theorem Covered.stable_above (h : Covered T m) : ∃ t, Stable T t ∧ m < t := by
  obtain ⟨lo, hi, hi', -, hhi⟩ := h
  exact ⟨hi, hi'.upper, hhi⟩

/-! ### Marked tables -/

/-- Every stable position follows on a stable one or is flagged. -/
def Marked (step : ℤ) (T : Marks) : Prop := ∀ t, Stable T t → Stable T (t - step) ∨ Flagged T t

/-- A position that is not stable is covered when it lies between two stable ones and the
stable positions above it are marked. -/
theorem covered_of_marked (hmark : ∀ t, m < t → Stable T t → Stable T (t - step) ∨ Flagged T t)
    (hgrid : ∀ t, Stable T t → m < t → m + step ≤ t) (hstep : 0 < step) (hm : ¬ Stable T m)
    (hlo : ∃ t, Stable T t ∧ t < m) (hhi : ∃ t, Stable T t ∧ m < t) : Covered T m := by
  obtain ⟨x, hx, hmx, hfirst⟩ := exists_first_stable hhi
  have hflag : Flagged T x := by
    rcases hmark x hmx hx with hprev | hflag
    · have hle := hgrid x hx hmx
      rcases eq_or_lt_of_le (show m ≤ x - step by omega) with heq | hlt
      · exact absurd (heq ▸ hprev) hm
      · have := hfirst _ hprev hlt
        omega
    · exact hflag
  obtain ⟨b, hb, hbm⟩ := hlo
  obtain ⟨f, hf, hfx, hlast⟩ := exists_last_stable ⟨b, hb, hbm.trans hmx⟩
  have hfm : f < m := by
    rcases lt_trichotomy f m with h | h | h
    · exact h
    · exact absurd (h ▸ hf) hm
    · exact absurd (hfirst f hf h) (not_le.mpr hfx)
  exact ⟨f, x, ⟨hfx, hf, hx, hflag, hlast⟩, hfm, hmx⟩

/-! ### Writing a run of positions -/

/-- The positions from `lo` to `hi`. -/
def InRun (step lo hi t : ℤ) : Prop := lo ≤ t ∧ t ≤ hi ∧ step ∣ t - lo

/-- Writes a run: what is old enough becomes stable, the first position is flagged unless it
follows on a stable one, and the flag of `before` is taken off. -/
structure Writes (step cutoff lo hi : ℤ) (before : Option ℤ) (T T' : Marks) : Prop where
  last : InRun step lo hi hi
  inside : ∀ t, InRun step lo hi t → ∃ k, T' t = some k ∧ (k.stable = true ↔ t ≤ cutoff) ∧
    (k.gap = true ↔ t = lo ∧ ¬ Stable T (lo - step))
  outside : ∀ t, ¬ InRun step lo hi t →
    T' t = if before = some t then (T t).map (fun k => { k with gap := false }) else T t

namespace Writes

variable {before : Option ℤ}

theorem stable_outside (h : Writes step cutoff lo hi before T T') (ht : ¬ InRun step lo hi t) :
    Stable T' t ↔ Stable T t := by
  unfold Stable
  rw [h.outside t ht]
  split_ifs
  · simp
  · rfl

theorem stable_inside (h : Writes step cutoff lo hi before T T') (ht : InRun step lo hi t) :
    Stable T' t ↔ t ≤ cutoff := by
  obtain ⟨k, hk, hstable, -⟩ := h.inside t ht
  simp [Stable, hk, hstable]

theorem stored_iff (h : Writes step cutoff lo hi before T T') :
    Stored T' t ↔ InRun step lo hi t ∨ Stored T t := by
  by_cases ht : InRun step lo hi t
  · obtain ⟨k, hk, -⟩ := h.inside t ht
    simp [Stored, hk, ht]
  · simp only [Stored, h.outside t ht, ht, false_or]
    by_cases hb : before = some t
    · rw [if_pos hb]
      cases T t <;> simp
    · rw [if_neg hb]

/-- What was stable is old enough to stay so. -/
theorem stable_mono (h : Writes step cutoff lo hi before T T')
    (haged : ∀ t, Stable T t → t ≤ cutoff) (ht : Stable T t) : Stable T' t := by
  by_cases hrun : InRun step lo hi t
  · exact (h.stable_inside hrun).mpr (haged t ht)
  · exact (h.stable_outside hrun).mpr ht

theorem aged (h : Writes step cutoff lo hi before T T') (haged : ∀ t, Stable T t → t ≤ cutoff)
    (ht : Stable T' t) : t ≤ cutoff := by
  by_cases hrun : InRun step lo hi t
  · exact (h.stable_inside hrun).mp ht
  · exact haged t ((h.stable_outside hrun).mp ht)

/-- A run that is not bounded above, or ends right below the flag it takes off, keeps a table
marked. -/
theorem marked (h : Writes step cutoff lo hi before T T') (hstep : 0 < step)
    (haged : ∀ t, Stable T t → t ≤ cutoff) (hbefore : ∀ b, before = some b → hi + step = b)
    (hmarked : Marked step T) : Marked step T' := by
  intro t ht
  by_cases hrun : InRun step lo hi t
  · obtain ⟨k, hk, -, hgap⟩ := h.inside t hrun
    by_cases hlo : t = lo
    · by_cases hprev : Stable T (lo - step)
      · exact Or.inl (h.stable_mono haged (hlo ▸ hprev))
      · exact Or.inr ⟨k, hk, hgap.mpr ⟨hlo, hprev⟩⟩
    · -- Inside the run the position before is written too, and is older.
      refine Or.inl ((h.stable_inside ?_).mpr ?_)
      · obtain ⟨h1, h2, h3⟩ := hrun
        have hle := Int.le_of_dvd (by omega) h3
        refine ⟨by omega, by omega, ?_⟩
        rw [sub_right_comm]
        exact Int.dvd_sub h3 (Int.dvd_refl step)
      · have := (h.stable_inside hrun).mp ht
        omega
  · have hold := (h.stable_outside hrun).mp ht
    rcases hmarked t hold with hprev | ⟨k, hk, hgap⟩
    · exact Or.inl (h.stable_mono haged hprev)
    · by_cases hb : before = some t
      · have heq := hbefore t hb
        have hle := haged t hold
        refine Or.inl ((h.stable_inside ?_).mpr (by omega))
        rw [show t - step = hi by omega]
        exact h.last
      · refine Or.inr ⟨k, ?_, hgap⟩
        rw [h.outside t hrun, if_neg hb, hk]

/-- No position that follows on a stable one is flagged. A run that ends right below the flag it
takes off, or beyond every position, keeps a table so. -/
theorem sharp (h : Writes step cutoff lo hi before T T') (hstep : 0 < step)
    (hbefore : ∀ b, before = some b → hi + step = b)
    (hnewest : before = none → ∀ t, Stored T t → t ≤ hi)
    (hsharp : ∀ t, Flagged T t → ¬ Stable T (t - step)) (ht : Flagged T' t) :
    ¬ Stable T' (t - step) := by
  obtain ⟨k, hk, hgap⟩ := ht
  by_cases hrun : InRun step lo hi t
  · obtain ⟨k', hk', -, hgap'⟩ := h.inside t hrun
    obtain rfl := Option.some.inj (hk.symm.trans hk')
    obtain ⟨rfl, hprev⟩ := hgap'.mp hgap
    have hout : ¬ InRun step t hi (t - step) := fun hin => by
      have := hin.1
      omega
    rwa [h.stable_outside hout]
  · rw [h.outside t hrun] at hk
    split_ifs at hk with hb
    · obtain ⟨k', -, rfl⟩ := Option.map_eq_some_iff.mp hk
      cases hgap
    have hold := hsharp t ⟨k, hk, hgap⟩
    by_cases hprev : InRun step lo hi (t - step)
    · -- Only right beyond the run can a position that follows on it lie outside.
      exfalso
      have hend : t = hi + step := by
        obtain ⟨h1, h2, h3⟩ := hprev
        obtain ⟨-, h4, h5⟩ := h.last
        have hdvd : step ∣ t - lo := by
          have := Int.dvd_add h3 (Int.dvd_refl step)
          rwa [sub_right_comm, sub_add_cancel] at this
        have hbeyond : hi < t := by
          by_contra hle
          exact hrun ⟨by omega, not_lt.mp hle, hdvd⟩
        have hgrid : step ∣ t - hi := by
          rw [← sub_sub_sub_cancel_right t hi lo]
          exact Int.dvd_sub hdvd h5
        have hle := Int.le_of_dvd (by omega) hgrid
        omega
      cases hbound : before with
      | none =>
          have := hnewest hbound t ⟨k, hk⟩
          omega
      | some b =>
          have := hbefore b hbound
          exact hb (by rw [hbound, hend, this])
    · rwa [h.stable_outside hprev]

end Writes

end GapMarkers
