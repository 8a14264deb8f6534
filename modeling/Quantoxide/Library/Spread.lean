import Mathlib.Order.BoundedOrder.Basic
import Mathlib.Order.Defs.LinearOrder
import Mathlib.Order.Lattice

/-! # The spread of readings

A reading is a low and a high. A loop that widens a range by each reading, from the empty
range, ends with the least low and the greatest high. -/

namespace Spread

variable {α : Type*} [LinearOrder α]

def widen (range reading : α × α) : α × α :=
  (if reading.1 < range.1 then reading.1 else range.1,
    if reading.2 > range.2 then reading.2 else range.2)

variable {range : α × α} {x : α}

theorem widen_fst_le_iff (r : α × α) : (widen range r).1 ≤ x ↔ range.1 ≤ x ∨ r.1 ≤ x := by
  unfold widen
  by_cases h : r.1 < range.1
  · rw [if_pos h]
    exact ⟨Or.inr, fun hle => hle.elim h.le.trans id⟩
  · rw [if_neg h]
    exact ⟨Or.inl, fun hle => hle.elim id (not_lt.mp h).trans⟩

theorem le_widen_snd_iff (r : α × α) : x ≤ (widen range r).2 ↔ x ≤ range.2 ∨ x ≤ r.2 := by
  unfold widen
  by_cases h : r.2 > range.2
  · rw [if_pos h]
    exact ⟨Or.inr, fun hle => hle.elim (fun hx => hx.trans (le_of_lt h)) id⟩
  · rw [if_neg h]
    exact ⟨Or.inl, fun hle => hle.elim id fun hx => hx.trans (not_lt.mp h)⟩

theorem foldl_fst_le_iff (rs : List (α × α)) :
    (rs.foldl widen range).1 ≤ x ↔ range.1 ≤ x ∨ ∃ r ∈ rs, r.1 ≤ x := by
  induction rs generalizing range with
  | nil => simp
  | cons r rs ih =>
      rw [List.foldl_cons, ih, widen_fst_le_iff]
      simp [or_assoc]

theorem le_foldl_snd_iff (rs : List (α × α)) :
    x ≤ (rs.foldl widen range).2 ↔ x ≤ range.2 ∨ ∃ r ∈ rs, x ≤ r.2 := by
  induction rs generalizing range with
  | nil => simp
  | cons r rs ih =>
      rw [List.foldl_cons, ih, le_widen_snd_iff]
      simp [or_assoc]

variable [BoundedOrder α]

/-- The spread of readings, from the empty range on. -/
def spread (rs : List (α × α)) : α × α := rs.foldl widen (⊤, ⊥)

/-- A value lies in the spread when some low is no greater and some high no less. -/
theorem within_spread_iff {rs : List (α × α)} (hne : rs ≠ []) :
    (spread rs).1 ≤ x ∧ x ≤ (spread rs).2 ↔
      (∃ r ∈ rs, r.1 ≤ x) ∧ ∃ r ∈ rs, x ≤ r.2 := by
  obtain ⟨r, hr⟩ := List.exists_mem_of_ne_nil rs hne
  unfold spread
  rw [foldl_fst_le_iff, le_foldl_snd_iff]
  constructor
  · rintro ⟨hlow, hhigh⟩
    refine ⟨hlow.elim ?_ id, hhigh.elim ?_ id⟩
    · intro htop
      exact ⟨r, hr, le_top.trans htop⟩
    · intro hbot
      exact ⟨r, hr, hbot.trans bot_le⟩
  · rintro ⟨hlow, hhigh⟩
    exact ⟨Or.inr hlow, Or.inr hhigh⟩

end Spread
