import Mathlib.Algebra.Order.Field.Basic
import Mathlib.Algebra.Order.Floor.Ring
import Mathlib.Tactic.FieldSimp
import Mathlib.Tactic.Linarith

/-! # Gains of inverse contracts

An inverse contract over `n` units of the quote currency is worth `n / price` of the base
currency. Buying it at one price and selling it at another gains the difference, and a
negative `n` is a contract sold first. -/

namespace InverseGain

variable {K : Type*} [Field K]

def gain (n entry exit : K) : K := n / entry - n / exit

theorem gain_self (n x : K) : gain n x x = 0 := sub_self _

theorem gain_add_gain (n x y z : K) : gain n x y + gain n y z = gain n x z :=
  sub_add_sub_cancel _ _ _

/-- The entry price from which `n` units gain a given amount up to `exit`. -/
def entryFor (n exit amount : K) : K := n / (n / exit + amount)

theorem gain_entryFor {n exit amount : K} (hn : n ≠ 0) (h : n / exit + amount ≠ 0) :
    gain n (entryFor n exit amount) exit = amount := by
  have hback : n / entryFor n exit amount = n / exit + amount := by
    unfold entryFor
    field_simp
  rw [gain, hback, add_sub_cancel_left]

/-- Over a window whose least gain is at its far end, an amount that the window reaches or
that lies below it is gained up to flooring exactly when the far end gains no more. -/
theorem floor_reached_iff [LinearOrder K] [FloorRing K] {f : K → K} {w : K → Prop} {far amount : K}
    (hfar : w far) (hleast : ∀ p, w p → f far ≤ f p)
    (hreach : amount ≤ f far ∨ ∃ p, w p ∧ f p = amount) :
    (∃ p, w p ∧ ⌊f p⌋ = ⌊amount⌋) ↔ ⌊f far⌋ ≤ ⌊amount⌋ := by
  constructor
  · intro h
    obtain ⟨p, hp, heq⟩ := h
    rw [← heq]
    exact Int.floor_le_floor (hleast p hp)
  · intro h
    rcases hreach with hbelow | ⟨p, hp, heq⟩
    · exact ⟨far, hfar, le_antisymm h (Int.floor_le_floor hbelow)⟩
    · exact ⟨p, hp, by rw [heq]⟩

variable [LinearOrder K] [IsStrictOrderedRing K] {n x y z : K}

theorem gain_anti_entry (hn : 0 ≤ n) (hx : 0 < x) (h : x ≤ y) : gain n y z ≤ gain n x z := by
  have hdiv := div_le_div_of_nonneg_left hn hx h
  unfold gain
  linarith

theorem gain_mono_entry (hn : n ≤ 0) (hx : 0 < x) (h : x ≤ y) : gain n x z ≤ gain n y z := by
  have hdiv := div_le_div_of_nonneg_left (neg_nonneg.mpr hn) hx h
  rw [neg_div, neg_div] at hdiv
  unfold gain
  linarith

theorem gain_lt_gain (hn : 0 < n) (hy : 0 < y) (h : y < z) : gain n x y < gain n x z := by
  have hdiv := div_lt_div_of_pos_left hn hy h
  unfold gain
  linarith

theorem gain_lt_gain_of_neg (hn : n < 0) (hz : 0 < z) (h : z < y) : gain n x y < gain n x z := by
  have hdiv := div_lt_div_of_pos_left (neg_pos.mpr hn) hz h
  rw [neg_div, neg_div] at hdiv
  unfold gain
  linarith

/-- A contract that has lost was bought above the exit. -/
theorem le_of_gain_nonpos (hn : 0 < n) (hx : 0 < x) (h : gain n x y ≤ 0) :
    y ≤ x := by
  by_contra hlt
  have hdiv := div_lt_div_of_pos_left hn hx (not_le.mp hlt)
  unfold gain at h
  linarith

theorem ge_of_gain_nonpos (hn : n < 0) (hy : 0 < y) (h : gain n x y ≤ 0) :
    x ≤ y := by
  by_contra hlt
  have hdiv := div_lt_div_of_pos_left (neg_pos.mpr hn) hy (not_le.mp hlt)
  rw [neg_div, neg_div] at hdiv
  unfold gain at h
  linarith

end InverseGain
