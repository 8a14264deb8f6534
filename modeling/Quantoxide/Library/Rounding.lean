import Mathlib.Algebra.Order.Field.Basic
import Mathlib.Data.Set.Defs
import Mathlib.Tactic.Linarith.Frontend

/-! # Rounding to a grid

A value is rounded to a point of a grid when no other point lies between the two. With a
slack, a value that is off a grid point by no more is rounded as if it were the point. -/

namespace Rounding

variable {K : Type*} [Field K] [LinearOrder K] [IsStrictOrderedRing K]
variable {G : Set K} {slack slack' x y g p c δ : K}

/-- `y` is what `x` is rounded to. -/
structure Rounds (G : Set K) (slack x y : K) : Prop where
  mem : y ∈ G
  le_of : ∀ g ∈ G, g - slack ≤ x → g ≤ y
  of_le : ∀ g ∈ G, x ≤ g + slack → y ≤ g

theorem Rounds.of_slack_le (h : Rounds G slack x y) (hs : slack' ≤ slack) :
    Rounds G slack' x y where
  mem := h.mem
  le_of g hg hx := h.le_of g hg (by linarith)
  of_le g hg hx := h.of_le g hg (by linarith)

theorem Rounds.ge_of_le (h : Rounds G slack x y) (hs : 0 ≤ slack) (hg : g ∈ G) (hx : g ≤ x) :
    g ≤ y :=
  h.le_of g hg (by linarith)

theorem Rounds.le_of_ge (h : Rounds G slack x y) (hs : 0 ≤ slack) (hg : g ∈ G) (hx : x ≤ g) :
    y ≤ g :=
  h.of_le g hg (by linarith)

/-! ### Dividing and multiplying back -/

/-- A value at least the quotient of a grid point, up to an error that the slack absorbs, is
rounded to no less than the point when it is multiplied back. -/
theorem Rounds.ge_of_quotient_le (h : Rounds G slack (p * c) y) (hg : g ∈ G) (hc : 0 < c)
    (hδ : δ * c ≤ slack) (hp : g / c - δ ≤ p) : g ≤ y := by
  have hback : (g / c - δ) * c ≤ p * c := mul_le_mul_of_nonneg_right hp hc.le
  have hquot : (g / c - δ) * c = g - δ * c := by
    rw [sub_mul, div_mul_cancel₀ g hc.ne']
  apply h.le_of g hg
  linarith

/-- The same from above. -/
theorem Rounds.le_of_le_quotient (h : Rounds G slack (p * c) y) (hg : g ∈ G) (hc : 0 < c)
    (hδ : δ * c ≤ slack) (hp : p ≤ g / c + δ) : y ≤ g := by
  have hback : p * c ≤ (g / c + δ) * c := mul_le_mul_of_nonneg_right hp hc.le
  have hquot : (g / c + δ) * c = g + δ * c := by
    rw [add_mul, div_mul_cancel₀ g hc.ne']
  apply h.of_le g hg
  linarith

end Rounding
