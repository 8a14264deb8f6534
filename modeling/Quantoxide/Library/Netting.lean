import Mathlib.Algebra.Order.Group.Defs
import Mathlib.Algebra.Order.Group.Unbundled.Basic
import Mathlib.Order.MinMax

/-! # Netting with a floor at zero

A balance that is floored at zero after each booking ends below, at or above the balance
that is floored once; which one is decided by the first booking. -/

namespace Netting

variable {α : Type*} [AddCommGroup α] [LinearOrder α]

/-- Books an amount and floors the balance at zero. -/
def book (balance amount : α) : α := max 0 (balance + amount)

variable {balance a b : α}

theorem book_of_nonneg (h : 0 ≤ balance + a) : book balance a = balance + a := max_eq_right h

theorem book_of_nonpos (h : balance + a ≤ 0) : book balance a = 0 := max_eq_left h

variable [IsOrderedAddMonoid α]

/-- Booking twice loses nothing exactly when the first floor is not reached or the second
amount cannot rise above it. -/
theorem book_book_iff :
    book (book balance a) b = book balance (a + b) ↔ 0 ≤ balance + a ∨ b ≤ 0 := by
  rcases le_or_gt 0 (balance + a) with ha | ha
  · rw [book_of_nonneg ha, book, book, add_assoc]
    exact ⟨fun _ => Or.inl ha, fun _ => rfl⟩
  · rw [book_of_nonpos ha.le]
    rcases le_or_gt b 0 with hb | hb
    · have hab : balance + (a + b) ≤ 0 := by
        rw [← add_assoc]
        exact add_nonpos ha.le hb
      rw [book_of_nonpos (by rwa [zero_add]), book_of_nonpos hab]
      exact ⟨fun _ => Or.inr hb, fun _ => rfl⟩
    · have hlt : book balance (a + b) < b := by
        refine max_lt hb ?_
        rw [← add_assoc]
        exact add_lt_of_neg_left b ha
      rw [book_of_nonneg (by rw [zero_add]; exact hb.le), zero_add]
      exact ⟨fun h => absurd h hlt.ne', fun h => absurd h (by simp [ha, hb])⟩

end Netting
