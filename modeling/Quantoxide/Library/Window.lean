import Mathlib.Data.List.DropRight

/-! # Sliding windows

The last `n` elements of a growing list, kept up by appending and by replacing the newest. -/

namespace Window

variable {α : Type*} (n : ℕ) (xs : List α) (x y : α)

/-- Appends `x` to a window of size `n`. -/
def slide (w : List α) : List α := (w ++ [x]).rtake n

/-- Replaces the newest element of a window. -/
def amend (w : List α) : List α := w.dropLast ++ [x]

theorem rtake_rtake (m : ℕ) : (xs.rtake m).rtake n = xs.rtake (min n m) := by
  simp only [List.rtake_eq_reverse_take_reverse, List.reverse_reverse, List.take_take]

theorem length_rtake_le : (xs.rtake n).length ≤ n := by
  rw [List.rtake_eq_reverse_take_reverse, List.length_reverse]
  exact List.length_take_le n xs.reverse

theorem length_rtake : (xs.rtake n).length = min n xs.length := by
  rw [List.rtake_eq_reverse_take_reverse, List.length_reverse, List.length_take,
    List.length_reverse]

theorem rtake_sublist : (xs.rtake n).Sublist xs := List.drop_sublist _ xs

theorem rtake_of_length_le (h : xs.length ≤ n) : xs.rtake n = xs := by
  rw [List.rtake, Nat.sub_eq_zero_of_le h, List.drop_zero]

/-- A window that fits into the later part does not see the earlier one. -/
theorem rtake_append {ys : List α} (h : n ≤ ys.length) : (xs ++ ys).rtake n = ys.rtake n := by
  rw [List.rtake, List.rtake, List.length_append, Nat.add_sub_assoc h, List.drop_append,
    List.drop_of_length_le (Nat.le_add_right _ _), List.nil_append, Nat.add_sub_cancel_left]

theorem slide_rtake : slide n x (xs.rtake n) = (xs ++ [x]).rtake n := by
  unfold slide
  cases n with
  | zero => simp
  | succ n =>
      rw [List.rtake_concat_succ, List.rtake_concat_succ, rtake_rtake,
        Nat.min_eq_left (Nat.le_succ n)]

variable {n}

theorem rtake_concat_ne_nil (hn : 0 < n) : (xs ++ [x]).rtake n ≠ [] := by
  obtain ⟨m, rfl⟩ := Nat.exists_eq_succ_of_ne_zero hn.ne'
  simp [List.rtake_concat_succ]

theorem amend_rtake (hn : 0 < n) : amend x ((xs ++ [y]).rtake n) = (xs ++ [x]).rtake n := by
  obtain ⟨m, rfl⟩ := Nat.exists_eq_succ_of_ne_zero hn.ne'
  simp [amend, List.rtake_concat_succ]

end Window
