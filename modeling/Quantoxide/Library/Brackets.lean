import Mathlib.Order.Interval.Set.LinearOrder

/-! # Brackets

A bracket is what lies strictly between two bounds, and nothing bounded yet is everything.
Narrowing a bracket by bounds one after another leaves what lies within all of them, whatever
their order. -/

namespace Brackets

variable {α : Type*} [LinearOrder α]

/-- The bracket narrowed by bounds. -/
def narrow (bracket : Option (α × α)) (bounds : α × α) : Option (α × α) :=
  match bracket with
  | none => some bounds
  | some b => some (max bounds.1 b.1, min bounds.2 b.2)

def inside : Option (α × α) → Set α
  | none => Set.univ
  | some b => Set.Ioo b.1 b.2

variable {bracket : Option (α × α)} {x : α}

theorem narrow_right_comm (bracket : Option (α × α)) (b c : α × α) :
    narrow (narrow bracket b) c = narrow (narrow bracket c) b := by
  cases bracket with
  | none => simp only [narrow, max_comm, min_comm]
  | some d => simp only [narrow, max_left_comm, min_left_comm]

theorem inside_narrow (b : α × α) :
    inside (narrow bracket b) = inside bracket ∩ Set.Ioo b.1 b.2 := by
  cases bracket with
  | none => exact (Set.univ_inter _).symm
  | some d =>
      rw [Set.inter_comm]
      exact Set.Ioo_inter_Ioo.symm

/-- What bounds leave is what lies within each of them. -/
theorem mem_inside_foldl_iff (bs : List (α × α)) :
    x ∈ inside (bs.foldl narrow bracket) ↔
      x ∈ inside bracket ∧ ∀ b ∈ bs, x ∈ Set.Ioo b.1 b.2 := by
  induction bs generalizing bracket with
  | nil => simp
  | cons b bs ih =>
      rw [List.foldl_cons, ih, inside_narrow, Set.mem_inter_iff, List.forall_mem_cons, and_assoc]

theorem foldl_perm {bs cs : List (α × α)} (h : bs.Perm cs) (bracket : Option (α × α)) :
    bs.foldl narrow bracket = cs.foldl narrow bracket :=
  h.foldl_eq' (fun b _ c _ bracket => narrow_right_comm bracket b c) bracket

end Brackets
