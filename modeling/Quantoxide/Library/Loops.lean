import Mathlib.Data.Nat.Notation
import Mathlib.Order.WellFounded

/-! # Loops

A turn of a loop leads to another state or ends with a result. A loop whose turns stand still
unless they lower a measure ends exactly when it never comes to stand still. -/

namespace Loops

universe u v w

variable {σ : Type u} {ρ : Type v} (turn : σ → σ ⊕ ρ)

/-- The result within some turns; `none` when the loop is still running. -/
def run : ℕ → σ → Option ρ
  | 0, _ => none
  | fuel + 1, s =>
    match turn s with
    | .inl s' => run fuel s'
    | .inr r => some r

inductive Reaches (s : σ) : σ → Prop
  | refl : Reaches s s
  | next {t t' : σ} (h : Reaches s t) (ht : turn t = .inl t') : Reaches s t'

def Ends (s : σ) : Prop := ∃ fuel r, run turn fuel s = some r

variable {turn} {s t t' : σ}

theorem ends_iff_of_next (h : turn s = .inl t) : Ends turn s ↔ Ends turn t := by
  constructor
  · rintro ⟨fuel, r, hrun⟩
    cases fuel with
    | zero => cases hrun
    | succ fuel =>
        rw [run, h] at hrun
        exact ⟨fuel, r, hrun⟩
  · rintro ⟨fuel, r, hrun⟩
    refine ⟨fuel + 1, r, ?_⟩
    rw [run, h]
    exact hrun

theorem ends_iff_of_reaches (h : Reaches turn s t) : Ends turn s ↔ Ends turn t := by
  induction h with
  | refl => rfl
  | next _ ht ih => exact ih.trans (ends_iff_of_next ht)

theorem run_of_still (h : turn s = .inl s) (fuel : ℕ) : run turn fuel s = none := by
  induction fuel with
  | zero => rfl
  | succ fuel ih =>
      rw [run, h]
      exact ih

theorem not_ends_of_still (h : turn s = .inl s) : ¬ Ends turn s := by
  rintro ⟨fuel, r, hrun⟩
  rw [run_of_still h] at hrun
  cases hrun

/-- A loop whose turns lower a measure ends. -/
theorem ends_of_lowers {α : Type w} [Preorder α] [WellFoundedLT α] (m : σ → α)
    (hlowers : ∀ t t', Reaches turn s t → turn t = .inl t' → m t' < m t) : Ends turn s := by
  suffices h : ∀ a t, m t = a → Reaches turn s t → Ends turn t from h _ s rfl .refl
  intro a
  induction a using WellFoundedLT.induction with
  | _ a ih =>
      rintro t rfl ht
      cases hturn : turn t with
      | inl t' =>
          have hlow := hlowers t t' ht hturn
          exact (ends_iff_of_next hturn).mpr (ih _ hlow t' rfl (ht.next hturn))
      | inr r =>
          refine ⟨1, r, ?_⟩
          rw [run, hturn]

/-- A loop whose turns lower a measure or stand still ends when none stands still. -/
theorem ends_iff {α : Type w} [Preorder α] [WellFoundedLT α] (m : σ → α) (advances : σ → Prop)
    (hlowers : ∀ t t', Reaches turn s t → turn t = .inl t' → advances t → m t' < m t)
    (hstill : ∀ t t', Reaches turn s t → turn t = .inl t' → ¬ advances t → t' = t) :
    Ends turn s ↔ ∀ t t', Reaches turn s t → turn t = .inl t' → advances t := by
  constructor
  · intro hends t t' ht hturn
    by_contra hnot
    obtain rfl := hstill t t' ht hturn hnot
    exact not_ends_of_still hturn ((ends_iff_of_reaches ht).mp hends)
  · intro hadvances
    exact ends_of_lowers m fun t t' ht hturn => hlowers t t' ht hturn (hadvances t t' ht hturn)

end Loops
