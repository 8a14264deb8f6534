import Mathlib.Logic.Function.Basic
import Quantoxide.Library.Result

/-! # The questions of a computation

What is outside a computation is a function that answers its questions. The computation asks
a question when another answer to it could change what comes out. -/

namespace Queries

variable {ι α β γ ε : Type} [DecidableEq ι]

def Asks (f : (ι → α) → β) (g : ι → α) (i : ι) : Prop :=
  ∃ a a', f (Function.update g i a) ≠ f (Function.update g i a')

variable {f : (ι → α) → β} {g : ι → α} {i j : ι}

/-- Another answer to a question that is not asked changes nothing. -/
theorem update_of_not_asks (h : ¬Asks f g i) (a : α) : f (Function.update g i a) = f g := by
  by_contra hne
  refine h ⟨a, g i, ?_⟩
  rwa [Function.update_eq_self]

theorem not_asks_of_const (hf : ∀ g g', f g = f g') : ¬Asks f g i := by
  rintro ⟨a, a', hne⟩
  exact hne (hf _ _)

/-- What one answer decides asks no other question. -/
theorem Asks.eq (h : Asks f g i) (hf : ∀ g g', g j = g' j → f g = f g') : i = j := by
  obtain ⟨a, a', hne⟩ := h
  by_contra hij
  apply hne
  apply hf
  simp only [Function.update_of_ne (Ne.symm hij)]

/-- What is made of a part asks what the part asks. -/
theorem Asks.of_comp {k : β → γ} (h : Asks (fun g => k (f g)) g i) : Asks f g i := by
  obtain ⟨a, a', hne⟩ := h
  exact ⟨a, a', fun heq => hne (congrArg k heq)⟩

/-- After a part that asks nothing, the questions are those of the rest. -/
theorem Asks.of_bind {x : Except ε β} {k : (ι → α) → β → Except ε γ}
    (h : Asks (fun g => x >>= k g) g i) : ∃ b, x = .ok b ∧ Asks (fun g => k g b) g i := by
  cases x with
  | error e => exact (not_asks_of_const (fun _ _ => rfl) h).elim
  | ok b => exact ⟨b, rfl, h⟩

end Queries
