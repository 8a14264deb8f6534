import Quantoxide.Library.Result

/-! # Fallible calls one after the other

What a list of calls does to a state is known from the calls that were made and the states
they found: making these again finds the same states and ends the same. -/

namespace Calls

open Result

variable {ε γ σ : Type} (perform : γ → σ → Except ε σ)

/-- Makes the calls in order, until one fails. -/
def performAll (calls : List γ) (s : σ) : Except ε σ :=
  calls.foldlM (fun s call => perform call s) s

/-- The calls that are made, the one that fails included, each with the state it finds. -/
def made : List γ → σ → List (γ × σ)
  | [], _ => []
  | call :: calls, s =>
    (call, s) ::
      match perform call s with
      | .error _ => []
      | .ok s => made calls s

variable {perform} {x : γ} {xs ys : List γ} {s t : σ} {e : ε}

@[simp] theorem performAll_nil : performAll perform [] s = .ok s := rfl

theorem performAll_cons : performAll perform (x :: xs) s = perform x s >>= performAll perform xs :=
  List.foldlM_cons

theorem performAll_append :
    performAll perform (xs ++ ys) s = performAll perform xs s >>= performAll perform ys :=
  List.foldlM_append

theorem made_append (h : performAll perform xs s = .ok t) :
    made perform (xs ++ ys) s = made perform xs s ++ made perform ys t := by
  induction xs generalizing s with
  | nil =>
      cases h
      rfl
  | cons x xs ih =>
      rw [performAll_cons, bind_eq_ok] at h
      obtain ⟨u, hx, h⟩ := h
      simp only [made, hx, List.cons_append, ih h]

theorem made_append_error (h : performAll perform xs s = .error e) :
    made perform (xs ++ ys) s = made perform xs s := by
  induction xs generalizing s with
  | nil => cases h
  | cons x xs ih =>
      rw [performAll_cons] at h
      cases hx : perform x s with
      | error e => simp only [made, hx, List.cons_append]
      | ok u =>
          rw [hx] at h
          simp only [made, hx, List.cons_append, ih h]

/-- The calls are made in order; only a failure leaves some of them out. -/
theorem made_prefix_calls (perform : γ → σ → Except ε σ) (xs : List γ) (s : σ) :
    (made perform xs s).map (·.1) <+: xs := by
  induction xs generalizing s with
  | nil => exact List.prefix_rfl
  | cons x xs ih =>
      rw [made, List.map_cons, List.cons_prefix_cons]
      refine ⟨rfl, ?_⟩
      cases perform x s with
      | error e => exact List.nil_prefix
      | ok u => exact ih u

theorem made_of_ok (h : performAll perform xs s = .ok t) : (made perform xs s).map (·.1) = xs := by
  induction xs generalizing s with
  | nil => rfl
  | cons x xs ih =>
      rw [performAll_cons, bind_eq_ok] at h
      obtain ⟨u, hx, h⟩ := h
      simp only [made, hx, List.map_cons, ih h]

/-- The calls that were made end as all of them do. -/
theorem performAll_made (perform : γ → σ → Except ε σ) (xs : List γ) (s : σ) :
    performAll perform ((made perform xs s).map (·.1)) s = performAll perform xs s := by
  induction xs generalizing s with
  | nil => rfl
  | cons x xs ih =>
      rw [made, List.map_cons, performAll_cons, performAll_cons]
      cases perform x s with
      | error e => rfl
      | ok u => exact ih u

theorem made_made (perform : γ → σ → Except ε σ) (xs : List γ) (s : σ) :
    made perform ((made perform xs s).map (·.1)) s = made perform xs s := by
  induction xs generalizing s with
  | nil => rfl
  | cons x xs ih =>
      cases hx : perform x s with
      | error e => simp only [made, hx, List.map_cons]
      | ok u => simp only [made, hx, List.map_cons, ih u]

end Calls
