import Mathlib.Algebra.BigOperators.Group.List.Basic
import Mathlib.Algebra.Group.Basic

/-! # Runs of a labelled transition system

A run is the list of labels taken from a start state. Invariants go from one step to every
run, and so does a quantity that each step changes by an amount its label fixes. -/

namespace Runs

universe u v

variable {σ : Type u} {ι : Type v}

structure System (σ : Type u) (ι : Type v) where
  start : σ → Prop
  step : σ → ι → σ → Prop

namespace System

/-- The system whose steps also meet a condition on the state and the label. -/
def restrict (sys : System σ ι) (allowed : σ → ι → Prop) : System σ ι where
  start := sys.start
  step s i s' := allowed s i ∧ sys.step s i s'

/-- The system started in one given state. -/
def startedIn (sys : System σ ι) (s₀ : σ) : System σ ι where
  start s := s = s₀
  step := sys.step

inductive Run (sys : System σ ι) : List ι → σ → Prop
  | start {s : σ} (h : sys.start s) : Run sys [] s
  | step {is : List ι} {s s' : σ} {i : ι} (h : Run sys is s) (hs : sys.step s i s') :
      Run sys (is ++ [i]) s'

variable {sys : System σ ι} {is : List ι} {s : σ}

/-- The condition holds of each label at the state the labels before it lead to. -/
def Along (next : σ → ι → σ) (allowed : σ → ι → Prop) : σ → List ι → Prop
  | _, [] => True
  | s, i :: is => allowed s i ∧ Along next allowed (next s i) is

instance Along.decidable (next : σ → ι → σ) (allowed : σ → ι → Prop)
    [∀ s i, Decidable (allowed s i)] : ∀ s is, Decidable (Along next allowed s is)
  | _, [] => inferInstanceAs (Decidable True)
  | s, i :: is =>
    have := Along.decidable next allowed (next s i) is
    inferInstanceAs (Decidable (allowed s i ∧ Along next allowed (next s i) is))

theorem along_of_forall {next : σ → ι → σ} {allowed : ι → Prop} {js : List ι}
    (h : ∀ i ∈ js, allowed i) : Along next (fun _ i => allowed i) s js := by
  induction js generalizing s with
  | nil => trivial
  | cons j js ih => exact ⟨h j List.mem_cons_self, ih fun i hi => h i (List.mem_cons_of_mem j hi)⟩

/-- The run that a list of labels makes of a system whose step is a function. -/
theorem Run.foldl {next : σ → ι → σ} {allowed : σ → ι → Prop}
    (hstep : ∀ s i, allowed s i → sys.step s i (next s i)) (h : sys.Run is s) {js : List ι}
    (hjs : Along next allowed s js) : sys.Run (is ++ js) (js.foldl next s) := by
  induction js generalizing is s with
  | nil => simpa using h
  | cons j js ih =>
      have hj := h.step (hstep s j hjs.1)
      rw [List.append_cons]
      exact ih hj hjs.2

theorem Run.of_nil (h : sys.Run [] s) : sys.start s := by
  generalize hn : ([] : List ι) = is at h
  cases h with
  | start hs => exact hs
  | step h hs => simp at hn

theorem prefixed_of_head {i : ι} (h : is.head? = some i) : [] ++ [i] <+: is := by
  obtain ⟨rest, rfl⟩ := List.head?_eq_some_iff.mp h
  exact ⟨rest, rfl⟩

theorem prefixed_of_mem {i : ι} (h : i ∈ is) : ∃ before, before ++ [i] <+: is := by
  obtain ⟨before, after, rfl⟩ := List.append_of_mem h
  exact ⟨before, after, by simp⟩

/-- Every step of a run is taken from a state that a run leads to. -/
theorem Run.of_prefix {before : List ι} {i : ι} (h : sys.Run is s) (hpre : before ++ [i] <+: is) :
    ∃ s₁ s₂, sys.Run before s₁ ∧ sys.step s₁ i s₂ := by
  induction h with
  | start hs => simp at hpre
  | @step is s s' j h hs ih =>
      rcases List.prefix_concat_iff.mp hpre with heq | hpre
      · obtain ⟨rfl, hlast⟩ := List.append_inj' heq rfl
        obtain rfl := List.singleton_inj.mp hlast
        exact ⟨s, s', h, hs⟩
      · exact ih hpre

/-- A simulation takes every run to one with related labels. -/
theorem Run.simulate {σ' ι' : Type*} (h : sys.Run is s) (sys' : System σ' ι')
    {R : σ → σ' → Prop} {L : ι → ι' → Prop}
    (hstart : ∀ s, sys.start s → ∃ s', sys'.start s' ∧ R s s')
    (hstep : ∀ s i t s', R s s' → sys.step s i t → ∃ j t', sys'.step s' j t' ∧ L i j ∧ R t t') :
    ∃ js s', sys'.Run js s' ∧ List.Forall₂ L is js ∧ R s s' := by
  induction h with
  | start hs =>
      obtain ⟨s', hs', hr⟩ := hstart _ hs
      exact ⟨[], s', .start hs', .nil, hr⟩
  | step _ hs ih =>
      obtain ⟨js, s', hrun, hlabels, hr⟩ := ih
      obtain ⟨j, t', hs', hl, hr'⟩ := hstep _ _ _ _ hr hs
      exact ⟨js ++ [j], t', hrun.step hs', List.rel_append hlabels (.cons hl .nil), hr'⟩

theorem Run.invariant {Inv : σ → Prop} (h : sys.Run is s) (h0 : ∀ s, sys.start s → Inv s)
    (hstep : ∀ s i s', Inv s → sys.step s i s' → Inv s') : Inv s := by
  induction h with
  | start hs => exact h0 _ hs
  | step _ hs ih => exact hstep _ _ _ ih hs

theorem Run.of_restrict {P : σ → ι → Prop} (h : (sys.restrict P).Run is s) : sys.Run is s := by
  induction h with
  | start hs => exact .start hs
  | step _ hs ih => exact ih.step hs.2

theorem Run.restrict_imp {P Q : σ → ι → Prop} (h : (sys.restrict P).Run is s)
    (himp : ∀ s i, P s i → Q s i) : (sys.restrict Q).Run is s := by
  induction h with
  | start hs => exact .start hs
  | step _ hs ih => exact ih.step ⟨himp _ _ hs.1, hs.2⟩

/-- A quantity that each step raises by its label's amount is raised by the run's total. -/
theorem Run.potential {M : Type} [AddCommMonoid M] {Inv : σ → Prop} {f : σ → M} {g : ι → M}
    {c : M} (h : sys.Run is s) (h0 : ∀ s, sys.start s → Inv s ∧ f s = c)
    (hstep : ∀ s i s', Inv s → sys.step s i s' → Inv s' ∧ f s' = f s + g i) :
    Inv s ∧ f s = c + (is.map g).sum := by
  induction h with
  | start hs => simpa using h0 _ hs
  | step _ hs ih =>
      obtain ⟨hi, hf⟩ := hstep _ _ _ ih.1 hs
      refine ⟨hi, ?_⟩
      rw [hf, ih.2, List.map_append, List.sum_append, List.map_singleton, List.sum_singleton,
        add_assoc]

end System

end Runs
