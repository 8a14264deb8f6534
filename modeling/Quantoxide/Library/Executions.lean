import Quantoxide.Library.Runs

/-! # Executions and the states they visit

An execution lists its labels with the state each of them leads to, so that a property can
compare an earlier state of it with a later one. -/

namespace Runs.System

universe u v

variable {σ : Type u} {ι : Type v} {sys : System σ ι}

inductive Execution (sys : System σ ι) : σ → List (ι × σ) → Prop
  | nil (s : σ) : Execution sys s []
  | cons {s s' : σ} {i : ι} {rest : List (ι × σ)} (hs : sys.step s i s')
      (h : Execution sys s' rest) : Execution sys s ((i, s') :: rest)

/-- The start of an execution and the states it goes through. -/
def visited (s : σ) (e : List (ι × σ)) : List σ := s :: e.map Prod.snd

/-- The state an execution ends in. -/
def final : σ → List (ι × σ) → σ
  | s, [] => s
  | _, (_, s') :: rest => final s' rest

/-- The condition holds of each label at the state it is taken from. -/
def Meets (allowed : σ → ι → Prop) : σ → List (ι × σ) → Prop
  | _, [] => True
  | s, (i, s') :: rest => allowed s i ∧ Meets allowed s' rest

instance Meets.decidable (allowed : σ → ι → Prop) [∀ s i, Decidable (allowed s i)] :
    ∀ s e, Decidable (Meets allowed s e)
  | _, [] => inferInstanceAs (Decidable True)
  | s, (i, s') :: rest =>
    have := Meets.decidable allowed s' rest
    inferInstanceAs (Decidable (allowed s i ∧ Meets allowed s' rest))

/-- The execution that labels make of a step that is a function. -/
def trail (next : σ → ι → σ) : σ → List ι → List (ι × σ)
  | _, [] => []
  | s, i :: is => (i, next s i) :: trail next (next s i) is

variable {s s' : σ} {i : ι} {e rest : List (ι × σ)} {allowed : σ → ι → Prop} {Inv : σ → Prop}
  {R : σ → σ → Prop}

@[simp] theorem visited_cons : visited s ((i, s') :: rest) = s :: visited s' rest := rfl

theorem mem_visited_self : s ∈ visited s e := List.mem_cons_self

theorem pairwise_visited_cons : (visited s ((i, s') :: rest)).Pairwise R ↔
    (∀ t ∈ visited s' rest, R s t) ∧ (visited s' rest).Pairwise R := by
  rw [visited_cons, List.pairwise_cons]

theorem execution_trail {next : σ → ι → σ} {enabled : σ → ι → Prop}
    (hstep : ∀ s i, enabled s i → sys.step s i (next s i)) {is : List ι}
    (h : Along next enabled s is) : sys.Execution s (trail next s is) := by
  induction is generalizing s with
  | nil => exact .nil s
  | cons i is ih => exact .cons (hstep s i h.1) (ih h.2)

/-- An execution from a start state is a run to the last state it visits. -/
theorem Execution.run {is : List ι} (h : sys.Execution s e) (hrun : sys.Run is s) :
    ∃ t ∈ visited s e, sys.Run (is ++ e.map Prod.fst) t := by
  induction h generalizing is with
  | nil s => exact ⟨s, mem_visited_self, by simpa using hrun⟩
  | @cons s s' i rest hs h ih =>
      obtain ⟨t, ht, hrun'⟩ := ih (hrun.step hs)
      exact ⟨t, List.mem_cons_of_mem _ ht, by simpa using hrun'⟩

/-- What the allowed steps preserve holds of every state visited. -/
theorem Execution.invariant (h : sys.Execution s e) (hmeets : Meets allowed s e) (h0 : Inv s)
    (hstep : ∀ s i s', Inv s → allowed s i → sys.step s i s' → Inv s') :
    ∀ t ∈ visited s e, Inv t := by
  induction h with
  | nil s => simpa [visited] using h0
  | @cons s s' i rest hs h ih =>
      intro t ht
      rcases List.mem_cons.mp ht with rfl | ht
      · exact h0
      · exact ih hmeets.2 (hstep _ _ _ h0 hmeets.1 hs) t ht

/-- A reflexive relation that steps keep from an earlier state on relates all of them in order. -/
theorem Execution.pairwise (h : sys.Execution s e) (hinv : ∀ t ∈ visited s e, Inv t)
    (hmeets : Meets allowed s e) (hrefl : ∀ s, R s s)
    (hstep : ∀ s t i t', Inv t → allowed t i → sys.step t i t' → R s t → R s t') :
    (visited s e).Pairwise R := by
  have hlater (u s : σ) (e : List (ι × σ)) (h : sys.Execution s e)
      (hinv : ∀ t ∈ visited s e, Inv t) (hmeets : Meets allowed s e) (hu : R u s) :
      ∀ t ∈ visited s e, R u t := by
    induction h with
    | nil s => simpa [visited] using hu
    | @cons s s' i rest hs h ih =>
        intro t ht
        rcases List.mem_cons.mp ht with rfl | ht
        · exact hu
        · exact ih (fun t ht => hinv t (List.mem_cons_of_mem _ ht)) hmeets.2
            (hstep u s i s' (hinv s mem_visited_self) hmeets.1 hs hu) t ht
  induction h with
  | nil s => simp [visited]
  | @cons s s' i rest hs h ih =>
      have htail : ∀ t ∈ visited s' rest, Inv t := fun t ht => hinv t (List.mem_cons_of_mem _ ht)
      refine pairwise_visited_cons.mpr ⟨?_, ih htail hmeets.2⟩
      exact hlater s s' rest h htail hmeets.2
        (hstep s s i s' (hinv s mem_visited_self) hmeets.1 hs (hrefl s))

/-! ### What a doomed state leads to

A doomed state does not have to break the relation yet, but an execution that goes on until
it is settled does. -/

variable {doomed settled : σ → Prop}

theorem Execution.not_pairwise (h : sys.Execution s e) (hs : doomed s)
    (hsettled : settled (final s e)) (hends : ∀ s, doomed s → ¬ settled s)
    (hdoomed : ∀ s i s', sys.step s i s' → doomed s → doomed s' ∨ ¬ R s s') :
    ¬ (visited s e).Pairwise R := by
  induction h with
  | nil s => exact absurd hsettled (hends s hs)
  | @cons s s' i rest hstep h ih =>
      rw [pairwise_visited_cons]
      rintro ⟨hhead, htail⟩
      rcases hdoomed _ _ _ hstep hs with hs' | hbreaks
      · exact ih hs' hsettled htail
      · exact hbreaks (hhead s' mem_visited_self)

/-- When a step that is not allowed breaks the relation or dooms the execution to, a settled
execution that keeps the relation takes only allowed steps. -/
theorem Execution.meets_of_settled (doomed settled : σ → Prop) (h : sys.Execution s e) (h0 : Inv s)
    (hinv : ∀ s i s', Inv s → allowed s i → sys.step s i s' → Inv s')
    (hpair : (visited s e).Pairwise R) (hsettled : settled (final s e))
    (hends : ∀ s, doomed s → ¬ settled s)
    (hdoomed : ∀ s i s', sys.step s i s' → doomed s → doomed s' ∨ ¬ R s s')
    (hbad : ∀ s i s', Inv s → sys.step s i s' → ¬ allowed s i → doomed s' ∨ ¬ R s s') :
    Meets allowed s e := by
  induction h with
  | nil s => trivial
  | @cons s s' i rest hs h ih =>
      obtain ⟨hhead, htail⟩ := pairwise_visited_cons.mp hpair
      have hallowed : allowed s i := by
        by_contra hnot
        rcases hbad _ _ _ h0 hs hnot with hs' | hbreaks
        · exact h.not_pairwise hs' hsettled hends hdoomed htail
        · exact hbreaks (hhead s' mem_visited_self)
      exact ⟨hallowed, ih (hinv _ _ _ h0 hallowed hs) htail hsettled⟩

/-! ### What a mark announces

Steps set a mark and never clear it. A property `q` that the marked states have to keep is
announced by the states with `p`, which are marked. -/

variable {mark p q : σ → Prop}

theorem Execution.marked (h : sys.Execution s e) (hmark : mark s)
    (hkeep : ∀ s i s', sys.step s i s' → mark s → mark s') : ∀ t ∈ visited s e, mark t := by
  induction h with
  | nil s => simpa [visited] using hmark
  | @cons s s' i rest hs h ih =>
      intro t ht
      rcases List.mem_cons.mp ht with rfl | ht
      · exact hmark
      · exact ih (hkeep _ _ _ hs hmark) t ht

/-- An invariant under which the marked states have `q` gives `q` after every `p`. -/
theorem Execution.announced (h : sys.Execution s e) (hinv : ∀ t ∈ visited s e, Inv t)
    (hkeep : ∀ s i s', sys.step s i s' → mark s → mark s') (hset : ∀ s, Inv s → p s → mark s)
    (hheld : ∀ s, Inv s → mark s → q s) : (visited s e).Pairwise fun a b => p a → q b := by
  induction h with
  | nil s => simp [visited]
  | @cons s s' i rest hs h ih =>
      have htail : ∀ t ∈ visited s' rest, Inv t := fun t ht => hinv t (List.mem_cons_of_mem _ ht)
      refine pairwise_visited_cons.mpr ⟨?_, ih htail⟩
      intro t ht hp
      have hmark := hset s (hinv s mem_visited_self) hp
      exact hheld t (htail t ht) (h.marked (hkeep _ _ _ hs hmark) hkeep t ht)

/-- When a step that is not allowed loses `q` in a marked state, `q` after every `p` needs the
steps to be allowed. -/
theorem Execution.meets (mark q : σ → Prop) (h : sys.Execution s e) (hself : ∀ s, p s → q s)
    (hpair : (visited s e).Pairwise fun a b => p a → q b)
    (hpast : mark s → ∀ t ∈ visited s e, q t)
    (hmark : ∀ s i s', sys.step s i s' → mark s' → mark s ∨ p s')
    (hlost : ∀ s i s', sys.step s i s' → ¬ allowed s i → mark s ∧ ¬ q s') :
    Meets allowed s e := by
  induction h with
  | nil s => trivial
  | @cons s s' i rest hs h ih =>
      obtain ⟨-, htail⟩ := pairwise_visited_cons.mp hpair
      constructor
      · by_contra hbad
        obtain ⟨hm, hq⟩ := hlost _ _ _ hs hbad
        exact hq (hpast hm s' (List.mem_cons_of_mem _ mem_visited_self))
      · apply ih htail
        intro hm' t ht
        rcases hmark _ _ _ hs hm' with hm | hp
        · exact hpast hm t (List.mem_cons_of_mem _ ht)
        · rcases List.mem_cons.mp ht with rfl | hlater
          · exact hself _ hp
          · exact (List.pairwise_cons.mp htail).1 t hlater hp

end Runs.System
