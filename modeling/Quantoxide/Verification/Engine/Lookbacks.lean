import Quantoxide.Model.ParallelEngine

/-! # The lookbacks an engine plans for

The resolution map holds for each resolution the largest period asked for, and the kept
lookback is one of those asked for with the largest duration. Noting a lookback and merging
two operators both keep this. -/

namespace Quantoxide.Engine

open Result

/-- The lookbacks an operator's evaluators, or the raw operator itself, ask for. -/
def askedBy {ε S ω : Type} : OperatorPending ε S ω → List Lookback
  | .signal pending => pending.evaluators.filterMap fun ev => ev.lookback.toOption.join
  | .raw pending => pending.lookback.toList

structure Covers (asked : List Lookback) (noted : Lookbacks) : Prop where
  period : ∀ l ∈ asked, ∃ p, noted.resolutionToMaxPeriod.get l.resolution = some p ∧ l.period ≤ p
  source : ∀ r p, noted.resolutionToMaxPeriod.get r = some p →
    ∃ l ∈ asked, l.resolution = r ∧ l.period = p
  longest : ∀ l ∈ asked, ∃ m, noted.maxLookback = some m ∧ l.asDuration ≤ m.asDuration
  longest_mem : ∀ m, noted.maxLookback = some m → m ∈ asked

/-! ### Noting one period -/

variable {m : OrdMap OhlcResolution Period} {r r' : OhlcResolution} {p q : Period}

theorem period_le_refl (p : Period) : p ≤ p := le_refl p.asInt

theorem period_le_trans {p q t : Period} (h : p ≤ q) (h' : q ≤ t) : p ≤ t :=
  le_trans (a := p.asInt) h h'

theorem notePeriod_cases (m : OrdMap OhlcResolution Period) (r : OhlcResolution) (p : Period) :
    notePeriod m r p = m.insert r p ∧ (∀ q, m.get r = some q → q ≤ p) ∨
      notePeriod m r p = m ∧ ∃ q, m.get r = some q ∧ p ≤ q := by
  unfold notePeriod
  cases h : m.get r with
  | none => exact Or.inl ⟨rfl, by simp⟩
  | some existing =>
      simp only
      split_ifs with hlt
      · refine Or.inl ⟨rfl, ?_⟩
        rintro q ⟨⟩
        exact (show existing.asInt < p.asInt from hlt).le
      · have hle : p.asInt ≤ existing.asInt := not_lt.mp hlt
        exact Or.inr ⟨rfl, existing, rfl, hle⟩

theorem notePeriod_self (m : OrdMap OhlcResolution Period) (r : OhlcResolution) (p : Period) :
    ∃ q, (notePeriod m r p).get r = some q ∧ p ≤ q := by
  rcases notePeriod_cases m r p with ⟨h, -⟩ | ⟨h, q, hq, hle⟩
  · rw [h, OrdMap.get_insert_self]
    exact ⟨p, rfl, period_le_refl p⟩
  · rw [h]
    exact ⟨q, hq, hle⟩

/-- A period noted before stays covered. -/
theorem notePeriod_keeps (h : m.get r' = some q) (r : OhlcResolution) (p : Period) :
    ∃ q', (notePeriod m r p).get r' = some q' ∧ q ≤ q' := by
  rcases notePeriod_cases m r p with ⟨hn, hle⟩ | ⟨hn, -⟩
  · by_cases hr : r' = r
    · subst hr
      rw [hn, OrdMap.get_insert_self]
      exact ⟨p, rfl, hle q h⟩
    · rw [hn, OrdMap.get_insert_of_ne hr]
      exact ⟨q, h, period_le_refl q⟩
  · rw [hn]
    exact ⟨q, h, period_le_refl q⟩

theorem notePeriod_source (h : (notePeriod m r p).get r' = some q) :
    m.get r' = some q ∨ r' = r ∧ q = p := by
  rcases notePeriod_cases m r p with ⟨hn, -⟩ | ⟨hn, -⟩
  · by_cases hr : r' = r
    · subst hr
      rw [hn, OrdMap.get_insert_self] at h
      exact Or.inr ⟨rfl, (Option.some.inj h).symm⟩
    · rw [hn, OrdMap.get_insert_of_ne hr] at h
      exact Or.inl h
  · rw [hn] at h
    exact Or.inl h

/-! ### The longest lookback -/

theorem longerLookback_cases (maxLookback : Option Lookback) (l : Lookback) :
    longerLookback maxLookback l = some l ∧
        (∀ m, maxLookback = some m → m.asDuration ≤ l.asDuration) ∨
      longerLookback maxLookback l = maxLookback ∧
        ∃ m, maxLookback = some m ∧ l.asDuration ≤ m.asDuration := by
  unfold longerLookback
  cases maxLookback with
  | none => exact Or.inl ⟨rfl, by simp⟩
  | some m =>
      by_cases h : m.asDuration < l.asDuration
      · exact Or.inl ⟨by simp [h], by rintro _ ⟨⟩; exact h.le⟩
      · exact Or.inr ⟨by simp [h], m, rfl, not_lt.mp h⟩

theorem longerLookback_covers {asked : List Lookback} {maxLookback : Option Lookback}
    (h : ∀ l ∈ asked, ∃ m, maxLookback = some m ∧ l.asDuration ≤ m.asDuration) (l : Lookback) :
    ∀ l' ∈ asked ++ [l], ∃ m, longerLookback maxLookback l = some m ∧
      l'.asDuration ≤ m.asDuration := by
  intro l' hl'
  rcases longerLookback_cases maxLookback l with ⟨he, hle⟩ | ⟨he, m, hm, hle⟩
  · rw [he]
    refine ⟨l, rfl, ?_⟩
    rcases List.mem_append.mp hl' with hl' | hl'
    · obtain ⟨m, hm, hlm⟩ := h l' hl'
      exact hlm.trans (hle m hm)
    · rw [List.mem_singleton.mp hl']
  · rw [he, hm]
    refine ⟨m, rfl, ?_⟩
    rcases List.mem_append.mp hl' with hl' | hl'
    · obtain ⟨m', hm', hlm⟩ := h l' hl'
      rw [hm] at hm'
      exact hlm.trans_eq (congrArg _ (Option.some.inj hm').symm)
    · rwa [List.mem_singleton.mp hl']

theorem longerLookback_mem {maxLookback : Option Lookback} {l m : Lookback}
    (h : longerLookback maxLookback l = some m) : maxLookback = some m ∨ m = l := by
  rcases longerLookback_cases maxLookback l with ⟨he, -⟩ | ⟨he, -⟩
  · rw [he] at h
    exact Or.inr (Option.some.inj h).symm
  · rw [he] at h
    exact Or.inl h

/-! ### Whole operators -/

variable {asked asked' : List Lookback} {noted noted' : Lookbacks}

theorem covers_empty : Covers [] Lookbacks.empty where
  period := by simp
  source := by
    intro r p h
    simp [Lookbacks.empty, OrdMap.get, OrdMap.empty] at h
  longest := by simp
  longest_mem := by
    intro m h
    cases h

theorem Covers.note (h : Covers asked noted) (l : Lookback) :
    Covers (asked ++ [l]) (noted.note l) where
  period := by
    intro l' hl'
    rcases List.mem_append.mp hl' with hl' | hl'
    · obtain ⟨p, hp, hle⟩ := h.period l' hl'
      obtain ⟨q, hq, hle'⟩ := notePeriod_keeps hp l.resolution l.period
      exact ⟨q, hq, period_le_trans hle hle'⟩
    · rw [List.mem_singleton.mp hl']
      exact notePeriod_self _ _ _
  source := by
    intro r p hp
    rcases notePeriod_source hp with hp | ⟨rfl, rfl⟩
    · obtain ⟨l', hl', hr, hp⟩ := h.source r p hp
      exact ⟨l', List.mem_append_left _ hl', hr, hp⟩
    · exact ⟨l, by simp, rfl, rfl⟩
  longest := longerLookback_covers h.longest l
  longest_mem := by
    intro m hm
    rcases longerLookback_mem hm with hm | rfl
    · exact List.mem_append_left _ (h.longest_mem m hm)
    · simp

theorem ofEvaluators_covers {S ω : Type} {evaluators : List (SignalEvaluator S ω)}
    (h : Covers asked noted) (hn : Lookbacks.ofEvaluators noted evaluators = .ok noted') :
    Covers (asked ++ evaluators.filterMap fun ev => ev.lookback.toOption.join) noted' := by
  induction evaluators generalizing asked noted with
  | nil =>
      simp only [Lookbacks.ofEvaluators, Except.ok.injEq] at hn
      subst hn
      simpa using h
  | cons ev evaluators ih =>
      simp only [Lookbacks.ofEvaluators, bind_eq_ok, WrappedSignalEvaluator.lookback,
        mapError_eq_ok] at hn
      obtain ⟨lookback, hl, hn⟩ := hn
      cases lookback with
      | none => simpa [hl, Except.toOption] using ih h hn
      | some l => simpa [hl, Except.toOption] using ih (h.note l) hn

theorem lookbacks_covers {ε S ω : Type} (pending : OperatorPending ε S ω) :
    Covers (askedBy pending) pending.lookbacks := by
  cases pending with
  | signal pending =>
      have h := ofEvaluators_covers covers_empty pending.noted
      rwa [List.nil_append] at h
  | raw pending =>
      simp only [askedBy, OperatorPending.lookbacks, RawOperatorPending.lookbacks]
      cases pending.lookback with
      | none => exact covers_empty
      | some l => exact covers_empty.note l

/-! ### Merged operators -/

/-- Noting the entries of a map covers both maps and nothing else. -/
theorem foldl_notePeriod (es : List (OhlcResolution × Period))
    (m : OrdMap OhlcResolution Period) :
    (∀ r p, m.get r = some p ∨ (r, p) ∈ es →
      ∃ q, (es.foldl (fun m e => notePeriod m e.1 e.2) m).get r = some q ∧ p ≤ q) ∧
    (∀ r p, (es.foldl (fun m e => notePeriod m e.1 e.2) m).get r = some p →
      m.get r = some p ∨ (r, p) ∈ es) := by
  induction es generalizing m with
  | nil => exact ⟨fun r p h => ⟨p, by simpa using h, period_le_refl p⟩, fun r p h => Or.inl h⟩
  | cons e es ih =>
      obtain ⟨hcover, hsource⟩ := ih (notePeriod m e.1 e.2)
      rw [List.foldl_cons]
      constructor
      · intro r p h
        rcases h with h | h
        · obtain ⟨q, hq, hle⟩ := notePeriod_keeps h e.1 e.2
          obtain ⟨q', hq', hle'⟩ := hcover r q (Or.inl hq)
          exact ⟨q', hq', period_le_trans hle hle'⟩
        · rcases List.mem_cons.mp h with rfl | h
          · obtain ⟨q, hq, hle⟩ := notePeriod_self m r p
            obtain ⟨q', hq', hle'⟩ := hcover r q (Or.inl hq)
            exact ⟨q', hq', period_le_trans hle hle'⟩
          · exact hcover r p (Or.inr h)
      · intro r p h
        rcases hsource r p h with h | h
        · rcases notePeriod_source h with h | ⟨rfl, rfl⟩
          · exact Or.inl h
          · exact Or.inr List.mem_cons_self
        · exact Or.inr (List.mem_cons_of_mem e h)

theorem Covers.merge (h : Covers asked noted) (h' : Covers asked' noted') :
    Covers (asked ++ asked') (noted.merge noted') := by
  obtain ⟨hcover, hsource⟩ :=
    foldl_notePeriod noted'.resolutionToMaxPeriod.entries noted.resolutionToMaxPeriod
  refine ⟨?_, ?_, ?_, ?_⟩
  · intro l hl
    rcases List.mem_append.mp hl with hl | hl
    · obtain ⟨p, hp, hle⟩ := h.period l hl
      obtain ⟨q, hq, hle'⟩ := hcover l.resolution p (Or.inl hp)
      exact ⟨q, hq, period_le_trans hle hle'⟩
    · obtain ⟨p, hp, hle⟩ := h'.period l hl
      obtain ⟨q, hq, hle'⟩ := hcover l.resolution p (Or.inr (OrdMap.get_eq_some.mp hp))
      exact ⟨q, hq, period_le_trans hle hle'⟩
  · intro r p hp
    rcases hsource r p hp with hp | hp
    · obtain ⟨l, hl, hr, hp⟩ := h.source r p hp
      exact ⟨l, List.mem_append_left _ hl, hr, hp⟩
    · obtain ⟨l, hl, hr, hp⟩ := h'.source r p (OrdMap.get_eq_some.mpr hp)
      exact ⟨l, List.mem_append_right _ hl, hr, hp⟩
  · cases hm : noted'.maxLookback with
    | none =>
        intro l hl
        simp only [Lookbacks.merge, Lookbacks.updateMaxLookback, hm]
        rcases List.mem_append.mp hl with hl | hl
        · exact h.longest l hl
        · obtain ⟨m, hm', -⟩ := h'.longest l hl
          rw [hm] at hm'
          cases hm'
    | some m' =>
        intro l hl
        simp only [Lookbacks.merge, Lookbacks.updateMaxLookback, hm]
        have hcov := longerLookback_covers h.longest m'
        rcases List.mem_append.mp hl with hl | hl
        · exact hcov l (List.mem_append_left _ hl)
        · obtain ⟨m'', hm'', hle⟩ := h'.longest l hl
          obtain rfl : m' = m'' := Option.some.inj (hm.symm.trans hm'')
          obtain ⟨m, hmax, hle'⟩ := hcov m' (by simp)
          exact ⟨m, hmax, hle.trans hle'⟩
  · intro m hmax
    simp only [Lookbacks.merge, Lookbacks.updateMaxLookback] at hmax
    cases hm : noted'.maxLookback with
    | none =>
        rw [hm] at hmax
        exact List.mem_append_left _ (h.longest_mem m hmax)
    | some m' =>
        rw [hm] at hmax
        rcases longerLookback_mem hmax with hmax | rfl
        · exact List.mem_append_left _ (h.longest_mem m hmax)
        · exact List.mem_append_right _ (h'.longest_mem m hm)

variable {ε κ : Type} {S ω : κ → Type}

/-- The merged lookbacks cover those of every operator. -/
theorem shared_covers (engine : BacktestParallelEngine ε S ω) :
    Covers (engine.operators.flatMap fun op => askedBy op.2.pending) engine.shared := by
  rw [engine.merged]
  have hfold : ∀ (ops : List (String × ParallelOperatorPending ε S ω)) (asked : List Lookback)
      (noted : Lookbacks), Covers asked noted →
      Covers (asked ++ ops.flatMap fun op => askedBy op.2.pending)
        (ops.foldl (fun shared op => shared.merge op.2.pending.lookbacks) noted) := by
    intro ops
    induction ops with
    | nil => exact fun asked noted h => by simpa using h
    | cons op ops ih =>
        intro asked noted h
        rw [List.flatMap_cons, List.foldl_cons, ← List.append_assoc]
        exact ih _ _ (h.merge (lookbacks_covers op.2.pending))
  simpa using hfold engine.operators [] .empty covers_empty

end Quantoxide.Engine
