import Quantoxide.Library.Intervals
import Quantoxide.Library.Runs
import Quantoxide.Model.LiveSignalProcess

/-! # When evaluators wake up

The process gives each evaluator that is due a turn and sleeps until the first of these is
due again, so one that a pass skips can be due before the process wakes. -/

namespace Quantoxide.LiveSignalProcess

open Result Intervals

variable {S ω : Type} {evaluators : List (SignalEvaluator S ω)} {now : ℤ}

/-! ### Evaluators as tasks -/

/-- The minimum interval of an evaluator whose call does not panic. -/
def interval (evaluators : List (SignalEvaluator S ω)) (idx : Fin evaluators.length) : ℤ :=
  match WrappedSignalEvaluator.minIterationInterval (evaluators.get idx) with
  | .ok interval => interval.asDuration
  | .error _ => 0

abbrev EvaluatorTask (evaluators : List (SignalEvaluator S ω)) := Task (Fin evaluators.length) ℤ

def Scheduled.task {π : Type} (s : Scheduled evaluators π) : EvaluatorTask evaluators where
  id := s.evaluatorIdx
  last := s.lastEval
  interval := interval evaluators s.evaluatorIdx

def EvaluatorGroups.tasks (groups : EvaluatorGroups evaluators) :
    List (EvaluatorTask evaluators) :=
  groups.resolutionGroups.flatMap (fun g => g.2.evaluators.map Scheduled.task) ++
    groups.noLookbackEvaluators.map Scheduled.task

/-- The evaluators that are due. -/
def dueIds (now : ℤ) (ts : List (EvaluatorTask evaluators)) : List (Fin evaluators.length) :=
  (ts.filter fun t => ¬ now < t.due).map (·.id)

theorem mem_dueIds {ts : List (EvaluatorTask evaluators)} {i : Fin evaluators.length} :
    i ∈ dueIds now ts ↔ ∃ t ∈ ts, ¬ now < t.due ∧ t.id = i := by
  simp [dueIds, and_assoc]

theorem dueIds_append (ts us : List (EvaluatorTask evaluators)) :
    dueIds now (ts ++ us) = dueIds now ts ++ dueIds now us := by
  simp [dueIds]

theorem dueIds_singleton {t : EvaluatorTask evaluators} (h : ¬ now < t.due) :
    dueIds now [t] = [t.id] := by
  rw [dueIds, List.filter_cons_of_pos (by simpa using h)]
  rfl

/-! ### What a pass does to the tasks -/

/-- The tasks have had the turns of a pass, and the evaluators that are due were called. -/
structure Turned (now : ℤ) (ts ts' : List (EvaluatorTask evaluators))
    (pass pass' : Pass evaluators) : Prop where
  tasks : ts' = ts.map (Task.turn now)
  nextEval : pass'.nextEval = wake now ts pass.nextEval
  called : pass'.called = pass.called ++ dueIds now ts
  inRange : ∀ t ∈ ts, ¬ now < t.due → now + t.interval ≤ DateTime.maxUtc

/-- The evaluators that are due have been called up to some task. -/
def CalledUpTo (now : ℤ) (ts : List (EvaluatorTask evaluators)) (pass pass' : Pass evaluators) :
    Prop :=
  ∃ before, before <+: ts ∧ pass'.called = pass.called ++ dueIds now before

theorem Turned.append {ts ts' us us' : List (EvaluatorTask evaluators)}
    {p p' p'' : Pass evaluators} (h : Turned now ts ts' p p') (h' : Turned now us us' p' p'') :
    Turned now (ts ++ us) (ts' ++ us') p p'' where
  tasks := by rw [h.tasks, h'.tasks, List.map_append]
  nextEval := by rw [h'.nextEval, h.nextEval, wake_append]
  called := by rw [h'.called, h.called, dueIds_append, List.append_assoc]
  inRange := by
    intro t ht
    rcases List.mem_append.mp ht with ht | ht
    · exact h.inRange t ht
    · exact h'.inRange t ht

theorem turned_nil (p : Pass evaluators) : Turned now [] [] p p :=
  ⟨rfl, rfl, by simp [dueIds], by simp⟩

theorem calledUpTo_self (ts : List (EvaluatorTask evaluators)) (p : Pass evaluators) :
    CalledUpTo now ts p p :=
  ⟨[], List.nil_prefix, by simp [dueIds]⟩

theorem CalledUpTo.append_right {ts us : List (EvaluatorTask evaluators)}
    {p p' : Pass evaluators} (h : CalledUpTo now ts p p') : CalledUpTo now (ts ++ us) p p' := by
  obtain ⟨before, hpre, hcalled⟩ := h
  exact ⟨before, hpre.trans (List.prefix_append _ _), hcalled⟩

theorem Turned.append_calledUpTo {ts ts' us : List (EvaluatorTask evaluators)}
    {p p' p'' : Pass evaluators} (h : Turned now ts ts' p p') (h' : CalledUpTo now us p' p'') :
    CalledUpTo now (ts ++ us) p p'' := by
  obtain ⟨before, hpre, hcalled⟩ := h'
  refine ⟨ts ++ before, (List.prefix_append_right_inj ts).mpr hpre, ?_⟩
  rw [hcalled, h.called, dueIds_append, List.append_assoc]

theorem add_eq_ok {t d r : ℤ} :
    DateTime.add t d = .ok r ↔ t + d ≤ DateTime.maxUtc ∧ t + d = r := by
  unfold DateTime.add
  split_ifs with h <;> simp [h]

theorem evaluateOne_spec {π : Type} (now : ℤ) (candles : π → List OhlcCandleRow)
    (p : Pass evaluators) (s : Scheduled evaluators π) :
    CalledUpTo now [s.task] p (evaluateOne now candles p s).1 ∧
      ∀ s', (evaluateOne now candles p s).2 = .ok s' →
        Turned now [s.task] [s'.task] p (evaluateOne now candles p s).1 := by
  unfold evaluateOne
  cases hint : WrappedSignalEvaluator.minIterationInterval (evaluators.get s.evaluatorIdx) with
  | error e =>
      simp only [hint]
      refine ⟨calledUpTo_self _ _, ?_⟩
      rintro s' ⟨⟩
  | ok i =>
      have htask : s.task.interval = i.asDuration := by
        simp only [Scheduled.task, interval, hint]
      simp only [hint]
      cases hdue : DateTime.add s.lastEval i.asDuration with
      | error e =>
          refine ⟨calledUpTo_self _ _, ?_⟩
          rintro s' ⟨⟩
      | ok due =>
          have hdueTask : s.task.due = due := by
            rw [Task.due, htask]
            exact (add_eq_ok.mp hdue).2
          simp only
          split_ifs with hskip
          · refine ⟨calledUpTo_self _ _, ?_⟩
            rintro s' ⟨⟩
            have hskipped : now < s.task.due := by rwa [hdueTask]
            refine ⟨by simp [turn_skipped hskipped], by simp [wake, hskipped],
              by simp [dueIds, hskipped], ?_⟩
            intro t ht hdue
            obtain rfl := List.mem_singleton.mp ht
            exact absurd hskipped hdue
          · cases hnext : DateTime.add now i.asDuration with
            | error e =>
                refine ⟨calledUpTo_self _ _, ?_⟩
                rintro s' ⟨⟩
            | ok next =>
                obtain ⟨hrange, hnextEq⟩ := add_eq_ok.mp hnext
                have hturn : ¬ now < s.task.due := by rwa [hdueTask]
                have hids : dueIds now [s.task] = [s.evaluatorIdx] := dueIds_singleton hturn
                simp only
                cases (WrappedSignalEvaluator.evaluate (evaluators.get s.evaluatorIdx)
                    (candles s.period) p.memory).2 with
                | error e =>
                    refine ⟨⟨[s.task], List.prefix_rfl, by rw [hids]⟩, ?_⟩
                    rintro s' ⟨⟩
                | ok signal =>
                    refine ⟨⟨[s.task], List.prefix_rfl, by rw [hids]⟩, ?_⟩
                    rintro s' ⟨⟩
                    refine ⟨?_, ?_, by rw [hids], ?_⟩
                    · rw [List.map_singleton, Task.turn, if_neg hturn]
                      rfl
                    · rw [wake_cons_due hturn, htask, hnextEq]
                      simp only [wake, List.foldl_nil, min_def]
                      split_ifs <;> omega
                    · intro t ht _
                      obtain rfl := List.mem_singleton.mp ht
                      rwa [htask]

theorem evaluateAll_spec {π : Type} (now : ℤ) (candles : π → List OhlcCandleRow)
    (p : Pass evaluators) (scheduled : List (Scheduled evaluators π)) :
    CalledUpTo now (scheduled.map Scheduled.task) p (evaluateAll now candles p scheduled).1 ∧
      ∀ scheduled', (evaluateAll now candles p scheduled).2 = .ok scheduled' →
        Turned now (scheduled.map Scheduled.task) (scheduled'.map Scheduled.task) p
          (evaluateAll now candles p scheduled).1 := by
  induction scheduled generalizing p with
  | nil =>
      refine ⟨calledUpTo_self _ _, ?_⟩
      rintro scheduled' ⟨⟩
      exact turned_nil p
  | cons s rest ih =>
      obtain ⟨hcalled, hturned⟩ := evaluateOne_spec now candles p s
      rw [List.map_cons, ← List.singleton_append]
      unfold evaluateAll
      rcases hone : evaluateOne now candles p s with ⟨p', e | s'⟩
      · rw [hone] at hcalled
        refine ⟨hcalled.append_right, ?_⟩
        rintro scheduled' ⟨⟩
      · rw [hone] at hturned
        have hhead := hturned s' rfl
        obtain ⟨hrest, hrestTurned⟩ := ih p'
        refine ⟨hhead.append_calledUpTo hrest, ?_⟩
        intro scheduled' hok
        obtain ⟨rest', hrest', rfl⟩ := map_eq_ok.mp hok
        rw [List.map_cons, ← List.singleton_append]
        exact hhead.append (hrestTurned rest' hrest')

theorem evaluateGroups_spec (now : ℤ) (p : Pass evaluators)
    (groups : List ((OhlcResolution × ResolutionGroup evaluators) × List OhlcCandleRow)) :
    CalledUpTo now (groups.flatMap fun g => g.1.2.evaluators.map Scheduled.task) p
        (evaluateGroups now p groups).1 ∧
      ∀ groups', (evaluateGroups now p groups).2 = .ok groups' →
        Turned now (groups.flatMap fun g => g.1.2.evaluators.map Scheduled.task)
          (groups'.flatMap fun g => g.2.evaluators.map Scheduled.task) p
          (evaluateGroups now p groups).1 := by
  induction groups generalizing p with
  | nil =>
      refine ⟨calledUpTo_self _ _, ?_⟩
      rintro groups' ⟨⟩
      exact turned_nil p
  | cons g rest ih =>
      obtain ⟨⟨resolution, group⟩, candleBuffer⟩ := g
      obtain ⟨hcalled, hturned⟩ := evaluateAll_spec now (lastCandles candleBuffer) p
        group.evaluators
      rw [List.flatMap_cons]
      unfold evaluateGroups
      rcases hone : evaluateAll now (lastCandles candleBuffer) p group.evaluators with
        ⟨p', e | scheduled⟩
      · rw [hone] at hcalled
        refine ⟨hcalled.append_right, ?_⟩
        rintro groups' ⟨⟩
      · rw [hone] at hturned
        have hhead := hturned scheduled rfl
        obtain ⟨hrest, hrestTurned⟩ := ih p'
        refine ⟨hhead.append_calledUpTo hrest, ?_⟩
        intro groups' hok
        obtain ⟨rest', hrest', rfl⟩ := map_eq_ok.mp hok
        rw [List.flatMap_cons]
        exact hhead.append (hrestTurned rest' hrest')

theorem fetchBuffer_fst {candles : ℤ → ℤ → OhlcResolution → Except DbError (List OhlcCandleRow)}
    {entry : OhlcResolution × ResolutionGroup evaluators}
    {fetched : (OhlcResolution × ResolutionGroup evaluators) × List OhlcCandleRow}
    (h : fetchBuffer candles now entry = .ok fetched) : fetched.1 = entry := by
  simp only [fetchBuffer, bind_eq_ok, pure_eq_ok] at h
  obtain ⟨buffer, -, rfl⟩ := h
  rfl

theorem flatMap_tasks_of_fetched
    {candles : ℤ → ℤ → OhlcResolution → Except DbError (List OhlcCandleRow)}
    {entries : List (OhlcResolution × ResolutionGroup evaluators)}
    {buffers : List ((OhlcResolution × ResolutionGroup evaluators) × List OhlcCandleRow)}
    (h : entries.mapM (fetchBuffer candles now) = .ok buffers) :
    buffers.flatMap (fun g => g.1.2.evaluators.map Scheduled.task) =
      entries.flatMap fun g => g.2.evaluators.map Scheduled.task := by
  have hall := forall₂_of_mapM h
  clear h
  induction hall with
  | nil => rfl
  | cons hfetch _ ih => rw [List.flatMap_cons, List.flatMap_cons, fetchBuffer_fst hfetch, ih]

/-- A pass turns the tasks from the last instant of the calendar, and one that fails has
called those that are due up to some task. -/
theorem pass_spec (candles : ℤ → ℤ → OhlcResolution → Except DbError (List OhlcCandleRow))
    (now : ℤ) (memory : ω) (schedule : Schedule evaluators) :
    CalledUpTo now schedule.tasks ⟨DateTime.maxUtc, memory, [], []⟩
        (pass candles now memory schedule).1 ∧
      ∀ schedule', (pass candles now memory schedule).2 = .ok schedule' →
        Turned now schedule.tasks schedule'.tasks ⟨DateTime.maxUtc, memory, [], []⟩
            (pass candles now memory schedule).1 ∧
          schedule'.nextEval = (pass candles now memory schedule).1.nextEval := by
  unfold pass EvaluatorGroups.tasks
  cases hbuffers : schedule.resolutionGroups.mapM (fetchBuffer candles now) with
  | error e =>
      refine ⟨calledUpTo_self _ _, ?_⟩
      rintro schedule' ⟨⟩
  | ok buffers =>
      simp only
      obtain ⟨hcalled, hturned⟩ := evaluateGroups_spec now
        (⟨DateTime.maxUtc, memory, [], []⟩ : Pass evaluators) buffers
      rw [flatMap_tasks_of_fetched hbuffers] at hcalled hturned
      rcases hgroups : evaluateGroups now ⟨DateTime.maxUtc, memory, [], []⟩ buffers with
        ⟨p, e | resolutionGroups⟩
      · rw [hgroups] at hcalled
        refine ⟨hcalled.append_right, ?_⟩
        rintro schedule' ⟨⟩
      · rw [hgroups] at hturned
        have hhead := hturned resolutionGroups rfl
        simp only
        obtain ⟨hrest, hrestTurned⟩ := evaluateAll_spec now (fun _ => []) p
          schedule.noLookbackEvaluators
        rcases hall : evaluateAll now (fun _ => []) p schedule.noLookbackEvaluators with
          ⟨p', e | noLookbackEvaluators⟩
        · rw [hall] at hrest
          refine ⟨hhead.append_calledUpTo hrest, ?_⟩
          rintro schedule' ⟨⟩
        · rw [hall] at hrest hrestTurned
          refine ⟨hhead.append_calledUpTo hrest, ?_⟩
          rintro schedule' ⟨⟩
          exact ⟨hhead.append (hrestTurned _ rfl), rfl⟩

end Quantoxide.LiveSignalProcess
