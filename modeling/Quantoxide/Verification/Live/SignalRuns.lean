import Mathlib.Data.List.FinRange
import Quantoxide.Verification.Live.SignalSchedule

/-! # Runs of the signal process -/

namespace Quantoxide.LiveSignalProcess

open Result Intervals

variable {S ω : Type} {evaluators : List (SignalEvaluator S ω)} {now : ℤ}

/-! ### The start of a run -/

theorem tasks_interval {groups : EvaluatorGroups evaluators} {t : EvaluatorTask evaluators}
    (ht : t ∈ groups.tasks) : t.interval = interval evaluators t.id := by
  rcases List.mem_append.mp ht with ht | ht
  · obtain ⟨g, -, ht⟩ := List.mem_flatMap.mp ht
    obtain ⟨s, -, rfl⟩ := List.mem_map.mp ht
    rfl
  · obtain ⟨s, -, rfl⟩ := List.mem_map.mp ht
    rfl

theorem pushGroup_tasks (resolution : OhlcResolution) (s : Scheduled evaluators Period)
    (groups : List (OhlcResolution × ResolutionGroup evaluators)) :
    ((pushGroup resolution s groups).flatMap fun g => g.2.evaluators.map Scheduled.task).Perm
      (s.task :: groups.flatMap fun g => g.2.evaluators.map Scheduled.task) := by
  induction groups with
  | nil => simp [pushGroup, ResolutionGroup.push]
  | cons g groups ih =>
      obtain ⟨key, group⟩ := g
      unfold pushGroup
      split_ifs with hkey
      · simp only [List.flatMap_cons, ResolutionGroup.push, List.map_append, List.map_cons,
          List.map_nil, List.append_assoc, List.cons_append, List.nil_append]
        exact List.perm_middle
      · rw [List.flatMap_cons, List.flatMap_cons]
        exact (ih.append_left _).trans List.perm_middle

/-- The evaluators passed so far are grouped, with the shortest of their intervals. -/
structure Grouped (now : ℤ) (done : List (Fin evaluators.length))
    (acc : ℤ × EvaluatorGroups evaluators) : Prop where
  ids : (acc.2.tasks.map (·.id)).Perm done
  last : ∀ t ∈ acc.2.tasks, t.last = now
  le : ∀ i ∈ done, acc.1 ≤ interval evaluators i
  mem : done = [] ∧ acc.1 = Duration.MAX ∨ ∃ i ∈ done, acc.1 = interval evaluators i

theorem interval_le_max {i : Fin evaluators.length} {m : MinIterationInterval}
    (h : WrappedSignalEvaluator.minIterationInterval (evaluators.get i) = .ok m) :
    interval evaluators i = m.asDuration ∧ m.asDuration ≤ Duration.MAX := by
  refine ⟨by simp only [interval, h], m.le_max.trans ?_⟩
  decide

theorem addEvaluator_tasks {acc acc' : ℤ × EvaluatorGroups evaluators}
    {i : Fin evaluators.length} (h : addEvaluator now acc i = .ok acc') :
    acc'.2.tasks.Perm (⟨i, now, interval evaluators i⟩ :: acc.2.tasks) ∧
      acc'.1 = min acc.1 (interval evaluators i) ∧ interval evaluators i ≤ Duration.MAX := by
  simp only [addEvaluator, bind_eq_ok, mapError_eq_ok, pure_eq_ok] at h
  obtain ⟨m, hm, lookback, -, rfl⟩ := h
  obtain ⟨hinterval, hmax⟩ := interval_le_max hm
  refine ⟨?_, by rw [hinterval], by rwa [hinterval]⟩
  cases lookback with
  | none =>
      simp only [EvaluatorGroups.tasks, List.map_append, List.map_cons, List.map_nil]
      rw [← List.append_assoc]
      exact List.perm_append_singleton _ _
  | some lookback =>
      unfold EvaluatorGroups.tasks
      rw [← List.cons_append]
      exact (pushGroup_tasks lookback.resolution ⟨now, i, lookback.period⟩
        acc.2.resolutionGroups).append_right _

theorem Grouped.add {done : List (Fin evaluators.length)}
    {acc acc' : ℤ × EvaluatorGroups evaluators} {i : Fin evaluators.length}
    (hg : Grouped now done acc)
    (h : addEvaluator now acc i = .ok acc') : Grouped now (done ++ [i]) acc' := by
  obtain ⟨hperm, hmin, hmax⟩ := addEvaluator_tasks h
  refine ⟨?_, ?_, ?_, Or.inr ?_⟩
  · exact (hperm.map _).trans ((hg.ids.cons i).trans (List.perm_append_singleton i done).symm)
  · intro t ht
    rcases List.mem_cons.mp (hperm.mem_iff.mp ht) with rfl | ht
    · rfl
    · exact hg.last t ht
  · intro j hj
    rw [hmin]
    rcases List.mem_append.mp hj with hj | hj
    · exact (min_le_left _ _).trans (hg.le j hj)
    · rw [List.mem_singleton.mp hj]
      exact min_le_right _ _
  · rw [hmin]
    rcases hg.mem with ⟨-, htop⟩ | ⟨j, hj, heq⟩
    · exact ⟨i, by simp, by rw [htop, min_eq_right hmax]⟩
    · rcases min_choice acc.1 (interval evaluators i) with hmin | hmin
      · exact ⟨j, List.mem_append_left _ hj, by rw [hmin, heq]⟩
      · exact ⟨i, by simp, hmin⟩

theorem due_of_last {now : ℤ} {groups : EvaluatorGroups evaluators}
    (hlast : ∀ t ∈ groups.tasks, t.last = now) {t : EvaluatorTask evaluators}
    (ht : t ∈ groups.tasks) : t.due = now + interval evaluators t.id := by
  rw [Task.due, hlast t ht, tasks_interval ht]

/-- A run starts with each evaluator last evaluated at the start and wakes when the first is
due. -/
theorem start_spec {utcNow : ℤ} {schedule : Schedule evaluators}
    (h : start utcNow = .ok schedule) :
    (schedule.tasks.map (·.id)).Perm (List.finRange evaluators.length) ∧
      (∀ t ∈ schedule.tasks, t.last = DateTime.ceilSec utcNow) ∧
      (evaluators ≠ [] → IsLeast (dues schedule.tasks) schedule.nextEval) := by
  simp only [start, bind_eq_ok, pure_eq_ok] at h
  obtain ⟨⟨shortest, groups⟩, hfold, nextEval, hnext, rfl⟩ := h
  have hg : Grouped (DateTime.ceilSec utcNow) (List.finRange evaluators.length)
      (shortest, groups) := by
    refine foldlM_invariant hfold ⟨List.Perm.refl _, ?_, ?_, Or.inl ⟨rfl, rfl⟩⟩ ?_
    · intro t ht
      simp [EvaluatorGroups.tasks] at ht
    · simp
    · intro done i rest acc acc' _ hdone hadd
      exact hdone.add hadd
  refine ⟨hg.ids, hg.last, ?_⟩
  intro hne
  obtain ⟨-, hnextEq⟩ := add_eq_ok.mp hnext
  subst hnextEq
  constructor
  · rcases hg.mem with ⟨hnil, -⟩ | ⟨i, hi, hshortest⟩
    · exact absurd (List.finRange_eq_nil_iff.mp hnil) (by simpa using hne)
    · obtain ⟨t, ht, rfl⟩ := List.mem_map.mp (hg.ids.mem_iff.mpr hi)
      exact ⟨t, ht, by rw [due_of_last hg.last ht, ← hshortest]⟩
  · rintro x ⟨t, ht, rfl⟩
    rw [due_of_last hg.last ht]
    have hle := hg.le t.id (List.mem_finRange _)
    exact Int.add_le_add_left hle _

/-! ### The process -/

/-- The process over its runs, with each call of an evaluator and its time. -/
structure Process (evaluators : List (SignalEvaluator S ω)) where
  clock : ℤ
  schedule : Option (Schedule evaluators)
  memory : ω
  log : List (Fin evaluators.length × ℤ)

abbrev CandleQuery := ℤ → ℤ → OhlcResolution → Except DbError (List OhlcCandleRow)

inductive Event
  | start (utcNow : ℤ)
  | pass (now : ℤ) (candles : CandleQuery)
  /-- A shutdown cuts a pass off after some calls. -/
  | cut (now : ℤ) (candles : CandleQuery) (calls : ℕ)
  | stop

namespace Process

def passed (s : Process evaluators) (schedule : Schedule evaluators) (now : ℤ)
    (candles : CandleQuery) : Process evaluators where
  clock := now
  schedule := (pass candles now s.memory schedule).2.toOption
  memory := (pass candles now s.memory schedule).1.memory
  log := s.log ++ (pass candles now s.memory schedule).1.called.map fun i => (i, now)

/-- The clock never goes back, and the process sleeps until the next evaluation. -/
def Awake (s : Process evaluators) (schedule : Schedule evaluators) (now : ℤ) : Prop :=
  s.schedule = some schedule ∧ s.clock ≤ now ∧ schedule.nextEval ≤ now

inductive Step : Process evaluators → Event → Process evaluators → Prop
  | start {s : Process evaluators} {utcNow : ℤ} {schedule : Schedule evaluators}
      {groups : List (OhlcResolution × ResolutionGroup evaluators)} (hidle : s.schedule = none)
      (hclock : s.clock ≤ utcNow) (hstart : LiveSignalProcess.start utcNow = .ok schedule)
      (hgroups : groups.Perm schedule.resolutionGroups) :
      Step s (.start utcNow)
        { s with clock := utcNow, schedule := some { schedule with resolutionGroups := groups } }
  | pass {s : Process evaluators} {schedule : Schedule evaluators} {now : ℤ}
      {candles : CandleQuery} (hawake : s.Awake schedule now) :
      Step s (.pass now candles) (s.passed schedule now candles)
  | cut {s : Process evaluators} {schedule : Schedule evaluators} {now : ℤ}
      {candles : CandleQuery} {calls : ℕ} (hawake : s.Awake schedule now) :
      Step s (.cut now candles calls)
        { s.passed schedule now candles with
          schedule := none
          log := s.log ++ ((LiveSignalProcess.pass candles now s.memory schedule).1.called.take
            calls).map fun i => (i, now) }
  | stop {s : Process evaluators} : Step s .stop { s with schedule := none }

end Process

theorem toOption_eq_some {ε α : Type} {x : Except ε α} {a : α} :
    x.toOption = some a ↔ x = .ok a := by
  cases x <;> simp [Except.toOption]

def signalSystem (evaluators : List (SignalEvaluator S ω)) :
    Runs.System (Process evaluators) Event where
  start s := s.schedule = none ∧ s.log = []
  step := Process.Step

/-- The schedule is of all evaluators, from their last calls, and wakes when one is due. -/
structure Tracks (log : List (Fin evaluators.length × ℤ)) (schedule : Schedule evaluators) :
    Prop where
  ids : (schedule.tasks.map (·.id)).Perm (List.finRange evaluators.length)
  last : ∀ t ∈ schedule.tasks, ∀ e ∈ log, e.1 = t.id → e.2 ≤ t.last
  nextEval : evaluators ≠ [] → schedule.nextEval ∈ dues schedule.tasks

structure Process.Good (s : Process evaluators) : Prop where
  spaced : Spaced (interval evaluators) s.log
  clock : ∀ e ∈ s.log, e.2 ≤ s.clock
  tracks : ∀ schedule, s.schedule = some schedule → Tracks s.log schedule

theorem dueIds_sublist (ts : List (EvaluatorTask evaluators)) :
    (dueIds now ts).Sublist (ts.map (·.id)) := List.filter_sublist.map _

theorem CalledUpTo.prefix_dueIds {ts : List (EvaluatorTask evaluators)} {p p' : Pass evaluators}
    (h : CalledUpTo now ts p p') (hp : p.called = []) : p'.called <+: dueIds now ts := by
  obtain ⟨before, ⟨after, rfl⟩, hcalled⟩ := h
  rw [hcalled, hp, List.nil_append, dueIds_append]
  exact List.prefix_append _ _

section

variable {log : List (Fin evaluators.length × ℤ)} {schedule : Schedule evaluators}

/-- Calls of evaluators that are due come an interval after their last ones. -/
theorem Tracks.spaced_append (ht : Tracks log schedule) (hlog : Spaced (interval evaluators) log)
    {ids : List (Fin evaluators.length)} (hids : ids.Sublist (dueIds now schedule.tasks)) :
    Spaced (interval evaluators) (log ++ ids.map fun i => (i, now)) := by
  apply hlog.append
  · have hnodup := ht.ids.nodup_iff.mpr (List.nodup_finRange _)
    exact (hnodup.sublist (dueIds_sublist _)).sublist hids
  · intro e he hmem
    obtain ⟨t, htask, hdue, hid⟩ := mem_dueIds.mp (hids.subset hmem)
    have hlast := ht.last t htask e he hid.symm
    rw [Task.due, tasks_interval htask, hid] at hdue
    omega

theorem map_turn_ids (ts : List (EvaluatorTask evaluators)) :
    (ts.map (Task.turn now)).map (·.id) = ts.map (·.id) := by
  rw [List.map_map]
  exact List.map_congr_left fun t _ => turn_id

theorem eq_of_id_eq {ts : List (EvaluatorTask evaluators)} (h : (ts.map (·.id)).Nodup)
    {t u : EvaluatorTask evaluators} (ht : t ∈ ts) (hu : u ∈ ts) (hid : t.id = u.id) : t = u :=
  List.inj_on_of_nodup_map h ht hu hid

/-- A pass leaves a schedule from the last calls, its own included. -/
theorem Tracks.turned {schedule' : Schedule evaluators} {memory : ω} {p' : Pass evaluators}
    (ht : Tracks log schedule) (hlog : ∀ e ∈ log, e.2 ≤ now) (hnow : schedule.nextEval ≤ now)
    (hturned : Turned now schedule.tasks schedule'.tasks ⟨DateTime.maxUtc, memory, [], []⟩ p')
    (hnext : schedule'.nextEval = p'.nextEval) :
    Tracks (log ++ p'.called.map fun i => (i, now)) schedule' := by
  refine ⟨?_, ?_, ?_⟩
  · rw [hturned.tasks, map_turn_ids]
    exact ht.ids
  · rw [hturned.tasks, hturned.called]
    intro t' ht' e he hid
    obtain ⟨t, htask, rfl⟩ := List.mem_map.mp ht'
    rw [turn_id] at hid
    by_cases hdue : now < t.due
    · rw [turn_skipped hdue]
      rcases List.mem_append.mp he with he | he
      · exact ht.last t htask e he hid
      · obtain ⟨i, hi, rfl⟩ := List.mem_map.mp he
        obtain ⟨u, hu, hudue, huid⟩ := mem_dueIds.mp hi
        have hnodup := ht.ids.nodup_iff.mpr (List.nodup_finRange _)
        obtain rfl := eq_of_id_eq hnodup htask hu (hid.symm.trans huid.symm)
        exact absurd hdue hudue
    · rw [Task.turn, if_neg hdue]
      rcases List.mem_append.mp he with he | he
      · exact hlog e he
      · obtain ⟨i, -, rfl⟩ := List.mem_map.mp he
        exact le_rfl
  · intro hne
    obtain ⟨t, htask, hdue⟩ := ht.nextEval hne
    rw [hnext, hturned.nextEval, hturned.tasks]
    exact wake_mem_dues ⟨t, htask, by omega⟩ hturned.inRange

end

/-! ### Every run -/

theorem le_ceilSec (t : ℤ) : t ≤ DateTime.ceilSec t := by
  unfold DateTime.ceilSec DateTime.nanosecond Duration.seconds
  split_ifs <;> omega

theorem dues_perm {ts us : List (EvaluatorTask evaluators)} (h : ts.Perm us) :
    dues ts = dues us := by
  ext x
  simp only [dues, h.mem_iff]

theorem tasks_perm {schedule : Schedule evaluators}
    {groups : List (OhlcResolution × ResolutionGroup evaluators)}
    (h : groups.Perm schedule.resolutionGroups) :
    EvaluatorGroups.tasks { schedule.toEvaluatorGroups with resolutionGroups := groups } |>.Perm
      schedule.tasks :=
  (h.flatMap_right _).append_right _

namespace Process

theorem Good.passed {s : Process evaluators} {schedule : Schedule evaluators}
    (candles : CandleQuery) (hg : s.Good) (hawake : s.Awake schedule now)
    {calls : List (Fin evaluators.length)}
    (hcalls : calls <+: (pass candles now s.memory schedule).1.called) :
    Spaced (interval evaluators) (s.log ++ calls.map fun i => (i, now)) ∧
      ∀ e ∈ s.log ++ calls.map fun i => (i, now), e.2 ≤ now := by
  obtain ⟨hschedule, hclock, hnext⟩ := hawake
  have hdue := (pass_spec candles now s.memory schedule).1.prefix_dueIds rfl
  refine ⟨(hg.tracks schedule hschedule).spaced_append hg.spaced
    (hcalls.trans hdue).sublist, ?_⟩
  intro e he
  rcases List.mem_append.mp he with he | he
  · exact (hg.clock e he).trans hclock
  · obtain ⟨i, -, rfl⟩ := List.mem_map.mp he
    exact le_rfl

theorem Step.good {s s' : Process evaluators} {e : Event} (hg : s.Good) (h : Step s e s') :
    s'.Good := by
  cases h with
  | @start utcNow schedule groups hidle hclock hstart hgroups =>
      obtain ⟨hids, hlast, hleast⟩ := start_spec hstart
      have hperm := tasks_perm hgroups
      refine ⟨hg.spaced, fun e he => (hg.clock e he).trans hclock, ?_⟩
      rintro schedule' ⟨⟩
      refine ⟨(hperm.map _).trans hids, ?_, ?_⟩
      · intro t ht e he _
        rw [hlast t (hperm.mem_iff.mp ht)]
        exact ((hg.clock e he).trans hclock).trans (le_ceilSec utcNow)
      · intro hne
        rw [dues_perm hperm]
        exact (hleast hne).1
  | @pass schedule now candles hawake =>
      obtain ⟨hspaced, hclock⟩ := hg.passed candles hawake List.prefix_rfl
      refine ⟨hspaced, hclock, ?_⟩
      intro schedule' hschedule'
      have hok := toOption_eq_some.mp hschedule'
      obtain ⟨hturned, hnext⟩ := (pass_spec candles now s.memory schedule).2 schedule' hok
      obtain ⟨hschedule, hle, hnow⟩ := hawake
      exact (hg.tracks schedule hschedule).turned (fun e he => (hg.clock e he).trans hle) hnow
        hturned hnext
  | @cut schedule now candles calls hawake =>
      obtain ⟨hspaced, hclock⟩ := hg.passed candles hawake
        (List.take_prefix calls _)
      refine ⟨hspaced, hclock, ?_⟩
      rintro schedule' ⟨⟩
  | stop =>
      refine ⟨hg.spaced, hg.clock, ?_⟩
      rintro schedule' ⟨⟩

end Process

variable {es : List Event} {s : Process evaluators}

theorem run_good (h : (signalSystem evaluators).Run es s) : s.Good := by
  refine h.invariant ?_ fun _ _ _ => Process.Step.good
  rintro s ⟨hidle, hlog⟩
  refine ⟨by simp [hlog, Spaced], by simp [hlog], ?_⟩
  intro schedule hschedule
  rw [hidle] at hschedule
  cases hschedule

theorem pass_isLeast_iff (hne : evaluators ≠ []) {schedule schedule' : Schedule evaluators}
    {candles : CandleQuery} (hg : s.Good) (hawake : s.Awake schedule now)
    (hok : (pass candles now s.memory schedule).2 = .ok schedule') :
    IsLeast (dues schedule'.tasks) schedule'.nextEval ↔ SkipsNone now schedule.tasks := by
  obtain ⟨hschedule, -, hnow⟩ := hawake
  obtain ⟨hturned, hnext⟩ := (pass_spec candles now s.memory schedule).2 schedule' hok
  obtain ⟨t, ht, hdue⟩ := (hg.tracks schedule hschedule).nextEval hne
  rw [hnext, hturned.nextEval, hturned.tasks]
  exact wake_isLeast_iff ⟨t, ht, by omega⟩ hturned.inRange

/-- A pass skips no evaluator that is due before those it calls are due again. -/
def PassSkipsNone (s : Process evaluators) : Event → Prop
  | .pass now _ => ∀ schedule ∈ s.schedule, SkipsNone now schedule.tasks
  | _ => True

/-- The process sleeps until the first evaluator is due. -/
def OnTime (s : Process evaluators) : Prop :=
  ∀ schedule ∈ s.schedule, IsLeast (dues schedule.tasks) schedule.nextEval

theorem Process.Step.onTime (hne : evaluators ≠ []) {s' : Process evaluators} {e : Event}
    (hg : s.Good) (hallowed : PassSkipsNone s e) (h : Process.Step s e s') : OnTime s' := by
  cases h with
  | @start utcNow schedule groups hidle hclock hstart hgroups =>
      rintro schedule' ⟨⟩
      rw [dues_perm (tasks_perm hgroups)]
      exact (start_spec hstart).2.2 hne
  | @pass schedule now candles hawake =>
      intro schedule' hschedule'
      have hok := toOption_eq_some.mp hschedule'
      exact (pass_isLeast_iff hne hg hawake hok).mpr (hallowed schedule hawake.1)
  | @cut schedule now candles calls hawake => rintro schedule' ⟨⟩
  | stop => rintro schedule' ⟨⟩

/-- Calls of an evaluator are an interval apart in every run. A pass leaves the process to
wake when the first evaluator is due exactly when it skips none that is due before those it
calls are due again, and a run whose passes skip none always wakes on time. -/
theorem wakes_on_time_iff_skips_none (hne : evaluators ≠ []) :
    (∀ es s, (signalSystem evaluators).Run es s → Spaced (interval evaluators) s.log ∧
      ∀ schedule ∈ s.schedule,
        (schedule.tasks.map (·.id)).Perm (List.finRange evaluators.length) ∧
        ∀ now, s.Awake schedule now → ∀ candles schedule',
          (pass candles now s.memory schedule).2 = .ok schedule' →
            (IsLeast (dues schedule'.tasks) schedule'.nextEval ↔
              SkipsNone now schedule.tasks)) ∧
    ∀ es s, ((signalSystem evaluators).restrict PassSkipsNone).Run es s → OnTime s := by
  refine ⟨?_, ?_⟩
  · intro es s hrun
    have hg := run_good hrun
    refine ⟨hg.spaced, ?_⟩
    intro schedule hschedule
    refine ⟨(hg.tracks schedule hschedule).ids, ?_⟩
    intro now hawake candles schedule' hok
    exact pass_isLeast_iff hne hg hawake hok
  · intro es s hrun
    suffices hall : s.Good ∧ OnTime s from hall.2
    induction hrun with
    | start hstart =>
        refine ⟨run_good (.start hstart), ?_⟩
        intro schedule hschedule
        rw [hstart.1] at hschedule
        cases hschedule
    | step _ hstep ih => exact ⟨hstep.2.good ih.1, hstep.2.onTime hne ih.1 hstep.1⟩

/-! ### Two evaluators out of phase -/

def evaluatorEvery (minInterval : MinIterationInterval) : SignalEvaluator Unit Unit where
  lookback := .ok none
  minIterationInterval := .ok minInterval
  evaluate _ memory := (memory, .ok ())

def outOfPhase : List (SignalEvaluator Unit Unit) :=
  [evaluatorEvery ⟨Duration.seconds 60, by decide, by decide⟩,
    evaluatorEvery ⟨Duration.seconds 90, by decide, by decide⟩]

def atStart : Schedule outOfPhase :=
  ⟨⟨[], [⟨0, ⟨0, by decide⟩, ()⟩, ⟨0, ⟨1, by decide⟩, ()⟩]⟩, Duration.seconds 60⟩

def started : Process outOfPhase := ⟨0, some atStart, (), []⟩

def noCandles : CandleQuery := fun _ _ _ => .ok []

theorem start_outOfPhase : start 0 = .ok atStart := rfl

theorem started_run :
    ((signalSystem outOfPhase).restrict PassSkipsNone).Run [.start 0] started := by
  have hidle : ((signalSystem outOfPhase).restrict PassSkipsNone).Run [] ⟨0, none, (), []⟩ :=
    .start ⟨rfl, rfl⟩
  exact hidle.step ⟨trivial, @Process.Step.start _ _ _ _ 0 atStart [] rfl le_rfl
    start_outOfPhase (List.Perm.refl _)⟩

theorem started_awake : started.Awake atStart (Duration.seconds 60) :=
  ⟨rfl, by decide, le_rfl⟩

def afterPass : Schedule outOfPhase :=
  ⟨⟨[], [⟨Duration.seconds 60, ⟨0, by decide⟩, ()⟩, ⟨0, ⟨1, by decide⟩, ()⟩]⟩,
    Duration.seconds 120⟩

/-- Evaluators due every 60 and 90 seconds: after the pass at 60 seconds the process sleeps
until 120 though the second is due at 90. -/
theorem wakes_late_out_of_phase :
    (∃ es s schedule, (signalSystem outOfPhase).Run es s ∧ s.schedule = some schedule ∧
      schedule.nextEval = Duration.seconds 120 ∧
      Duration.seconds 90 ∈ dues schedule.tasks) ∧
    ¬ ∀ es s, (signalSystem outOfPhase).Run es s → OnTime s := by
  have hrun := started_run.of_restrict.step
    (@Process.Step.pass _ _ _ _ _ _ noCandles started_awake)
  have hdue : Duration.seconds 90 ∈ dues afterPass.tasks :=
    ⟨⟨⟨1, by decide⟩, 0, Duration.seconds 90⟩, List.mem_cons_of_mem _ List.mem_cons_self, rfl⟩
  refine ⟨⟨_, _, afterPass, hrun, rfl, rfl, hdue⟩, ?_⟩
  intro hall
  have hleast := hall _ _ hrun afterPass rfl
  exact absurd (hleast.2 hdue) (by decide)

/-- A process that sleeps through to 90 seconds calls both and wakes on time. -/
theorem wakes_on_time_after_both_called :
    ∃ s, ((signalSystem outOfPhase).restrict PassSkipsNone).Run
        [.start 0, .pass (Duration.seconds 90) noCandles] s ∧
      s.log.map (·.2) = [Duration.seconds 90, Duration.seconds 90] ∧
      Spaced (interval outOfPhase) s.log ∧ OnTime s := by
  have hne : outOfPhase ≠ [] := by simp [outOfPhase]
  have hawake : started.Awake atStart (Duration.seconds 90) := ⟨rfl, by decide, by decide⟩
  have hskips : PassSkipsNone started (.pass (Duration.seconds 90) noCandles) := by
    rintro schedule ⟨⟩
    decide
  have hstep := @Process.Step.pass _ _ _ _ _ _ noCandles hawake
  have hrun := started_run.step ⟨hskips, hstep⟩
  refine ⟨_, hrun, rfl, ?_, ?_⟩
  · exact ((wakes_on_time_iff_skips_none hne).1 _ _ (started_run.of_restrict.step hstep)).1
  · exact (wakes_on_time_iff_skips_none hne).2 _ _ hrun

end Quantoxide.LiveSignalProcess
