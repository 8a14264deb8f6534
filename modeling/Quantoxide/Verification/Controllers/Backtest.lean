import Quantoxide.Verification.Controllers.Manager

/-! # The status of a backtest under `abort`

When the task and the controller leave a stopped status alone. -/

namespace Quantoxide

open Runs StatusManager

variable {ε : Type}

theorem BacktestStatus.isStopped_of_eq (a b : BacktestStatus ε) (h : a.eq b = true) :
    a.isStopped = b.isStopped := by
  cases a <;> cases b <;> simp_all [eq, isStopped]

theorem BacktestStatus.eq_aborted {status : BacktestStatus ε} (h : status ≠ .aborted) :
    status.eq .aborted = false := by
  cases status <;> simp_all [eq]

theorem BacktestStatus.aborted_eq {status : BacktestStatus ε} (h : status ≠ .aborted) :
    BacktestStatus.aborted.eq status = false := by
  cases status <;> simp_all [eq]

namespace BacktestWorld

def system : System (BacktestWorld ε) (BacktestStep ε) where
  start w := w = started
  step w i w' := w.step i = some w'

/-- The task has stored the status it ends with. -/
def TaskStopped (w : BacktestWorld ε) : Prop := w.task = .stopping ∨ w.task = .ended false

/-- `abort` found the task unfinished and has not stored `Aborted` yet. -/
def AbortPending (w : BacktestWorld ε) : Prop :=
  w.abortCall = .aborting ∨ w.abortCall = .publishing

/-- `abort` has stored `Aborted`, or found the task finished. -/
def AbortDone (w : BacktestWorld ε) : Prop := w.abortCall = .joining ∨ w.abortCall = .returned

/-- The task has ended, `abort` was not called or is over, and all was sent. -/
def Done (w : BacktestWorld ε) : Prop :=
  w.task.isEnded = true ∧ ¬ w.AbortPending ∧ ∀ p, w.Sent p

/-- `abort` does not look at the task between its last status and its end; the task does not
stop by itself once `abort` has found it unfinished, and stores nothing after `Aborted`. -/
def AbortsInTime (w : BacktestWorld ε) : BacktestStep ε → Prop
  | .abort => w.task ≠ .stopping
  | .stops _ => w.abortCall = .notCalled
  | .starts | .runs => ¬ w.AbortDone
  | _ => True

variable {w w' : BacktestWorld ε}

/-! ### The steps -/

inductive Moves (w : BacktestWorld ε) : BacktestStep ε → BacktestWorld ε → Prop
  | starts (hsent : w.Sent .task) (ht : w.task = .spawned) :
      Moves w .starts { w.update .task .starting with task := .starting }
  | runs (hsent : w.Sent .task) (ht : w.task = .starting) :
      Moves w .runs { w.update .task .running with task := .running }
  | stops (hsent : w.Sent .task) (ht : w.task = .running ∨ w.task = .starting)
      (result : Except ε Unit) : Moves w (.stops result) { w.stop result with task := .stopping }
  | taskSends {manager : StatusManager (BacktestStatus ε)}
      (hsend : w.manager.send .task = some manager) : Moves w .taskSends { w with manager }
  | taskEnds (ht : w.task = .stopping) : Moves w .taskEnds { w with task := .ended false }
  | taskAborted (haborted : w.aborted = true) (ht : w.task.canWait = true) :
      Moves w .taskAborted { w with task := .ended true }
  | abort (ha : w.abortCall = .notCalled) :
      Moves w .abort { w with abortCall := if w.task.isEnded then .joining else .aborting }
  | aborts (ha : w.abortCall = .aborting) :
      Moves w .aborts { w with aborted := true, abortCall := .publishing }
  | publishesAborted (hsent : w.Sent .controller) (ha : w.abortCall = .publishing) :
      Moves w .publishesAborted { w.update .controller .aborted with abortCall := .joining }
  | controllerSends {manager : StatusManager (BacktestStatus ε)}
      (hsend : w.manager.send .controller = some manager) :
      Moves w .controllerSends { w with manager }
  | joins (ha : w.abortCall = .joining) : Moves w .joins { w with abortCall := .returned }

theorem moves_of_taskStep {i : BacktestStep ε} (hsent : w.Sent .task)
    (hstep : w.taskStep i = some w') : w.Moves i w' := by
  cases i with
  | starts =>
      cases ht : w.task <;> simp only [taskStep, ht, Option.some.injEq, reduceCtorEq] at hstep
      subst hstep
      exact .starts hsent ht
  | runs =>
      cases ht : w.task <;> simp only [taskStep, ht, Option.some.injEq, reduceCtorEq] at hstep
      subst hstep
      exact .runs hsent ht
  | stops result =>
      cases ht : w.task <;> cases result <;>
        simp only [taskStep, ht, Option.some.injEq, reduceCtorEq] at hstep <;> subst hstep
      case starting.error e => exact .stops hsent (.inr ht) (.error e)
      case running.error e => exact .stops hsent (.inl ht) (.error e)
      case running.ok u => exact .stops hsent (.inl ht) (.ok u)
  | taskEnds =>
      cases ht : w.task <;> simp only [taskStep, ht, Option.some.injEq, reduceCtorEq] at hstep
      subst hstep
      exact .taskEnds ht
  | taskAborted =>
      simp only [taskStep, Option.ite_none_right_eq_some, Bool.and_eq_true,
        Option.some.injEq] at hstep
      obtain ⟨⟨haborted, ht⟩, rfl⟩ := hstep
      exact .taskAborted haborted ht
  | _ => simp [taskStep] at hstep

theorem moves_of_abortStep {i : BacktestStep ε} (hsent : w.Sent .controller)
    (hstep : w.abortStep i = some w') : w.Moves i w' := by
  cases i with
  | abort =>
      cases ha : w.abortCall <;> simp only [abortStep, ha, Option.some.injEq, reduceCtorEq] at hstep
      subst hstep
      exact .abort ha
  | aborts =>
      cases ha : w.abortCall <;> simp only [abortStep, ha, Option.some.injEq, reduceCtorEq] at hstep
      subst hstep
      exact .aborts ha
  | publishesAborted =>
      cases ha : w.abortCall <;> simp only [abortStep, ha, Option.some.injEq, reduceCtorEq] at hstep
      subst hstep
      exact .publishesAborted hsent ha
  | joins =>
      cases ha : w.abortCall <;> simp only [abortStep, ha, Option.ite_none_right_eq_some,
        Option.some.injEq, reduceCtorEq] at hstep
      obtain ⟨-, rfl⟩ := hstep
      exact .joins ha
  | _ => simp [abortStep] at hstep

theorem moves_of_step {i : BacktestStep ε} (hstep : w.step i = some w') : w.Moves i w' := by
  have hparty : (if w.Sent .task then w.taskStep i else none) = some w' ∨
      (if w.Sent .controller then w.abortStep i else none) = some w' → w.Moves i w' := by
    simp only [Option.ite_none_right_eq_some]
    rintro (⟨hsent, h⟩ | ⟨hsent, h⟩)
    · exact moves_of_taskStep hsent h
    · exact moves_of_abortStep hsent h
  cases i with
  | taskSends =>
      obtain ⟨manager, hsend, rfl⟩ := Option.map_eq_some_iff.mp hstep
      exact .taskSends hsend
  | controllerSends =>
      obtain ⟨manager, hsend, rfl⟩ := Option.map_eq_some_iff.mp hstep
      exact .controllerSends hsend
  | _ => exact hparty ((Option.or_eq_some_iff.mp hstep).imp_right And.right)

/-! ### The order of the parties -/

structure Orderly (w : BacktestWorld ε) : Prop where
  one : w.manager.OneStop BacktestStatus.isStopped
  stopped : w.manager.status.isStopped = true ↔ w.TaskStopped ∨ w.AbortDone
  byTask : w.TaskStopped → w.manager.status ≠ .aborted
  byAbort : w.AbortDone → ¬ w.TaskStopped → w.manager.status = .aborted
  pending : w.AbortPending → ¬ w.TaskStopped
  cancelled : w.aborted = true ∨ w.task = .ended true →
    w.abortCall = .publishing ∨ w.AbortDone

theorem orderly_started : (started : BacktestWorld ε).Orderly where
  one := oneStop_new rfl
  stopped := by simp [started, new, BacktestStatus.isStopped, TaskStopped, AbortDone]
  byTask _ := nofun
  byAbort h := by simp [started, AbortDone] at h
  pending h := by simp [started, AbortPending] at h
  cancelled h := by simp [started] at h

theorem Orderly.running (h : w.Orderly) (ht : ¬ w.TaskStopped) (ha : ¬ w.AbortDone) :
    w.manager.status.isStopped = false := by
  rw [Bool.eq_false_iff, Ne, h.stopped]
  exact not_or.mpr ⟨ht, ha⟩

theorem status_update_stopped {m : StatusManager (BacktestStatus ε)} {p : Party}
    {status : BacktestStatus ε} (hrunning : m.status.isStopped = false)
    (hstatus : status.isStopped = true) :
    (m.update BacktestStatus.eq p status).status = status := by
  refine status_update_of_ne BacktestStatus.isStopped_of_eq ?_
  rw [hrunning, hstatus]
  exact Bool.false_ne_true

/-- A status that does not stop, stored by a task that goes on. -/
theorem Orderly.goesOn (h : w.Orderly) (hsent : w.Sent .task) (ha : ¬ w.AbortDone)
    (ht : ¬ w.TaskStopped) {status : BacktestStatus ε} (hstatus : status.isStopped = false)
    {task : BacktestTask} (htask : task ≠ .stopping ∧ ∀ c, task ≠ .ended c) :
    ({ w.update .task status with task } : BacktestWorld ε).Orderly := by
  have hstops : ¬ ({ w.update .task status with task } : BacktestWorld ε).TaskStopped :=
    not_or.mpr ⟨htask.1, htask.2 false⟩
  refine ⟨h.one.update (h.running ht ha) hsent, ?_, fun hs => absurd hs hstops,
    fun hdone => absurd hdone ha, fun _ => hstops,
    fun hc => h.cancelled (hc.imp_right fun he => absurd he (htask.2 true))⟩
  show (w.manager.update _ _ _).status.isStopped = true ↔ _
  rw [isStopped_update BacktestStatus.isStopped_of_eq, hstatus]
  exact ⟨nofun, fun hd => absurd hd (not_or.mpr ⟨hstops, ha⟩)⟩

theorem stop_spec (w : BacktestWorld ε) (result : Except ε Unit) :
    ∃ (arcs : ℕ) (status : BacktestStatus ε), status.isStopped = true ∧ status ≠ .aborted ∧
      w.stop result =
        { w with arcs, manager := w.manager.update BacktestStatus.eq .task status } := by
  cases result with
  | ok u => exact ⟨w.arcs, .finished, rfl, nofun, rfl⟩
  | error e => exact ⟨w.arcs + 1, .failed ⟨w.arcs, e⟩, rfl, nofun, rfl⟩

theorem Orderly.stops (h : w.Orderly) (hsent : w.Sent .task) (ha : w.abortCall = .notCalled)
    (ht : w.task = .running ∨ w.task = .starting) (result : Except ε Unit) :
    ({ w.stop result with task := .stopping } : BacktestWorld ε).Orderly := by
  have hdone : ¬ w.AbortDone := by simp [AbortDone, ha]
  have hrunning := h.running (by rcases ht with ht | ht <;> simp [TaskStopped, ht]) hdone
  obtain ⟨arcs, status, hstatus, hne, hstop⟩ := stop_spec w result
  rw [hstop]
  refine ⟨h.one.update hrunning hsent, ?_, fun _ => ?_, fun _ hnot => absurd (.inl rfl) hnot,
    ?_, ?_⟩
  · show (w.manager.update _ _ _).status.isStopped = true ↔ _
    rw [isStopped_update BacktestStatus.isStopped_of_eq, hstatus]
    exact ⟨fun _ => .inl (.inl rfl), fun _ => rfl⟩
  · show (w.manager.update _ _ _).status ≠ _
    rw [status_update_stopped hrunning hstatus]
    exact hne
  · intro hpending
    simp [AbortPending, ha] at hpending
  · exact fun hc => h.cancelled (hc.imp_right nofun)

/-- A step of a party that stores nothing. -/
theorem Orderly.frame (h : w.Orderly) (hone : w'.manager.OneStop BacktestStatus.isStopped)
    (hstatus : w'.manager.status = w.manager.status) (ht : w'.TaskStopped ↔ w.TaskStopped)
    (hkeep : w.AbortDone → w'.AbortDone) (hnew : w'.AbortDone → w.AbortDone ∨ w.TaskStopped)
    (hpending : w'.AbortPending → ¬ w'.TaskStopped)
    (hcancelled : w'.aborted = true ∨ w'.task = .ended true →
      w'.abortCall = .publishing ∨ w'.AbortDone) : w'.Orderly := by
  refine ⟨hone, ?_, ?_, fun hdone hnot => ?_, hpending, hcancelled⟩
  · rw [hstatus, h.stopped, ht]
    exact ⟨Or.imp_right hkeep, fun hs => hs.elim .inl fun hd => (hnew hd).symm⟩
  · rw [hstatus, ht]
    exact h.byTask
  · rw [hstatus]
    rw [ht] at hnot
    exact h.byAbort ((hnew hdone).resolve_right hnot) hnot

theorem Orderly.sends (h : w.Orderly) {p : Party} {manager : StatusManager (BacktestStatus ε)}
    (hsend : w.manager.send p = some manager) : ({ w with manager } : BacktestWorld ε).Orderly :=
  h.frame (h.one.send hsend) (status_send hsend) .rfl id .inl h.pending h.cancelled

theorem Orderly.calls (h : w.Orderly) (hintime : w.AbortsInTime .abort)
    (ha : w.abortCall = .notCalled) :
    ({ w with abortCall := if w.task.isEnded then .joining else .aborting } :
      BacktestWorld ε).Orderly := by
  have hnever : ¬ (w.aborted = true ∨ w.task = .ended true) := fun hc => by
    simpa [AbortDone, ha] using h.cancelled hc
  have hnotDone : ¬ w.AbortDone := by simp [AbortDone, ha]
  by_cases hended : w.task.isEnded = true
  · have hstops : w.TaskStopped := by
      cases ht : w.task with
      | ended cancelled =>
          cases cancelled
          · exact .inr ht
          · exact absurd (.inr ht) hnever
      | _ => simp [ht, BacktestTask.isEnded] at hended
    refine h.frame h.one rfl .rfl (absurd · hnotDone) (fun _ => .inr hstops) (fun hp => ?_)
      (absurd · hnever)
    simp [AbortPending, hended] at hp
  · have hnot : ¬ w.TaskStopped := by
      rintro (hs | hs)
      · exact hintime hs
      · simp [hs, BacktestTask.isEnded] at hended
    refine h.frame h.one rfl .rfl (absurd · hnotDone) (fun hd => ?_) (fun _ => hnot)
      (absurd · hnever)
    simp [AbortDone, hended] at hd

theorem orderly_step {i : BacktestStep ε} (h : w.Orderly) (hintime : w.AbortsInTime i)
    (hmoves : w.Moves i w') : w'.Orderly := by
  cases hmoves with
  | starts hsent ht =>
      exact h.goesOn hsent hintime (by simp [TaskStopped, ht]) rfl ⟨nofun, nofun⟩
  | runs hsent ht =>
      exact h.goesOn hsent hintime (by simp [TaskStopped, ht]) rfl ⟨nofun, nofun⟩
  | stops hsent ht result => exact h.stops hsent hintime ht result
  | taskSends hsend => exact h.sends hsend
  | controllerSends hsend => exact h.sends hsend
  | taskEnds ht =>
      refine h.frame h.one rfl (by simp [TaskStopped, ht]) id .inl ?_ ?_
      · exact fun hpending => absurd (.inl ht) (h.pending hpending)
      · exact fun hc => h.cancelled (hc.imp_right nofun)
  | taskAborted haborted ht =>
      have hnot : ¬ w.TaskStopped := by
        rintro (hs | hs) <;> simp [hs, BacktestTask.canWait] at ht
      refine h.frame h.one rfl ?_ id .inl (fun _ => by simp [TaskStopped]) ?_
      · simp only [hnot, iff_false]
        simp [TaskStopped]
      · exact fun _ => h.cancelled (.inl haborted)
  | abort ha => exact h.calls hintime ha
  | aborts ha =>
      refine h.frame h.one rfl .rfl (by simp [AbortDone, ha]) (by simp [AbortDone])
        (fun _ => h.pending (.inl ha)) fun _ => .inl rfl
  | publishesAborted hsent ha =>
      have hnot : ¬ w.TaskStopped := h.pending (.inr ha)
      have hrunning := h.running hnot (by simp [AbortDone, ha])
      refine ⟨h.one.update hrunning hsent, ?_, fun hs => absurd hs hnot, fun _ _ => ?_,
        fun hp => ?_, fun _ => .inr (.inl rfl)⟩
      · show (w.manager.update _ _ _).status.isStopped = true ↔ _
        rw [isStopped_update BacktestStatus.isStopped_of_eq]
        exact ⟨fun _ => .inr (.inl rfl), fun _ => rfl⟩
      · exact status_update_stopped hrunning rfl
      · simp [AbortPending] at hp
  | joins ha =>
      refine h.frame h.one rfl .rfl (fun _ => .inr rfl) (fun _ => .inl (.inl ha)) (fun hp => ?_)
        fun _ => .inr (.inr rfl)
      simp [AbortPending] at hp

/-! ### Whole executions -/

/-- In time, nothing is stored over a stopped status. -/
theorem staysStopped_step {i : BacktestStep ε} (h : w.Orderly) (hintime : w.AbortsInTime i)
    (hmoves : w.Moves i w') (hstopped : w.manager.status.isStopped = true) :
    w'.manager.status = w.manager.status := by
  rw [h.stopped] at hstopped
  cases hmoves with
  | starts hsent ht => exact absurd (hstopped.resolve_right hintime) (by simp [TaskStopped, ht])
  | runs hsent ht => exact absurd (hstopped.resolve_right hintime) (by simp [TaskStopped, ht])
  | stops hsent ht result =>
      have hcalled : w.abortCall = .notCalled := hintime
      rcases hstopped with hs | hs
      · rcases ht with ht | ht <;> simp [TaskStopped, ht] at hs
      · simp [AbortDone, hcalled] at hs
  | publishesAborted hsent ha =>
      refine absurd (hstopped.resolve_right ?_) (h.pending (.inr ha))
      simp [AbortDone, ha]
  | taskSends hsend => exact status_send hsend
  | controllerSends hsend => exact status_send hsend
  | _ => rfl

theorem Orderly.published (h : w.Orderly) (hdone : w.Done) :
    w.manager.published.countP BacktestStatus.isStopped = 1 := by
  obtain ⟨hended, hpending, hsent⟩ := hdone
  refine published_eq h.one (h.stopped.mpr ?_) hsent
  cases ht : w.task with
  | ended cancelled =>
      cases cancelled
      · exact .inl (.inr ht)
      · exact .inr ((h.cancelled (.inr ht)).resolve_left fun hp => hpending (.inr hp))
  | _ => simp [ht, BacktestTask.isEnded] at hended

/-- The task has stopped by itself, but `abort` will still store `Aborted`. -/
def Doomed (w : BacktestWorld ε) : Prop :=
  w.AbortPending ∧ w.TaskStopped ∧ w.manager.status.isStopped = true ∧
    w.manager.status ≠ .aborted

theorem doomed_step {i : BacktestStep ε} (hmoves : w.Moves i w') (h : w.Doomed) :
    w'.Doomed ∨ ¬ w.manager.StaysStopped BacktestStatus.isStopped w'.manager := by
  obtain ⟨hpending, hstops, hstopped, hstatus⟩ := h
  cases hmoves with
  | starts hsent ht => simp [TaskStopped, ht] at hstops
  | runs hsent ht => simp [TaskStopped, ht] at hstops
  | stops hsent ht result => rcases ht with ht | ht <;> simp [TaskStopped, ht] at hstops
  | taskSends hsend =>
      exact .inl ⟨hpending, hstops, (status_send hsend).symm ▸ hstopped,
        (status_send hsend).symm ▸ hstatus⟩
  | controllerSends hsend =>
      exact .inl ⟨hpending, hstops, (status_send hsend).symm ▸ hstopped,
        (status_send hsend).symm ▸ hstatus⟩
  | taskEnds ht => exact .inl ⟨hpending, .inr rfl, hstopped, hstatus⟩
  | taskAborted haborted ht =>
      rcases hstops with hs | hs <;> simp [hs, BacktestTask.canWait] at ht
  | abort ha => simp [AbortPending, ha] at hpending
  | aborts ha => exact .inl ⟨.inr rfl, hstops, hstopped, hstatus⟩
  | publishesAborted hsent ha =>
      exact .inr (update_breaks hstopped (BacktestStatus.eq_aborted hstatus) hstatus.symm)
  | joins ha => simp [AbortPending, ha] at hpending

/-- A step that is not in time breaks a stopped status or dooms it to be broken. -/
theorem late_step {i : BacktestStep ε} (h : w.Orderly) (hmoves : w.Moves i w')
    (hlate : ¬ w.AbortsInTime i) :
    w'.Doomed ∨ ¬ w.manager.StaysStopped BacktestStatus.isStopped w'.manager := by
  cases hmoves with
  | starts hsent ht =>
      have hstopped := h.stopped.mpr (.inr (not_not.mp hlate))
      exact .inr (update_running_breaks BacktestStatus.isStopped_of_eq hstopped rfl)
  | runs hsent ht =>
      have hstopped := h.stopped.mpr (.inr (not_not.mp hlate))
      exact .inr (update_running_breaks BacktestStatus.isStopped_of_eq hstopped rfl)
  | stops hsent ht result =>
      have hnot : ¬ w.TaskStopped := by rcases ht with ht | ht <;> simp [TaskStopped, ht]
      obtain ⟨arcs, status, hstatus, hne, hstop⟩ := stop_spec w result
      rw [hstop]
      by_cases hdone : w.AbortDone
      · have haborted := h.byAbort hdone hnot
        refine .inr (update_breaks (h.stopped.mpr (.inr hdone)) ?_ ?_)
        · rw [haborted]
          exact BacktestStatus.aborted_eq hne
        · rw [haborted]
          exact hne
      · have hcalled : w.abortCall ≠ .notCalled := hlate
        have hpending : w.AbortPending := by
          cases ha : w.abortCall <;> simp_all [AbortPending, AbortDone]
        refine .inl ⟨hpending, .inl rfl, ?_⟩
        show (w.manager.update _ _ _).status.isStopped = true ∧ (w.manager.update _ _ _).status ≠ _
        rw [status_update_stopped (h.running hnot hdone) hstatus]
        exact ⟨hstatus, hne⟩
  | abort ha =>
      have ht : w.task = .stopping := not_not.mp hlate
      have hstops : w.TaskStopped := .inl ht
      exact .inl ⟨.inl (by simp [ht, BacktestTask.isEnded]), hstops,
        h.stopped.mpr (.inl hstops), h.byTask hstops⟩
  | _ => exact absurd trivial hlate

/-- When `abort` is in time, a stopped status stays and one is published; and an execution at
whose end `abort` is not under way does so only then. -/
theorem stopsOnce_iff {e : List (BacktestStep ε × BacktestWorld ε)} (hstart : system.start w)
    (h : system.Execution w e) :
    (System.Meets AbortsInTime w e →
      StopsOnce manager BacktestStatus.isStopped Done w e) ∧
    (¬ (System.final w e).AbortPending → StopsOnce manager BacktestStatus.isStopped Done w e →
      System.Meets AbortsInTime w e) := by
  have horderly : w.Orderly := by
    obtain rfl := hstart
    exact orderly_started
  have hstep (s : BacktestWorld ε) (i : BacktestStep ε) (s' : BacktestWorld ε) (hs : s.Orderly)
      (hi : s.AbortsInTime i) (hss : system.step s i s') : s'.Orderly :=
    orderly_step hs hi (moves_of_step hss)
  constructor
  · intro hintime
    have hinv := h.invariant hintime horderly hstep
    refine ⟨h.pairwise hinv hintime (fun _ _ => rfl) ?_, fun t ht =>
      ⟨published_le (hinv t ht).one, (hinv t ht).published⟩⟩
    intro s t i t' ht hi hs hst hstopped
    have hstatus := hst hstopped
    rw [staysStopped_step ht hi (moves_of_step hs) (hstatus ▸ hstopped), hstatus]
  · intro hsettled honce
    exact h.meets_of_settled Doomed (fun s => ¬ s.AbortPending) horderly hstep honce.1 hsettled
      (fun s hs hnot => hnot hs.1) (fun _ _ _ hs => doomed_step (moves_of_step hs))
      fun _ _ _ hs hss => late_step hs (moves_of_step hss)

end BacktestWorld

end Quantoxide
