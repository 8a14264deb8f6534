import Quantoxide.Verification.Controllers.Backtest

/-! # The status of the sync process under `shutdown`

When the task and the controller leave a stopped status alone, and the same for both systems. -/

namespace Quantoxide

open Runs StatusManager

variable {ε : Type}

theorem SyncStatus.isStopped_of_eq (a b : SyncStatus ε) (h : a.eq b = true) :
    a.isStopped = b.isStopped := by
  cases a <;> cases b <;> simp_all [eq, isStopped]

namespace SyncWorld

def system (mode : SyncMode) : System (SyncWorld ε) (SyncStep ε) where
  start w := w = started mode
  step w i w' := w.step i = some w'

/-- The task has stored `Terminated`. -/
def TaskTerminated (w : SyncWorld ε) : Prop :=
  w.task = .stopping .fatal ∨ w.task = .ended .fatal

/-- `shutdown` found the task unfinished and has not stored its last status yet. -/
def ShutdownPending (w : SyncWorld ε) : Prop :=
  match w.shutdownCall with
  | .notCalled | .alreadyTerminated | .returned => False
  | _ => True

/-- The task has ended, `shutdown` was not called or is over, and all was sent. -/
def Done (w : SyncWorld ε) : Prop :=
  w.task.isEnded = true ∧ ¬ w.ShutdownPending ∧ ∀ p, w.Sent p

/-- `shutdown` does not look at the task between `Terminated` and its end; the task does not
terminate by itself once `shutdown` has found it unfinished, and stores nothing after the last
status of `shutdown`. -/
def ShutsDownInTime (w : SyncWorld ε) : SyncStep ε → Prop
  | .shutdown => w.task ≠ .stopping .fatal
  | .terminates _ => w.shutdownCall = .notCalled
  | .starts | .reports _ | .fails _ | .restarts => w.shutdownCall ≠ .returned
  | _ => True

variable {w w' : SyncWorld ε}

/-! ### The steps -/

inductive Moves (w : SyncWorld ε) : SyncStep ε → SyncWorld ε → Prop
  | starts (hsent : w.Sent .task) (ht : w.task = .spawned) :
      Moves w .starts { w.update .task (.notSynced .starting) with task := .subscribing }
  | subscribes (ht : w.task = .subscribing) : Moves w .subscribes { w with task := .running }
  | reports (hsent : w.Sent .task) (ht : w.task = .running) {status : SyncStatus ε}
      (hreports : w.mode.reports status = true) :
      Moves w (.reports status) (w.update .task status)
  | fails (hsent : w.Sent .task) (ht : w.task = .running) (error : SyncProcessRecoverableError ε) :
      Moves w (.fails error) { w.fail error with task := .restarting }
  | restarts (hsent : w.Sent .task) (ht : w.task = .restarting) :
      Moves w .restarts { w.update .task (.notSynced .restarting) with task := .running }
  | terminates (hsent : w.Sent .task) (ht : w.task = .running) (error : SyncProcessFatalError ε) :
      Moves w (.terminates error) { w.terminate .task error with task := .stopping .fatal }
  | receivesSignal (ht : w.task = .running ∨ w.task = .restarting) (hsignal : w.signalled = true) :
      Moves w .receivesSignal { w with task := .stopping .signalled }
  | taskSends {manager : StatusManager (SyncStatus ε)}
      (hsend : w.manager.send .task = some manager) : Moves w .taskSends { w with manager }
  | taskEnds {how : SyncEnd} (ht : w.task = .stopping how) :
      Moves w .taskEnds { w with task := .ended how }
  | taskAborted (haborted : w.aborted = true) (ht : w.task.canWait = true) :
      Moves w .taskAborted { w with task := .ended .cancelled }
  | shutdown (hs : w.shutdownCall = .notCalled) :
      Moves w .shutdown
        { w with shutdownCall := if w.task.isEnded then .alreadyTerminated else .initiating }
  | initiates (hsent : w.Sent .controller) (hs : w.shutdownCall = .initiating) :
      Moves w .initiates
        { w.update .controller .shutdownInitiated with shutdownCall := .signalling }
  | sendsSignal (hs : w.shutdownCall = .signalling) (delivered : Bool) :
      Moves w (.sendsSignal delivered)
        { w with signalled := delivered
                 shutdownCall := if delivered then .waiting
                   else .aborting .sendShutdownSignalFailed }
  | joins (hs : w.shutdownCall = .waiting) {how : SyncEnd} (ht : w.task = .ended how) :
      Moves w .joins { w with shutdownCall := .finishing how.joined }
  | timesOut (hs : w.shutdownCall = .waiting) :
      Moves w .timesOut { w with shutdownCall := .aborting .shutdownTimeout }
  | aborts {error : SyncProcessFatalError ε} (hs : w.shutdownCall = .aborting error) :
      Moves w .aborts { w with aborted := true, shutdownCall := .finishing (.error error) }
  | finishes (hsent : w.Sent .controller) {result : Except (SyncProcessFatalError ε) Unit}
      (hs : w.shutdownCall = .finishing result) :
      Moves w .finishes { w.finish result with shutdownCall := .returned }
  | controllerSends {manager : StatusManager (SyncStatus ε)}
      (hsend : w.manager.send .controller = some manager) :
      Moves w .controllerSends { w with manager }

theorem moves_of_taskStep {i : SyncStep ε} (hsent : w.Sent .task)
    (hstep : w.taskStep i = some w') : w.Moves i w' := by
  cases i with
  | starts =>
      cases ht : w.task <;> simp only [taskStep, ht, Option.some.injEq, reduceCtorEq] at hstep
      subst hstep
      exact .starts hsent ht
  | subscribes =>
      cases ht : w.task <;> simp only [taskStep, ht, Option.some.injEq, reduceCtorEq] at hstep
      subst hstep
      exact .subscribes ht
  | reports status =>
      cases ht : w.task <;> simp only [taskStep, ht, Option.ite_none_right_eq_some,
        Option.some.injEq, reduceCtorEq] at hstep
      obtain ⟨hreports, rfl⟩ := hstep
      exact .reports hsent ht hreports
  | fails error =>
      cases ht : w.task <;> simp only [taskStep, ht, Option.some.injEq, reduceCtorEq] at hstep
      subst hstep
      exact .fails hsent ht error
  | restarts =>
      cases ht : w.task <;> simp only [taskStep, ht, Option.some.injEq, reduceCtorEq] at hstep
      subst hstep
      exact .restarts hsent ht
  | terminates error =>
      cases ht : w.task <;> simp only [taskStep, ht, Option.some.injEq, reduceCtorEq] at hstep
      subst hstep
      exact .terminates hsent ht error
  | receivesSignal =>
      cases ht : w.task <;> simp only [taskStep, ht, Option.ite_none_right_eq_some,
        Option.some.injEq, reduceCtorEq] at hstep <;> obtain ⟨hsignal, rfl⟩ := hstep
      case running => exact .receivesSignal (.inl ht) hsignal
      case restarting => exact .receivesSignal (.inr ht) hsignal
  | taskEnds =>
      cases ht : w.task <;> simp only [taskStep, ht, Option.some.injEq, reduceCtorEq] at hstep
      subst hstep
      exact .taskEnds ht
  | taskAborted =>
      simp only [taskStep, Option.ite_none_right_eq_some, Bool.and_eq_true,
        Option.some.injEq] at hstep
      obtain ⟨⟨haborted, ht⟩, rfl⟩ := hstep
      exact .taskAborted haborted ht
  | _ => simp [taskStep] at hstep

theorem moves_of_shutdownStep {i : SyncStep ε} (hsent : w.Sent .controller)
    (hstep : w.shutdownStep i = some w') : w.Moves i w' := by
  cases i with
  | shutdown =>
      cases hs : w.shutdownCall <;>
        simp only [shutdownStep, hs, Option.some.injEq, reduceCtorEq] at hstep
      subst hstep
      exact .shutdown hs
  | initiates =>
      cases hs : w.shutdownCall <;>
        simp only [shutdownStep, hs, Option.some.injEq, reduceCtorEq] at hstep
      subst hstep
      exact .initiates hsent hs
  | sendsSignal delivered =>
      cases hs : w.shutdownCall <;> simp only [shutdownStep, hs, Option.ite_none_right_eq_some,
        Option.some.injEq, reduceCtorEq] at hstep
      obtain ⟨-, rfl⟩ := hstep
      exact .sendsSignal hs delivered
  | joins =>
      cases hs : w.shutdownCall <;> cases ht : w.task <;>
        simp only [shutdownStep, hs, ht, Option.some.injEq, reduceCtorEq] at hstep
      subst hstep
      simpa only [ht] using Moves.joins hs ht
  | timesOut =>
      cases hs : w.shutdownCall <;>
        simp only [shutdownStep, hs, Option.some.injEq, reduceCtorEq] at hstep
      subst hstep
      exact .timesOut hs
  | aborts =>
      cases hs : w.shutdownCall <;>
        simp only [shutdownStep, hs, Option.some.injEq, reduceCtorEq] at hstep
      subst hstep
      exact .aborts hs
  | finishes =>
      cases hs : w.shutdownCall <;>
        simp only [shutdownStep, hs, Option.some.injEq, reduceCtorEq] at hstep
      subst hstep
      exact .finishes hsent hs
  | _ => simp [shutdownStep] at hstep

theorem moves_of_step {i : SyncStep ε} (hstep : w.step i = some w') : w.Moves i w' := by
  have hparty : (if w.Sent .task then w.taskStep i else none) = some w' ∨
      (if w.Sent .controller then w.shutdownStep i else none) = some w' → w.Moves i w' := by
    simp only [Option.ite_none_right_eq_some]
    rintro (⟨hsent, h⟩ | ⟨hsent, h⟩)
    · exact moves_of_taskStep hsent h
    · exact moves_of_shutdownStep hsent h
  cases i with
  | taskSends =>
      obtain ⟨manager, hsend, rfl⟩ := Option.map_eq_some_iff.mp hstep
      exact .taskSends hsend
  | controllerSends =>
      obtain ⟨manager, hsend, rfl⟩ := Option.map_eq_some_iff.mp hstep
      exact .controllerSends hsend
  | _ => exact hparty ((Option.or_eq_some_iff.mp hstep).imp_right And.right)

/-! ### The order of the parties -/

/-- The task was told to stop before it terminated. -/
def Interrupted (w : SyncWorld ε) : Prop :=
  w.signalled = true ∨ w.aborted = true ∨
    ∃ how : SyncEnd, how ≠ .fatal ∧ (w.task = .stopping how ∨ w.task = .ended how)

structure Orderly (w : SyncWorld ε) : Prop where
  one : w.manager.OneStop SyncStatus.isStopped
  stopped : w.manager.status.isStopped = true ↔ w.TaskTerminated ∨ w.shutdownCall = .returned
  allocated : ∀ a, w.manager.status = .terminated a → a.ptr < w.arcs
  byTask : w.TaskTerminated → ∃ a, w.manager.status = .terminated a
  pending : w.ShutdownPending → ¬ w.TaskTerminated
  already : w.shutdownCall = .alreadyTerminated → w.TaskTerminated
  interrupted : w.Interrupted → w.ShutdownPending ∨ w.shutdownCall = .returned

theorem orderly_started (mode : SyncMode) : (started mode : SyncWorld ε).Orderly where
  one := oneStop_new rfl
  stopped := by simp [started, new, SyncStatus.isStopped, TaskTerminated]
  allocated _ := nofun
  byTask h := by simp [started, TaskTerminated] at h
  pending h := by simp [started, ShutdownPending] at h
  already := nofun
  interrupted h := by simp [started, Interrupted] at h

theorem Orderly.running (h : w.Orderly) (ht : ¬ w.TaskTerminated)
    (hs : w.shutdownCall ≠ .returned) : w.manager.status.isStopped = false := by
  rw [Bool.eq_false_iff, Ne, h.stopped]
  exact not_or.mpr ⟨ht, hs⟩

/-- A status that does not stop, stored while the status does not stop. -/
theorem Orderly.nonterminal {p : Party} {status : SyncStatus ε} (h : w.Orderly)
    (hsent : w.Sent p) (hrunning : w.manager.status.isStopped = false)
    (hstatus : status.isStopped = false)
    (hmanager : w'.manager = w.manager.update SyncStatus.eq p status)
    (hterminated : ¬ w'.TaskTerminated) (hreturned : w'.shutdownCall ≠ .returned)
    (halready : w'.shutdownCall ≠ .alreadyTerminated)
    (hinterrupted : w'.Interrupted → w'.ShutdownPending) : w'.Orderly := by
  have hkind : w'.manager.status.isStopped = false := by
    rw [hmanager, isStopped_update SyncStatus.isStopped_of_eq, hstatus]
  refine ⟨hmanager ▸ h.one.update hrunning hsent, ?_, fun a ha => ?_,
    fun ht => absurd ht hterminated, fun _ => hterminated, fun hal => absurd hal halready,
    fun hi => .inl (hinterrupted hi)⟩
  · rw [hkind]
    exact ⟨nofun, fun hd => absurd hd (not_or.mpr ⟨hterminated, hreturned⟩)⟩
  · rw [ha] at hkind
    cases hkind

/-- The task goes on after a status that does not stop. -/
theorem Orderly.goesOn {status : SyncStatus ε} (h : w.Orderly) (hsent : w.Sent .task)
    (hreturned : w.shutdownCall ≠ .returned) (ht : ¬ w.TaskTerminated)
    (hstatus : status.isStopped = false)
    (hmanager : w'.manager = w.manager.update SyncStatus.eq .task status)
    (htask : ∀ how, w'.task ≠ .stopping how ∧ w'.task ≠ .ended how)
    (hsame : w'.shutdownCall = w.shutdownCall ∧ w'.signalled = w.signalled ∧
      w'.aborted = w.aborted) : w'.Orderly := by
  obtain ⟨hcall, hsignalled, haborted⟩ := hsame
  refine h.nonterminal hsent (h.running ht hreturned) hstatus hmanager (not_or.mpr (htask .fatal))
    (hcall ▸ hreturned) (fun hal => ht (h.already (hcall ▸ hal))) fun hi => ?_
  have hpast : w.Interrupted := by
    rcases hi with hi | hi | ⟨how, -, hw | hw⟩
    · exact .inl (hsignalled ▸ hi)
    · exact .inr (.inl (haborted ▸ hi))
    · exact absurd hw (htask how).1
    · exact absurd hw (htask how).2
  have hpending := (h.interrupted hpast).resolve_right hreturned
  unfold ShutdownPending at hpending ⊢
  rwa [hcall]

/-- The status that ends the task or `shutdown`, stored while the status does not stop. -/
theorem Orderly.terminal {p : Party} (h : w.Orderly) (status : SyncStatus ε) (arcs : ℕ)
    (hsent : w.Sent p) (hrunning : w.manager.status.isStopped = false)
    (hstatus : status.isStopped = true) (halloc : ∀ a, status = .terminated a → a.ptr < arcs)
    (hmanager : w'.manager = w.manager.update SyncStatus.eq p status) (harcs : w'.arcs = arcs)
    (hends : w'.TaskTerminated ∨ w'.shutdownCall = .returned)
    (hbyTask : w'.TaskTerminated → ∃ a, status = .terminated a) (hpending : ¬ w'.ShutdownPending)
    (halready : w'.shutdownCall ≠ .alreadyTerminated)
    (hinterrupted : w'.Interrupted → w'.shutdownCall = .returned) : w'.Orderly := by
  have hnew : w'.manager.status = status := by
    rw [hmanager]
    refine status_update_of_ne SyncStatus.isStopped_of_eq ?_
    rw [hrunning, hstatus]
    exact Bool.false_ne_true
  refine ⟨hmanager ▸ h.one.update hrunning hsent, ?_, ?_, hnew ▸ hbyTask,
    fun hp => absurd hp hpending, fun hal => absurd hal halready,
    fun hi => .inr (hinterrupted hi)⟩
  · rw [hnew, hstatus]
    exact ⟨fun _ => hends, fun _ => rfl⟩
  · rw [hnew, harcs]
    exact halloc

/-- A step of a party that stores nothing that stops. -/
theorem Orderly.frame (h : w.Orderly) (hone : w'.manager.OneStop SyncStatus.isStopped)
    (hstatus : w'.manager.status = w.manager.status) (harcs : w'.arcs = w.arcs)
    (ht : w'.TaskTerminated ↔ w.TaskTerminated)
    (hreturned : w'.shutdownCall = .returned ↔ w.shutdownCall = .returned)
    (hpending : w'.ShutdownPending → ¬ w'.TaskTerminated)
    (halready : w'.shutdownCall = .alreadyTerminated → w'.TaskTerminated)
    (hinterrupted : w'.Interrupted → w'.ShutdownPending ∨ w'.shutdownCall = .returned) :
    w'.Orderly := by
  refine ⟨hone, ?_, ?_, ?_, hpending, halready, hinterrupted⟩
  · rw [hstatus, ht, hreturned]
    exact h.stopped
  · rw [hstatus, harcs]
    exact h.allocated
  · rw [hstatus, ht]
    exact h.byTask

theorem Orderly.sends (h : w.Orderly) {p : Party} {manager : StatusManager (SyncStatus ε)}
    (hsend : w.manager.send p = some manager) : ({ w with manager } : SyncWorld ε).Orderly :=
  h.frame (h.one.send hsend) (status_send hsend) rfl .rfl .rfl h.pending h.already h.interrupted

theorem Orderly.calls (h : w.Orderly) (hintime : w.ShutsDownInTime .shutdown)
    (hs : w.shutdownCall = .notCalled) :
    ({ w with shutdownCall := if w.task.isEnded then .alreadyTerminated else .initiating } :
      SyncWorld ε).Orderly := by
  have hnever : ¬ w.Interrupted := fun hi => by
    simpa [ShutdownPending, hs] using h.interrupted hi
  by_cases hended : w.task.isEnded = true
  · have hterminated : w.TaskTerminated := by
      cases ht : w.task with
      | ended how =>
          by_cases hfatal : how = .fatal
          · exact .inr (hfatal ▸ ht)
          · exact absurd (.inr (.inr ⟨how, hfatal, .inr ht⟩)) hnever
      | _ => simp [ht, SyncTask.isEnded] at hended
    refine h.frame h.one rfl rfl .rfl (by simp [hs, hended]) (fun hp => ?_) (fun _ => hterminated)
      (absurd · hnever)
    simp [ShutdownPending, hended] at hp
  · have hnot : ¬ w.TaskTerminated := by
      rintro (ht | ht)
      · exact hintime ht
      · simp [ht, SyncTask.isEnded] at hended
    exact h.frame h.one rfl rfl .rfl (by simp [hs, hended]) (fun _ => hnot)
      (by simp [hended]) (absurd · hnever)

/-- A step of `shutdown` between its first and its last status. -/
theorem Orderly.proceeds (h : w.Orderly) (hpending : w.ShutdownPending)
    {signalled aborted : Bool} {shutdownCall : SyncShutdownCall ε}
    (hstill : ({ w with signalled, aborted, shutdownCall } : SyncWorld ε).ShutdownPending) :
    ({ w with signalled, aborted, shutdownCall } : SyncWorld ε).Orderly := by
  refine h.frame h.one rfl rfl .rfl ?_ (fun _ => h.pending hpending) (fun hal => ?_)
    fun _ => .inl hstill
  · refine ⟨fun hr => ?_, fun hr => ?_⟩
    · simp only [ShutdownPending, show shutdownCall = .returned from hr] at hstill
    · simp only [ShutdownPending, hr] at hpending
  · simp only [ShutdownPending, show shutdownCall = .alreadyTerminated from hal] at hstill

theorem Orderly.terminates (h : w.Orderly) (hsent : w.Sent .task) (ht : w.task = .running)
    (hs : w.shutdownCall = .notCalled) (error : SyncProcessFatalError ε) :
    ({ w.terminate .task error with task := .stopping .fatal } : SyncWorld ε).Orderly := by
  have hnever : ¬ w.Interrupted := fun hi => by
    simpa [ShutdownPending, hs] using h.interrupted hi
  have hrunning := h.running (by simp [TaskTerminated, ht]) (by simp [hs])
  refine h.terminal (.terminated ⟨w.arcs, error⟩) (w.arcs + 1) hsent hrunning rfl
    ?_ rfl rfl (.inl (.inl rfl)) (fun _ => ⟨_, rfl⟩) ?_ ?_ fun hi => absurd ?_ hnever
  · rintro a ⟨⟩
    exact Nat.lt_succ_self _
  · simp [ShutdownPending, terminate, update, hs]
  · simp [terminate, update, hs]
  · rcases hi with hi | hi | ⟨how, hhow, hw | hw⟩
    · exact .inl hi
    · exact .inr (.inl hi)
    · cases hw
      exact absurd rfl hhow
    · cases hw

theorem Orderly.finishes (h : w.Orderly) (hsent : w.Sent .controller) (hpending : w.ShutdownPending)
    (result : Except (SyncProcessFatalError ε) Unit) :
    ({ w.finish result with shutdownCall := .returned } : SyncWorld ε).Orderly := by
  have hreturned : w.shutdownCall ≠ .returned := fun hr => by
    simp [ShutdownPending, hr] at hpending
  have hnot := h.pending hpending
  have hrunning := h.running hnot hreturned
  cases result with
  | ok u =>
      exact h.terminal .shutdown w.arcs hsent hrunning rfl nofun rfl rfl (.inr rfl)
        (absurd · hnot) id nofun fun _ => rfl
  | error e =>
      refine h.terminal (.terminated ⟨w.arcs, e⟩) (w.arcs + 1) hsent hrunning rfl
        ?_ rfl rfl (.inr rfl) (absurd · hnot) id nofun fun _ => rfl
      rintro a ⟨⟩
      exact Nat.lt_succ_self _

theorem SyncMode.isStopped_of_reports {mode : SyncMode} {status : SyncStatus ε}
    (h : mode.reports status = true) : status.isStopped = false := by
  cases mode <;> cases status <;> simp_all [SyncMode.reports, SyncStatus.isStopped]

theorem orderly_step {i : SyncStep ε} (h : w.Orderly) (hintime : w.ShutsDownInTime i)
    (hmoves : w.Moves i w') : w'.Orderly := by
  cases hmoves with
  | starts hsent ht =>
      exact h.goesOn hsent hintime (by simp [TaskTerminated, ht]) rfl rfl (fun _ => ⟨nofun, nofun⟩)
        ⟨rfl, rfl, rfl⟩
  | reports hsent ht hreports =>
      exact h.goesOn hsent hintime (by simp [TaskTerminated, ht])
        (SyncMode.isStopped_of_reports hreports) rfl (fun _ => by simp [update, ht])
        ⟨rfl, rfl, rfl⟩
  | fails hsent ht error =>
      exact h.goesOn hsent hintime (by simp [TaskTerminated, ht]) rfl rfl (fun _ => ⟨nofun, nofun⟩)
        ⟨rfl, rfl, rfl⟩
  | restarts hsent ht =>
      exact h.goesOn hsent hintime (by simp [TaskTerminated, ht]) rfl rfl (fun _ => ⟨nofun, nofun⟩)
        ⟨rfl, rfl, rfl⟩
  | subscribes ht =>
      refine h.frame h.one rfl rfl (by simp [TaskTerminated, ht]) .rfl
        (fun _ => by simp [TaskTerminated]) (fun hal => ?_) fun hi => h.interrupted ?_
      · rcases h.already hal with hs | hs <;> simp [ht] at hs
      · refine hi.imp_right (Or.imp_right ?_)
        rintro ⟨how, -, hw | hw⟩ <;> cases hw
  | terminates hsent ht error => exact h.terminates hsent ht hintime error
  | receivesSignal ht hsignal =>
      have hnot : ¬ w.TaskTerminated := by rcases ht with ht | ht <;> simp [TaskTerminated, ht]
      exact h.frame h.one rfl rfl (by simpa [TaskTerminated] using hnot) .rfl
        (fun _ => by simp [TaskTerminated]) (fun hal => absurd (h.already hal) hnot)
        fun _ => h.interrupted (.inl hsignal)
  | taskSends hsend => exact h.sends hsend
  | controllerSends hsend => exact h.sends hsend
  | @taskEnds how ht =>
      have hsame : ({ w with task := .ended how } : SyncWorld ε).TaskTerminated ↔
          w.TaskTerminated := by simp [TaskTerminated, ht]
      refine h.frame h.one rfl rfl hsame .rfl (fun hp => hsame.not.mpr (h.pending hp))
        (fun hal => hsame.mpr (h.already hal)) fun hi => h.interrupted ?_
      refine hi.imp_right (Or.imp_right ?_)
      rintro ⟨how', hhow, hw | hw⟩
      · cases hw
      · cases hw
        exact ⟨how, hhow, .inl ht⟩
  | taskAborted haborted ht =>
      have hnot : ¬ w.TaskTerminated := by
        rintro (hs | hs) <;> simp [hs, SyncTask.canWait] at ht
      exact h.frame h.one rfl rfl (by simpa [TaskTerminated] using hnot) .rfl
        (fun _ => by simp [TaskTerminated]) (fun hal => absurd (h.already hal) hnot)
        fun _ => h.interrupted (.inr (.inl haborted))
  | shutdown hs => exact h.calls hintime hs
  | initiates hsent hs =>
      have hpending : w.ShutdownPending := by simp [ShutdownPending, hs]
      have hnot := h.pending hpending
      exact h.nonterminal hsent (h.running hnot (by simp [hs])) rfl rfl hnot nofun nofun
        fun _ => trivial
  | sendsSignal hs delivered =>
      refine h.proceeds (by simp [ShutdownPending, hs]) ?_
      cases delivered <;> simp [ShutdownPending]
  | joins hs ht => exact h.proceeds (by simp [ShutdownPending, hs]) (by simp [ShutdownPending])
  | timesOut hs => exact h.proceeds (by simp [ShutdownPending, hs]) (by simp [ShutdownPending])
  | aborts hs => exact h.proceeds (by simp [ShutdownPending, hs]) (by simp [ShutdownPending])
  | @finishes hsent result hs => exact h.finishes hsent (by simp [ShutdownPending, hs]) result

/-! ### Whole executions -/

/-- In time, nothing is stored over a stopped status. -/
theorem staysStopped_step {i : SyncStep ε} (h : w.Orderly) (hintime : w.ShutsDownInTime i)
    (hmoves : w.Moves i w') (hstopped : w.manager.status.isStopped = true) :
    w'.manager.status = w.manager.status := by
  rw [h.stopped] at hstopped
  have hstore (ht : ¬ w.TaskTerminated) (hs : w.shutdownCall ≠ .returned) :
      w'.manager.status = w.manager.status := absurd hstopped (not_or.mpr ⟨ht, hs⟩)
  cases hmoves with
  | starts hsent ht => exact hstore (by simp [TaskTerminated, ht]) hintime
  | reports hsent ht hreports => exact hstore (by simp [TaskTerminated, ht]) hintime
  | fails hsent ht error => exact hstore (by simp [TaskTerminated, ht]) hintime
  | restarts hsent ht => exact hstore (by simp [TaskTerminated, ht]) hintime
  | terminates hsent ht error =>
      have hs : w.shutdownCall = .notCalled := hintime
      exact hstore (by simp [TaskTerminated, ht]) (by simp [hs])
  | initiates hsent hs => exact hstore (h.pending (by simp [ShutdownPending, hs])) (by simp [hs])
  | finishes hsent hs => exact hstore (h.pending (by simp [ShutdownPending, hs])) (by simp [hs])
  | taskSends hsend => exact status_send hsend
  | controllerSends hsend => exact status_send hsend
  | _ => rfl

theorem Orderly.published (h : w.Orderly) (hdone : w.Done) :
    w.manager.published.countP SyncStatus.isStopped = 1 := by
  obtain ⟨hended, hpending, hsent⟩ := hdone
  refine published_eq h.one (h.stopped.mpr ?_) hsent
  cases ht : w.task with
  | ended how =>
      by_cases hfatal : how = .fatal
      · exact .inl (.inr (hfatal ▸ ht))
      · exact .inr ((h.interrupted (.inr (.inr ⟨how, hfatal, .inr ht⟩))).resolve_left hpending)
  | _ => simp [ht, SyncTask.isEnded] at hended

/-- The task has terminated by itself, but `shutdown` will still store its last status. -/
def Doomed (w : SyncWorld ε) : Prop :=
  w.ShutdownPending ∧ w.TaskTerminated ∧
    ∃ a, w.manager.status = .terminated a ∧ a.ptr < w.arcs

/-- An error that was allocated just now is in no status yet. -/
theorem terminated_breaks {p : Party} (hstopped : w.manager.status.isStopped = true)
    (hallocated : ∀ a, w.manager.status = .terminated a → a.ptr < w.arcs)
    (error : SyncProcessFatalError ε) :
    ¬ w.manager.StaysStopped SyncStatus.isStopped
      (w.manager.update SyncStatus.eq p (.terminated ⟨w.arcs, error⟩)) := by
  cases hs : w.manager.status with
  | terminated a =>
      have hne : a.ptr ≠ w.arcs := (hallocated a hs).ne
      refine update_breaks hstopped (by simpa [hs, SyncStatus.eq, Arc.ptrEq] using hne) ?_
      rw [hs]
      rintro ⟨⟩
      exact hne rfl
  | shutdown => exact update_breaks hstopped (by rw [hs]; rfl) (by rw [hs]; nofun)
  | _ => simp [hs, SyncStatus.isStopped] at hstopped

theorem doomed_step {i : SyncStep ε} (hmoves : w.Moves i w') (h : w.Doomed) :
    w'.Doomed ∨ ¬ w.manager.StaysStopped SyncStatus.isStopped w'.manager := by
  obtain ⟨hpending, hterminated, a, ha, hptr⟩ := h
  have hstopped : w.manager.status.isStopped = true := by rw [ha]; rfl
  have hnot {task : SyncTask} (ht : w.task = task) (hgoes : task ≠ .stopping .fatal ∧
      task ≠ .ended .fatal) : w'.Doomed ∨
      ¬ w.manager.StaysStopped SyncStatus.isStopped w'.manager := by
    subst ht
    exact absurd hterminated (not_or.mpr hgoes)
  cases hmoves with
  | starts hsent ht => exact hnot ht ⟨nofun, nofun⟩
  | subscribes ht => exact hnot ht ⟨nofun, nofun⟩
  | reports hsent ht hreports => exact hnot ht ⟨nofun, nofun⟩
  | fails hsent ht error => exact hnot ht ⟨nofun, nofun⟩
  | restarts hsent ht => exact hnot ht ⟨nofun, nofun⟩
  | terminates hsent ht error => exact hnot ht ⟨nofun, nofun⟩
  | receivesSignal ht hsignal => rcases ht with ht | ht <;> exact hnot ht ⟨nofun, nofun⟩
  | taskAborted haborted ht =>
      rcases hterminated with hs | hs <;> simp [hs, SyncTask.canWait] at ht
  | taskSends hsend => exact .inl ⟨hpending, hterminated, a, (status_send hsend).trans ha, hptr⟩
  | controllerSends hsend =>
      exact .inl ⟨hpending, hterminated, a, (status_send hsend).trans ha, hptr⟩
  | taskEnds ht =>
      refine .inl ⟨hpending, .inr ?_, a, ha, hptr⟩
      simpa [TaskTerminated, ht] using hterminated
  | shutdown hs => simp [ShutdownPending, hs] at hpending
  | initiates hsent hs =>
      exact .inr (update_running_breaks SyncStatus.isStopped_of_eq hstopped rfl)
  | sendsSignal hs delivered =>
      refine .inl ⟨?_, hterminated, a, ha, hptr⟩
      cases delivered <;> simp [ShutdownPending]
  | joins hs ht => exact .inl ⟨trivial, hterminated, a, ha, hptr⟩
  | timesOut hs => exact .inl ⟨trivial, hterminated, a, ha, hptr⟩
  | aborts hs => exact .inl ⟨trivial, hterminated, a, ha, hptr⟩
  | @finishes hsent result hs =>
      cases result with
      | ok u => exact .inr (update_breaks hstopped (by rw [ha]; rfl) (by rw [ha]; nofun))
      | error e =>
          refine .inr (terminated_breaks hstopped (fun b hb => ?_) e)
          rw [ha] at hb
          cases hb
          exact hptr

/-- A step that is not in time breaks a stopped status or dooms it to be broken. -/
theorem late_step {i : SyncStep ε} (h : w.Orderly) (hmoves : w.Moves i w')
    (hlate : ¬ w.ShutsDownInTime i) :
    w'.Doomed ∨ ¬ w.manager.StaysStopped SyncStatus.isStopped w'.manager := by
  have hover (status : SyncStatus ε) (hstatus : status.isStopped = false)
      (hs : w.shutdownCall = .returned) : ¬ w.manager.StaysStopped SyncStatus.isStopped
        (w.manager.update SyncStatus.eq .task status) :=
    update_running_breaks SyncStatus.isStopped_of_eq (h.stopped.mpr (.inr hs)) hstatus
  cases hmoves with
  | starts hsent ht => exact .inr (hover _ rfl (not_not.mp hlate))
  | reports hsent ht hreports =>
      exact .inr (hover _ (SyncMode.isStopped_of_reports hreports) (not_not.mp hlate))
  | fails hsent ht error => exact .inr (hover _ rfl (not_not.mp hlate))
  | restarts hsent ht => exact .inr (hover _ rfl (not_not.mp hlate))
  | terminates hsent ht error =>
      have hcalled : w.shutdownCall ≠ .notCalled := hlate
      have hnot : ¬ w.TaskTerminated := by simp [TaskTerminated, ht]
      by_cases hs : w.shutdownCall = .returned
      · exact .inr (terminated_breaks (h.stopped.mpr (.inr hs)) h.allocated error)
      · have hpending : w.ShutdownPending := by
          have halready : w.shutdownCall ≠ .alreadyTerminated := fun hal => hnot (h.already hal)
          unfold ShutdownPending
          cases hcall : w.shutdownCall <;> simp_all
        refine .inl ⟨hpending, .inl rfl, ⟨w.arcs, error⟩, ?_, Nat.lt_succ_self _⟩
        refine status_update_of_ne SyncStatus.isStopped_of_eq ?_
        rw [h.running hnot hs]
        exact Bool.false_ne_true
  | shutdown hs =>
      have ht : w.task = .stopping .fatal := not_not.mp hlate
      have hterminated : w.TaskTerminated := .inl ht
      obtain ⟨a, ha⟩ := h.byTask hterminated
      exact .inl ⟨by simp [ShutdownPending, ht, SyncTask.isEnded], hterminated, a, ha,
        h.allocated a ha⟩
  | _ => exact absurd trivial hlate

/-- When `shutdown` is in time, a stopped status stays and one is published; and an execution at
whose end `shutdown` is not under way does so only then. -/
theorem stopsOnce_iff {mode : SyncMode} {e : List (SyncStep ε × SyncWorld ε)}
    (hstart : (system mode).start w) (h : (system mode).Execution w e) :
    (System.Meets ShutsDownInTime w e → StopsOnce manager SyncStatus.isStopped Done w e) ∧
    (¬ (System.final w e).ShutdownPending → StopsOnce manager SyncStatus.isStopped Done w e →
      System.Meets ShutsDownInTime w e) := by
  have horderly : w.Orderly := by
    obtain rfl := hstart
    exact orderly_started mode
  have hstep (s : SyncWorld ε) (i : SyncStep ε) (s' : SyncWorld ε) (hs : s.Orderly)
      (hi : s.ShutsDownInTime i) (hss : (system mode).step s i s') : s'.Orderly :=
    orderly_step hs hi (moves_of_step hss)
  constructor
  · intro hintime
    have hinv := h.invariant hintime horderly hstep
    refine ⟨h.pairwise hinv hintime (fun _ _ => rfl) ?_, fun t ht =>
      ⟨published_le (hinv t ht).one, (hinv t ht).published⟩⟩
    intro s t i t' ht hi hs hst hstopped
    have hstatus := hst hstopped
    rw [staysStopped_step ht hi (moves_of_step hs) (hstatus ▸ hstopped), hstatus]
  · intro hsettled honce
    exact h.meets_of_settled Doomed (fun s => ¬ s.ShutdownPending) horderly hstep honce.1 hsettled
      (fun s hs hnot => hnot hs.1) (fun _ _ _ hs => doomed_step (moves_of_step hs))
      fun _ _ _ hs hss => late_step hs (moves_of_step hss)

end SyncWorld

/-! ### Both systems -/

/-- Stopped statuses are final, and one is published, as long as `abort` and `shutdown` are in
time; over executions at whose end neither is under way, only then. -/
theorem stopped_final_iff (mode : SyncMode) {b : BacktestWorld ε} {s : SyncWorld ε}
    {eb : List (BacktestStep ε × BacktestWorld ε)} {es : List (SyncStep ε × SyncWorld ε)}
    (hb : BacktestWorld.system.start b) (hbe : BacktestWorld.system.Execution b eb)
    (hs : (SyncWorld.system mode).start s) (hse : (SyncWorld.system mode).Execution s es) :
    ((System.Meets BacktestWorld.AbortsInTime b eb →
        StopsOnce BacktestWorld.manager BacktestStatus.isStopped BacktestWorld.Done b eb) ∧
      (¬ (System.final b eb).AbortPending →
        StopsOnce BacktestWorld.manager BacktestStatus.isStopped BacktestWorld.Done b eb →
        System.Meets BacktestWorld.AbortsInTime b eb)) ∧
    ((System.Meets SyncWorld.ShutsDownInTime s es →
        StopsOnce SyncWorld.manager SyncStatus.isStopped SyncWorld.Done s es) ∧
      (¬ (System.final s es).ShutdownPending →
        StopsOnce SyncWorld.manager SyncStatus.isStopped SyncWorld.Done s es →
        System.Meets SyncWorld.ShutsDownInTime s es)) :=
  ⟨BacktestWorld.stopsOnce_iff hb hbe, SyncWorld.stopsOnce_iff hs hse⟩

namespace BacktestWorld

def next (w : BacktestWorld ε) (i : BacktestStep ε) : BacktestWorld ε := (w.step i).getD w

theorem step_next (w : BacktestWorld ε) (i : BacktestStep ε) (h : (w.step i).isSome = true) :
    system.step w i (w.next i) := by
  obtain ⟨w', hw⟩ := Option.isSome_iff_exists.mp h
  rw [next, hw]
  exact hw

instance (w : BacktestWorld ε) : Decidable w.AbortDone := inferInstanceAs (Decidable (_ ∨ _))

instance (w : BacktestWorld ε) : ∀ i, Decidable (w.AbortsInTime i)
  | .abort => inferInstanceAs (Decidable (_ ≠ _))
  | .stops _ => inferInstanceAs (Decidable (_ = _))
  | .starts | .runs => inferInstanceAs (Decidable (¬ w.AbortDone))
  | .taskSends | .taskEnds | .taskAborted | .aborts | .publishesAborted | .controllerSends
  | .joins => inferInstanceAs (Decidable True)

/-- A backtest that runs when `abort` looks at it. -/
def abortedRun : List (BacktestStep ℕ) :=
  [.starts, .taskSends, .runs, .taskSends, .abort, .aborts, .publishesAborted, .controllerSends]

end BacktestWorld

namespace SyncWorld

def next (w : SyncWorld ε) (i : SyncStep ε) : SyncWorld ε := (w.step i).getD w

theorem step_next (mode : SyncMode) (w : SyncWorld ε) (i : SyncStep ε)
    (h : (w.step i).isSome = true) : (system mode).step w i (w.next i) := by
  obtain ⟨w', hw⟩ := Option.isSome_iff_exists.mp h
  rw [next, hw]
  exact hw

instance : ∀ c : SyncShutdownCall ε, Decidable (c = .returned)
  | .returned => isTrue rfl
  | .notCalled | .alreadyTerminated | .initiating | .signalling | .waiting | .aborting _
  | .finishing _ => isFalse nofun

instance : ∀ c : SyncShutdownCall ε, Decidable (c = .notCalled)
  | .notCalled => isTrue rfl
  | .returned | .alreadyTerminated | .initiating | .signalling | .waiting | .aborting _
  | .finishing _ => isFalse nofun

instance (w : SyncWorld ε) : ∀ i, Decidable (w.ShutsDownInTime i)
  | .shutdown => inferInstanceAs (Decidable (_ ≠ _))
  | .terminates _ => inferInstanceAs (Decidable (w.shutdownCall = .notCalled))
  | .starts | .reports _ | .fails _ | .restarts =>
    inferInstanceAs (Decidable (¬ w.shutdownCall = .returned))
  | .subscribes | .receivesSignal | .taskSends | .taskEnds | .taskAborted | .initiates
  | .sendsSignal _ | .joins | .timesOut | .aborts | .finishes | .controllerSends =>
    inferInstanceAs (Decidable True)

/-- A sync process that runs when `shutdown` looks at it. -/
def shutdownRun : List (SyncStep ℕ) :=
  [.starts, .taskSends, .subscribes, .reports (.notSynced .inProgress), .taskSends, .shutdown,
    .initiates, .controllerSends, .sendsSignal true]

end SyncWorld

theorem stopped_final_in_time :
    StopsOnce BacktestWorld.manager BacktestStatus.isStopped BacktestWorld.Done .started
      (System.trail BacktestWorld.next .started
        (BacktestWorld.abortedRun ++ [.taskAborted, .joins])) ∧
    StopsOnce SyncWorld.manager SyncStatus.isStopped SyncWorld.Done (.started .live)
      (System.trail SyncWorld.next (.started .live)
        (SyncWorld.shutdownRun ++ [.receivesSignal, .taskEnds, .joins, .finishes,
          .controllerSends])) :=
  have h := stopped_final_iff .live rfl
    (System.execution_trail BacktestWorld.step_next (by decide)) rfl
    (System.execution_trail (SyncWorld.step_next .live) (by decide))
  ⟨h.1.1 (by decide), h.2.1 (by decide)⟩

/-- A backtest that finishes after it was aborted, and a sync process that terminates after
`shutdown` found it running. -/
theorem stopped_statuses_change :
    (∃ e, BacktestWorld.system.Execution (.started : BacktestWorld ℕ) e ∧
      ¬ StopsOnce BacktestWorld.manager BacktestStatus.isStopped BacktestWorld.Done .started e) ∧
    ∃ e, (SyncWorld.system .live).Execution (.started .live : SyncWorld ℕ) e ∧
      ¬ StopsOnce SyncWorld.manager SyncStatus.isStopped SyncWorld.Done (.started .live) e := by
  constructor
  · refine ⟨_, System.execution_trail BacktestWorld.step_next
      (by decide : System.Along BacktestWorld.next (fun w i => (w.step i).isSome = true) .started
        (BacktestWorld.abortedRun ++ [.stops (.ok ()), .taskSends])), fun honce => ?_⟩
    have hstays := List.pairwise_iff_getElem.mp honce.1 7 9 (by decide) (by decide) (by decide)
    cases hstays rfl
  · refine ⟨_, System.execution_trail (SyncWorld.step_next .live)
      (by decide : System.Along SyncWorld.next (fun w i => (w.step i).isSome = true)
        (.started .live) (SyncWorld.shutdownRun ++ [.terminates (.syncPriceHistory 0), .taskSends,
          .taskEnds, .joins, .finishes])), fun honce => ?_⟩
    have hstays := List.pairwise_iff_getElem.mp honce.1 10 14 (by decide) (by decide) (by decide)
    have hshutdown := congrArg (SyncStatus.eq .shutdown) (hstays rfl)
    exact absurd hshutdown (by decide)

end Quantoxide
