import Quantoxide.Library.Executions
import Quantoxide.Model.LiveExecutorProcess
import Quantoxide.Verification.Live.Renewal

/-! # Shutdown of the live executor

When the status stays unready once it says that the executor was shut down or terminated. -/

namespace Quantoxide

open Runs

variable {ε : Type}

namespace LiveTradeExecutorWorld

def system (shutdownCleanUpTrades : Bool) :
    System (LiveTradeExecutorWorld ε) (LiveTradeExecutorStep ε) where
  start w := ∃ isSynced, w = launched isSynced
  step w i w' := w.step shutdownCleanUpTrades i = some w'

def IsReady (w : LiveTradeExecutorWorld ε) : Prop := w.state.status = .ready

/-- The status is `ShutdownInitiated`, `Shutdown` or `Terminated`. -/
def IsUnrecoverable (w : LiveTradeExecutorWorld ε) : Prop :=
  ∃ status, w.state.status = .notReady status ∧ status.isUnrecoverable = true

/-- `shutdown` has published `ShutdownInitiated`. -/
def ShutdownBegun (w : LiveTradeExecutorWorld ε) : Prop :=
  match w.shutdown with
  | .notCalled | .alreadyTerminated | .initiating => False
  | _ => True

instance (w : LiveTradeExecutorWorld ε) : Decidable w.ShutdownBegun := by
  unfold ShutdownBegun
  split <;> infer_instance

/-- The status is not ready, and no operation has passed the check that it is. -/
def Refuses (w : LiveTradeExecutorWorld ε) : Prop := ¬ w.IsReady ∧ w.holder ≠ some .operator

/-- Once the status is unrecoverable, the executor refuses for good. -/
def ShutdownIsFinal (w : LiveTradeExecutorWorld ε)
    (e : List (LiveTradeExecutorStep ε × LiveTradeExecutorWorld ε)) : Prop :=
  (System.visited w e).Pairwise fun a b => a.IsUnrecoverable → b.Refuses

/-- A refresh that yields a session does so before `shutdown` has begun. -/
def RefreshesInTime (w : LiveTradeExecutorWorld ε) : LiveTradeExecutorStep ε → Prop
  | .evaluated _ (.ok _) => ¬ w.ShutdownBegun
  | _ => True

instance (w : LiveTradeExecutorWorld ε) : ∀ i, Decidable (w.RefreshesInTime i)
  | .evaluated _ (.ok _) => inferInstanceAs (Decidable (¬ w.ShutdownBegun))
  | .evaluated _ (.error _) | .recv _ | .refreshTimer | .processorLocks _ | .drained _
  | .processorAborted | .tryLockReadyState | .updateTradingSession _ | .unlock | .shutdown
  | .shutdownLocks _ | .abort | .cleanedUpTrades _ => inferInstanceAs (Decidable True)

/-! ### The steps -/

variable {w w' : LiveTradeExecutorWorld ε} {now : ℤ} {cleanUp : Bool}

/-- What each step needs and leaves. -/
inductive Moves (cleanUp : Bool) (w : LiveTradeExecutorWorld ε) :
    LiveTradeExecutorStep ε → LiveTradeExecutorWorld ε → Prop
  | recv (hp : w.processor = .listening) (received : SyncReceived ε) :
      Moves cleanUp w (.recv received) (w.onReceived received)
  | idleTimer (hp : w.processor = .listening) : Moves cleanUp w .refreshTimer w
  | refreshTimer (hp : w.processor = .listening) :
      Moves cleanUp w .refreshTimer { w with shouldRefresh := false, processor := .lockingRefresh }
  | reportWait (hfree : w.holder = none) {status : SyncStatusNotSynced ε}
      (hp : w.processor = .reportingWait status) (now : ℤ) :
      Moves cleanUp w (.processorLocks now)
        { w.updateStatusNotReady now (.waitingForSync status) with processor := .listening }
  | reportLag (hfree : w.holder = none) {skipped : ℕ} (hp : w.processor = .reportingLag skipped)
      (now : ℤ) :
      Moves cleanUp w (.processorLocks now)
        { w.fail now (.syncRecvLagged skipped) with processor := .draining }
  | lockRefresh (hfree : w.holder = none) (hp : w.processor = .lockingRefresh) (now : ℤ) :
      Moves cleanUp w (.processorLocks now)
        { w with holder := some .refresh, processor := .refreshing }
  | terminate (hfree : w.holder = none) {error : ExecutorProcessFatalError ε}
      (hp : w.processor = .terminating error) (now : ℤ) :
      Moves cleanUp w (.processorLocks now) { w.terminate now error with processor := .ended }
  | drained (hp : w.processor = .draining) (closed : Bool) :
      Moves cleanUp w (.drained closed)
        { w with processor := if closed then .terminating .syncRecvClosed else .listening }
  | evaluated (hp : w.processor = .refreshing) (now : ℤ)
      (result : ActionResult ε (LiveTradingSession × List Trade)) :
      Moves cleanUp w (.evaluated now result) (w.onEvaluated now result)
  | processorAborted (haborted : w.aborted = true) (hp : w.processor.canWait = true) :
      Moves cleanUp w .processorAborted
        { w with processor := .ended
                 holder := if w.holder = some .refresh then none else w.holder }
  | refused (hfree : w.holder = none) : Moves cleanUp w .tryLockReadyState w
  | entered (hfree : w.holder = none) (hready : w.state.isReady = true) :
      Moves cleanUp w .tryLockReadyState { w with holder := some .operator }
  | updateTradingSession (hop : w.holder = some .operator) (session : LiveTradingSession) :
      Moves cleanUp w (.updateTradingSession session)
        { w.updateStatusReady session with holder := none }
  | unlock (hop : w.holder = some .operator) : Moves cleanUp w .unlock { w with holder := none }
  | shutdown (hs : w.shutdown = .notCalled) :
      Moves cleanUp w .shutdown
        { w with shutdown := if w.processor.isFinished then .alreadyTerminated else .initiating }
  | initiate (hfree : w.holder = none) (hs : w.shutdown = .initiating) (now : ℤ) :
      Moves cleanUp w (.shutdownLocks now)
        { w.updateStatusNotReady now .shutdownInitiated with shutdown := .aborting }
  | checkTrades (hfree : w.holder = none) (hs : w.shutdown = .checkingTrades) (now : ℤ) :
      Moves cleanUp w (.shutdownLocks now)
        { w with shutdown := if w.state.hasRegisteredRunningTrades then .cleaningUp
          else .finishing .shutdown }
  | finish (hfree : w.holder = none) {status : LiveTradeExecutorStatusNotReady ε}
      (hs : w.shutdown = .finishing status) (now : ℤ) :
      Moves cleanUp w (.shutdownLocks now)
        { w.updateStatusNotReady now status with shutdown := .returned }
  | abort (hs : w.shutdown = .aborting) :
      Moves cleanUp w .abort
        { w with aborted := true
                 shutdown := if cleanUp then .checkingTrades else .finishing .shutdown }
  | cleanedUp (hs : w.shutdown = .cleaningUp) (result : ActionResult ε Unit) :
      Moves cleanUp w (.cleanedUpTrades result) (w.onCleanedUp result)

theorem moves_processorLocks (hfree : w.holder = none)
    (hstep : w.onProcessorLocked now = some w') : w.Moves cleanUp (.processorLocks now) w' := by
  unfold onProcessorLocked at hstep
  cases hp : w.processor <;> simp only [hp, Option.some.injEq, reduceCtorEq] at hstep <;>
    subst hstep
  case reportingWait status => exact .reportWait hfree hp now
  case reportingLag skipped => exact .reportLag hfree hp now
  case lockingRefresh => exact .lockRefresh hfree hp now
  case terminating error => exact .terminate hfree hp now

theorem moves_shutdownLocks (hfree : w.holder = none)
    (hstep : w.onShutdownLocked now = some w') : w.Moves cleanUp (.shutdownLocks now) w' := by
  unfold onShutdownLocked at hstep
  cases hs : w.shutdown <;> simp only [hs, Option.some.injEq, reduceCtorEq] at hstep <;>
    subst hstep
  case initiating => exact .initiate hfree hs now
  case checkingTrades => exact .checkTrades hfree hs now
  case finishing status => exact .finish hfree hs now

theorem moves_of_step {i : LiveTradeExecutorStep ε} (hstep : w.step cleanUp i = some w') :
    w.Moves cleanUp i w' := by
  cases i with
  | recv received =>
      cases hp : w.processor <;> simp only [step, hp, Option.some.injEq, reduceCtorEq] at hstep
      subst hstep
      exact .recv hp received
  | refreshTimer =>
      cases hp : w.processor <;> simp only [step, hp, Option.some.injEq, reduceCtorEq] at hstep
      subst hstep
      cases hr : w.shouldRefresh
      · simpa using Moves.idleTimer hp
      · simpa using Moves.refreshTimer hp
  | processorLocks now =>
      simp only [step, Option.ite_none_right_eq_some] at hstep
      exact moves_processorLocks hstep.1 hstep.2
  | drained closed =>
      cases hp : w.processor <;> simp only [step, hp, Option.some.injEq, reduceCtorEq] at hstep
      subst hstep
      exact .drained hp closed
  | evaluated now result =>
      cases hp : w.processor <;> simp only [step, hp, Option.some.injEq, reduceCtorEq] at hstep
      subst hstep
      exact .evaluated hp now result
  | processorAborted =>
      simp only [step, Option.ite_none_right_eq_some, Bool.and_eq_true, Option.some.injEq] at hstep
      obtain ⟨⟨haborted, hp⟩, rfl⟩ := hstep
      exact .processorAborted haborted hp
  | tryLockReadyState =>
      simp only [step, Option.ite_none_right_eq_some, Option.some.injEq] at hstep
      obtain ⟨hfree, rfl⟩ := hstep
      cases hr : w.state.isReady
      · simpa using Moves.refused hfree
      · simpa using Moves.entered hfree hr
  | updateTradingSession session =>
      simp only [step, Option.ite_none_right_eq_some, Option.some.injEq] at hstep
      obtain ⟨hop, rfl⟩ := hstep
      exact .updateTradingSession hop session
  | unlock =>
      simp only [step, Option.ite_none_right_eq_some, Option.some.injEq] at hstep
      obtain ⟨hop, rfl⟩ := hstep
      exact .unlock hop
  | shutdown =>
      cases hs : w.shutdown <;> simp only [step, hs, Option.some.injEq, reduceCtorEq] at hstep
      subst hstep
      exact .shutdown hs
  | shutdownLocks now =>
      simp only [step, Option.ite_none_right_eq_some] at hstep
      exact moves_shutdownLocks hstep.1 hstep.2
  | abort =>
      cases hs : w.shutdown <;> simp only [step, hs, Option.some.injEq, reduceCtorEq] at hstep
      subst hstep
      exact .abort hs
  | cleanedUpTrades result =>
      cases hs : w.shutdown <;> simp only [step, hs, Option.some.injEq, reduceCtorEq] at hstep
      subst hstep
      exact .cleanedUp hs result

/-! ### The writes -/

variable (w now) in
theorem status_updateStatusNotReady (status : LiveTradeExecutorStatusNotReady ε) :
    ∃ current, (w.updateStatusNotReady now status).state.status = .notReady current ∧
      current.isUnrecoverable = status.isUnrecoverable := by
  simp only [updateStatusNotReady, LiveTradeExecutorState.updateStatusNotReady]
  cases hs : w.state.status with
  | ready => exact ⟨status, rfl, rfl⟩
  | notReady current =>
      by_cases heq : current.eq status = true
      · simp only [heq, if_true]
        exact ⟨current, hs, LiveTradeExecutorStatusNotReady.isUnrecoverable_of_eq heq⟩
      · simp only [heq, if_false, Bool.false_eq_true]
        exact ⟨status, rfl, rfl⟩

@[simp] theorem updateStatusNotReady_isReady (status : LiveTradeExecutorStatusNotReady ε) :
    ¬ (w.updateStatusNotReady now status).IsReady := by
  obtain ⟨current, hcurrent, -⟩ := status_updateStatusNotReady w now status
  rw [IsReady, hcurrent]
  nofun

@[simp] theorem updateStatusNotReady_isUnrecoverable (status : LiveTradeExecutorStatusNotReady ε) :
    (w.updateStatusNotReady now status).IsUnrecoverable ↔ status.isUnrecoverable = true := by
  obtain ⟨current, hcurrent, hkind⟩ := status_updateStatusNotReady w now status
  simp [IsUnrecoverable, hcurrent, hkind]

@[simp] theorem updateStatusReady_isReady (session : LiveTradingSession) :
    (w.updateStatusReady session).IsReady := rfl

theorem IsUnrecoverable.not_isReady (h : w.IsUnrecoverable) : ¬ w.IsReady := by
  obtain ⟨status, hs, -⟩ := h
  rw [IsReady, hs]
  nofun

/-! ### The order of the parties -/

/-- `shutdown` has begun or the task has ended. -/
def Over (w : LiveTradeExecutorWorld ε) : Prop := w.ShutdownBegun ∨ w.processor = .ended

/-- Who keeps the lock, and what the status can be by then. -/
structure Orderly (w : LiveTradeExecutorWorld ε) : Prop where
  operator : w.holder = some .operator → w.IsReady
  refreshing : w.processor = .refreshing ↔ w.holder = some .refresh
  aborted : w.aborted = true → w.ShutdownBegun
  unrecoverable : w.IsUnrecoverable → w.Over
  unready : w.Over → ¬ w.IsReady

theorem orderly_launched (isSynced : Bool) :
    (launched isSynced : LiveTradeExecutorWorld ε).Orderly where
  operator := nofun
  refreshing := by simp [launched]
  aborted := nofun
  unrecoverable h := by
    obtain ⟨status, hs, hu⟩ := h
    obtain rfl : .starting = status := by simpa [launched] using hs
    cases hu
  unready h := by simp [IsReady, launched]

theorem Orderly.not_refreshing (h : w.Orderly) (hfree : w.holder = none) :
    w.processor ≠ .refreshing := by
  rw [Ne, h.refreshing, hfree]
  nofun

/-- A step that moves a party but neither writes the status nor takes or releases the lock. -/
theorem Orderly.frame (h : w.Orderly) (hstate : w'.state = w.state) (hholder : w'.holder = w.holder)
    (hrefreshing : w'.processor = .refreshing ↔ w.processor = .refreshing)
    (hended : w'.processor = .ended ↔ w.processor = .ended) (haborted : w'.aborted = w.aborted)
    (hbegun : w'.ShutdownBegun ↔ w.ShutdownBegun) : w'.Orderly := by
  have hready : w'.IsReady ↔ w.IsReady := by rw [IsReady, IsReady, hstate]
  have hunrecoverable : w'.IsUnrecoverable ↔ w.IsUnrecoverable := by
    rw [IsUnrecoverable, IsUnrecoverable, hstate]
  have hover : w'.Over ↔ w.Over := or_congr hbegun hended
  constructor
  · rw [hholder, hready]
    exact h.operator
  · rw [hrefreshing, hholder]
    exact h.refreshing
  · rw [haborted, hbegun]
    exact h.aborted
  · rw [hunrecoverable, hover]
    exact h.unrecoverable
  · rw [hover, hready]
    exact h.unready

/-- A status that is not ready, written while nobody keeps the lock. -/
theorem Orderly.written (h : w.Orderly) (status : LiveTradeExecutorStatusNotReady ε)
    (hready : ¬ w'.IsReady) (hstatus : w'.IsUnrecoverable ↔ status.isUnrecoverable = true)
    (hholder : w'.holder = none) (hrefreshing : w'.processor ≠ .refreshing)
    (haborted : w'.aborted = w.aborted) (hbegun : w.ShutdownBegun → w'.ShutdownBegun)
    (hover : status.isUnrecoverable = true → w'.Over) : w'.Orderly where
  operator hop := by simp [hholder] at hop
  refreshing := by simp [hholder, hrefreshing]
  aborted hab := hbegun (h.aborted (haborted ▸ hab))
  unrecoverable hu := hover (hstatus.mp hu)
  unready _ := hready

/-- A session stored by the holder of the lock, while the executor is not over. -/
theorem Orderly.stored (h : w.Orderly) (hover : ¬ w.Over) (hready : w'.IsReady)
    (hholder : w'.holder = none) (hrefreshing : w'.processor ≠ .refreshing)
    (hended : w'.processor ≠ .ended) (haborted : w'.aborted = w.aborted)
    (hbegun : w'.ShutdownBegun ↔ w.ShutdownBegun) : w'.Orderly where
  operator hop := by simp [hholder] at hop
  refreshing := by simp [hholder, hrefreshing]
  aborted hab := hbegun.mpr (h.aborted (haborted ▸ hab))
  unrecoverable hu := absurd hready hu.not_isReady
  unready hw := by
    rcases hw with hb | he
    · exact absurd (.inl (hbegun.mp hb)) hover
    · exact absurd he hended

theorem orderly_onReceived (h : w.Orderly) (hp : w.processor = .listening)
    (received : SyncReceived ε) : (w.onReceived received).Orderly := by
  cases received with
  | lagged skipped =>
      exact h.frame rfl rfl (by simp [onReceived, hp]) (by simp [onReceived, hp]) rfl .rfl
  | closed => exact h.frame rfl rfl (by simp [onReceived, hp]) (by simp [onReceived, hp]) rfl .rfl
  | update update =>
      cases update with
      | status status =>
          cases status <;>
            exact h.frame rfl rfl (by simp [onReceived, hp]) (by simp [onReceived, hp]) rfl .rfl
      | priceTick => exact h.frame rfl rfl .rfl .rfl rfl .rfl
      | priceHistoryState => exact h.frame rfl rfl .rfl .rfl rfl .rfl
      | fundingSettlementsState => exact h.frame rfl rfl .rfl .rfl rfl .rfl

theorem orderly_evaluated (h : w.Orderly) (hp : w.processor = .refreshing)
    {result : ActionResult ε (LiveTradingSession × List Trade)}
    (hintime : w.RefreshesInTime (.evaluated now result)) : (w.onEvaluated now result).Orderly := by
  cases result with
  | error e =>
      exact h.written (.failed ⟨w.arcs, .liveTradeSessionEvaluation e⟩)
        (updateStatusNotReady_isReady _) (updateStatusNotReady_isUnrecoverable _) rfl nofun rfl id
        nofun
  | ok evaluated =>
      have hover : ¬ w.Over := by
        rintro (hb | he)
        · exact hintime hb
        · simp [hp] at he
      exact h.stored hover (updateStatusReady_isReady (w := w) _) rfl nofun nofun rfl .rfl

/-- An aborted refresh releases the lock; an operator keeps it. -/
theorem orderly_processorAborted (h : w.Orderly) (hab : w.aborted = true) :
    ({ w with processor := .ended
              holder := if w.holder = some .refresh then none else w.holder } :
      LiveTradeExecutorWorld ε).Orderly where
  operator hop := by
    by_cases hr : w.holder = some .refresh
    · simp [hr] at hop
    · exact h.operator (by simpa [hr] using hop)
  refreshing := by
    by_cases hr : w.holder = some .refresh <;> simp [hr]
  aborted := h.aborted
  unrecoverable _ := .inr rfl
  unready _ := h.unready (.inl (h.aborted hab))

theorem orderly_entered (h : w.Orderly) (hfree : w.holder = none)
    (hready : w.state.isReady = true) :
    ({ w with holder := some .operator } : LiveTradeExecutorWorld ε).Orderly where
  operator _ := by
    unfold LiveTradeExecutorState.isReady at hready
    cases hs : w.state.status with
    | ready => exact hs
    | notReady status => simp [hs] at hready
  refreshing := by simpa using h.not_refreshing hfree
  aborted := h.aborted
  unrecoverable := h.unrecoverable
  unready := h.unready

theorem orderly_step {i : LiveTradeExecutorStep ε} (h : w.Orderly) (hintime : w.RefreshesInTime i)
    (hmoves : w.Moves cleanUp i w') : w'.Orderly := by
  cases hmoves with
  | recv hp received => exact orderly_onReceived h hp received
  | idleTimer hp => exact h
  | refreshTimer hp => exact h.frame rfl rfl (by simp [hp]) (by simp [hp]) rfl .rfl
  | @reportWait hfree status hp now =>
      exact h.written (.waitingForSync status) (updateStatusNotReady_isReady _)
        (updateStatusNotReady_isUnrecoverable _) hfree nofun rfl id nofun
  | @reportLag hfree skipped hp now =>
      exact h.written (.failed ⟨w.arcs, .syncRecvLagged skipped⟩)
        (updateStatusNotReady_isReady _) (updateStatusNotReady_isUnrecoverable _) hfree nofun rfl
        id nofun
  | @terminate hfree error hp now =>
      exact h.written (.terminated ⟨w.arcs, error⟩)
        (updateStatusNotReady_isReady _) (updateStatusNotReady_isUnrecoverable _) hfree nofun rfl
        id fun _ => .inr rfl
  | lockRefresh hfree hp now =>
      refine ⟨nofun, by simp, h.aborted, fun hu => ?_, fun hover => ?_⟩
      · exact .inl ((h.unrecoverable hu).resolve_right (by simp [hp]))
      · exact h.unready (hover.imp_right nofun)
  | drained hp closed =>
      cases closed <;> exact h.frame rfl rfl (by simp [hp]) (by simp [hp]) rfl .rfl
  | evaluated hp now result => exact orderly_evaluated h hp hintime
  | processorAborted haborted hp => exact orderly_processorAborted h haborted
  | refused hfree => exact h
  | entered hfree hready => exact orderly_entered h hfree hready
  | updateTradingSession hop session =>
      have hover : ¬ w.Over := fun hover => h.unready hover (h.operator hop)
      have hrefreshing : w.processor ≠ .refreshing := by simp [h.refreshing, hop]
      exact h.stored hover (updateStatusReady_isReady (w := w) _) rfl hrefreshing
        (fun he => hover (.inr he)) rfl .rfl
  | unlock hop => exact ⟨nofun, by simp [h.refreshing, hop], h.aborted, h.unrecoverable, h.unready⟩
  | shutdown hs =>
      refine h.frame rfl rfl .rfl .rfl rfl ?_
      cases hf : w.processor.isFinished <;> simp [ShutdownBegun, hs]
  | initiate hfree hs now =>
      exact h.written .shutdownInitiated (updateStatusNotReady_isReady _)
        (updateStatusNotReady_isUnrecoverable _) hfree (h.not_refreshing hfree) rfl
        (fun _ => trivial) fun _ => .inl trivial
  | checkTrades hfree hs now =>
      refine h.frame rfl rfl .rfl .rfl rfl ?_
      cases hr : w.state.hasRegisteredRunningTrades <;> simp [ShutdownBegun, hs]
  | @finish hfree status hs now =>
      exact h.written status (updateStatusNotReady_isReady _)
        (updateStatusNotReady_isUnrecoverable _) hfree (h.not_refreshing hfree) rfl
        (fun _ => trivial) fun _ => .inl trivial
  | abort hs =>
      have hbegun : w.ShutdownBegun := by simp [ShutdownBegun, hs]
      refine ⟨h.operator, h.refreshing, fun _ => ?_, fun _ => ?_, fun _ => h.unready (.inl hbegun)⟩
      · cases cleanUp <;> simp [ShutdownBegun]
      · cases cleanUp <;> exact .inl (by simp [ShutdownBegun])
  | cleanedUp hs result =>
      cases result <;> exact h.frame rfl rfl .rfl .rfl rfl
        (by simp [onCleanedUp, alloc, ShutdownBegun, hs])

/-! ### Whole executions -/

theorem shutdown_onReceived (received : SyncReceived ε) :
    (w.onReceived received).shutdown = w.shutdown := by
  unfold onReceived
  split <;> rfl

theorem shutdown_onEvaluated (result : ActionResult ε (LiveTradingSession × List Trade)) :
    (w.onEvaluated now result).shutdown = w.shutdown := by
  cases result <;> rfl

/-- Only the call of `shutdown` makes it begin, and it publishes that it has. -/
theorem shutdownBegun_step {i : LiveTradeExecutorStep ε} (hmoves : w.Moves cleanUp i w') :
    (w.ShutdownBegun → w'.ShutdownBegun) ∧
      (w'.ShutdownBegun → w.ShutdownBegun ∨ w'.IsUnrecoverable) := by
  have hsame (hs : w'.shutdown = w.shutdown) : (w.ShutdownBegun → w'.ShutdownBegun) ∧
      (w'.ShutdownBegun → w.ShutdownBegun ∨ w'.IsUnrecoverable) := by
    unfold ShutdownBegun
    rw [hs]
    exact ⟨id, .inl⟩
  cases hmoves with
  | recv hp received => exact hsame (shutdown_onReceived received)
  | evaluated hp now result => exact hsame (shutdown_onEvaluated result)
  | shutdown hs => cases hf : w.processor.isFinished <;> simp [ShutdownBegun, hs]
  | initiate hfree hs now =>
      exact ⟨fun _ => trivial, fun _ => .inr ((updateStatusNotReady_isUnrecoverable _).mpr rfl)⟩
  | checkTrades hfree hs now =>
      cases hr : w.state.hasRegisteredRunningTrades <;> simp [ShutdownBegun, hs]
  | finish hfree hs now => exact ⟨fun _ => trivial, fun _ => .inl (by simp [ShutdownBegun, hs])⟩
  | abort hs => cases cleanUp <;> simp [ShutdownBegun, hs]
  | cleanedUp hs result => cases result <;> simp [ShutdownBegun, hs, onCleanedUp]
  | _ => exact hsame rfl

/-- A task that has ended stays so. -/
theorem ended_step {i : LiveTradeExecutorStep ε} (hmoves : w.Moves cleanUp i w')
    (h : w.processor = .ended) : w'.processor = .ended := by
  cases hmoves with
  | recv hp received => simp [h] at hp
  | idleTimer hp => exact h
  | refreshTimer hp => simp [h] at hp
  | drained hp closed => simp [h] at hp
  | evaluated hp now result => simp [h] at hp
  | cleanedUp hs result => cases result <;> exact h
  | lockRefresh hfree hp now => simp [h] at hp
  | reportWait hfree hp now => simp [h] at hp
  | reportLag hfree hp now => simp [h] at hp
  | _ => first | exact h | rfl

theorem over_step {i : LiveTradeExecutorStep ε} (hmoves : w.Moves cleanUp i w') (h : w.Over) :
    w'.Over := h.imp (shutdownBegun_step hmoves).1 (ended_step hmoves)

theorem Orderly.refuses (h : w.Orderly) (hover : w.Over) : w.Refuses :=
  ⟨h.unready hover, fun hop => h.unready hover (h.operator hop)⟩

/-- The executor refuses for good once its status is unrecoverable exactly when no refresh ends
with a session after `shutdown` has begun. -/
theorem shutdown_final_iff {e : List (LiveTradeExecutorStep ε × LiveTradeExecutorWorld ε)}
    (hstart : (system cleanUp).start w) (h : (system cleanUp).Execution w e) :
    ShutdownIsFinal w e ↔ System.Meets RefreshesInTime w e := by
  obtain ⟨isSynced, rfl⟩ := hstart
  constructor
  · intro hfinal
    refine h.meets ShutdownBegun (fun w => ¬ w.IsReady)
      (fun _ hu => hu.not_isReady) (hfinal.imp fun hrefuses hu => (hrefuses hu).1) nofun
      (fun _ _ _ hs => (shutdownBegun_step (moves_of_step hs)).2) ?_
    intro s i s' hs hlate
    cases moves_of_step hs with
    | evaluated hp now result =>
        cases result with
        | error e => exact absurd trivial hlate
        | ok evaluated =>
            have hready : (s.onEvaluated now (.ok evaluated)).IsReady := rfl
            exact ⟨not_not.mp hlate, not_not.mpr hready⟩
    | _ => exact absurd trivial hlate
  · intro hintime
    have horderly := h.invariant hintime (orderly_launched isSynced)
      fun _ _ _ hw hi hs => orderly_step hw hi (moves_of_step hs)
    exact h.announced horderly (fun _ _ _ hs => over_step (moves_of_step hs))
      (fun _ hw => hw.unrecoverable) fun _ hw => hw.refuses

/-! ### A refresh that overtakes the abort -/

/-- The state after a step, when the step can be taken. -/
def next (cleanUp : Bool) (w : LiveTradeExecutorWorld ε) (i : LiveTradeExecutorStep ε) :
    LiveTradeExecutorWorld ε := (w.step cleanUp i).getD w

theorem step_next (w : LiveTradeExecutorWorld ε) (i : LiveTradeExecutorStep ε)
    (h : (w.step cleanUp i).isSome = true) : (system cleanUp).step w i (w.next cleanUp i) := by
  obtain ⟨w', hw⟩ := Option.isSome_iff_exists.mp h
  rw [next, hw]
  exact hw

/-- The timer of a synced executor fires and its refresh takes the lock. -/
def refreshSteps : List (LiveTradeExecutorStep Refusal) :=
  [.processorLocks 0, .evaluated 0 (.ok (LiveTradingSession.heldSession true, []))]

/-- The session is refreshed and an operation is served before the shutdown. -/
def servedThenShutdown : List (LiveTradeExecutorStep Refusal) :=
  .refreshTimer :: refreshSteps ++ [.tryLockReadyState, .shutdown, .unlock, .shutdownLocks 1,
    .abort, .processorAborted, .shutdownLocks 1, .tryLockReadyState]

theorem shutdown_final_served :
    ShutdownIsFinal (launched true)
      (System.trail (next false) (launched true) servedThenShutdown) :=
  (shutdown_final_iff ⟨true, rfl⟩
    (System.execution_trail step_next (by decide))).mpr (by decide)

/-- The refresh waits for the lock until `shutdown` has published that it was initiated, and ends
before the abort. -/
def refreshedAfterShutdown : List (LiveTradeExecutorStep Refusal) :=
  [.refreshTimer, .shutdown, .shutdownLocks 0] ++ refreshSteps ++ [.tryLockReadyState]

theorem refresh_revives_executor :
    ∃ e, (system false).Execution (launched true : LiveTradeExecutorWorld Refusal) e ∧
      ¬ ShutdownIsFinal (launched true) e := by
  refine ⟨_, System.execution_trail step_next
    (by decide : System.Along (next false) (fun w i => (w.step false i).isSome = true)
      (launched true) refreshedAfterShutdown), ?_⟩
  intro hfinal
  have hrefuses := List.pairwise_iff_getElem.mp hfinal 3 6 (by decide) (by decide) (by decide)
  exact (hrefuses ⟨.shutdownInitiated, rfl, rfl⟩).1 rfl

end LiveTradeExecutorWorld

end Quantoxide
