import Quantoxide.Library.Executions
import Quantoxide.Model.TaskControllers

/-! # Stopped statuses of a manager

How many stopped statuses were sent or are about to be. -/

namespace Quantoxide.StatusManager

open Runs

variable {S : Type} {m m' : StatusManager S} {eq : S → S → Bool} {isStopped : S → Bool}
  {p : Party} {newStatus : S}

/-- The stopped statuses that were sent and those that wait to be sent. -/
def stoppedCount (isStopped : S → Bool) (m : StatusManager S) : ℕ :=
  m.published.countP isStopped + (m.sending .task).toList.countP isStopped +
    (m.sending .controller).toList.countP isStopped

/-- One stopped status was stored when the status is stopped, and none before. -/
def OneStop (isStopped : S → Bool) (m : StatusManager S) : Prop :=
  m.stoppedCount isStopped = if isStopped m.status then 1 else 0

/-- The relation between an earlier status and a later one. -/
def StaysStopped (isStopped : S → Bool) (earlier later : StatusManager S) : Prop :=
  isStopped earlier.status = true → later.status = earlier.status

theorem oneStop_new {status : S} (h : isStopped status = false) :
    (new status).OneStop isStopped := by
  simp [OneStop, stoppedCount, new, h]

theorem status_send (h : m.send p = some m') : m'.status = m.status := by
  obtain ⟨status, -, rfl⟩ := Option.map_eq_some_iff.mp h
  rfl

theorem stoppedCount_send (h : m.send p = some m') :
    m'.stoppedCount isStopped = m.stoppedCount isStopped := by
  obtain ⟨status, hs, rfl⟩ := Option.map_eq_some_iff.mp h
  cases p
  all_goals
    simp only [stoppedCount, hs, Function.update_self, ne_eq, reduceCtorEq, not_false_eq_true,
      Function.update_of_ne, Option.toList_none, Option.toList_some, List.countP_append,
      List.countP_nil, List.countP_singleton]
    omega

theorem OneStop.send (h : m.OneStop isStopped) (hsend : m.send p = some m') :
    m'.OneStop isStopped := by
  rw [OneStop, stoppedCount_send hsend, status_send hsend]
  exact h

theorem stoppedCount_store (hsent : m.sending p = none) :
    ({ m with status := newStatus, sending := Function.update m.sending p (some newStatus) } :
      StatusManager S).stoppedCount isStopped =
    m.stoppedCount isStopped + if isStopped newStatus then 1 else 0 := by
  cases p with
  | task =>
      simp only [stoppedCount, hsent, Function.update_self, ne_eq, reduceCtorEq, not_false_eq_true,
        Function.update_of_ne, Option.toList_none, Option.toList_some, List.countP_nil,
        List.countP_singleton]
      omega
  | controller =>
      simp only [stoppedCount, hsent, Function.update_self, ne_eq, reduceCtorEq, not_false_eq_true,
        Function.update_of_ne, Option.toList_none, Option.toList_some, List.countP_nil,
        List.countP_singleton]
      omega

/-- What a party stores while the status is not stopped counts once when it is stopped. -/
theorem OneStop.update (h : m.OneStop isStopped) (hrunning : isStopped m.status = false)
    (hsent : (m.sending p).isNone = true) : (m.update eq p newStatus).OneStop isStopped := by
  unfold StatusManager.update
  split
  · exact h
  · rw [OneStop, hrunning] at h
    rw [OneStop, stoppedCount_store (Option.isNone_iff_eq_none.mp hsent), h]
    simp

theorem isStopped_update (heq : ∀ a b, eq a b = true → isStopped a = isStopped b) :
    isStopped (m.update eq p newStatus).status = isStopped newStatus := by
  unfold StatusManager.update
  split
  · exact heq _ _ ‹_›
  · rfl

/-- The status is replaced unless the new one is equal to it. -/
theorem status_update (h : eq m.status newStatus = false) :
    (m.update eq p newStatus).status = newStatus := by
  rw [StatusManager.update, h]
  rfl

/-- A status of another kind replaces the stored one. -/
theorem status_update_of_ne (heq : ∀ a b, eq a b = true → isStopped a = isStopped b)
    (h : isStopped m.status ≠ isStopped newStatus) :
    (m.update eq p newStatus).status = newStatus :=
  status_update (Bool.eq_false_iff.mpr fun hsame => h (heq _ _ hsame))

/-- A stopped status does not stay when another one is stored over it. -/
theorem update_breaks (hstopped : isStopped m.status = true) (hne : eq m.status newStatus = false)
    (hnew : newStatus ≠ m.status) : ¬ m.StaysStopped isStopped (m.update eq p newStatus) := by
  intro hstays
  have hsame := hstays hstopped
  rw [status_update hne] at hsame
  exact hnew hsame

theorem update_running_breaks (heq : ∀ a b, eq a b = true → isStopped a = isStopped b)
    (hstopped : isStopped m.status = true) (hnew : isStopped newStatus = false) :
    ¬ m.StaysStopped isStopped (m.update eq p newStatus) := by
  refine update_breaks hstopped (Bool.eq_false_iff.mpr fun hsame => ?_) fun hsame => ?_
  · rw [heq _ _ hsame, hnew] at hstopped
    cases hstopped
  · rw [← hsame, hnew] at hstopped
    cases hstopped

theorem published_le (h : m.OneStop isStopped) : m.published.countP isStopped ≤ 1 := by
  unfold OneStop stoppedCount at h
  split at h <;> omega

theorem published_eq (h : m.OneStop isStopped) (hstopped : isStopped m.status = true)
    (hsent : ∀ p, (m.sending p).isNone = true) : m.published.countP isStopped = 1 := by
  simp only [Option.isNone_iff_eq_none] at hsent
  simpa [OneStop, stoppedCount, hsent, hstopped] using h

/-- Along an execution stopped statuses stay, at most one is published, and one is when the
parties are done. -/
def StopsOnce {σ ι : Type} (manager : σ → StatusManager S) (isStopped : S → Bool) (done : σ → Prop)
    (w : σ) (e : List (ι × σ)) : Prop :=
  (System.visited w e).Pairwise (fun a b => (manager a).StaysStopped isStopped (manager b)) ∧
  ∀ t ∈ System.visited w e, (manager t).published.countP isStopped ≤ 1 ∧
    (done t → (manager t).published.countP isStopped = 1)

end Quantoxide.StatusManager
