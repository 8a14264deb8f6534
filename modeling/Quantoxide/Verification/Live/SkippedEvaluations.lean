import Quantoxide.Verification.Live.System
import Quantoxide.Verification.Live.Trigger

/-! # Evaluations that the trigger skips

Registrations narrow the trigger of the session, updates and closures rebuild it. It is always
the one of the running trades, so that an evaluation it skips would have found nothing. -/

namespace Quantoxide.Live

open LiveTradingSession PriceTrigger Result

variable {ε : Type} {sdk : LnmSdk ε} {session s' : LiveTradingSession} {t : Trade}
  {tsl : Option TradeTrailingStoploss}

/-- The trigger of the session is the one of its running trades. -/
def Summarised (sdk : LnmSdk ε) (session : LiveTradingSession) : Prop :=
  ofEntries sdk session.tslStepSize session.runningMap.tradesDesc = .ok session.trigger

/-! ### One more trade -/

theorem tradesDesc_add_perm {m : DynRunningTradesMap} (hm : m.Consistent) (hnew : t.id ∉ m.ids) :
    (m.tradesDesc ++ [(t, tsl)]).Perm (m.add t tsl).tradesDesc := by
  have hnodup : m.tradesDesc.Nodup := List.Nodup.of_map _ hm.nodup
  have hnotMem : (t, tsl) ∉ m.tradesDesc := by
    intro hmem
    exact hnew (DynRunningTradesMap.mem_ids_of_mem hmem)
  apply (List.perm_ext_iff_of_nodup ?_ ?_).mpr
  · intro e
    rw [hm.mem_add hnew, List.mem_append, List.mem_singleton]
  · exact List.nodup_append.mpr ⟨hnodup, List.nodup_singleton _, fun a ha b hb hab =>
      hnotMem (by rw [← List.mem_singleton.mp hb, ← hab]; exact ha)⟩
  · exact List.Nodup.of_map _ (hm.add hnew).nodup

theorem ofEntries_add {m : DynRunningTradesMap} {step : PercentageCapped}
    {trigger trigger' : PriceTrigger} (hm : m.Consistent) (hnew : t.id ∉ m.ids)
    (h : ofEntries sdk step m.tradesDesc = .ok trigger)
    (hupdate : trigger.update sdk step t.asRunning tsl = .ok trigger') :
    ofEntries sdk step (m.add t tsl).tradesDesc = .ok trigger' := by
  apply ofEntries_perm (tradesDesc_add_perm hm hnew)
  unfold ofEntries at h ⊢
  rw [List.foldlM_append, bind_eq_ok]
  refine ⟨trigger, h, ?_⟩
  rw [List.foldlM_cons, bind_eq_ok]
  exact ⟨trigger', hupdate, rfl⟩

theorem summarised_empty (hmap : session.runningMap = .new) (htrigger : session.trigger = .notSet) :
    Summarised sdk session := by
  unfold Summarised
  rw [hmap, htrigger]
  rfl

/-! ### The operations -/

theorem summarised_register {updateBalance : Bool} (hs : session.Sound sdk)
    (h : Summarised sdk session)
    (hregister : session.registerRunningTrade sdk t tsl updateBalance = .ok s') :
    Summarised sdk s' := by
  obtain ⟨-, hunknown, trigger, balance, htrigger, rfl⟩ := registerRunningTrade_eq_ok hregister
  exact ofEntries_add hs.consistent (hs.consistent.contains_eq_false.mp hunknown) h htrigger

theorem summarised_update {updated : OrdMap Uuid Trade} (hs : session.Sound sdk)
    (hkeyed : Keyed updated) (h : Summarised sdk session)
    (hupdate : session.updateRunningTrades sdk updated = .ok s') : Summarised sdk s' := by
  unfold LiveTradingSession.updateRunningTrades at hupdate
  by_cases hempty : updated.isEmpty
  · rw [if_pos hempty] at hupdate
    obtain rfl := Except.ok.inj hupdate
    exact h
  · rw [if_neg hempty, bind_eq_ok] at hupdate
    obtain ⟨pass, hpass, hupdate⟩ := hupdate
    split_ifs at hupdate
    obtain rfl := pure_eq_ok.mp hupdate
    refine (foldlM_invariant (P := fun done (acc : UpdatePass) =>
      acc.Over sdk session.tslStepSize updated done ∧
        ofEntries sdk session.tslStepSize acc.runningMap.tradesDesc = .ok acc.trigger)
      hpass ⟨UpdatePass.Over.start rfl rfl, rfl⟩ ?_).2
    intro done e rest acc acc' hes hacc hstep
    have hnew := notMem_done hs.consistent hes
    refine ⟨hacc.1.step hkeyed hnew hstep, ?_⟩
    obtain ⟨htrigger, hmap, -⟩ := updateOne_eq_ok hstep
    rw [hacc.1.rewritten_pending hnew] at htrigger hmap
    rw [hmap]
    exact ofEntries_add hacc.1.consistent (hacc.1.fresh hkeyed hnew) hacc.2 htrigger

theorem closeOne_trigger {step : PercentageCapped} {acc acc' : ClosePass} {e : TradeEntry}
    (h : closeOne sdk step acc e = .ok acc') :
    (acc'.runningMap = acc.runningMap ∧ acc'.trigger = acc.trigger) ∨
      (acc'.runningMap = acc.runningMap.add e.1 e.2 ∧
        acc.trigger.update sdk step e.1.asRunning e.2 = .ok acc'.trigger) := by
  cases hget : acc.closedMap.get e.1.id with
  | none =>
      simp only [closeOne, hget, bind_eq_ok, mapError_eq_ok, pure_eq_ok] at h
      obtain ⟨trigger, htrigger, rfl⟩ := h
      exact Or.inr ⟨rfl, htrigger⟩
  | some closedTrade =>
      simp only [closeOne, hget, bind_eq_ok, mapError_eq_ok, pure_eq_ok] at h
      obtain ⟨history, -, rfl⟩ := h
      refine Or.inl ⟨?_, ?_⟩
      · unfold realizeFunding
        split <;> rfl
      · unfold realizeFunding
        split <;> rfl

theorem summarised_close {closed : List Trade} (hs : session.Sound sdk)
    (h : Summarised sdk session) (hclose : session.closeTrades sdk closed = .ok s') :
    Summarised sdk s' := by
  unfold LiveTradingSession.closeTrades at hclose
  by_cases hempty : closed.isEmpty
  · rw [if_pos hempty] at hclose
    obtain rfl := Except.ok.inj hclose
    exact h
  · rw [if_neg hempty] at hclose
    simp only [bind_eq_ok, pure_eq_ok] at hclose
    obtain ⟨noted, hnoted, pass, hpass, rfl⟩ := hclose
    refine (foldlM_invariant (P := fun done (acc : ClosePass) =>
      acc.Over sdk session (tradesById closed) done ∧
        ofEntries sdk session.tslStepSize acc.runningMap.tradesDesc = .ok acc.trigger)
      hpass ⟨ClosePass.Over.start sdk session rfl (noteClosed_eq_ok hnoted).1 rfl rfl, rfl⟩ ?_).2
    intro done e rest acc acc' hes hacc hstep
    have hnew := notMem_done hs.consistent hes
    refine ⟨hacc.1.step (keyed_tradesById closed) hnew hstep, ?_⟩
    rcases closeOne_trigger hstep with ⟨hmap, htrigger⟩ | ⟨hmap, htrigger⟩
    · rw [hmap, htrigger]
      exact hacc.2
    · rw [hmap]
      exact ofEntries_add hacc.1.consistent (hacc.1.fresh hnew) hacc.2 htrigger

/-! ### A new session -/

theorem trigger_unrecovered {sources : SessionSources ε} {step : PercentageCapped}
    {prev : Option LiveTradingSession} (h : unrecovered sources step prev = .ok s') :
    s'.trigger = .notSet := by
  simp only [unrecovered, bind_eq_ok] at h
  obtain ⟨latest, -, entry, -, balance, -, raw, -, h⟩ := h
  cases prev with
  | none =>
      simp only [bind_eq_ok, pure_eq_ok] at h
      obtain ⟨cross, -, rfl⟩ := h
      rfl
  | some p =>
      simp only [bind_eq_ok, pure_eq_ok] at h
      obtain ⟨cross, -, rfl⟩ := h
      rfl

theorem trigger_reconcile {sources : SessionSources ε} {prev : LiveTradingSession}
    {runningTrades : List Trade}
    (h : prev.reconcile sources runningTrades session = .ok s') :
    s'.trigger = session.trigger := by
  obtain ⟨realizedPl, closedFees, closedHistory, fundingFees, lastTradeTime, rfl⟩ :=
    reconcile_writes h
  rfl

theorem summarised_recover {sources : SessionSources ε} {snapshot : OrdMap Uuid ℤ}
    {runningTrades : List Trade} (hs : session.Sound sdk) (h : Summarised sdk session)
    (hrecover : session.recoverTrades sdk sources snapshot runningTrades = .ok s') :
    Summarised sdk s' := by
  refine (recoverTrades_invariant (P := fun s => s.Sound sdk ∧ Summarised sdk s) ⟨hs, h⟩ ?_
    hrecover).2
  intro s fundingFees t tsl s'' hkept hregister
  have hsound : ({ s with fundingFees } : LiveTradingSession).Sound sdk :=
    ⟨hkept.1.consistent, hkept.1.bounds⟩
  exact ⟨(registers_of_ok hregister).sound hsound, summarised_register hsound hkept.2 hregister⟩

theorem summarised_new {recover : Bool} {step : PercentageCapped} {sources : SessionSources ε}
    {prev : Option LiveTradingSession}
    (h : LiveTradingSession.new sdk recover step sources prev = .ok s') :
    Summarised sdk s' := by
  simp only [LiveTradingSession.new, bind_eq_ok] at h
  obtain ⟨s, hs, h⟩ := h
  have hmap := (unrecovered_of_ok hs).runningMap
  have htrigger := trigger_unrecovered hs
  cases recover with
  | false =>
      simp only [Bool.not_false, if_true, pure_eq_ok] at h
      rw [← h]
      exact summarised_empty hmap htrigger
  | true =>
      simp only [Bool.not_true, Bool.false_eq_true, if_false, bind_eq_ok] at h
      obtain ⟨runningTrades, -, h⟩ := h
      cases prev with
      | none => exact summarised_recover (.of_empty hmap) (summarised_empty hmap htrigger) h
      | some p =>
          simp only [bind_eq_ok] at h
          obtain ⟨session, hsession, h⟩ := h
          have hmap' : session.runningMap = .new :=
            (reconciles_of_ok hsession).runningMap.trans hmap
          exact summarised_recover (.of_empty hmap')
            (summarised_empty hmap' ((trigger_reconcile hsession).trans htrigger)) h

/-! ### Every session -/

theorem summarised_replaceCrossPosition {raw : CrossPosition ε} (h : Summarised sdk session)
    (hop : session.replaceCrossPosition raw = .ok s') : Summarised sdk s' := by
  simp only [LiveTradingSession.replaceCrossPosition, bind_eq_ok, pure_eq_ok] at hop
  obtain ⟨cross, -, rfl⟩ := hop
  exact h

theorem summarised_perform {op : SessionOp ε} (hs : session.Sound sdk)
    (h : Summarised sdk session) (hop : op.perform sdk session = .ok s') :
    Summarised sdk s' := by
  cases op with
  | renew recover tslStepSize sources => exact summarised_new hop
  | registerRunningTrade trade tsl updateBalance => exact summarised_register hs h hop
  | updateRunningTrades updatedTrades =>
      exact summarised_update hs (keyed_tradesById updatedTrades) h hop
  | closeTrades closedTrades => exact summarised_close hs h hop
  | evaluated time price =>
      obtain rfl := Except.ok.inj hop
      exact h
  | replaceCrossPosition raw => exact summarised_replaceCrossPosition h hop
  | applyCrossDeposit amount raw =>
      simp only [SessionOp.perform, LiveTradingSession.applyCrossDeposit] at hop
      split_ifs at hop
      simp only [bind_eq_ok, pure_eq_ok] at hop
      obtain ⟨replaced, hreplaced, rfl⟩ := hop
      have hkept : Summarised sdk replaced := summarised_replaceCrossPosition h hreplaced
      exact hkept
  | applyCrossWithdraw amount raw =>
      simp only [SessionOp.perform, LiveTradingSession.applyCrossWithdraw, bind_eq_ok,
        pure_eq_ok] at hop
      obtain ⟨balance, -, replaced, hreplaced, rfl⟩ := hop
      have hkept : Summarised sdk replaced := summarised_replaceCrossPosition h hreplaced
      exact hkept
  | registerCrossOrder raw order =>
      simp only [SessionOp.perform, LiveTradingSession.registerCrossOrder, bind_eq_ok,
        pure_eq_ok] at hop
      obtain ⟨cross, -, rfl⟩ := hop
      exact h

/-- The trigger of every session an executor holds is the one of its running trades. -/
theorem summarised_of_run {ops : List (SessionOp ε)} (h : (sessionSystem sdk).Run ops session) :
    Summarised sdk session := by
  have hboth : session.Sound sdk ∧ Summarised sdk session := by
    apply h.invariant
    · rintro s ⟨recover, tslStepSize, sources, hnew⟩
      exact ⟨sound_of_new hnew, summarised_new hnew⟩
    · rintro s op _ ⟨hs, hsummarised⟩ rfl
      refine ⟨sound_next op hs, ?_⟩
      unfold SessionOp.next
      cases hop : op.perform sdk s with
      | error e => exact hsummarised
      | ok s' => exact summarised_perform hs hsummarised hop
  exact hboth.2

/-- An evaluation that the trigger skips would have found no closed trade and no stoploss to
move, in every session whose stoplosses are not beyond the liquidations. -/
theorem skipped_evaluation_finds_nothing {ops : List (SessionOp ε)} {rangeMin rangeMax : F64}
    (h : (sessionSystem sdk).Run ops session)
    (hstops : ∀ entry ∈ session.runningMap.tradesDesc, entry.1.asRunning.StopsFirst)
    (hmin : session.trigger.wasReached rangeMin = false)
    (hmax : session.trigger.wasReached rangeMax = false) :
    session.runningMap.tradesDesc.foldlM (session.checkOnRange sdk rangeMin rangeMax) ⟨[], []⟩ =
      .ok ⟨[], []⟩ :=
  checks_unreached (summarised_of_run h) hstops hmin hmax ⟨[], []⟩

end Quantoxide.Live
