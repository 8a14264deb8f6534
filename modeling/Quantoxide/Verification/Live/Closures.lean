import Mathlib.Data.List.Induction
import Quantoxide.Verification.Live.Session

/-! # Closures of the live session

A closure that the session books takes the closed trades out of the running ones and realizes
their fees since the baselines. A sound session books exactly the closures it can. -/

namespace Quantoxide.LiveTradingSession

open Result

variable {ε : Type} {sdk : LnmSdk ε} {session s' : LiveTradingSession} {t : Trade}

/-! ### Trades by id -/

theorem tradesById_concat (ts : List Trade) (t : Trade) :
    tradesById (ts ++ [t]) = (tradesById ts).insert t.id t := by
  simp [tradesById]

theorem mem_of_get_tradesById {ts : List Trade} {id : Uuid}
    (h : (tradesById ts).get id = some t) : t ∈ ts ∧ t.id = id := by
  induction ts using List.reverseRecOn with
  | nil => simp [tradesById, OrdMap.get, OrdMap.empty] at h
  | append_singleton ts last ih =>
      rw [tradesById_concat] at h
      by_cases hid : id = last.id
      · subst hid
        rw [OrdMap.get_insert_self] at h
        obtain rfl := Option.some.inj h
        exact ⟨by simp, rfl⟩
      · rw [OrdMap.get_insert_of_ne hid] at h
        exact ⟨List.mem_append_left _ (ih h).1, (ih h).2⟩

theorem get_tradesById_eq_none {ts : List Trade} {id : Uuid} :
    (tradesById ts).get id = none ↔ id ∉ ts.map (·.id) := by
  induction ts using List.reverseRecOn with
  | nil => simp [tradesById, OrdMap.get, OrdMap.empty]
  | append_singleton ts last ih =>
      rw [tradesById_concat]
      by_cases hid : id = last.id
      · subst hid
        simp [OrdMap.get_insert_self]
      · rw [OrdMap.get_insert_of_ne hid, ih]
        simp [hid]

theorem keyed_tradesById (ts : List Trade) : Keyed (tradesById ts) :=
  fun _ _ h => (mem_of_get_tradesById h).2

/-! ### What a closure leaves -/

/-- The fees a closure realizes for an id: those since its baseline. -/
def realizedFor (closed : OrdMap Uuid Trade) (snapshot : OrdMap Uuid ℤ) (id : Uuid) : ℤ :=
  match closed.get id, snapshot.get id with
  | some t, some baseline => t.sumFundingFees - baseline
  | _, _ => 0

/-- A session without the trades that were closed. -/
structure Closes (session : LiveTradingSession) (closed : List Trade)
    (s' : LiveTradingSession) : Prop where
  mem_iff : ∀ e, e ∈ s'.runningMap.tradesDesc ↔
    e ∈ session.runningMap.tradesDesc ∧ e.1.id ∉ closed.map (·.id)
  registered : ∀ t ∈ closed, t.id ∈ session.runningMap.ids
  tslStepSize : s'.tslStepSize = session.tslStepSize
  crossPosition : s'.crossPosition = session.crossPosition
  fundingFees : s'.fundingFees = session.fundingFees +
    (session.runningMap.ids.map (realizedFor (tradesById closed) session.fundingSnapshot)).sum
  fundingSnapshot : ∀ id, s'.fundingSnapshot.get id =
    if id ∈ closed.map (·.id) then none else session.fundingSnapshot.get id

/-- The session can book every one of the closed trades. -/
def Closable (session : LiveTradingSession) (closed : List Trade) : Prop :=
  ∀ t ∈ closed, t.closedAt.isSome = true ∧ session.runningMap.contains t.id = true ∧
    ((tradesById closed).get t.id).all (fun last => last.closed && last.exitPrice.isSome) = true

instance (closed : List Trade) : Decidable (session.Closable closed) :=
  inferInstanceAs (Decidable (∀ t ∈ closed, _))

theorem noteClosed_eq_ok {closed : List Trade} {time : Option ℤ}
    {noted : OrdMap Uuid Trade × Option ℤ}
    (h : (closed.foldlM session.noteClosed (.empty, time) : ActionResult ε _) = .ok noted) :
    noted.1 = tradesById closed ∧
    ∀ t ∈ closed, t.closedAt.isSome = true ∧ session.runningMap.contains t.id = true := by
  refine foldlM_invariant (P := fun done acc => acc.1 = tradesById done ∧ ∀ t ∈ done,
    t.closedAt.isSome = true ∧ session.runningMap.contains t.id = true) h ⟨rfl, by simp⟩ ?_
  intro done t rest acc acc' _ hacc hstep
  unfold noteClosed at hstep
  simp only [bind_eq_ok, okOr_eq_ok] at hstep
  obtain ⟨closedAt, hclosedAt, hstep⟩ := hstep
  split_ifs at hstep with hknown
  simp only [pure_eq_ok] at hstep
  subst hstep
  constructor
  · rw [tradesById_concat, hacc.1]
  · intro t' ht'
    rcases List.mem_append.mp ht' with hold | hlast
    · exact hacc.2 t' hold
    · obtain rfl := List.mem_singleton.mp hlast
      exact ⟨by rw [hclosedAt]; rfl, by simpa using hknown⟩

theorem noteClosed_isOk {closed : List Trade} {time : Option ℤ}
    (h : ∀ t ∈ closed, t.closedAt.isSome = true ∧ session.runningMap.contains t.id = true) :
    ∃ noted, (closed.foldlM session.noteClosed (.empty, time) : ActionResult ε _) = .ok noted := by
  refine foldlM_isOk (P := fun _ _ => True) trivial ?_
  intro done t rest acc hts _
  obtain ⟨hclosedAt, hknown⟩ := h t (by simp [hts])
  obtain ⟨closedAt, hclosedAt⟩ := Option.isSome_iff_exists.mp hclosedAt
  refine ⟨(acc.1.insert t.id t, laterTime acc.2 closedAt), ?_, trivial⟩
  simp [noteClosed, hclosedAt, okOr, hknown, bind, Except.bind, pure, Except.pure]

/-! ### The pass over the running trades -/

/-- What a closure has built up once it passed over some of the running trades. -/
structure ClosePass.Over (sdk : LnmSdk ε) (session : LiveTradingSession)
    (closed : OrdMap Uuid Trade) (done : List TradeEntry) (acc : ClosePass) : Prop where
  consistent : acc.runningMap.Consistent
  mem_iff : ∀ e, e ∈ acc.runningMap.tradesDesc ↔ e ∈ done ∧ closed.get e.1.id = none
  pending : ∀ id, id ∉ done.map (·.1.id) → acc.closedMap.get id = closed.get id
  recorded : ∀ id ∈ done.map (·.1.id), ∀ t, closed.get id = some t →
    t.closed = true ∧ t.exitPrice.isSome = true
  fundingFees : acc.fundingFees = session.fundingFees +
    ((done.map (·.1.id)).map (realizedFor closed session.fundingSnapshot)).sum
  fundingSnapshot : ∀ id, acc.fundingSnapshot.get id =
    if id ∈ done.map (·.1.id) ∧ closed.get id ≠ none then none
    else session.fundingSnapshot.get id

variable {closed : OrdMap Uuid Trade} {acc acc' : ClosePass} {e : TradeEntry}
  {done : List TradeEntry} {tslStepSize : PercentageCapped}

theorem ClosePass.Over.start (sdk : LnmSdk ε) (session : LiveTradingSession)
    (hmap : acc.runningMap = .new) (hclosed : acc.closedMap = closed)
    (hfees : acc.fundingFees = session.fundingFees)
    (hsnapshot : acc.fundingSnapshot = session.fundingSnapshot) :
    acc.Over sdk session closed [] := by
  refine ⟨?_, ?_, ?_, ?_, ?_, ?_⟩
  · rw [hmap]
    exact .new
  · rw [hmap]
    intro e
    simp [DynRunningTradesMap.tradesDesc, DynRunningTradesMap.new, OrdMap.valuesDesc, OrdMap.empty]
  · rw [hclosed]
    exact fun id _ => rfl
  · simp
  · simp [hfees]
  · simp [hsnapshot]

theorem realizeFunding_fundingFees (t : Trade) :
    (realizeFunding acc t).fundingFees =
      acc.fundingFees + ((acc.fundingSnapshot.get t.id).map (t.sumFundingFees - ·)).getD 0 := by
  unfold realizeFunding
  cases acc.fundingSnapshot.get t.id <;> simp

theorem get_realizeFunding (t : Trade) (id : Uuid) :
    (realizeFunding acc t).fundingSnapshot.get id =
      if id = t.id then none else acc.fundingSnapshot.get id := by
  unfold realizeFunding
  by_cases hid : id = t.id
  · subst hid
    cases hget : acc.fundingSnapshot.get t.id <;> simp [hget, OrdMap.get_erase_self]
  · cases acc.fundingSnapshot.get t.id <;> simp [hid, OrdMap.get_erase_of_ne]

theorem closedHistory_add_eq_ok {history history' : DynClosedTradeHistory}
    (h : (history.add t : Except (TradeCoreError ε) _) = .ok history') :
    t.closed = true ∧ t.exitPrice.isSome = true := by
  unfold DynClosedTradeHistory.add at h
  split_ifs at h with hopen
  simp only [Bool.or_eq_true, not_or, Bool.not_eq_true, Bool.not_eq_false',
    Option.isNone_eq_false_iff] at hopen
  exact hopen.1

/-- The step that finds a running trade among the closed ones. -/
theorem closeOne_of_closed (hget : acc.closedMap.get e.1.id = some t)
    (h : closeOne sdk tslStepSize acc e = .ok acc') :
    (t.closed = true ∧ t.exitPrice.isSome = true) ∧ acc'.runningMap = acc.runningMap ∧
    acc'.closedMap = acc.closedMap.erase e.1.id ∧
    acc'.fundingFees = (realizeFunding acc t).fundingFees ∧
    acc'.fundingSnapshot = (realizeFunding acc t).fundingSnapshot := by
  have hmap : (realizeFunding acc t).runningMap = acc.runningMap := by
    unfold realizeFunding
    split <;> rfl
  have hclosed : (realizeFunding acc t).closedMap = acc.closedMap := by
    unfold realizeFunding
    split <;> rfl
  simp only [closeOne, hget, bind_eq_ok, mapError_eq_ok, pure_eq_ok] at h
  obtain ⟨history, hhistory, rfl⟩ := h
  exact ⟨closedHistory_add_eq_ok hhistory, hmap, by rw [hclosed], rfl, rfl⟩

/-- The step that keeps a running trade. -/
theorem closeOne_of_running (hget : acc.closedMap.get e.1.id = none)
    (h : closeOne sdk tslStepSize acc e = .ok acc') :
    acc'.runningMap = acc.runningMap.add e.1 e.2 ∧ acc'.closedMap = acc.closedMap ∧
    acc'.fundingFees = acc.fundingFees ∧ acc'.fundingSnapshot = acc.fundingSnapshot := by
  simp only [closeOne, hget, bind_eq_ok, mapError_eq_ok, pure_eq_ok] at h
  obtain ⟨trigger, -, rfl⟩ := h
  exact ⟨rfl, rfl, rfl, rfl⟩

theorem ClosePass.Over.step_closed (h : acc.Over sdk session closed done)
    (hkeyed : Keyed closed) (hnew : e.1.id ∉ done.map (·.1.id)) (hget : closed.get e.1.id = some t)
    (hstep : closeOne sdk tslStepSize acc e = .ok acc') :
    acc'.Over sdk session closed (done ++ [e]) := by
  have hid := hkeyed _ _ hget
  have hsnapshot : acc.fundingSnapshot.get t.id = session.fundingSnapshot.get t.id := by
    rw [h.fundingSnapshot, if_neg]
    rw [hid]
    exact fun hmem => hnew hmem.1
  obtain ⟨hrecorded, hmap, hclosed, hfees, hsnapshot'⟩ :=
    closeOne_of_closed (by rw [h.pending _ hnew, hget]) hstep
  refine ⟨?_, ?_, ?_, ?_, ?_, ?_⟩
  · rw [hmap]
    exact h.consistent
  · rw [hmap]
    intro e'
    rw [h.mem_iff, List.mem_append, List.mem_singleton]
    constructor
    · exact fun hmem => ⟨Or.inl hmem.1, hmem.2⟩
    · intro ⟨hmem, hnone⟩
      rcases hmem with hold | rfl
      · exact ⟨hold, hnone⟩
      · exact absurd hnone (by simp [hget])
  · intro id hnot
    rw [mem_ids_concat, not_or] at hnot
    rw [hclosed, OrdMap.get_erase_of_ne hnot.2, h.pending id hnot.1]
  · intro id hmem t' ht'
    rcases mem_ids_concat.mp hmem with hold | rfl
    · exact h.recorded id hold t' ht'
    · obtain rfl : t = t' := by simpa [hget] using ht'
      exact hrecorded
  · have hrealized : realizedFor closed session.fundingSnapshot e.1.id =
        ((session.fundingSnapshot.get t.id).map (t.sumFundingFees - ·)).getD 0 := by
      unfold realizedFor
      rw [hget, hid]
      cases session.fundingSnapshot.get e.1.id <;> rfl
    rw [hfees, realizeFunding_fundingFees, hsnapshot, h.fundingFees, List.map_append,
      List.map_append, List.sum_append, List.map_singleton, List.map_singleton,
      List.sum_singleton, hrealized, add_assoc]
  · intro id
    rw [hsnapshot', get_realizeFunding, h.fundingSnapshot, hid]
    by_cases hlast : id = e.1.id
    · subst hlast
      simp [hget]
    · simp only [mem_ids_concat, hlast, or_false, if_false]

/-- A trade that the pass has not come to yet is not filed. -/
theorem ClosePass.Over.fresh (h : acc.Over sdk session closed done)
    (hnew : e.1.id ∉ done.map (·.1.id)) : e.1.id ∉ acc.runningMap.ids := by
  rw [DynRunningTradesMap.mem_ids]
  intro ⟨e', he', hid⟩
  exact hnew (List.mem_map.mpr ⟨e', ((h.mem_iff e').mp he').1, hid⟩)

theorem ClosePass.Over.step_running (h : acc.Over sdk session closed done)
    (hnew : e.1.id ∉ done.map (·.1.id)) (hget : closed.get e.1.id = none)
    (hstep : closeOne sdk tslStepSize acc e = .ok acc') :
    acc'.Over sdk session closed (done ++ [e]) := by
  obtain ⟨hmap, hclosed, hfees, hsnapshot⟩ :=
    closeOne_of_running (by rw [h.pending _ hnew, hget]) hstep
  have hfresh := h.fresh hnew
  refine ⟨?_, ?_, ?_, ?_, ?_, ?_⟩
  · rw [hmap]
    exact h.consistent.add hfresh
  · rw [hmap]
    intro e'
    rw [h.consistent.mem_add hfresh, h.mem_iff, List.mem_append, List.mem_singleton]
    constructor
    · intro hmem
      rcases hmem with hold | rfl
      · exact ⟨Or.inl hold.1, hold.2⟩
      · exact ⟨Or.inr rfl, hget⟩
    · exact fun ⟨hmem, hnone⟩ => hmem.imp (fun hold => ⟨hold, hnone⟩) id
  · intro id hnot
    rw [mem_ids_concat, not_or] at hnot
    rw [hclosed, h.pending id hnot.1]
  · intro id hmem t' ht'
    rcases mem_ids_concat.mp hmem with hold | rfl
    · exact h.recorded id hold t' ht'
    · exact absurd ht' (by simp [hget])
  · have hrealized : realizedFor closed session.fundingSnapshot e.1.id = 0 := by
      simp [realizedFor, hget]
    rw [hfees, h.fundingFees, List.map_append, List.map_append, List.sum_append,
      List.map_singleton, List.map_singleton, List.sum_singleton, hrealized, add_zero]
  · intro id
    rw [hsnapshot, h.fundingSnapshot]
    by_cases hlast : id = e.1.id
    · subst hlast
      simp [hget]
    · simp only [mem_ids_concat, hlast, or_false]

theorem ClosePass.Over.step (h : acc.Over sdk session closed done) (hkeyed : Keyed closed)
    (hnew : e.1.id ∉ done.map (·.1.id)) (hstep : closeOne sdk tslStepSize acc e = .ok acc') :
    acc'.Over sdk session closed (done ++ [e]) := by
  cases hget : closed.get e.1.id with
  | none => exact h.step_running hnew hget hstep
  | some t => exact h.step_closed hkeyed hnew hget hstep

theorem closes_of_ok {closed : List Trade} (hs : session.Sound sdk)
    (h : session.closeTrades sdk closed = .ok s') :
    session.Closes closed s' ∧ s'.Sound sdk ∧ session.Closable closed := by
  unfold closeTrades at h
  split_ifs at h with hempty
  · obtain rfl := Except.ok.inj h
    obtain rfl := List.isEmpty_iff.mp hempty
    have hzero : realizedFor (tradesById []) session.fundingSnapshot = fun _ => 0 := rfl
    exact ⟨⟨fun e => by simp, by simp, rfl, rfl, by simp [hzero], fun id => by simp⟩, hs,
      by simp [Closable]⟩
  · simp only [bind_eq_ok, pure_eq_ok] at h
    obtain ⟨noted, hnoted, pass, hpass, rfl⟩ := h
    obtain ⟨hclosed, hknown⟩ := noteClosed_eq_ok hnoted
    have hover := foldlM_invariant hpass
      (ClosePass.Over.start sdk session rfl hclosed rfl rfl)
      fun done e rest acc acc' hes hacc => hacc.step (keyed_tradesById closed)
        (notMem_done hs.consistent hes)
    have hregistered : ∀ t ∈ closed, t.id ∈ session.runningMap.ids :=
      fun t ht => hs.consistent.contains_iff.mp (hknown t ht).2
    have hmem : ∀ e, e ∈ pass.runningMap.tradesDesc ↔
        e ∈ session.runningMap.tradesDesc ∧ e.1.id ∉ closed.map (·.id) := by
      intro e
      rw [hover.mem_iff, get_tradesById_eq_none]
    refine ⟨⟨hmem, hregistered, rfl, rfl, hover.fundingFees, ?_⟩,
      ⟨hover.consistent, fun e he => hs.bounds e ((hmem e).mp he).1⟩, ?_⟩
    · intro id
      rw [hover.fundingSnapshot]
      congr 1
      rw [ne_eq, get_tradesById_eq_none, not_not, eq_iff_iff, and_iff_right_iff_imp]
      intro hid
      obtain ⟨t, ht, rfl⟩ := List.mem_map.mp hid
      exact hregistered t ht
    · intro t ht
      refine ⟨(hknown t ht).1, (hknown t ht).2, ?_⟩
      rw [Option.all_eq_true]
      intro last hlast
      have hrecorded := hover.recorded t.id (hregistered t ht) last hlast
      rw [hrecorded.1, hrecorded.2]
      rfl

theorem closeOne_isOk {session : LiveTradingSession} {closed : List Trade} {e : TradeEntry}
    (hbounds : e.HasBounds sdk tslStepSize) (hclosable : session.Closable closed)
    (hget : acc.closedMap.get e.1.id = (tradesById closed).get e.1.id) :
    ∃ acc', closeOne sdk tslStepSize acc e = .ok acc' := by
  cases hfound : (tradesById closed).get e.1.id with
  | none =>
      obtain ⟨trigger, htrigger⟩ := (exists_update_iff acc.trigger).mpr hbounds
      simp [closeOne, hget, hfound, htrigger, bind, Except.bind, pure,
        Except.pure]
  | some t =>
      obtain ⟨hmem, hid⟩ := mem_of_get_tradesById hfound
      obtain ⟨hclosedAt, -, hlast⟩ := hclosable t hmem
      rw [hid, hfound, Option.all_some, Bool.and_eq_true] at hlast
      have hadd : ((realizeFunding acc t).closedHistory.add t :
          Except (TradeCoreError ε) _).isOk = true := by
        have hnone : t.exitPrice.isNone = false ∧ t.closedAt.isNone = false := by
          rw [Option.isNone_eq_false_iff, Option.isNone_eq_false_iff]
          exact ⟨hlast.2, hclosedAt⟩
        simp only [DynClosedTradeHistory.add, hlast.1, hnone.1, hnone.2, Bool.not_true,
          Bool.or_self, Bool.false_eq_true, if_false]
        rfl
      cases hhistory : ((realizeFunding acc t).closedHistory.add t :
          Except (TradeCoreError ε) _) with
      | error err => simp [hhistory, Except.isOk, Except.toBool] at hadd
      | ok history =>
          simp [closeOne, hget, hfound, hhistory, bind, Except.bind, pure,
            Except.pure]

/-- A sound session books exactly the closures it can. -/
theorem closeTrades_isOk_iff {closed : List Trade} (hs : session.Sound sdk) :
    (∃ s', session.closeTrades sdk closed = .ok s') ↔ session.Closable closed := by
  constructor
  · exact fun ⟨s', h⟩ => (closes_of_ok hs h).2.2
  · intro hclosable
    unfold closeTrades
    by_cases hempty : closed.isEmpty = true
    · exact ⟨session, by rw [if_pos hempty]⟩
    · rw [if_neg hempty]
      have hnoted : ∃ noted, (closed.foldlM session.noteClosed
          (.empty, session.lastTradeTime) : ActionResult ε _) = .ok noted :=
        noteClosed_isOk fun t ht => ⟨(hclosable t ht).1, (hclosable t ht).2.1⟩
      obtain ⟨noted, hnoted⟩ := hnoted
      obtain ⟨hclosed, -⟩ := noteClosed_eq_ok hnoted
      rw [hnoted]
      simp only [bind_eq_ok, Except.ok.injEq, exists_eq_left', pure_eq_ok]
      have hstart : ClosePass.Over sdk session (tradesById closed) [] ⟨noted.1, .new, .notSet,
          session.balance, session.realizedPl, session.closedFees, session.closedHistory,
          session.fundingFees, session.fundingSnapshot⟩ := .start sdk session rfl hclosed rfl rfl
      have hpass := foldlM_isOk (f := closeOne sdk session.tslStepSize) hstart
        fun done e rest acc hes hacc => by
          have hnew := notMem_done hs.consistent hes
          have hbounds := hs.bounds e (by rw [hes]; simp)
          obtain ⟨acc', hacc'⟩ := closeOne_isOk hbounds hclosable (hacc.pending _ hnew)
          exact ⟨acc', hacc', hacc.step (keyed_tradesById closed) hnew hacc'⟩
      obtain ⟨pass, hpass⟩ := hpass
      exact ⟨_, pass, hpass, rfl⟩

theorem Closes.mem_ids {closed : List Trade} (h : session.Closes closed s') {id : Uuid} :
    id ∈ s'.runningMap.ids ↔ id ∈ session.runningMap.ids ∧ id ∉ closed.map (·.id) := by
  simp only [DynRunningTradesMap.mem_ids, h.mem_iff]
  constructor
  · intro ⟨e, ⟨he, hnot⟩, hid⟩
    exact ⟨⟨e, he, hid⟩, hid ▸ hnot⟩
  · intro ⟨⟨e, he, hid⟩, hnot⟩
    exact ⟨e, ⟨he, hid ▸ hnot⟩, hid⟩

end Quantoxide.LiveTradingSession
