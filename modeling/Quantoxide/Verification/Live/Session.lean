import Quantoxide.Library.Indexed
import Quantoxide.Library.Runs
import Quantoxide.Model.LiveSession

/-! # The running trades of the live session

Registration files one more trade, and an update rewrites some in place. -/

namespace Quantoxide

open Result

variable {ε : Type} {sdk : LnmSdk ε}

/-! ### The running trades -/

namespace DynRunningTradesMap

variable {m : DynRunningTradesMap} {t : Trade} {tsl : Option TradeTrailingStoploss}
  {e e' : TradeEntry} {id : Uuid}

def ids (m : DynRunningTradesMap) : List Uuid := m.tradesDesc.map (·.1.id)

/-- The two maps describe the same trades. -/
def Consistent (m : DynRunningTradesMap) : Prop :=
  Indexed.Agree TradeEntry.reference m.trades m.idToTime

theorem ids_eq_reverse : m.ids = (Indexed.ids TradeEntry.reference m.trades).reverse := by
  rw [ids, tradesDesc, OrdMap.valuesDesc, List.map_reverse, List.map_map]
  rfl

theorem mem_ids : id ∈ m.ids ↔ ∃ e ∈ m.tradesDesc, e.1.id = id := List.mem_map

theorem mem_ids_of_mem (h : e ∈ m.tradesDesc) : e.1.id ∈ m.ids := List.mem_map_of_mem h

theorem ids_new : new.ids = [] := rfl

namespace Consistent

theorem new : DynRunningTradesMap.new.Consistent := Indexed.Agree.empty

theorem contains_iff (h : m.Consistent) : m.contains id = true ↔ id ∈ m.ids := by
  rw [ids_eq_reverse, List.mem_reverse]
  exact h.get_isSome

theorem contains_eq_false (h : m.Consistent) : m.contains id = false ↔ id ∉ m.ids := by
  rw [← h.contains_iff, Bool.not_eq_true]

theorem nodup (h : m.Consistent) : m.ids.Nodup := by
  rw [ids_eq_reverse, List.nodup_reverse]
  exact Indexed.Agree.nodup h

theorem eq_of_id (h : m.Consistent) (he : e ∈ m.tradesDesc) (he' : e' ∈ m.tradesDesc)
    (hid : e.1.id = e'.1.id) : e = e' := List.inj_on_of_nodup_map h.nodup he he' hid

theorem add (h : m.Consistent) (hnew : t.id ∉ m.ids) : (m.add t tsl).Consistent := by
  rw [ids_eq_reverse, List.mem_reverse] at hnew
  exact Indexed.Agree.insert (a := ((t, tsl) : TradeEntry)) h hnew

theorem mem_add (h : m.Consistent) (hnew : t.id ∉ m.ids) :
    e ∈ (m.add t tsl).tradesDesc ↔ e ∈ m.tradesDesc ∨ e = (t, tsl) := by
  rw [ids_eq_reverse, List.mem_reverse] at hnew
  have hkey := Indexed.notMem_of_new (a := ((t, tsl) : TradeEntry)) hnew h.keyed
  simp only [tradesDesc, OrdMap.mem_valuesDesc]
  constructor
  · intro ⟨k, he⟩
    rcases OrdMap.mem_of_mem_insert he with heq | hold
    · exact Or.inr (Prod.mk.inj heq).2
    · exact Or.inl ⟨k, hold⟩
  · intro hmem
    rcases hmem with ⟨k, hold⟩ | rfl
    · refine ⟨k, OrdMap.mem_insert_of_ne hold ?_⟩
      intro hk
      subst hk
      exact hkey e hold
    · exact ⟨_, OrdMap.mem_insert_self⟩

theorem mem_ids_add (h : m.Consistent) (hnew : t.id ∉ m.ids) :
    id ∈ (m.add t tsl).ids ↔ id ∈ m.ids ∨ id = t.id := by
  simp only [mem_ids, h.mem_add hnew, or_and_right, exists_or, exists_eq_left]
  rw [eq_comm (a := t.id)]

end Consistent

end DynRunningTradesMap

/-! ### Trigger bounds -/

/-- The entry has trigger bounds, which its place in the session's trigger needs. -/
def TradeEntry.HasBounds (sdk : LnmSdk ε) (tslStepSize : PercentageCapped) (e : TradeEntry) :
    Prop := (e.1.evalTriggerBounds sdk tslStepSize e.2).isOk = true

instance (tslStepSize : PercentageCapped) (e : TradeEntry) :
    Decidable (e.HasBounds sdk tslStepSize) :=
  inferInstanceAs (Decidable (_ = true))

theorem exists_update_iff (trigger : PriceTrigger) {tslStepSize : PercentageCapped} {t : Trade}
    {tsl : Option TradeTrailingStoploss} :
    (∃ trigger', trigger.update sdk tslStepSize t.asRunning tsl = .ok trigger') ↔
      TradeEntry.HasBounds sdk tslStepSize (t, tsl) := by
  unfold PriceTrigger.update TradeEntry.HasBounds Trade.evalTriggerBounds
  cases t.asRunning.evalTriggerBounds sdk tslStepSize tsl with
  | error err => simp [bind, Except.bind, Except.isOk, Except.toBool]
  | ok bounds => simp [bind, Except.bind, Except.isOk, Except.toBool, pure, Except.pure]

namespace LiveTradingSession

variable {session s' : LiveTradingSession}

/-- What an executor may rely on in every session: the two maps of its running trades agree,
and each of the trades has trigger bounds. -/
structure Sound (sdk : LnmSdk ε) (session : LiveTradingSession) : Prop where
  consistent : session.runningMap.Consistent
  bounds : ∀ e ∈ session.runningMap.tradesDesc, e.HasBounds sdk session.tslStepSize

theorem Sound.of_empty (hmap : session.runningMap = .new) : session.Sound sdk := by
  constructor
  · rw [hmap]
    exact .new
  · rw [hmap]
    intro e he
    exact absurd (DynRunningTradesMap.mem_ids_of_mem he) (by simp [DynRunningTradesMap.ids_new])

/-! ### Registration -/

/-- A session with one more running trade. -/
structure Registers (sdk : LnmSdk ε) (session : LiveTradingSession) (t : Trade)
    (tsl : Option TradeTrailingStoploss) (s' : LiveTradingSession) : Prop where
  running : t.running = true
  unknown : session.runningMap.contains t.id = false
  bounds : TradeEntry.HasBounds sdk session.tslStepSize (t, tsl)
  runningMap : s'.runningMap = session.runningMap.add t tsl
  tslStepSize : s'.tslStepSize = session.tslStepSize
  fundingFees : s'.fundingFees = session.fundingFees + t.sumFundingFees
  fundingSnapshot : s'.fundingSnapshot = session.fundingSnapshot.insert t.id t.sumFundingFees
  crossPosition : s'.crossPosition = session.crossPosition

variable {t : Trade} {tsl : Option TradeTrailingStoploss} {updateBalance : Bool}

theorem registerRunningTrade_eq_ok
    (h : session.registerRunningTrade sdk t tsl updateBalance = .ok s') :
    t.running = true ∧ session.runningMap.contains t.id = false ∧ ∃ trigger balance,
      session.trigger.update sdk session.tslStepSize t.asRunning tsl = .ok trigger ∧
      s' = { session with
        lastTradeTime := laterTime session.lastTradeTime t.createdAt
        balance
        trigger
        fundingFees := session.fundingFees + t.sumFundingFees
        fundingSnapshot := session.fundingSnapshot.insert t.id t.sumFundingFees
        runningMap := session.runningMap.add t tsl } := by
  by_cases hrunning : t.running = true
  · by_cases hknown : session.runningMap.contains t.id = true
    · simp [registerRunningTrade, hrunning, hknown] at h
    · simp only [registerRunningTrade, hrunning, hknown, Bool.not_true, Bool.false_eq_true,
        if_false, bind_eq_ok, mapError_eq_ok, pure_eq_ok] at h
      obtain ⟨trigger, htrigger, hs'⟩ := h
      exact ⟨hrunning, by simpa using hknown, trigger, _, htrigger, hs'.symm⟩
  · simp [registerRunningTrade, hrunning] at h

theorem registers_of_ok (h : session.registerRunningTrade sdk t tsl updateBalance = .ok s') :
    session.Registers sdk t tsl s' := by
  obtain ⟨hrunning, hunknown, trigger, balance, htrigger, rfl⟩ := registerRunningTrade_eq_ok h
  exact ⟨hrunning, hunknown, (exists_update_iff _).mp ⟨trigger, htrigger⟩,
    rfl, rfl, rfl, rfl, rfl⟩

theorem registerRunningTrade_isOk (hrunning : t.running = true)
    (hunknown : session.runningMap.contains t.id = false)
    (hbounds : TradeEntry.HasBounds sdk session.tslStepSize (t, tsl)) :
    ∃ s', session.registerRunningTrade sdk t tsl updateBalance = .ok s' := by
  obtain ⟨trigger, htrigger⟩ := (exists_update_iff session.trigger).mpr hbounds
  simp [registerRunningTrade, hrunning, hunknown, htrigger, bind, Except.bind,
    pure, Except.pure]

theorem Registers.sound (h : session.Registers sdk t tsl s') (hs : session.Sound sdk) :
    s'.Sound sdk := by
  have hnew := hs.consistent.contains_eq_false.mp h.unknown
  constructor
  · rw [h.runningMap]
    exact hs.consistent.add hnew
  · intro e he
    rw [h.runningMap, hs.consistent.mem_add hnew] at he
    rw [h.tslStepSize]
    rcases he with hold | rfl
    · exact hs.bounds e hold
    · exact h.bounds

theorem Registers.mem_ids (h : session.Registers sdk t tsl s')
    (hs : session.runningMap.Consistent) {id : Uuid} :
    id ∈ s'.runningMap.ids ↔ id ∈ session.runningMap.ids ∨ id = t.id := by
  rw [h.runningMap, hs.mem_ids_add (hs.contains_eq_false.mp h.unknown)]

/-! ### Updates -/

/-- A running trade as an update leaves it. -/
def rewritten (updated : OrdMap Uuid Trade) (e : TradeEntry) : TradeEntry :=
  ((updated.get e.1.id).getD e.1, e.2)

/-- A session whose running trades are those of another, rewritten. -/
structure Updates (session : LiveTradingSession) (updated : OrdMap Uuid Trade)
    (s' : LiveTradingSession) : Prop where
  mem_iff : ∀ e', e' ∈ s'.runningMap.tradesDesc ↔
    ∃ e ∈ session.runningMap.tradesDesc, e' = rewritten updated e
  tslStepSize : s'.tslStepSize = session.tslStepSize
  fundingFees : s'.fundingFees = session.fundingFees
  fundingSnapshot : s'.fundingSnapshot = session.fundingSnapshot
  crossPosition : s'.crossPosition = session.crossPosition

/-- The updates are filed by their own ids. -/
def Keyed (updated : OrdMap Uuid Trade) : Prop := ∀ id t, updated.get id = some t → t.id = id

variable {updated : OrdMap Uuid Trade}

theorem rewritten_id (hkeyed : Keyed updated) (e : TradeEntry) :
    (rewritten updated e).1.id = e.1.id := by
  unfold rewritten
  cases hget : updated.get e.1.id with
  | none => rfl
  | some t => exact hkeyed e.1.id t hget

theorem mem_ids_concat {done : List TradeEntry} {e : TradeEntry} {id : Uuid} :
    id ∈ (done ++ [e]).map (·.1.id) ↔ id ∈ done.map (·.1.id) ∨ id = e.1.id := by
  rw [List.map_append, List.map_singleton, List.mem_append, List.mem_singleton]

/-- What an update has built up once it passed over some of the running trades. -/
structure UpdatePass.Over (sdk : LnmSdk ε) (tslStepSize : PercentageCapped)
    (updated : OrdMap Uuid Trade) (done : List TradeEntry) (acc : UpdatePass) : Prop where
  consistent : acc.runningMap.Consistent
  bounds : ∀ e ∈ acc.runningMap.tradesDesc, e.HasBounds sdk tslStepSize
  mem_iff : ∀ e', e' ∈ acc.runningMap.tradesDesc ↔ ∃ e ∈ done, e' = rewritten updated e
  pending : ∀ id, id ∉ done.map (·.1.id) → acc.updatedTrades.get id = updated.get id

theorem UpdatePass.Over.start {tslStepSize : PercentageCapped} {acc : UpdatePass}
    (hmap : acc.runningMap = .new) (hupdated : acc.updatedTrades = updated) :
    acc.Over sdk tslStepSize updated [] := by
  refine ⟨?_, ?_, ?_, ?_⟩
  · rw [hmap]
    exact .new
  · rw [hmap]
    intro e he
    exact absurd (DynRunningTradesMap.mem_ids_of_mem he) (by simp [DynRunningTradesMap.ids_new])
  · rw [hmap]
    intro e'
    simp [DynRunningTradesMap.tradesDesc, DynRunningTradesMap.new, OrdMap.valuesDesc, OrdMap.empty]
  · rw [hupdated]
    exact fun id _ => rfl

/-- One step of the pass files the rewritten trade. -/
theorem updateOne_eq_ok {tslStepSize : PercentageCapped} {acc acc' : UpdatePass} {e : TradeEntry}
    (h : updateOne sdk tslStepSize acc e = .ok acc') :
    let e' := rewritten acc.updatedTrades e
    acc.trigger.update sdk tslStepSize e'.1.asRunning e'.2 = .ok acc'.trigger ∧
    acc'.runningMap = acc.runningMap.add e'.1 e'.2 ∧
    ∀ id, id ≠ e.1.id → acc'.updatedTrades.get id = acc.updatedTrades.get id := by
  obtain ⟨t, tsl⟩ := e
  simp only [updateOne] at h
  cases hget : acc.updatedTrades.get t.id with
  | none =>
      simp only [hget, bind_eq_ok, mapError_eq_ok, pure_eq_ok] at h
      obtain ⟨trigger, htrigger, rfl⟩ := h
      have hsame : rewritten acc.updatedTrades (t, tsl) = (t, tsl) := by simp [rewritten, hget]
      rw [hsame]
      exact ⟨htrigger, rfl, fun id _ => rfl⟩
  | some t' =>
      simp only [hget, bind_eq_ok, mapError_eq_ok, pure_eq_ok] at h
      obtain ⟨trigger, htrigger, rfl⟩ := h
      have hnew : rewritten acc.updatedTrades (t, tsl) = (t', tsl) := by simp [rewritten, hget]
      rw [hnew]
      exact ⟨htrigger, rfl, fun id hid => OrdMap.get_erase_of_ne hid⟩

theorem UpdatePass.Over.rewritten_pending {tslStepSize : PercentageCapped}
    {done : List TradeEntry} {acc : UpdatePass} {e : TradeEntry}
    (h : acc.Over sdk tslStepSize updated done) (hnew : e.1.id ∉ done.map (·.1.id)) :
    rewritten acc.updatedTrades e = rewritten updated e := by
  rw [rewritten, h.pending _ hnew, rewritten]

/-- A trade that the pass has not come to yet is not filed. -/
theorem UpdatePass.Over.fresh {tslStepSize : PercentageCapped} {done : List TradeEntry}
    {acc : UpdatePass} {e : TradeEntry} (h : acc.Over sdk tslStepSize updated done)
    (hkeyed : Keyed updated) (hnew : e.1.id ∉ done.map (·.1.id)) :
    (rewritten updated e).1.id ∉ acc.runningMap.ids := by
  rw [rewritten_id hkeyed, DynRunningTradesMap.mem_ids]
  intro ⟨e', he', hid⟩
  obtain ⟨d, hd, rfl⟩ := (h.mem_iff e').mp he'
  rw [rewritten_id hkeyed] at hid
  exact hnew (List.mem_map.mpr ⟨d, hd, hid⟩)

theorem UpdatePass.Over.step {tslStepSize : PercentageCapped} {done : List TradeEntry}
    {acc acc' : UpdatePass} {e : TradeEntry} (h : acc.Over sdk tslStepSize updated done)
    (hkeyed : Keyed updated) (hnew : e.1.id ∉ done.map (·.1.id))
    (hstep : updateOne sdk tslStepSize acc e = .ok acc') :
    acc'.Over sdk tslStepSize updated (done ++ [e]) := by
  obtain ⟨htrigger, hmap, hpending⟩ := updateOne_eq_ok hstep
  simp only [h.rewritten_pending hnew] at htrigger hmap
  have hbounds : (rewritten updated e).HasBounds sdk tslStepSize :=
    (exists_update_iff _).mp ⟨_, htrigger⟩
  have hfresh := h.fresh hkeyed hnew
  refine ⟨?_, ?_, ?_, ?_⟩
  · rw [hmap]
    exact h.consistent.add hfresh
  · rw [hmap]
    intro e' he'
    rcases (h.consistent.mem_add hfresh).mp he' with hold | rfl
    · exact h.bounds e' hold
    · exact hbounds
  · rw [hmap]
    intro e'
    rw [h.consistent.mem_add hfresh, h.mem_iff]
    simp [or_and_right, exists_or]
  · intro id hid
    rw [mem_ids_concat, not_or] at hid
    rw [hpending id hid.2, h.pending id hid.1]

/-- A pass over the running trades comes to each id once. -/
theorem notMem_done {m : DynRunningTradesMap} {done rest : List TradeEntry} {e : TradeEntry}
    (hm : m.Consistent) (hes : m.tradesDesc = done ++ e :: rest) :
    e.1.id ∉ done.map (·.1.id) := by
  have h := hm.nodup
  rw [DynRunningTradesMap.ids, hes, List.map_append, List.map_cons] at h
  exact fun hmem => (List.nodup_append.mp h).2.2 _ hmem _ List.mem_cons_self rfl

theorem updates_of_ok (hs : session.Sound sdk) (hkeyed : Keyed updated)
    (h : session.updateRunningTrades sdk updated = .ok s') :
    session.Updates updated s' ∧ s'.Sound sdk := by
  unfold updateRunningTrades at h
  split_ifs at h with hempty
  · obtain rfl := Except.ok.inj h
    have hnone : ∀ id, updated.get id = none := by
      intro id
      rw [OrdMap.get_eq_none]
      intro t ht
      rw [OrdMap.mem_def, OrdMap.isEmpty_iff.mp hempty] at ht
      exact absurd ht List.not_mem_nil
    exact ⟨⟨fun e' => by simp [rewritten, hnone], rfl, rfl, rfl, rfl⟩, hs⟩
  · simp only [bind_eq_ok] at h
    obtain ⟨pass, hpass, h⟩ := h
    split_ifs at h
    simp only [pure_eq_ok] at h
    subst h
    have hover := foldlM_invariant hpass (UpdatePass.Over.start rfl rfl)
      fun done e rest acc acc' hes hacc => hacc.step hkeyed
        (notMem_done hs.consistent hes)
    exact ⟨⟨hover.mem_iff, rfl, rfl, rfl, rfl⟩, hover.consistent, hover.bounds⟩

theorem Updates.mem_ids (h : session.Updates updated s') (hkeyed : Keyed updated) {id : Uuid} :
    id ∈ s'.runningMap.ids ↔ id ∈ session.runningMap.ids := by
  simp only [DynRunningTradesMap.mem_ids, h.mem_iff]
  constructor
  · intro ⟨e', ⟨e, he, heq⟩, hid⟩
    exact ⟨e, he, by rw [← hid, heq, rewritten_id hkeyed]⟩
  · intro ⟨e, he, hid⟩
    exact ⟨_, ⟨e, he, rfl⟩, by rw [rewritten_id hkeyed, hid]⟩

end LiveTradingSession

end Quantoxide
