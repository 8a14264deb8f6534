import Quantoxide.Library.Indexed
import Quantoxide.Verification.Executor.Ledger

/-! # Conservation of trades

Running trades and closed trades together are the trades opened, each once. A successful
operation opens one, rewrites one in place, or passes over the running trades and moves those
it closes. -/

namespace Quantoxide.Executor

open Result SimulatedTradeExecutor Runs

variable {ε : Type} {ex : SimulatedTradeExecutor ε} {s s' : SimulatedTradeExecutorState}

def entryKey (entry : RunningEntry) : TradeReference := entry.1.reference

def runningIds (m : RunningTradesMap) : List Uuid := Indexed.ids entryKey m.trades

def closedIds (h : ClosedTradeHistory) : List Uuid :=
  Indexed.ids SimulatedTradeClosed.reference h.trades

/-- The ids the executor holds. -/
def tradeIds (s : SimulatedTradeExecutorState) : List Uuid :=
  runningIds s.runningMap ++ closedIds s.closedHistory

/-- The two maps of the running trades describe one set. -/
abbrev RunningTradesMap.Agree (m : RunningTradesMap) : Prop :=
  Indexed.Agree entryKey m.trades m.idToTime

abbrev ClosedTradeHistory.Agree (h : ClosedTradeHistory) : Prop :=
  Indexed.Agree SimulatedTradeClosed.reference h.trades h.idToTime

/-! ### Adding a trade -/

theorem runningIds_perm (m : RunningTradesMap) :
    (m.tradesDesc.map (·.1.id)).Perm (runningIds m) := by
  rw [RunningTradesMap.tradesDesc, OrdMap.valuesDesc, List.map_reverse, List.map_map]
  exact List.reverse_perm _

theorem add_running {m : RunningTradesMap} {trade : SimulatedTradeRunning}
    (tsl : Option TradeTrailingStoploss) (h : RunningTradesMap.Agree m)
    (hnew : trade.id ∉ runningIds m) :
    RunningTradesMap.Agree (m.add trade tsl) ∧
      (runningIds (m.add trade tsl)).Perm (trade.id :: runningIds m) :=
  ⟨Indexed.Agree.insert (a := (trade, tsl)) h hnew,
    Indexed.ids_insert (a := (trade, tsl)) h hnew⟩

theorem add_closed {h h' : ClosedTradeHistory} {trade : SimulatedTradeClosed}
    (hagree : ClosedTradeHistory.Agree h) (hnew : trade.id ∉ closedIds h)
    (hadd : (h.add trade : Except (TradeCoreError ε) _) = .ok h') :
    ClosedTradeHistory.Agree h' ∧ (closedIds h').Perm (trade.id :: closedIds h) := by
  have hh' : h' = ⟨h.trades.insert trade.reference trade,
      h.idToTime.insert trade.id trade.entryTime⟩ := by
    simpa [ClosedTradeHistory.add, SimulatedTradeClosed.closed, SimulatedTradeClosed.exitPrice,
      SimulatedTradeClosed.closedAt, @eq_comm _ _ h'] using hadd
  subst hh'
  exact ⟨hagree.insert hnew, Indexed.ids_insert hagree hnew⟩

/-- The closed history takes the closed trades of a pass, each once. -/
theorem addClosed_ids {closed : List SimulatedTradeClosed} {h h' : ClosedTradeHistory}
    (hagree : ClosedTradeHistory.Agree h)
    (hnodup : (closed.map (·.id) ++ closedIds h).Nodup)
    (hadd : (addClosed h closed : ExecutorResult ε _) = .ok h') :
    ClosedTradeHistory.Agree h' ∧ (closedIds h').Perm (closed.map (·.id) ++ closedIds h) := by
  induction closed generalizing h with
  | nil =>
      simp only [addClosed, List.foldlM_nil, pure_eq_ok] at hadd
      subst hadd
      exact ⟨hagree, List.Perm.refl _⟩
  | cons trade closed ih =>
      simp only [addClosed, List.foldlM_cons, bind_eq_ok, mapError_eq_ok] at hadd
      obtain ⟨h₁, hone, hrest⟩ := hadd
      simp only [List.map_cons, List.cons_append] at hnodup ⊢
      obtain ⟨htrade, htail⟩ := List.nodup_cons.mp hnodup
      have hnew : trade.id ∉ closedIds h := fun hmem => htrade (List.mem_append_right _ hmem)
      obtain ⟨hagree₁, hperm₁⟩ := add_closed hagree hnew hone
      have hmoved : (closed.map (·.id) ++ closedIds h₁).Perm
          (trade.id :: (closed.map (·.id) ++ closedIds h)) :=
        (hperm₁.append_left _).trans List.perm_middle
      obtain ⟨hagree', hperm'⟩ := ih hagree₁ (hmoved.nodup_iff.mpr hnodup) hrest
      exact ⟨hagree', hperm'.trans hmoved⟩

/-! ### Passes -/

/-- A pass files every trade it was given among the running or the closed ones. -/
theorem Passes.ids {op : Op} {fates : Fates ε} (hfates : op.fates ex s = some fates)
    {entries : List RunningEntry} {acc acc' : Pass} (h : Passes ex fates entries acc acc')
    (hagree : RunningTradesMap.Agree acc.runningMap)
    (hnodup : (entries.map (·.1.id) ++ runningIds acc.runningMap).Nodup) :
    RunningTradesMap.Agree acc'.runningMap ∧
      (runningIds acc'.runningMap ++ acc'.closedTrades.map (·.id)).Perm
        (entries.map (·.1.id) ++ (runningIds acc.runningMap ++ acc.closedTrades.map (·.id))) := by
  induction h with
  | nil acc => exact ⟨hagree, List.Perm.refl _⟩
  | @keep entry trade rest acc acc' fee trigger hfate _ _ ih =>
      have hid : trade.id = entry.1.id := (keeps_same hfates hfate).1.id
      simp only [List.map_cons, List.cons_append] at hnodup ⊢
      obtain ⟨hentry, htail⟩ := List.nodup_cons.mp hnodup
      have hnew : trade.id ∉ runningIds acc.runningMap := by
        rw [hid]
        exact fun hmem => hentry (List.mem_append_right _ hmem)
      obtain ⟨hagree₁, hperm₁⟩ := add_running entry.2 hagree hnew
      rw [hid] at hperm₁
      have hmoved : (rest.map (·.1.id) ++ runningIds (acc.runningMap.add trade entry.2)).Perm
          (entry.1.id :: (rest.map (·.1.id) ++ runningIds acc.runningMap)) :=
        (hperm₁.append_left _).trans List.perm_middle
      obtain ⟨hagree', hperm'⟩ := ih hagree₁ (hmoved.nodup_iff.mpr hnodup)
      refine ⟨hagree', hperm'.trans ?_⟩
      rw [← List.append_assoc, ← List.append_assoc]
      exact hmoved.append_right _
  | @close entry closed rest acc acc' fee last hfate _ ih =>
      obtain ⟨time, price, hclosed⟩ := closes_eq hfates hfate
      have hid : closed.id = entry.1.id := by rw [hclosed]; rfl
      simp only [List.map_cons, List.cons_append] at hnodup ⊢
      obtain ⟨-, htail⟩ := List.nodup_cons.mp hnodup
      obtain ⟨hagree', hperm'⟩ := ih hagree htail
      refine ⟨hagree', hperm'.trans ?_⟩
      have hbooked : (ex.bookClosed acc closed).closedTrades.map (·.id) =
          acc.closedTrades.map (·.id) ++ [entry.1.id] := by
        simp [bookClosed, hid]
      simp only [hbooked]
      rw [← List.append_assoc, ← List.append_assoc, ← List.append_assoc]
      exact List.perm_append_singleton _ _

/-! ### What a successful operation does to the trades -/

/-- The id an operation opens. -/
def Op.opens (ex : SimulatedTradeExecutor ε) (s : SimulatedTradeExecutorState) :
    Op → Option Uuid
  | .call (.isolatedOrder request) => (ex.isolatedOrder s request).2.toOption
  | _ => none

inductive Moves (ex : SimulatedTradeExecutor ε) (s : SimulatedTradeExecutorState) (op : Op)
    (s' : SimulatedTradeExecutorState) : Prop
  | still (hopens : op.opens ex s = none) (hmap : s'.runningMap = s.runningMap)
      (hhistory : s'.closedHistory = s.closedHistory) (hdrawn : s.drawn ≤ s'.drawn)
  | opened (entry : RunningEntry) (hopens : op.opens ex s = some entry.1.id)
      (hid : entry.1.id = ex.newV4 s.drawn)
      (hmap : s'.runningMap = s.runningMap.add entry.1 entry.2)
      (hhistory : s'.closedHistory = s.closedHistory) (hdrawn : s'.drawn = s.drawn + 1)
  | rewritten (key : TradeReference) (entry : RunningEntry) (trade : SimulatedTradeRunning)
      (hopens : op.opens ex s = none) (hmem : (key, entry) ∈ s.runningMap.trades)
      (hsame : SameTrade entry.1 trade)
      (hmap : s'.runningMap =
        { s.runningMap with trades := s.runningMap.trades.set key (trade, entry.2) })
      (hhistory : s'.closedHistory = s.closedHistory) (hdrawn : s'.drawn = s.drawn)
  | passed (fates : Fates ε) (acc : Pass) (lastTradeTime : Option ℤ)
      (hopens : op.opens ex s = none) (hfates : op.fates ex s = some fates)
      (hpass : Passes ex fates s.runningMap.tradesDesc { startPass s with lastTradeTime } acc)
      (hcommit : Commits ε s s' acc)

theorem isolatedOrder_eq_ok {request : IsolatedOrderRequest} {id : Uuid}
    (h : (ex.isolatedOrder s request).2 = .ok id) :
    ∃ entry trigger,
      ex.openTrade s request.side request.size request.leverage request.stoploss
        request.takeprofit = .ok entry ∧ entry.1.id = id ∧
      (ex.isolatedOrder s request).1 = { s with
        drawn := s.drawn + 1
        balance := s.balance
          - (entry.1.margin.asI64 + entry.1.maintenanceMargin + entry.1.openingFee)
        lastTradeTime := some entry.1.entryTime
        trigger
        runningMap := s.runningMap.add entry.1 entry.2 } := by
  unfold isolatedOrder createRunning at h ⊢
  cases hopen : ex.openTrade s request.side request.size request.leverage request.stoploss
      request.takeprofit with
  | error e => simp [hopen] at h
  | ok entry =>
      obtain ⟨trade, tsl⟩ := entry
      simp only [hopen] at h ⊢
      split_ifs at h ⊢
      cases htrigger : s.trigger.update ex.sdk ex.config.trailingStoplossStepSize trade tsl with
      | error e => simp [htrigger] at h
      | ok trigger =>
          simp only [htrigger, Except.ok.injEq] at h ⊢
          exact ⟨(trade, tsl), trigger, rfl, h, rfl⟩

theorem crossCommit_history (balance : ℤ) (pos : ExecutorResult ε SimulatedCrossPosition) :
    (ex.crossCommit s balance pos).1.closedHistory = s.closedHistory := by
  rcases crossCommit_spec balance pos with ⟨hs, -⟩ | ⟨p, hs⟩
  · rw [hs]
  · rw [hs]

/-- A call that passes over no trades leaves the closed history alone. -/
theorem call_history {c : Call} (h : (Op.call c).fates ex s = none) :
    (c.execute ex s).1.closedHistory = s.closedHistory := by
  cases c with
  | isolatedOrder request =>
      simp only [Call.execute, answer, isolatedOrder, createRunning]
      split
      · rfl
      · split_ifs
        · rfl
        · rfl
        · split <;> rfl
  | isolatedTradeAddMargin id amount =>
      simp only [Call.execute, answer, isolatedTradeAddMargin]
      split_ifs
      · rfl
      · split
        · rfl
        · split <;> rfl
  | isolatedTradeCashIn id amount =>
      simp only [Call.execute, answer, isolatedTradeCashIn]
      split
      · rfl
      · split <;> rfl
  | isolatedOrderClose id => cases h
  | isolatedOrderCloseLongs => cases h
  | isolatedOrderCloseShorts => cases h
  | isolatedOrderCloseAll => cases h
  | crossDeposit amount =>
      simp only [Call.execute, answer, crossDeposit]
      split
      · rfl
      · split_ifs
        · rfl
        · exact crossCommit_history _ _
  | crossWithdraw amount =>
      simp only [Call.execute, answer, crossWithdraw]
      split
      · rfl
      · split_ifs
        · rfl
        · split
          · rfl
          · exact crossCommit_history _ _
  | crossSetLeverage leverage => exact crossCommit_history _ _
  | crossOrder request =>
      simp only [Call.execute, answer, crossOrder, executeCrossOrder]
      split <;> rfl
  | crossOrderClosePosition =>
      simp only [Call.execute, answer, crossOrderClosePosition]
      split_ifs
      · rfl
      · split <;> rfl
  | tradingState => rfl

theorem closeRunning_passed {close : Close} {ids : List Uuid}
    (h : (ex.closeRunning s close).2 = .ok ids) :
    ∃ acc last, Passes ex (closeFates ex s.time close) s.runningMap.tradesDesc
      { startPass s with lastTradeTime := last } acc ∧
      Commits ε s (ex.closeRunning s close).1 acc := by
  unfold closeRunning at h ⊢
  cases hclose : ex.closePass s close with
  | error e => simp [hclose] at h
  | ok closing =>
      obtain ⟨acc, history⟩ := closing
      simp only [closePass, bind_eq_ok, pure_eq_ok, Prod.mk.injEq] at hclose
      obtain ⟨price, -, acc, hloop, history, hhist, rfl, rfl⟩ := hclose
      have hpass := closeLoop_passes hloop
      exact ⟨acc, s.lastTradeTime, hpass, rfl, rfl, rfl, rfl, rfl,
        (closePass_fundingFees hpass).symm, rfl, hhist⟩

/-- A successful operation passes over the running trades, or leaves the history alone. -/
theorem history_or_passed {op : Op} (hsuc : Succeeds ex s op) :
    (op.perform ex s).1.closedHistory = s.closedHistory ∨
      ∃ fates acc last, op.fates ex s = some fates ∧
        Passes ex fates s.runningMap.tradesDesc { startPass s with lastTradeTime := last } acc ∧
        Commits ε s (op.perform ex s).1 acc := by
  have closing : ∀ (c : Call) (close : Close) (wrap : List Uuid → Answer),
      c.execute ex s = answer wrap (ex.closeRunning s close) → Succeeds ex s (.call c) →
      ∃ acc last, Passes ex (closeFates ex s.time close) s.runningMap.tradesDesc
        { startPass s with lastTradeTime := last } acc ∧
        Commits ε s (c.execute ex s).1 acc := by
    intro c close wrap hc hc'
    obtain ⟨ids, hids⟩ := method_succeeds hc hc'
    rw [hc]
    exact closeRunning_passed hids
  cases op with
  | call c =>
      cases hfates : (Op.call c).fates ex s with
      | none => exact Or.inl (call_history hfates)
      | some fates =>
          refine Or.inr ?_
          cases c with
          | isolatedOrderClose id =>
              obtain ⟨acc, last, hpass⟩ := closing _ (.single id) _ rfl hsuc
              exact ⟨_, acc, last, hfates.symm, hpass⟩
          | isolatedOrderCloseLongs =>
              obtain ⟨acc, last, hpass⟩ := closing _ (.side .buy) _ rfl hsuc
              exact ⟨_, acc, last, hfates.symm, hpass⟩
          | isolatedOrderCloseShorts =>
              obtain ⟨acc, last, hpass⟩ := closing _ (.side .sell) _ rfl hsuc
              exact ⟨_, acc, last, hfates.symm, hpass⟩
          | isolatedOrderCloseAll =>
              obtain ⟨acc, last, hpass⟩ := closing _ .all _ rfl hsuc
              exact ⟨_, acc, last, hfates.symm, hpass⟩
          | _ => cases hfates
  | candleUpdate candle =>
      have hout : ex.candleUpdate s candle = ((ex.candleUpdate s candle).1, .ok ()) :=
        Prod.ext rfl hsuc
      rcases candleUpdate_cases hout with ⟨-, -, pos, last, hs'⟩ | ⟨-, acc, last, hpass⟩
      · refine Or.inl ?_
        change (ex.candleUpdate s candle).1.closedHistory = _
        rw [hs']
      · exact Or.inr ⟨_, acc, last, rfl, hpass⟩
  | applyFundingSettlement settlement =>
      have hout : ex.applyFundingSettlement s settlement =
          ((ex.applyFundingSettlement s settlement).1, .ok ()) := Prod.ext rfl hsuc
      rcases applyFundingSettlement_cases hout with hs' | ⟨acc, hpass⟩
      · exact Or.inl (congrArg SimulatedTradeExecutorState.closedHistory hs')
      · exact Or.inr ⟨_, acc, s.lastTradeTime, rfl, hpass⟩
  | updateTime time =>
      refine Or.inl ?_
      simp only [Op.perform, updateTime]
      split <;> rfl

theorem Op.moves {op : Op} (hsuc : Succeeds ex s op) : Moves ex s op (op.perform ex s).1 := by
  by_cases horder : ∃ request, op = .call (.isolatedOrder request)
  · obtain ⟨request, rfl⟩ := horder
    obtain ⟨id, hid⟩ := method_succeeds rfl hsuc
    obtain ⟨entry, trigger, hopen, rfl, hs'⟩ := isolatedOrder_eq_ok hid
    obtain ⟨market, stoploss, p, -, hentry⟩ := openTrade_spec hopen
    have hperform : ((Op.call (.isolatedOrder request)).perform ex s).1 =
        (ex.isolatedOrder s request).1 := rfl
    rw [hperform, hs']
    refine .opened entry ?_ ?_ rfl rfl rfl
    · simp [Op.opens, hid, Except.toOption]
    · rw [hentry]
  have hopens : op.opens ex s = none := by
    cases op with
    | call c =>
        cases c with
        | isolatedOrder request => exact absurd ⟨request, rfl⟩ horder
        | _ => rfl
    | _ => rfl
  have heffect : Effect ex s op (op.perform ex s).1 := op.effect
  cases heffect with
  | quiet htrigger hmap hdrawn hbooks =>
      rcases history_or_passed hsuc with hhist | ⟨fates, acc, last, hfates, hpass, hcommit⟩
      · exact .still hopens hmap hhist hdrawn
      · exact .passed fates acc last hopens hfates hpass hcommit
  | opened request entry trigger hop => exact absurd ⟨request, hop⟩ horder
  | marginAdded id amount key entry trade hop hget hadd hs' =>
      rw [hs']
      exact .rewritten key entry trade hopens (getById_mem hget) (withAddedMargin_same hadd)
        rfl rfl rfl
  | cashedIn id amount key entry trade hop hget hcash hs' =>
      rw [hs']
      exact .rewritten key entry trade hopens (getById_mem hget) (withCashIn_same hcash)
        rfl rfl rfl
  | passed fates acc last hfates hpass hcommit =>
      exact .passed fates acc last hopens hfates hpass hcommit
  | interrupted candle hop hs' hfail hloop => exact absurd hsuc hfail

/-! ### The invariant -/

/-- The maps agree, and every id is held once and has been drawn. -/
structure Filed (ex : SimulatedTradeExecutor ε) (s : SimulatedTradeExecutorState) : Prop where
  running : RunningTradesMap.Agree s.runningMap
  closed : ClosedTradeHistory.Agree s.closedHistory
  nodup : (tradeIds s).Nodup
  drawn : ∀ id ∈ tradeIds s, ∃ i < s.drawn, id = ex.newV4 i

theorem filed_start {startCandle : OhlcCandleRow} {startBalance : ℕ} :
    Filed ex (ex.new startCandle startBalance) where
  running := Indexed.Agree.empty
  closed := Indexed.Agree.empty
  nodup := List.nodup_nil
  drawn := by
    intro id h
    cases h

namespace Filed

/-- The ids stay filed when they are the old ones in another place, and new ones. -/
theorem of_perm (hi : Filed ex s) (opened : List Uuid)
    (hrunning : RunningTradesMap.Agree s'.runningMap)
    (hclosed : ClosedTradeHistory.Agree s'.closedHistory)
    (hperm : (tradeIds s').Perm (opened ++ tradeIds s)) (hdrawn : s.drawn ≤ s'.drawn)
    (hnew : opened.Nodup ∧
      ∀ id ∈ opened, id ∉ tradeIds s ∧ ∃ i < s'.drawn, id = ex.newV4 i) : Filed ex s' where
  running := hrunning
  closed := hclosed
  nodup := by
    rw [hperm.nodup_iff]
    exact List.Nodup.append hnew.1 hi.nodup fun id hid hold => (hnew.2 id hid).1 hold
  drawn := by
    intro id hid
    rcases List.mem_append.mp (hperm.subset hid) with hnewId | hold
    · exact (hnew.2 id hnewId).2
    · obtain ⟨i, hlt, heq⟩ := hi.drawn id hold
      exact ⟨i, hlt.trans_le hdrawn, heq⟩

theorem notMem_next (hi : Filed ex s) (hinj : Function.Injective ex.newV4) :
    ex.newV4 s.drawn ∉ tradeIds s := by
  intro h
  obtain ⟨i, hlt, heq⟩ := hi.drawn _ h
  exact hlt.ne' (hinj heq)

/-- One operation: what it opens is added, and what is closed stays closed. -/
theorem step (hi : Filed ex s) (hinj : Function.Injective ex.newV4) {op : Op}
    (h : Moves ex s op s') : Filed ex s' ∧
      (tradeIds s').Perm ((op.opens ex s).toList ++ tradeIds s) ∧
      closedIds s.closedHistory ⊆ closedIds s'.closedHistory := by
  cases h with
  | still hopens hmap hhistory hdrawn =>
      have hids : tradeIds s' = tradeIds s := by rw [tradeIds, tradeIds, hmap, hhistory]
      rw [hopens, hids, hhistory]
      refine ⟨hi.of_perm [] ?_ ?_ ?_ hdrawn ⟨List.nodup_nil, by simp⟩,
        List.Perm.refl _, fun _ hid => hid⟩
      · exact hmap ▸ hi.running
      · exact hhistory ▸ hi.closed
      · rw [hids]
        exact List.Perm.refl _
  | opened entry hopens hid hmap hhistory hdrawn =>
      have hnew : entry.1.id ∉ tradeIds s := hid ▸ hi.notMem_next hinj
      obtain ⟨hagree, hperm⟩ := add_running entry.2 hi.running
        fun hmem => hnew (List.mem_append_left _ hmem)
      have hids : (tradeIds s').Perm ([entry.1.id] ++ tradeIds s) := by
        rw [tradeIds, tradeIds, hmap, hhistory]
        exact hperm.append_right _
      rw [hopens, hhistory]
      refine ⟨hi.of_perm [entry.1.id] (hmap ▸ hagree) (hhistory ▸ hi.closed) hids (by omega)
        ⟨?_, ?_⟩, hids, fun _ hid => hid⟩
      · exact List.nodup_singleton _
      · intro id hmem
        obtain rfl := List.mem_singleton.mp hmem
        exact ⟨hnew, s.drawn, by omega, hid⟩
  | rewritten key entry trade hopens hmem hsame hmap hhistory hdrawn =>
      have hkeyed : ∀ k e, (k, e) ∈ s.runningMap.trades.set key (trade, entry.2) →
          k = entryKey e := by
        intro k e he
        obtain ⟨⟨k', e'⟩, hd, heq⟩ := OrdMap.mem_set.mp he
        obtain ⟨rfl, rfl⟩ := Prod.mk.inj heq
        split_ifs with hk
        · obtain rfl : k = key := hk
          exact (hi.running.keyed _ _ hmem).trans hsame.reference.symm
        · exact hi.running.keyed _ _ hd
      obtain ⟨hagree, hrunning⟩ := hi.running.rewrite (by simp [OrdMap.set]) hkeyed
      have hids : tradeIds s' = tradeIds s := by
        rw [tradeIds, tradeIds, hmap, hhistory, runningIds, hrunning]
        rfl
      rw [hopens, hids, hhistory]
      refine ⟨hi.of_perm [] ?_ ?_ ?_ hdrawn.ge ⟨List.nodup_nil, by simp⟩,
        List.Perm.refl _, fun _ hid => hid⟩
      · rw [hmap]
        exact hagree
      · exact hhistory ▸ hi.closed
      · rw [hids]
        exact List.Perm.refl _
  | passed fates acc last hopens hfates hpass hcommit =>
      have hdesc := runningIds_perm s.runningMap
      have hall := (hdesc.append_right (closedIds s.closedHistory)).nodup_iff.mpr hi.nodup
      obtain ⟨hagree, hsplit⟩ := hpass.ids hfates Indexed.Agree.empty (by
        simpa [startPass, RunningTradesMap.new, runningIds, Indexed.ids, OrdMap.empty] using
          hall.of_append_left)
      have hmoved : (runningIds acc.runningMap ++ acc.closedTrades.map (·.id)).Perm
          (runningIds s.runningMap) := by
        refine hsplit.trans (List.Perm.trans ?_ hdesc)
        simp [startPass, RunningTradesMap.new, runningIds, Indexed.ids, OrdMap.empty]
      have hnodup : ((runningIds acc.runningMap ++ acc.closedTrades.map (·.id)) ++
          closedIds s.closedHistory).Nodup :=
        (hmoved.append_right _).nodup_iff.mpr hi.nodup
      obtain ⟨hclosed, hhistory⟩ := addClosed_ids hi.closed (by
        rw [List.append_assoc] at hnodup
        exact hnodup.of_append_right) hcommit.history
      have hids : (tradeIds s').Perm ([] ++ tradeIds s) := by
        rw [tradeIds, tradeIds, hcommit.runningMap, List.nil_append]
        refine (hhistory.append_left _).trans ?_
        rw [← List.append_assoc]
        exact hmoved.append_right _
      rw [hopens]
      refine ⟨hi.of_perm [] (hcommit.runningMap ▸ hagree) hclosed hids hcommit.drawn.ge
        ⟨List.nodup_nil, by simp⟩, hids, fun id hid => ?_⟩
      exact hhistory.symm.subset (List.mem_append_right _ hid)

end Filed

/-! ### Runs -/

/-- The runs of successful operations, each labelled with the id it opens. -/
def openings (ex : SimulatedTradeExecutor ε) :
    System SimulatedTradeExecutorState (Op × Option Uuid) where
  start s := ∃ startCandle startBalance, s = ex.new startCandle startBalance
  step s step s' :=
    (Succeeds ex s step.1 ∧ step.2 = step.1.opens ex s) ∧ (step.1.perform ex s).1 = s'

/-- Every id opened is running or closed, and the running map's two indexes agree. -/
structure Conserved (opened : List Uuid) (s : SimulatedTradeExecutorState) : Prop where
  openedOnce : opened.Nodup
  oneOf : ∀ id ∈ opened,
    Xor (s.runningMap.contains id = true) (id ∈ closedIds s.closedHistory)
  opened : ∀ id, s.runningMap.contains id = true ∨ id ∈ closedIds s.closedHistory → id ∈ opened
  closedOnce : (closedIds s.closedHistory).Nodup
  len : s.runningMap.len = s.runningMap.tradesDesc.length
  contains : ∀ id, s.runningMap.contains id = true ↔ ∃ e ∈ s.runningMap.tradesDesc, e.1.id = id
  getById : ∀ id key e, s.runningMap.getById id = some (key, e) ↔
    e ∈ s.runningMap.tradesDesc ∧ e.1.id = id ∧ key = e.1.reference
  distinct : (s.runningMap.tradesDesc.map (·.1.id)).Nodup

theorem contains_iff {m : RunningTradesMap} (h : RunningTradesMap.Agree m) {id : Uuid} :
    m.contains id = true ↔ id ∈ runningIds m := h.get_isSome

theorem getById_iff {m : RunningTradesMap} (h : RunningTradesMap.Agree m) {id : Uuid}
    {key : TradeReference} {e : RunningEntry} : m.getById id = some (key, e) ↔
      e ∈ m.tradesDesc ∧ e.1.id = id ∧ key = e.1.reference := by
  rw [mem_tradesDesc]
  have hlookup := h.lookup (i := id) (a := e)
  rw [Option.bind_eq_some_iff] at hlookup
  simp only [RunningTradesMap.getById, Option.bind_eq_bind, Option.bind_eq_some_iff,
    Option.some.injEq, Prod.mk.injEq]
  constructor
  · rintro ⟨time, htime, e', hget, hkey, rfl⟩
    obtain ⟨⟨k, hmem⟩, hid⟩ := hlookup.mp ⟨time, htime, hget⟩
    refine ⟨⟨k, hmem⟩, hid, ?_⟩
    rw [← hkey]
    exact h.keyed _ _ (OrdMap.get_eq_some.mp hget)
  · rintro ⟨hmem, hid, hkey⟩
    obtain ⟨time, htime, hget⟩ := hlookup.mpr ⟨hmem, hid⟩
    refine ⟨time, htime, e, hget, ?_, rfl⟩
    rw [hkey]
    exact h.keyed _ _ (OrdMap.get_eq_some.mp hget)

theorem Filed.conserved (hi : Filed ex s) {opened : List Uuid}
    (hperm : (tradeIds s).Perm opened) : Conserved opened s where
  openedOnce := hperm.nodup_iff.mp hi.nodup
  oneOf := by
    intro id hid
    rw [contains_iff hi.running]
    have hdisjoint := List.disjoint_of_nodup_append hi.nodup
    rcases List.mem_append.mp (hperm.symm.subset hid) with hrun | hclosed
    · exact Or.inl ⟨hrun, fun hc => hdisjoint hrun hc⟩
    · exact Or.inr ⟨hclosed, fun hr => hdisjoint hr hclosed⟩
  opened := by
    intro id hid
    rw [contains_iff hi.running, ← List.mem_append] at hid
    exact hperm.subset hid
  closedOnce := hi.nodup.of_append_right
  len := by
    rw [RunningTradesMap.len, hi.running.size_eq]
    simp [OrdMap.size, RunningTradesMap.tradesDesc, OrdMap.valuesDesc]
  contains := by
    intro id
    rw [contains_iff hi.running, ← (runningIds_perm s.runningMap).mem_iff, List.mem_map]
  getById _ _ _ := getById_iff hi.running
  distinct := (runningIds_perm s.runningMap).nodup_iff.mpr hi.nodup.of_append_left

/-- Trade conservation, after every run of successful operations and ever after it. -/
theorem trades_conserved (hinj : Function.Injective ex.newV4) {steps : List (Op × Option Uuid)}
    (hrun : (openings ex).Run steps s) :
    Conserved (steps.filterMap (·.2)) s ∧
      ∀ more s', ((openings ex).startedIn s).Run more s' → ∀ id ∈ closedIds s.closedHistory,
        id ∈ closedIds s'.closedHistory ∧ s'.runningMap.contains id = false := by
  have hfiled : Filed ex s ∧ (tradeIds s).Perm (steps.filterMap (·.2)) := by
    induction hrun with
    | start hs =>
        obtain ⟨startCandle, startBalance, rfl⟩ := hs
        exact ⟨filed_start, List.Perm.refl _⟩
    | @step steps s s' step _ hs ih =>
        obtain ⟨⟨hsuc, hopens⟩, rfl⟩ := hs
        obtain ⟨hi, hperm, -⟩ := ih.1.step hinj (Op.moves hsuc)
        refine ⟨hi, hperm.trans ?_⟩
        rw [List.filterMap_append, ← hopens]
        have hlast : [step].filterMap (·.2) = step.2.toList := by
          cases h : step.2 <;> simp [h]
        rw [hlast]
        exact (ih.2.append_left _).trans List.perm_append_comm
  refine ⟨hfiled.1.conserved hfiled.2, ?_⟩
  intro more s' hmore id hid
  have hlater : Filed ex s' ∧ closedIds s.closedHistory ⊆ closedIds s'.closedHistory := by
    apply hmore.invariant
    · intro s₀ hs
      obtain rfl : s₀ = s := hs
      exact ⟨hfiled.1, fun _ h => h⟩
    · rintro s₁ step _ ⟨hi, hsub⟩ ⟨⟨hsuc, -⟩, rfl⟩
      obtain ⟨hi', -, hstep⟩ := hi.step hinj (Op.moves hsuc)
      exact ⟨hi', fun _ h => hstep (hsub h)⟩
  have hclosed := hlater.2 hid
  refine ⟨hclosed, ?_⟩
  rw [← Bool.not_eq_true, contains_iff hlater.1.running]
  exact fun hrunning => List.disjoint_of_nodup_append hlater.1.nodup hrunning hclosed

/-- Two longs, of which the second is closed. -/
def mixedSteps : List (Op × Option Uuid) :=
  mixedOps.zip [some ⟨0⟩, none, some ⟨1⟩, none, none, none, none]

def mixedEnd : SimulatedTradeExecutorState :=
  mixedSteps.foldl (fun s step => (step.1.perform referenceExecutor s).1)
    (referenceExecutor.new openingCandle 10000000)

theorem mixedSteps_run : (openings referenceExecutor).Run mixedSteps mixedEnd := by
  have hstart : (openings referenceExecutor).Run []
      (referenceExecutor.new openingCandle 10000000) := .start ⟨openingCandle, 10000000, rfl⟩
  have halong : System.Along (fun s step => (step.1.perform referenceExecutor s).1)
      (fun s step => Succeeds referenceExecutor s step.1 ∧
        step.2 = step.1.opens referenceExecutor s)
      (referenceExecutor.new openingCandle 10000000) mixedSteps := by
    decide +kernel
  refine hstart.foldl ?_ halong
  intro _ _ h
  exact ⟨h, rfl⟩

theorem trades_conserved_mixed :
    Conserved [⟨0⟩, ⟨1⟩] mixedEnd ∧
      ∀ more s', ((openings referenceExecutor).startedIn mixedEnd).Run more s' →
        ∀ id ∈ closedIds mixedEnd.closedHistory,
          id ∈ closedIds s'.closedHistory ∧ s'.runningMap.contains id = false :=
  trades_conserved referenceExecutor_newV4 mixedSteps_run

end Quantoxide.Executor
