import Quantoxide.Verification.Live.Renewal

/-! # Closures missed by the previous session

A renewal looks the missed closures up in one page of the account's closed trades, as long as
the previous session's running trades. It books all of them, or fails. -/

namespace Quantoxide.LiveTradingSession

open Result

variable {ε : Type} {sdk : LnmSdk ε} {tslStepSize : PercentageCapped}
  {sources : SessionSources ε} {prev base session s' : LiveTradingSession} {t : Trade}

/-! ### The account -/

/-- The trades of an account, the closed ones with the newest first, and the rows of the
database. -/
structure Account where
  running : List Trade
  closed : List Trade
  rows : OrdMap Uuid (Option TradeTrailingStoploss)

/-- Every trade is listed once, for what it is. -/
structure Account.Valid (account : Account) : Prop where
  running : ∀ t ∈ account.running, t.running = true
  running_nodup : (account.running.map (·.id)).Nodup
  closed : ∀ t ∈ account.closed,
    t.closed = true ∧ t.exitPrice.isSome = true ∧ t.closedAt.isSome = true
  closed_nodup : (account.closed.map (·.id)).Nodup

/-- The exchange and the database answer for the account, with pages of its closed trades. -/
structure Answers (sources : SessionSources ε) (tslStepSize : PercentageCapped)
    (prev : LiveTradingSession) (account : Account) : Prop where
  base : ∃ base, unrecovered sources tslStepSize (some prev) = .ok base
  tradesRunning : sources.tradesRunning = .ok account.running
  tradesClosed : ∀ limit, sources.tradesClosed limit = .ok (account.closed.take limit)
  runningTradesMap : sources.runningTradesMap = .ok account.rows
  removeRunningTrades : ∀ ids, sources.removeRunningTrades ids = .ok ()

/-- The closures that the previous session missed. -/
def closuresOf (prev : LiveTradingSession) (account : Account) (closed : List Trade) :
    List Trade :=
  closed.filter fun t => (prev.missedIds account.running).contains t.id

/-- A closed trade filed in the history. -/
def filed (history : DynClosedTradeHistory) (t : Trade) : DynClosedTradeHistory :=
  ⟨history.trades.insert t.reference t, history.idToTime.insert t.id t.createdAt⟩

/-- The ledger of a session with each of the closures booked. -/
structure Booked (prev : LiveTradingSession) (closures : List Trade)
    (session s' : LiveTradingSession) : Prop where
  realizedPl : s'.realizedPl = session.realizedPl + (closures.map (·.pl)).sum
  closedFees : s'.closedFees =
    session.closedFees + (closures.map fun t => t.openingFee + t.closingFee).sum
  closedHistory : s'.closedHistory = closures.foldl filed session.closedHistory
  fundingFees : s'.fundingFees = session.fundingFees + (closures.map prev.missedFunding).sum

/-- What a recovery starts from. -/
structure SameStart (session s' : LiveTradingSession) : Prop where
  runningMap : s'.runningMap = session.runningMap
  tslStepSize : s'.tslStepSize = session.tslStepSize
  fundingSnapshot : s'.fundingSnapshot = session.fundingSnapshot

/-! ### The page -/

/-- Looking through part of the page: its missed closures are booked, the rest is pending. -/
structure Confirms (prev : LiveTradingSession) (account : Account) (session : LiveTradingSession)
    (done : List Trade) (acc : Reconciled) : Prop where
  unconfirmed : acc.unconfirmed =
    (prev.missedIds account.running).filter fun id => id ∉ done.map (·.id)
  booked : Booked prev (prev.closuresOf account done) session acc.session
  start : SameStart session acc.session

theorem add_of_closed {history : DynClosedTradeHistory}
    (h : t.closed = true ∧ t.exitPrice.isSome = true ∧ t.closedAt.isSome = true) :
    (history.add t : Except (TradeCoreError ε) _) = .ok (filed history t) := by
  obtain ⟨hclosed, hexit, hat⟩ := h
  rw [Option.isSome_iff_ne_none] at hexit hat
  simp [DynClosedTradeHistory.add, hclosed, hexit, hat, filed]

theorem Confirms.step {account : Account} {done : List Trade} {acc : Reconciled}
    (h : Confirms prev account session done acc)
    (ht : t.closed = true ∧ t.exitPrice.isSome = true ∧ t.closedAt.isSome = true) :
    ∃ acc', (confirmClosed (prev.missedIds account.running) prev.fundingSnapshot acc t :
        ActionResult ε Reconciled) = .ok acc' ∧
      Confirms prev account session (done ++ [t]) acc' := by
  have hpending : ∀ ids : List Uuid, (ids.filter fun id => id ∉ done.map (·.id)).filter
      (fun id => id ≠ t.id) = ids.filter fun id => id ∉ (done ++ [t]).map (·.id) := by
    intro ids
    rw [List.filter_filter]
    apply List.filter_congr
    intro id _
    rw [List.map_append, List.map_singleton, ← Bool.decide_and, decide_eq_decide, List.mem_append,
      List.mem_singleton, not_or, and_comm]
  cases hmissed : (prev.missedIds account.running).contains t.id with
  | true =>
      have hlast : prev.closuresOf account (done ++ [t]) = prev.closuresOf account done ++ [t] := by
        rw [closuresOf, List.filter_append, List.filter_singleton, hmissed]
        rfl
      obtain ⟨acc', hacc'⟩ : ∃ acc', (confirmClosed (prev.missedIds account.running)
          prev.fundingSnapshot acc t : ActionResult ε Reconciled) = .ok acc' := by
        simp only [confirmClosed, hmissed, Bool.not_true, Bool.false_eq_true, if_false, bind_eq_ok,
          mapError_eq_ok]
        exact ⟨_, _, add_of_closed ht, rfl⟩
      refine ⟨acc', hacc', ?_⟩
      simp only [confirmClosed, hmissed, Bool.not_true, Bool.false_eq_true, if_false, bind_eq_ok,
        mapError_eq_ok, pure_eq_ok] at hacc'
      obtain ⟨history, hhistory, rfl⟩ := hacc'
      obtain rfl := Except.ok.inj (hhistory.symm.trans (add_of_closed ht))
      refine ⟨?_, ⟨?_, ?_, ?_, ?_⟩, h.start.runningMap, h.start.tslStepSize,
        h.start.fundingSnapshot⟩
      · show acc.unconfirmed.filter _ = _
        rw [h.unconfirmed, ← hpending]
      · show acc.session.realizedPl + t.pl = _
        rw [h.booked.realizedPl, hlast, List.map_append, List.sum_append, List.map_singleton,
          List.sum_singleton, add_assoc]
      · show acc.session.closedFees + (t.openingFee + t.closingFee) = _
        rw [h.booked.closedFees, hlast, List.map_append, List.sum_append, List.map_singleton,
          List.sum_singleton, add_assoc]
      · show filed acc.session.closedHistory t = _
        rw [h.booked.closedHistory, hlast, List.foldl_append, List.foldl_cons, List.foldl_nil]
      · show acc.session.fundingFees + prev.missedFunding t = _
        rw [h.booked.fundingFees, hlast, List.map_append, List.sum_append, List.map_singleton,
          List.sum_singleton, add_assoc]
  | false =>
      have hlast : prev.closuresOf account (done ++ [t]) = prev.closuresOf account done := by
        rw [closuresOf, List.filter_append, List.filter_singleton, hmissed]
        exact List.append_nil _
      refine ⟨acc, by simp only [confirmClosed, hmissed, Bool.not_false, if_true], ?_, ?_, h.start⟩
      · rw [h.unconfirmed, ← hpending, List.filter_filter]
        apply List.filter_congr
        intro id hid
        have hne : id ≠ t.id := by
          rintro rfl
          rw [List.contains_iff_mem.mpr hid] at hmissed
          cases hmissed
        simp [hne]
      · rw [hlast]
        exact h.booked

theorem confirms_page (ε : Type) (prev : LiveTradingSession) (account : Account)
    (session : LiveTradingSession) {page : List Trade}
    (h : ∀ t ∈ page, t.closed = true ∧ t.exitPrice.isSome = true ∧ t.closedAt.isSome = true) :
    ∃ acc, (page.foldlM (confirmClosed (prev.missedIds account.running) prev.fundingSnapshot)
        ⟨session, prev.missedIds account.running⟩ : ActionResult ε Reconciled) = .ok acc ∧
      Confirms prev account session page acc := by
  have hstart : Confirms prev account session [] ⟨session, prev.missedIds account.running⟩ :=
    ⟨by simp, ⟨by simp [closuresOf], by simp [closuresOf], by simp [closuresOf],
      by simp [closuresOf]⟩, rfl, rfl, rfl⟩
  have hstep : ∀ done t rest (acc : Reconciled), page = done ++ t :: rest →
      Confirms prev account session done acc → ∃ acc',
        (confirmClosed (prev.missedIds account.running) prev.fundingSnapshot acc t :
          ActionResult ε Reconciled) = .ok acc' ∧
        Confirms prev account session (done ++ [t]) acc' := by
    intro done t rest acc hpage hacc
    exact hacc.step (h t (by simp [hpage]))
  obtain ⟨acc, hacc⟩ := foldlM_isOk hstart hstep
  refine ⟨acc, hacc, foldlM_invariant hacc hstart ?_⟩
  intro done t rest b b' hpage hb hfold
  obtain ⟨b'', hb'', hconfirms⟩ := hstep done t rest b hpage hb
  obtain rfl := Except.ok.inj (hfold.symm.trans hb'')
  exact hconfirms

/-- What an account's history has before a trade fits a page when the trade does. -/
theorem mem_take_iff {ts : List Trade} {id : Uuid} (h : id ∈ ts.map (·.id)) (n : ℕ) :
    id ∈ (ts.take n).map (·.id) ↔ (ts.takeWhile fun t => t.id ≠ id).length < n := by
  induction ts generalizing n with
  | nil => simp at h
  | cons t ts ih =>
      cases n with
      | zero => simp
      | succ n =>
          by_cases hid : t.id = id
          · simp [hid]
          · have hrest : id ∈ ts.map (·.id) := by
              rw [List.map_cons, List.mem_cons] at h
              exact h.resolve_left (Ne.symm hid)
            have hiff := ih hrest n
            rw [List.take_succ_cons, List.map_cons, List.mem_cons, hiff]
            simp [hid, Ne.symm hid]

/-- A page with every missed trade has every missed closure. -/
theorem closuresOf_take {account : Account} (hv : account.Valid) {n : ℕ}
    (h : ∀ id ∈ prev.missedIds account.running, id ∈ (account.closed.take n).map (·.id)) :
    prev.closuresOf account (account.closed.take n) =
      prev.closuresOf account account.closed := by
  have hnodup := hv.closed_nodup
  have hrest : prev.closuresOf account (account.closed.drop n) = [] := by
    rw [closuresOf, List.filter_eq_nil_iff]
    intro t ht hmissed
    rw [List.contains_iff_mem] at hmissed
    rw [← List.take_append_drop n account.closed, List.map_append] at hnodup
    exact (List.nodup_append.mp hnodup).2.2 t.id (h t.id hmissed) t.id
      (List.mem_map_of_mem ht) rfl
  conv_rhs => rw [← List.take_append_drop n account.closed]
  rw [closuresOf, closuresOf, List.filter_append]
  rw [closuresOf] at hrest
  rw [hrest, List.append_nil]

/-! ### Reconciliation -/

/-- Fewer closed trades came after the trade than the page has room for. -/
def InPage (prev : LiveTradingSession) (account : Account) (id : Uuid) : Prop :=
  (account.closed.takeWhile fun t => t.id ≠ id).length < max prev.runningMap.len 1

instance (account : Account) (id : Uuid) : Decidable (prev.InPage account id) :=
  inferInstanceAs (Decidable (_ < _))

theorem reconcile_isOk (session : LiveTradingSession) {account : Account} (hv : account.Valid)
    (ha : Answers sources tslStepSize prev account)
    (h : ∀ id ∈ prev.missedIds account.running,
      id ∈ (account.closed.take (max prev.runningMap.len 1)).map (·.id)) :
    ∃ s', prev.reconcile sources account.running session = .ok s' ∧
      Booked prev (prev.closuresOf account account.closed) session s' ∧ SameStart session s' := by
  unfold reconcile
  by_cases hempty : (prev.missedIds account.running).isEmpty = true
  · have hnone : prev.closuresOf account account.closed = [] := by
      rw [closuresOf, List.isEmpty_iff.mp hempty]
      simp
    rw [if_pos hempty, hnone]
    exact ⟨session, rfl, ⟨by simp, by simp, rfl, by simp⟩, rfl, rfl, rfl⟩
  · obtain ⟨acc, hfold, hconfirms⟩ := confirms_page ε prev account session
      fun t (ht : t ∈ account.closed.take (max prev.runningMap.len 1)) =>
        hv.closed t (List.mem_of_mem_take ht)
    have hall : acc.unconfirmed = [] := by
      rw [hconfirms.unconfirmed, List.filter_eq_nil_iff]
      intro id hid
      simpa using h id hid
    refine ⟨acc.session, ?_, closuresOf_take hv h ▸ hconfirms.booked, hconfirms.start⟩
    rw [if_neg hempty]
    simp only [ha.tradesClosed, mapError_ok, bind_eq_ok]
    exact ⟨_, rfl, acc, hfold, by rw [hall]; rfl⟩

theorem inPage_of_reconcile {account : Account} (hv : account.Valid)
    (ha : Answers sources tslStepSize prev account)
    (h : prev.reconcile sources account.running session = .ok s') :
    ∀ id ∈ prev.missedIds account.running,
      id ∈ (account.closed.take (max prev.runningMap.len 1)).map (·.id) := by
  intro id hid
  rcases reconcile_eq_ok h with ⟨hmissed, -⟩ | ⟨page, acc, hpage, hfold, hnil, -⟩
  · exact absurd hmissed (List.ne_nil_of_mem hid)
  rw [ha.tradesClosed] at hpage
  obtain rfl := Except.ok.inj hpage
  obtain ⟨acc', hfold', hconfirms⟩ := confirms_page ε prev account session
    fun t (ht : t ∈ account.closed.take (max prev.runningMap.len 1)) =>
      hv.closed t (List.mem_of_mem_take ht)
  obtain rfl := Except.ok.inj (hfold.symm.trans hfold')
  rw [hconfirms.unconfirmed, List.filter_eq_nil_iff] at hnil
  simpa using hnil id hid

/-! ### Recovery -/

/-- Running trades with trigger bounds are all recovered. -/
theorem recoverTrades_isOk {account : Account} (snapshot : OrdMap Uuid ℤ) (hv : account.Valid)
    (ha : Answers sources tslStepSize prev account) (hmap : session.runningMap = .new)
    (hsnapshot : session.fundingSnapshot = .empty) (hstep : session.tslStepSize = tslStepSize)
    (hbounds : ∀ t ∈ account.running,
      TradeEntry.HasBounds sdk tslStepSize (t, (account.rows.get t.id).join)) :
    ∃ s', session.recoverTrades sdk sources snapshot account.running = .ok s' := by
  obtain ⟨acc, hfold⟩ := foldlM_isOk
    (P := fun done (acc : LiveTradingSession × OrdMap Uuid (Option TradeTrailingStoploss)) =>
      Recovers sdk snapshot account.rows session done acc.1 ∧
      (∀ id, id ∉ done.map (·.id) → acc.2.get id = account.rows.get id) ∧
      acc.1.tslStepSize = tslStepSize)
    (f := recoverTrade sdk snapshot) (b := (session, account.rows))
    ⟨recovers_start hmap hsnapshot, fun _ _ => rfl, hstep⟩ (by
      intro done t rest acc (hts : account.running = done ++ t :: rest) hacc
      obtain ⟨hrecovers, hrows, htsl⟩ := hacc
      have hnodup := hv.running_nodup
      rw [hts, List.map_append, List.map_cons] at hnodup
      have hdone : t.id ∉ done.map (·.id) := fun hmem =>
        (List.nodup_append.mp hnodup).2.2 _ hmem _ List.mem_cons_self rfl
      have hmem : t ∈ account.running := by simp [hts]
      have hunknown : acc.1.runningMap.contains t.id = false := by
        rw [hrecovers.sound.consistent.contains_eq_false, DynRunningTradesMap.mem_ids]
        intro hex
        obtain ⟨e, he, hid⟩ := hex
        obtain ⟨d, hd, rfl⟩ := (hrecovers.mem_iff e).mp he
        exact hdone (List.mem_map.mpr ⟨d, hd, hid⟩)
      have hbound := hbounds t hmem
      rw [← hrows t.id hdone, ← htsl] at hbound
      obtain ⟨next, hnext⟩ : ∃ next, registerRunningTrade sdk { acc.1 with
          fundingFees := acc.1.fundingFees - (snapshot.get t.id).getD t.sumFundingFees } t
          (acc.2.get t.id).join false = .ok next :=
        registerRunningTrade_isOk (hv.running t hmem) hunknown hbound
      have hok : recoverTrade sdk snapshot acc t = .ok (next, acc.2.erase t.id) := by
        simp only [recoverTrade, bind_eq_ok, pure_eq_ok]
        exact ⟨next, hnext, rfl⟩
      have hregisters := (registers_of_ok hnext).tslStepSize
      obtain ⟨hrecovers', hrows'⟩ := hrecovers.step hrows hok
      exact ⟨_, hok, hrecovers', hrows', hregisters.trans htsl⟩)
  simp only [recoverTrades, ha.runningTradesMap, mapError_ok, bind_eq_ok]
  by_cases hempty : acc.2.isEmpty = true
  · exact ⟨acc.1, _, rfl, acc, hfold, by simp [hempty, pure, Except.pure]⟩
  · refine ⟨acc.1, _, rfl, acc, hfold, ?_⟩
    simp [hempty, ha.removeRunningTrades, bind, Except.bind, pure, Except.pure]

/-- A recovery books no closure. -/
structure SameLedger (session s' : LiveTradingSession) : Prop where
  tslStepSize : s'.tslStepSize = session.tslStepSize
  realizedPl : s'.realizedPl = session.realizedPl
  closedFees : s'.closedFees = session.closedFees
  closedHistory : s'.closedHistory = session.closedHistory

theorem sameLedger_of_register {tsl : Option TradeTrailingStoploss} {updateBalance : Bool}
    (h : session.registerRunningTrade sdk t tsl updateBalance = .ok s') :
    SameLedger session s' := by
  obtain ⟨-, -, trigger, balance, -, rfl⟩ := registerRunningTrade_eq_ok h
  exact ⟨rfl, rfl, rfl, rfl⟩

theorem sameLedger_of_recoverTrades {snapshot : OrdMap Uuid ℤ} {running : List Trade}
    (h : session.recoverTrades sdk sources snapshot running = .ok s') : SameLedger session s' := by
  refine recoverTrades_invariant (P := SameLedger session) ⟨rfl, rfl, rfl, rfl⟩ ?_ h
  intro s fundingFees t tsl s'' hs hregister
  have hkept := sameLedger_of_register hregister
  exact ⟨hkept.tslStepSize.trans hs.tslStepSize, hkept.realizedPl.trans hs.realizedPl,
    hkept.closedFees.trans hs.closedFees, hkept.closedHistory.trans hs.closedHistory⟩

/-! ### The renewal -/

/-- Each missed closure is booked once, on top of the previous session and beside what the
recovered trades realize. -/
structure BooksOnce (prev : LiveTradingSession) (account : Account) (recovered : List Trade)
    (s' : LiveTradingSession) : Prop where
  realizedPl : s'.realizedPl =
    prev.realizedPl + ((prev.closuresOf account account.closed).map (·.pl)).sum
  closedFees : s'.closedFees = prev.closedFees +
    ((prev.closuresOf account account.closed).map fun t => t.openingFee + t.closingFee).sum
  closedHistory : s'.closedHistory =
    (prev.closuresOf account account.closed).foldl filed prev.closedHistory
  fundingFees : s'.fundingFees = prev.fundingFees +
    ((prev.closuresOf account account.closed).map prev.missedFunding).sum +
    (recovered.map (recoveredFunding prev.fundingSnapshot)).sum

/-- What a session without its trades takes over from the previous one. -/
theorem unrecovered_ledger (h : unrecovered sources tslStepSize (some prev) = .ok base) :
    base.realizedPl = prev.realizedPl ∧ base.closedFees = prev.closedFees ∧
      base.closedHistory = prev.closedHistory ∧ base.fundingFees = prev.fundingFees := by
  simp only [unrecovered, bind_eq_ok, mapError_eq_ok, okOr_eq_ok] at h
  obtain ⟨latest, -, ⟨time, price⟩, -, balance, -, raw, -, h⟩ := h
  simp only [pure_eq_ok] at h
  obtain ⟨cross, -, rfl⟩ := h
  exact ⟨rfl, rfl, rfl, rfl⟩

theorem filed_all_get (history : DynClosedTradeHistory) {closures : List Trade} {t : Trade}
    (h : t ∈ closures) : (closures.foldl filed history).idToTime.get t.id ≠ none := by
  induction closures using List.reverseRecOn with
  | nil => simp at h
  | append_singleton closures last ih =>
      rw [List.foldl_append, List.foldl_cons, List.foldl_nil]
      show (OrdMap.insert _ _ _).get t.id ≠ none
      by_cases hid : t.id = last.id
      · rw [hid, OrdMap.get_insert_self]
        simp
      · rw [OrdMap.get_insert_of_ne hid]
        rcases List.mem_append.mp h with hold | hlast
        · exact ih hold
        · exact absurd (congrArg Trade.id (List.mem_singleton.mp hlast)) hid

/-- A renewal completes and books every missed closure exactly when it recovers trades at all,
and the page of closed trades reaches back to each of them. -/
theorem renewal_books_missed_iff (recoverTradesOnStartup : Bool) {account : Account}
    (hv : account.Valid) (ha : Answers sources tslStepSize prev account)
    (hclosed : ∀ id ∈ prev.missedIds account.running, id ∈ account.closed.map (·.id))
    (hprev : ∀ id ∈ prev.runningMap.ids, prev.closedHistory.idToTime.get id = none) :
    (∃ s', new sdk recoverTradesOnStartup tslStepSize sources (some prev) = .ok s' ∧
      BooksOnce prev account (if recoverTradesOnStartup then account.running else []) s') ↔
    (∀ id ∈ prev.missedIds account.running,
      recoverTradesOnStartup = true ∧ prev.InPage account id) ∧
    (recoverTradesOnStartup = true → ∀ t ∈ account.running,
      TradeEntry.HasBounds sdk tslStepSize (t, (account.rows.get t.id).join)) := by
  obtain ⟨base, hbase⟩ := ha.base
  obtain ⟨hrealized, hfees, hhistory, hfunding⟩ := unrecovered_ledger hbase
  have hunrecovered := unrecovered_of_ok hbase
  cases recoverTradesOnStartup with
  | false =>
      have hnew : new sdk false tslStepSize sources (some prev) = .ok base := by
        simp [new, hbase, bind, Except.bind, pure, Except.pure]
      simp only [hnew, Except.ok.injEq, Bool.false_eq_true, if_false, false_and, false_imp_iff,
        and_true, imp_false]
      constructor
      · intro h id hid
        obtain ⟨s', rfl, hbooks⟩ := h
        obtain ⟨t, ht, rfl⟩ := List.mem_map.mp (hclosed id hid)
        have hmem : t ∈ prev.closuresOf account account.closed := by
          rw [closuresOf, List.mem_filter, List.contains_iff_mem]
          exact ⟨ht, hid⟩
        have hknown := filed_all_get prev.closedHistory hmem
        rw [← hbooks.closedHistory, hhistory] at hknown
        exact hknown (hprev t.id (List.mem_of_mem_filter hid))
      · intro hnone
        have hempty : prev.closuresOf account account.closed = [] := by
          rw [closuresOf, List.filter_eq_nil_iff]
          intro t _ hmissed
          exact hnone t.id (List.contains_iff_mem.mp hmissed)
        refine ⟨base, rfl, ?_, ?_, ?_, ?_⟩
        · simp [hempty, hrealized]
        · simp [hempty, hfees]
        · simp [hempty, hhistory]
        · simp [hempty, hfunding]
  | true =>
      have hpage : (∀ id ∈ prev.missedIds account.running, true = true ∧ prev.InPage account id) ↔
          ∀ id ∈ prev.missedIds account.running,
            id ∈ (account.closed.take (max prev.runningMap.len 1)).map (·.id) := by
        apply forall₂_congr
        intro id hid
        rw [mem_take_iff (hclosed id hid)]
        simp [InPage]
      rw [hpage]
      simp only [if_true, true_imp_iff]
      constructor
      · intro h
        obtain ⟨s', hs', -⟩ := h
        have hparts := hs'
        simp only [new, Bool.not_true, Bool.false_eq_true, if_false, bind_eq_ok, mapError_eq_ok,
          ha.tradesRunning, Except.ok.injEq] at hparts
        obtain ⟨base', hbase', _, rfl, session, hreconcile, hrecover⟩ := hparts
        obtain rfl := Except.ok.inj (hbase.symm.trans hbase')
        refine ⟨inPage_of_reconcile hv ha hreconcile, ?_⟩
        have hreconciles := reconciles_of_ok hreconcile
        obtain ⟨rows, hrows, hrecovers⟩ := recovers_of_ok
          (hreconciles.runningMap.trans hunrecovered.runningMap)
          (hreconciles.fundingSnapshot.trans hunrecovered.fundingSnapshot) hrecover
        obtain rfl := Except.ok.inj (ha.runningTradesMap.symm.trans hrows)
        intro t ht
        have hbound := hrecovers.sound.bounds _ ((hrecovers.mem_iff _).mpr ⟨t, ht, rfl⟩)
        rwa [(sameLedger_of_recoverTrades hrecover).tslStepSize, hreconciles.tslStepSize,
          hunrecovered.tslStepSize] at hbound
      · intro h
        obtain ⟨session, hreconcile, hbooked, hstart⟩ := reconcile_isOk base hv ha h.1
        obtain ⟨s', hs'⟩ := recoverTrades_isOk prev.fundingSnapshot hv ha
          (hstart.runningMap.trans hunrecovered.runningMap)
          (hstart.fundingSnapshot.trans hunrecovered.fundingSnapshot)
          (hstart.tslStepSize.trans hunrecovered.tslStepSize) h.2
        have hkept := sameLedger_of_recoverTrades hs'
        obtain ⟨rows, -, hrecovers⟩ := recovers_of_ok
          (hstart.runningMap.trans hunrecovered.runningMap)
          (hstart.fundingSnapshot.trans hunrecovered.fundingSnapshot) hs'
        refine ⟨s', ?_, ?_, ?_, ?_, ?_⟩
        · simp only [new, Bool.not_true, Bool.false_eq_true, if_false, bind_eq_ok, mapError_eq_ok]
          exact ⟨base, hbase, account.running, ha.tradesRunning, session, hreconcile, hs'⟩
        · rw [hkept.realizedPl, hbooked.realizedPl, hrealized]
        · rw [hkept.closedFees, hbooked.closedFees, hfees]
        · rw [hkept.closedHistory, hbooked.closedHistory, hhistory]
        · rw [hrecovers.fundingFees, hbooked.fundingFees, hfunding]

/-! ### A closure behind the page -/

/-- A trade as it was closed at its entry price. -/
def closedAtEntry (t : Trade) (closedAt : ℤ) : Trade :=
  { t with
    closingFee := 1000
    exitPrice := some t.price
    closedAt := some closedAt
    running := false
    closed := true }

/-- The held trade, stopped out after an hour. -/
def heldClosed : Trade := closedAtEntry heldTrade (Duration.minutes 60)

/-- A trade of the account that no session knows. -/
def otherClosed (minute : ℕ) : Trade :=
  closedAtEntry { heldTrade with id := ⟨2⟩ } (Duration.minutes minute)

def accountAfter (closed : List Trade) : Account :=
  ⟨[], closed, OrdMap.empty.insert heldTrade.id heldTsl⟩

/-- What the exchange answers for the account, two hours into the session. -/
def sourcesAfter (closed : List Trade) : SessionSources Refusal :=
  { accountSources (Duration.hours 2) (accountAfter closed).running (accountAfter closed).rows with
    tradesClosed := fun limit => .ok (closed.take limit) }

theorem unrecoveredAfter_isOk (closed : List Trade) : (unrecovered (sourcesAfter closed)
    ReferenceSdk.tenthPercent (some (heldSession true))).isOk = true := by
  have hsame : unrecovered (sourcesAfter closed) ReferenceSdk.tenthPercent
      (some (heldSession true)) = unrecovered (sourcesAfter []) ReferenceSdk.tenthPercent
        (some (heldSession true)) := by
    unfold unrecovered
    rfl
  rw [hsame]
  decide +kernel

theorem answersAfter (closed : List Trade) : Answers (sourcesAfter closed)
    ReferenceSdk.tenthPercent (heldSession true) (accountAfter closed) :=
  ⟨⟨_, eq_ok_get (unrecoveredAfter_isOk closed)⟩, rfl, fun _ => rfl, rfl, fun _ => rfl⟩

/-- The held trade was closed last: the page of one trade has it. -/
theorem validAfter : (accountAfter [heldClosed, otherClosed 50]).Valid :=
  ⟨by decide, by decide, by decide, by decide⟩

theorem renewal_books_missed_iff_held :
    (∃ s', new referenceSdk true ReferenceSdk.tenthPercent
      (sourcesAfter [heldClosed, otherClosed 50]) (some (heldSession true)) = .ok s' ∧
      BooksOnce (heldSession true) (accountAfter [heldClosed, otherClosed 50]) [] s') :=
  (renewal_books_missed_iff true validAfter
    (answersAfter [heldClosed, otherClosed 50]) (by decide +kernel) (by decide +kernel)).mpr
    ⟨by decide +kernel, by decide +kernel⟩

/-- Another trade closed after the held one takes the page. -/
theorem later_closure_blocks_renewal :
    (accountAfter [otherClosed 90, heldClosed]).Valid ∧
      Answers (sourcesAfter [otherClosed 90, heldClosed]) ReferenceSdk.tenthPercent
        (heldSession true) (accountAfter [otherClosed 90, heldClosed]) ∧
      (heldSession true).missedIds [] = [heldTrade.id] ∧
      heldTrade.id ∈ (accountAfter [otherClosed 90, heldClosed]).closed.map (·.id) ∧
      new referenceSdk true ReferenceSdk.tenthPercent (sourcesAfter [otherClosed 90, heldClosed])
        (some (heldSession true)) = .error (.closedTradeNotConfirmed heldTrade.id) :=
  ⟨⟨by decide, by decide, by decide, by decide⟩, answersAfter _, by decide +kernel,
    by decide +kernel, by decide +kernel⟩

end Quantoxide.LiveTradingSession
