import Quantoxide.Verification.Live.Session
import Quantoxide.Verification.Sdk.Reference

/-! # Renewal of the live session

A renewal first books the closures the previous session missed, then registers what runs on
the exchange with the trailing stoplosses of the database. Both passes are left out when the
trades are not to be recovered. -/

namespace Quantoxide.LiveTradingSession

open Result

variable {ε : Type} {sdk : LnmSdk ε} {tslStepSize : PercentageCapped}
  {sources : SessionSources ε} {prev : Option LiveTradingSession}
  {session s s' : LiveTradingSession}

/-! ### Before the trades -/

/-- The cross position of a snapshot, on top of the previous session's. -/
def TakesSnapshot (prev : Option LiveTradingSession) (raw : CrossPosition ε)
    (pos : LiveCrossPosition) : Prop :=
  match prev with
  | some p => (p.crossPosition.updateFromRaw raw : ActionResult ε _) = .ok pos
  | none => LiveCrossPosition.fromRaw raw 0 = .ok pos

/-- A session on top of a previous one, without any running trade. -/
structure Unrecovered (sources : SessionSources ε) (tslStepSize : PercentageCapped)
    (prev : Option LiveTradingSession) (s : LiveTradingSession) : Prop where
  tslStepSize : s.tslStepSize = tslStepSize
  runningMap : s.runningMap = .new
  fundingFees : s.fundingFees = (prev.map (·.fundingFees)).getD 0
  fundingSnapshot : s.fundingSnapshot = .empty
  crossPosition : ∃ raw, sources.crossPosition = .ok raw ∧
    TakesSnapshot prev raw s.crossPosition

theorem unrecovered_of_ok (h : unrecovered sources tslStepSize prev = .ok s) :
    Unrecovered sources tslStepSize prev s := by
  simp only [unrecovered, bind_eq_ok, mapError_eq_ok, okOr_eq_ok] at h
  obtain ⟨latest, -, ⟨time, price⟩, -, balance, -, raw, hraw, h⟩ := h
  cases prev with
  | none =>
      simp only [bind_eq_ok, mapError_eq_ok, pure_eq_ok] at h
      obtain ⟨cross, hcross, rfl⟩ := h
      exact ⟨rfl, rfl, rfl, rfl, raw, hraw, hcross⟩
  | some p =>
      simp only [bind_eq_ok, pure_eq_ok] at h
      obtain ⟨cross, hcross, rfl⟩ := h
      exact ⟨rfl, rfl, rfl, rfl, raw, hraw, hcross⟩

/-! ### Missed closures -/

/-- The page of closed trades that a renewal asks for. -/
def closedPage (sources : SessionSources ε) (prev : LiveTradingSession) : List Trade :=
  match sources.tradesClosed (max prev.runningMap.len 1) with
  | .ok closedTrades => closedTrades
  | .error _ => []

/-- The closures of the page that the previous session missed. -/
def missedClosures (sources : SessionSources ε) (prev : LiveTradingSession)
    (runningTrades : List Trade) : List Trade :=
  (closedPage sources prev).filter fun t => (prev.missedIds runningTrades).contains t.id

/-- What a renewal realizes for a closure of the page. -/
def missedFunding (prev : LiveTradingSession) (t : Trade) : ℤ :=
  t.sumFundingFees - (prev.fundingSnapshot.get t.id).getD 0

/-- A session with some closures booked. -/
structure Reconciles (prev : LiveTradingSession) (closures : List Trade)
    (session s' : LiveTradingSession) : Prop where
  tslStepSize : s'.tslStepSize = session.tslStepSize
  runningMap : s'.runningMap = session.runningMap
  fundingSnapshot : s'.fundingSnapshot = session.fundingSnapshot
  crossPosition : s'.crossPosition = session.crossPosition
  fundingFees : s'.fundingFees = session.fundingFees + (closures.map prev.missedFunding).sum

theorem Reconciles.step {prev : LiveTradingSession} {missed : List Uuid} {done : List Trade}
    {acc acc' : Reconciled} {t : Trade}
    (h : Reconciles prev (done.filter fun t => missed.contains t.id) session acc.session)
    (hstep : confirmClosed missed prev.fundingSnapshot acc t =
      (.ok acc' : ActionResult ε Reconciled)) :
    Reconciles prev ((done ++ [t]).filter fun t => missed.contains t.id) session
      acc'.session := by
  cases hmissed : missed.contains t.id with
  | true =>
      simp only [confirmClosed, hmissed, Bool.not_true, Bool.false_eq_true, if_false, bind_eq_ok,
        mapError_eq_ok, pure_eq_ok] at hstep
      obtain ⟨history, -, rfl⟩ := hstep
      refine ⟨h.tslStepSize, h.runningMap, h.fundingSnapshot, h.crossPosition, ?_⟩
      have hlast : [t].filter (fun t => missed.contains t.id) = [t] := by simpa using hmissed
      show acc.session.fundingFees + prev.missedFunding t = _
      rw [h.fundingFees, List.filter_append, hlast, List.map_append, List.sum_append,
        List.map_singleton, List.sum_singleton, add_assoc]
  | false =>
      simp only [confirmClosed, hmissed, Bool.not_false, if_true, Except.ok.injEq] at hstep
      subst hstep
      have hlast : [t].filter (fun t => missed.contains t.id) = [] := by simpa using hmissed
      rw [List.filter_append, hlast, List.append_nil]
      exact h

/-- A reconciliation looks for what the previous session missed on one page of closures and
has to find all of it there. -/
theorem reconcile_eq_ok {prev : LiveTradingSession} {runningTrades : List Trade}
    (h : prev.reconcile sources runningTrades session = .ok s') :
    prev.missedIds runningTrades = [] ∧ s' = session ∨
    ∃ page acc, sources.tradesClosed (max prev.runningMap.len 1) = .ok page ∧
      page.foldlM (confirmClosed (prev.missedIds runningTrades) prev.fundingSnapshot)
        ⟨session, prev.missedIds runningTrades⟩ = (.ok acc : ActionResult ε Reconciled) ∧
      acc.unconfirmed = [] ∧ s' = acc.session := by
  unfold reconcile at h
  by_cases hempty : (prev.missedIds runningTrades).isEmpty = true
  · rw [if_pos hempty] at h
    exact Or.inl ⟨List.isEmpty_iff.mp hempty, (Except.ok.inj h).symm⟩
  · rw [if_neg hempty] at h
    simp only [bind_eq_ok, mapError_eq_ok] at h
    obtain ⟨page, hpage, acc, hfold, h⟩ := h
    refine Or.inr ⟨page, acc, hpage, hfold, ?_⟩
    cases hacc : acc.unconfirmed with
    | nil =>
        rw [hacc] at h
        exact ⟨rfl, (Except.ok.inj h).symm⟩
    | cons id rest => simp [hacc] at h

theorem reconciles_of_ok {prev : LiveTradingSession} {runningTrades : List Trade}
    (h : prev.reconcile sources runningTrades session = .ok s') :
    Reconciles prev (missedClosures sources prev runningTrades) session s' := by
  rcases reconcile_eq_ok h with ⟨hmissed, rfl⟩ | ⟨page, acc, hpage, hfold, -, rfl⟩
  · have hnone : missedClosures sources prev runningTrades = [] := by
      rw [missedClosures, hmissed]
      simp
    exact ⟨rfl, rfl, rfl, rfl, by simp [hnone]⟩
  · have hclosed : closedPage sources prev = page := by rw [closedPage, hpage]
    rw [missedClosures, hclosed]
    exact foldlM_invariant (P := fun done (acc : Reconciled) => Reconciles prev
        (done.filter fun t => (prev.missedIds runningTrades).contains t.id) session acc.session)
      hfold ⟨rfl, rfl, rfl, rfl, by simp⟩ fun done t rest acc acc' _ hacc hstep => hacc.step hstep

/-- A reconciliation writes what a closure is booked under. -/
theorem reconcile_writes {prev : LiveTradingSession} {runningTrades : List Trade}
    (h : prev.reconcile sources runningTrades session = .ok s') :
    ∃ realizedPl closedFees closedHistory fundingFees lastTradeTime, s' = { session with
      realizedPl, closedFees, closedHistory, fundingFees, lastTradeTime } := by
  rcases reconcile_eq_ok h with ⟨-, rfl⟩ | ⟨page, acc, -, hfold, -, rfl⟩
  · exact ⟨_, _, _, _, _, rfl⟩
  · refine foldlM_invariant (P := fun _ (acc : Reconciled) =>
      ∃ realizedPl closedFees closedHistory fundingFees lastTradeTime, acc.session = { session with
        realizedPl, closedFees, closedHistory, fundingFees, lastTradeTime })
      hfold ⟨_, _, _, _, _, rfl⟩ ?_
    intro done closed rest acc acc' _ hacc hstep
    obtain ⟨realizedPl, closedFees, closedHistory, fundingFees, lastTradeTime, hacc⟩ := hacc
    unfold confirmClosed at hstep
    split_ifs at hstep
    · obtain rfl := Except.ok.inj hstep
      exact ⟨_, _, _, _, _, hacc⟩
    · simp only [bind_eq_ok, pure_eq_ok] at hstep
      obtain ⟨history, -, rfl⟩ := hstep
      exact ⟨_, _, _, _, _, by rw [hacc]⟩

/-! ### Recovery -/

/-- What a renewal books for a trade that runs on the exchange. -/
def recoveredFunding (snapshot : OrdMap Uuid ℤ) (t : Trade) : ℤ :=
  t.sumFundingFees - (snapshot.get t.id).getD t.sumFundingFees

/-- A session with some of the exchange's running trades registered. -/
structure Recovers (sdk : LnmSdk ε) (snapshot : OrdMap Uuid ℤ)
    (rows : OrdMap Uuid (Option TradeTrailingStoploss)) (session : LiveTradingSession)
    (done : List Trade) (s' : LiveTradingSession) : Prop where
  sound : s'.Sound sdk
  mem_iff : ∀ e, e ∈ s'.runningMap.tradesDesc ↔ ∃ t ∈ done, e = (t, (rows.get t.id).join)
  nodup : (done.map (·.id)).Nodup
  crossPosition : s'.crossPosition = session.crossPosition
  fundingFees : s'.fundingFees = session.fundingFees +
    (done.map (recoveredFunding snapshot)).sum
  fundingSnapshot : ∀ id v, s'.fundingSnapshot.get id = some v ↔
    ∃ t ∈ done, t.id = id ∧ t.sumFundingFees = v

theorem recoverTrade_eq_ok {snapshot : OrdMap Uuid ℤ}
    {acc acc' : LiveTradingSession × OrdMap Uuid (Option TradeTrailingStoploss)} {t : Trade}
    (h : recoverTrade sdk snapshot acc t = .ok acc') :
    Registers sdk { acc.1 with
      fundingFees := acc.1.fundingFees - (snapshot.get t.id).getD t.sumFundingFees } t
        (acc.2.get t.id).join acc'.1 ∧ acc'.2 = acc.2.erase t.id := by
  simp only [recoverTrade, bind_eq_ok, pure_eq_ok] at h
  obtain ⟨s', hs', rfl⟩ := h
  exact ⟨registers_of_ok hs', rfl⟩

theorem Recovers.step {snapshot : OrdMap Uuid ℤ}
    {rows : OrdMap Uuid (Option TradeTrailingStoploss)} {done : List Trade} {t : Trade}
    {acc acc' : LiveTradingSession × OrdMap Uuid (Option TradeTrailingStoploss)}
    (h : Recovers sdk snapshot rows session done acc.1)
    (hrows : ∀ id, id ∉ done.map (·.id) → acc.2.get id = rows.get id)
    (hstep : recoverTrade sdk snapshot acc t = .ok acc') :
    Recovers sdk snapshot rows session (done ++ [t]) acc'.1 ∧
    ∀ id, id ∉ (done ++ [t]).map (·.id) → acc'.2.get id = rows.get id := by
  obtain ⟨hregisters, hrows'⟩ := recoverTrade_eq_ok hstep
  have hnew : t.id ∉ acc.1.runningMap.ids :=
    h.sound.consistent.contains_eq_false.mp hregisters.unknown
  have hdone : t.id ∉ done.map (·.id) := by
    intro hmem
    obtain ⟨d, hd, hid⟩ := List.mem_map.mp hmem
    exact hnew (DynRunningTradesMap.mem_ids.mpr ⟨_, (h.mem_iff _).mpr ⟨d, hd, rfl⟩, hid⟩)
  refine ⟨⟨hregisters.sound ⟨h.sound.consistent, h.sound.bounds⟩, ?_, ?_, ?_, ?_, ?_⟩, ?_⟩
  · intro e
    rw [hregisters.runningMap, h.sound.consistent.mem_add hnew, h.mem_iff, hrows t.id hdone]
    simp [or_and_right, exists_or]
  · rw [List.map_append, List.map_singleton]
    exact List.nodup_append.mpr ⟨h.nodup, List.nodup_singleton _, fun a ha b hb hab =>
      hdone (by rw [← List.mem_singleton.mp hb, ← hab]; exact ha)⟩
  · rw [hregisters.crossPosition]
    exact h.crossPosition
  · rw [hregisters.fundingFees]
    simp only [h.fundingFees, List.map_append, List.sum_append, List.map_singleton,
      List.sum_singleton, recoveredFunding]
    ring
  · intro id v
    rw [hregisters.fundingSnapshot]
    by_cases hid : id = t.id
    · subst hid
      rw [OrdMap.get_insert_self, Option.some.injEq]
      constructor
      · intro hv
        exact ⟨t, by simp, rfl, hv⟩
      · intro ⟨t', ht', hid, hv⟩
        rcases List.mem_append.mp ht' with hold | hlast
        · exact absurd (List.mem_map.mpr ⟨t', hold, hid⟩) hdone
        · rw [← hv, List.mem_singleton.mp hlast]
    · rw [OrdMap.get_insert_of_ne hid]
      simp [h.fundingSnapshot, or_and_right, exists_or, Ne.symm hid]
  · intro id hid
    rw [List.map_append, List.map_singleton, List.mem_append, List.mem_singleton, not_or] at hid
    rw [hrows', OrdMap.get_erase_of_ne hid.2, hrows id hid.1]

theorem recovers_start {snapshot : OrdMap Uuid ℤ}
    {rows : OrdMap Uuid (Option TradeTrailingStoploss)} (hmap : session.runningMap = .new)
    (hsnapshot : session.fundingSnapshot = .empty) :
    Recovers sdk snapshot rows session [] session := by
  have hnone : ∀ e, e ∉ session.runningMap.tradesDesc := by
    intro e
    simp [hmap, DynRunningTradesMap.tradesDesc, DynRunningTradesMap.new, OrdMap.valuesDesc,
      OrdMap.empty]
  refine ⟨⟨?_, fun e he => absurd he (hnone e)⟩, ?_, List.nodup_nil, rfl, by simp, ?_⟩
  · rw [hmap]
    exact .new
  · simp [hnone]
  · simp [hsnapshot, OrdMap.get, OrdMap.empty]

theorem recovers_of_fold {snapshot : OrdMap Uuid ℤ}
    {rows : OrdMap Uuid (Option TradeTrailingStoploss)} {runningTrades : List Trade}
    {acc : LiveTradingSession × OrdMap Uuid (Option TradeTrailingStoploss)}
    (hmap : session.runningMap = .new) (hsnapshot : session.fundingSnapshot = .empty)
    (h : runningTrades.foldlM (recoverTrade sdk snapshot) (session, rows) = .ok acc) :
    Recovers sdk snapshot rows session runningTrades acc.1 := by
  exact (foldlM_invariant (P := fun done acc => Recovers sdk snapshot rows session done acc.1 ∧
    ∀ id, id ∉ done.map (·.id) → acc.2.get id = rows.get id) h
    ⟨recovers_start hmap hsnapshot, fun id _ => rfl⟩
    fun done t rest acc acc' _ hacc hstep => hacc.1.step hacc.2 hstep).1

theorem recoverTrades_eq_ok {snapshot : OrdMap Uuid ℤ} {runningTrades : List Trade}
    (h : session.recoverTrades sdk sources snapshot runningTrades = .ok s') :
    ∃ rows acc, sources.runningTradesMap = .ok rows ∧
      runningTrades.foldlM (recoverTrade sdk snapshot) (session, rows) = .ok acc ∧ s' = acc.1 := by
  simp only [recoverTrades, bind_eq_ok, mapError_eq_ok] at h
  obtain ⟨rows, hrows, acc, hfold, h⟩ := h
  refine ⟨rows, acc, hrows, hfold, ?_⟩
  by_cases hempty : acc.2.isEmpty = true
  · rw [if_pos hempty] at h
    exact (Except.ok.inj h).symm
  · simp only [hempty, Bool.false_eq_true, if_false, bind_eq_ok, pure_eq_ok] at h
    obtain ⟨_, -, hacc⟩ := h
    exact hacc.symm

/-- What each registration preserves, funding baselines apart, a recovery preserves. -/
theorem recoverTrades_invariant {snapshot : OrdMap Uuid ℤ} {runningTrades : List Trade}
    {P : LiveTradingSession → Prop} (hstart : P session)
    (hstep : ∀ (s : LiveTradingSession) (fundingFees : ℤ) t tsl s'', P s →
      registerRunningTrade sdk { s with fundingFees } t tsl false = .ok s'' → P s'')
    (h : session.recoverTrades sdk sources snapshot runningTrades = .ok s') : P s' := by
  obtain ⟨rows, acc, -, hfold, rfl⟩ := recoverTrades_eq_ok h
  refine foldlM_invariant (P := fun _ acc => P acc.1) hfold hstart ?_
  intro done t rest b b' _ hb hrecover
  simp only [recoverTrade, bind_eq_ok, pure_eq_ok] at hrecover
  obtain ⟨next, hnext, rfl⟩ := hrecover
  exact hstep _ _ _ _ _ hb hnext

theorem recovers_of_ok {snapshot : OrdMap Uuid ℤ} {runningTrades : List Trade}
    (hmap : session.runningMap = .new) (hsnapshot : session.fundingSnapshot = .empty)
    (h : session.recoverTrades sdk sources snapshot runningTrades = .ok s') :
    ∃ rows, sources.runningTradesMap = .ok rows ∧
      Recovers sdk snapshot rows session runningTrades s' := by
  obtain ⟨rows, acc, hrows, hfold, rfl⟩ := recoverTrades_eq_ok h
  exact ⟨rows, hrows, recovers_of_fold hmap hsnapshot hfold⟩

/-! ### The new session -/

/-- What a session that recovers its trades is built from. -/
structure Renews (sdk : LnmSdk ε) (tslStepSize : PercentageCapped) (sources : SessionSources ε)
    (prev : Option LiveTradingSession) (runningTrades : List Trade)
    (rows : OrdMap Uuid (Option TradeTrailingStoploss)) (s' : LiveTradingSession) : Prop where
  running : sources.tradesRunning = .ok runningTrades
  stored : sources.runningTradesMap = .ok rows
  built : ∃ s session, Unrecovered sources tslStepSize prev s ∧
    (match prev with
      | some p => Reconciles p (missedClosures sources p runningTrades) s session
      | none => session = s) ∧
    Recovers sdk ((prev.map (·.fundingSnapshot)).getD .empty) rows session runningTrades s'

theorem renews_of_ok (h : new sdk true tslStepSize sources prev = .ok s') :
    ∃ runningTrades rows, Renews sdk tslStepSize sources prev runningTrades rows s' := by
  simp only [new, Bool.not_true, Bool.false_eq_true, if_false, bind_eq_ok, mapError_eq_ok] at h
  obtain ⟨s, hs, runningTrades, hrunning, h⟩ := h
  have hbase := unrecovered_of_ok hs
  cases prev with
  | none =>
      obtain ⟨rows, hrows, hrecovers⟩ := recovers_of_ok hbase.runningMap hbase.fundingSnapshot h
      exact ⟨runningTrades, rows, hrunning, hrows, s, s, hbase, rfl, hrecovers⟩
  | some p =>
      simp only [bind_eq_ok] at h
      obtain ⟨session, hsession, h⟩ := h
      have hreconciles := reconciles_of_ok hsession
      obtain ⟨rows, hrows, hrecovers⟩ := recovers_of_ok
        (hreconciles.runningMap.trans hbase.runningMap)
        (hreconciles.fundingSnapshot.trans hbase.fundingSnapshot) h
      exact ⟨runningTrades, rows, hrunning, hrows, s, session, hbase, hreconciles, hrecovers⟩

/-- Without recovery nothing runs in the new session. -/
theorem unrecovered_of_new (h : new sdk false tslStepSize sources prev = .ok s') :
    Unrecovered sources tslStepSize prev s' := by
  simp only [new, Bool.not_false, if_true, bind_eq_ok, pure_eq_ok] at h
  obtain ⟨s, hs, rfl⟩ := h
  exact unrecovered_of_ok hs

/-- A renewal replaces the cross position as a snapshot does. -/
theorem crossPosition_of_new {recover : Bool}
    (h : new sdk recover tslStepSize sources prev = .ok s') :
    ∃ raw, sources.crossPosition = .ok raw ∧ TakesSnapshot prev raw s'.crossPosition := by
  cases recover with
  | false => exact (unrecovered_of_new h).crossPosition
  | true =>
      obtain ⟨runningTrades, rows, hrenews⟩ := renews_of_ok h
      obtain ⟨base, session, hbase, hsession, hrecovers⟩ := hrenews.built
      have hcross : s'.crossPosition = base.crossPosition := by
        rw [hrecovers.crossPosition]
        cases prev with
        | none => rw [hsession]
        | some p => exact hsession.crossPosition
      rw [hcross]
      exact hbase.crossPosition

/-! ### The trades that keep running -/

/-- The previous session's entries whose trades still run on the exchange. -/
def stillRunning (prev : LiveTradingSession) (runningTrades : List Trade) : List TradeEntry :=
  prev.runningMap.tradesDesc.filter fun e => (runningTrades.map (·.id)).contains e.1.id

/-- The session has the trade of the entry, with the entry's trailing stoploss. -/
def Keeps (s : LiveTradingSession) (e : TradeEntry) : Prop :=
  ∃ e' ∈ s.runningMap.tradesDesc, e'.1.id = e.1.id ∧ e'.2 = e.2

instance (s : LiveTradingSession) (e : TradeEntry) : Decidable (s.Keeps e) :=
  inferInstanceAs (Decidable (∃ e' ∈ s.runningMap.tradesDesc, _))

/-- The trailing stoploss that the database answers for a trade. -/
def storedTsl (sources : SessionSources ε) (id : Uuid) : Option (Option TradeTrailingStoploss) :=
  match sources.runningTradesMap with
  | .ok rows => some (rows.get id).join
  | .error _ => none

/-- A renewal keeps a running trade exactly when it recovers trades at all and the database
has the trade's trailing stoploss. -/
theorem renewal_keeps_iff {recoverTradesOnStartup : Bool} {prev : LiveTradingSession}
    {runningTrades : List Trade} (hrunning : sources.tradesRunning = .ok runningTrades)
    (hnew : new sdk recoverTradesOnStartup tslStepSize sources (some prev) = .ok s') :
    (∀ e ∈ prev.stillRunning runningTrades, s'.Keeps e) ↔
      ∀ e ∈ prev.stillRunning runningTrades,
        recoverTradesOnStartup = true ∧ storedTsl sources e.1.id = some e.2 := by
  have hiff : ∀ e ∈ prev.stillRunning runningTrades,
      s'.Keeps e ↔ recoverTradesOnStartup = true ∧ storedTsl sources e.1.id = some e.2 := by
    intro e he
    cases recoverTradesOnStartup with
    | false =>
        have hmap := (unrecovered_of_new hnew).runningMap
        simp [Keeps, hmap, DynRunningTradesMap.tradesDesc, DynRunningTradesMap.new,
          OrdMap.valuesDesc, OrdMap.empty]
    | true =>
        obtain ⟨running', rows, h⟩ := renews_of_ok hnew
        obtain ⟨s, session, -, -, hrecovers⟩ := h.built
        obtain rfl : running' = runningTrades := by simpa [hrunning] using h.running.symm
        have hlisted := (List.mem_filter.mp he).2
        rw [List.contains_iff_mem, List.mem_map] at hlisted
        obtain ⟨t, ht, hid⟩ := hlisted
        simp only [Keeps, hrecovers.mem_iff, storedTsl, h.stored, Option.some.injEq, true_and]
        constructor
        · rintro ⟨e', ⟨t', _, heq⟩, hid', htsl⟩
          rw [← htsl, heq, ← hid', heq]
        · intro htsl
          exact ⟨_, ⟨t, ht, rfl⟩, hid, by rw [← htsl, hid]⟩
  exact forall₂_congr hiff

/-! ### A renewal under a start-up flag that is off -/

def heldTrade : Trade where
  id := ⟨1⟩
  side := .buy
  openingFee := 1000
  closingFee := 0
  maintenanceMargin := 2100
  quantity := ⟨1000⟩
  margin := ReferenceSdk.margin 100000
  leverage := ⟨F64.clamp 10⟩
  price := ReferenceSdk.price 100000
  liquidation := ReferenceSdk.price 90909
  stoploss := some (ReferenceSdk.price 95000)
  takeprofit := none
  exitPrice := none
  createdAt := Duration.minutes 30
  closedAt := none
  running := true
  closed := false
  pl := 0
  sumFundingFees := 0

def heldTsl : Option TradeTrailingStoploss := some ⟨⟨F64.clamp 5⟩⟩

/-- An account without cross trading, with some trades running and some of them stored. -/
def accountSources (now : ℤ) (runningTrades : List Trade)
    (rows : OrdMap Uuid (Option TradeTrailingStoploss)) :
    SessionSources Refusal where
  latestEntry := .ok (some (now, F64.clamp 100000))
  balance := .ok 1000000
  now
  crossPosition := .ok ⟨⟨0⟩, 0, ⟨1⟩, .ok .neutral, 0, 0⟩
  tradesRunning := .ok runningTrades
  tradesClosed _ := .ok []
  runningTradesMap := .ok rows
  removeRunningTrades _ := .ok ()

/-- The first session of an executor, and the trade it opened half an hour later. -/
def openSession (recoverTradesOnStartup : Bool) : ActionResult Refusal LiveTradingSession := do
  let session ← new referenceSdk recoverTradesOnStartup ReferenceSdk.tenthPercent
    (accountSources 0 [] .empty) none
  session.registerRunningTrade referenceSdk heldTrade heldTsl true

theorem openSession_isOk : ∀ recover, (openSession recover).isOk = true := by decide +kernel

def heldSession (recoverTradesOnStartup : Bool) : LiveTradingSession :=
  get _ (openSession_isOk recoverTradesOnStartup)

/-- The account after the hour, when the trade still runs and is stored. -/
def hourlySources : SessionSources Refusal :=
  accountSources (Duration.hours 2) [heldTrade] (OrdMap.empty.insert heldTrade.id heldTsl)

def renewSession (recoverTradesOnStartup : Bool) : ActionResult Refusal LiveTradingSession :=
  new referenceSdk recoverTradesOnStartup ReferenceSdk.tenthPercent hourlySources
    (some (heldSession recoverTradesOnStartup))

theorem renewSession_isOk : ∀ recover, (renewSession recover).isOk = true := by decide +kernel

def renewedSession (recoverTradesOnStartup : Bool) : LiveTradingSession :=
  get _ (renewSession_isOk recoverTradesOnStartup)

theorem startup_flag_drops_trade :
    openSession false = .ok (heldSession false) ∧
      (heldSession false).isExpired hourlySources.now = true ∧
      renewSession false = .ok (renewedSession false) ∧
      (heldTrade, heldTsl) ∈ (heldSession false).stillRunning [heldTrade] ∧
      ¬ (renewedSession false).Keeps (heldTrade, heldTsl) :=
  ⟨eq_ok_get _, by decide +kernel, eq_ok_get _, by decide +kernel, by decide +kernel⟩

theorem renewal_keeps_held :
    (heldTrade, heldTsl) ∈ (heldSession true).stillRunning [heldTrade] ∧
      ∀ e ∈ (heldSession true).stillRunning [heldTrade], (renewedSession true).Keeps e :=
  ⟨by decide +kernel,
    (renewal_keeps_iff rfl (eq_ok_get (renewSession_isOk true))).mpr (by decide +kernel)⟩

end Quantoxide.LiveTradingSession
