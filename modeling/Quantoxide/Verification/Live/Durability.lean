import Quantoxide.Library.Queries
import Quantoxide.Model.LiveEvaluation
import Quantoxide.Model.LiveExecutorProcess
import Quantoxide.Verification.Live.Agreement
import Quantoxide.Verification.Live.RunningTrades

/-! # Trailing stoplosses outlive the session

The exchange does not know of trailing stoplosses. The executor writes each one to its table
before it acknowledges the order, and removes it only once the exchange has confirmed the
closure, so that a later session finds it, whatever happened to the session in between. -/

namespace Quantoxide.Live

open Result Runs Queries LiveTradingSession LiveTradeExecutor RunningTradesTable

variable {ε : Type} {sdk : LnmSdk ε} {session s s' : LiveTradingSession}

/-! ### What a session keeps between renewals -/

/-- A sound session whose trades are another's, each with its trailing stoploss. -/
structure Narrowed (sdk : LnmSdk ε) (session s' : LiveTradingSession) : Prop where
  sound : s'.Sound sdk
  keeps : ∀ e ∈ s'.runningMap.tradesDesc, session.Keeps e

theorem Narrowed.refl (hs : session.Sound sdk) : Narrowed sdk session session :=
  ⟨hs, fun e he => ⟨e, he, rfl, rfl⟩⟩

theorem Narrowed.trans {s'' : LiveTradingSession} (h : Narrowed sdk session s')
    (h' : Narrowed sdk s' s'') : Narrowed sdk session s'' := by
  refine ⟨h'.sound, fun e he => ?_⟩
  obtain ⟨e', he', hid', htsl'⟩ := h'.keeps e he
  obtain ⟨e₀, he₀, hid, htsl⟩ := h.keeps e' he'
  exact ⟨e₀, he₀, hid.trans hid', htsl.trans htsl'⟩

theorem narrowed_of_same (hs : session.Sound sdk) (h : SameTrades session s') :
    Narrowed sdk session s' := by
  refine ⟨h.sound hs, fun e he => ⟨e, ?_, rfl, rfl⟩⟩
  rwa [h.runningMap] at he

theorem narrowed_of_update {updated : List Trade} (hs : session.Sound sdk)
    (h : session.updateRunningTrades sdk (tradesById updated) = .ok s') :
    Narrowed sdk session s' := by
  obtain ⟨hupdates, hsound⟩ := updates_of_ok hs (keyed_tradesById updated) h
  refine ⟨hsound, fun e he => ?_⟩
  obtain ⟨e₀, he₀, rfl⟩ := (hupdates.mem_iff e).mp he
  exact ⟨e₀, he₀, (rewritten_id (keyed_tradesById updated) e₀).symm, rfl⟩

theorem narrowed_of_close {closed : List Trade} (hs : session.Sound sdk)
    (h : session.closeTrades sdk closed = .ok s') : Narrowed sdk session s' := by
  obtain ⟨hcloses, hsound, -⟩ := closes_of_ok hs h
  exact ⟨hsound, fun e he => ⟨e, ((hcloses.mem_iff e).mp he).1, rfl, rfl⟩⟩

theorem narrowed_of_reevaluate {tables : PriceTables} {sources : EvaluationSources ε}
    {closed : List Trade} (hs : session.Sound sdk)
    (h : session.reevaluate sdk tables sources = .ok (s', closed)) :
    Narrowed sdk session s' := by
  simp only [reevaluate, evaluateOnRange, bind_eq_ok, okOr_eq_ok] at h
  obtain ⟨⟨range, entry⟩, -, refreshed, hrefreshed, h⟩ := h
  have hstart : ({ session with lastEvaluationTime := entry.time, lastPrice := entry.price } :
      LiveTradingSession).Sound sdk := ⟨hs.consistent, hs.bounds⟩
  have hrefresh : Narrowed sdk session refreshed := by
    unfold refreshOnLiquidation at hrefreshed
    split_ifs at hrefreshed
    · simp only [LiveTradingSession.refreshCrossPosition, bind_eq_ok] at hrefreshed
      obtain ⟨raw, -, hreplaced⟩ := hrefreshed
      have hsame := narrowed_of_same hstart (sameTrades_replaceCrossPosition hreplaced)
      exact ⟨hsame.sound, hsame.keeps⟩
    · obtain rfl := Except.ok.inj hrefreshed
      exact ⟨hstart, fun e he => ⟨e, he, rfl, rfl⟩⟩
  split_ifs at h
  · obtain ⟨rfl, -⟩ := Prod.mk.inj (pure_eq_ok.mp h)
    exact hrefresh
  · simp only [bind_eq_ok, pure_eq_ok] at h
    obtain ⟨checks, -, confirmed, -, updated, -, updatedSession, hupdated, closedSession,
      hclosed, heq⟩ := h
    obtain ⟨rfl, -⟩ := Prod.mk.inj heq
    have hupdate := narrowed_of_update hrefresh.sound hupdated
    exact (hrefresh.trans hupdate).trans (narrowed_of_close hupdate.sound hclosed)

theorem narrowed_of_margin {margins : MarginSdk} {tradeId : Uuid} {amount : ℕ}
    {answer : Uuid → ℕ → Except ε Trade} (hs : session.Sound sdk)
    (h : isolatedTradeAddMargin sdk margins session tradeId amount answer = .ok s') :
    Narrowed sdk session s' := by
  unfold isolatedTradeAddMargin at h
  split at h
  · cases h
  simp only at h
  split_ifs at h
  simp only [bookUpdatedTrade, mapError_eq_ok, bind_eq_ok] at h
  obtain ⟨updated, -, hupdated⟩ := h
  exact narrowed_of_update hs hupdated

theorem narrowed_of_cashIn {margins : MarginSdk} {tradeId : Uuid} {amount : ℕ}
    {latestEntry : Except DbError (Option (ℤ × F64))} {answer : Uuid → ℕ → Except ε Trade}
    (hs : session.Sound sdk)
    (h : isolatedTradeCashIn sdk margins session tradeId amount latestEntry answer = .ok s') :
    Narrowed sdk session s' := by
  unfold isolatedTradeCashIn at h
  split at h
  · cases h
  simp only [bind_eq_ok] at h
  obtain ⟨price, -, h⟩ := h
  split_ifs at h
  simp only [bookUpdatedTrade, mapError_eq_ok, bind_eq_ok] at h
  obtain ⟨updated, -, hupdated⟩ := h
  exact narrowed_of_update hs hupdated

theorem narrowed_of_chunks {answers : CloseAnswers ε} {chunks : List (List Uuid)} {call : ℕ}
    {confirmed ids : List Uuid} (hs : session.Sound sdk)
    (h : closeChunks sdk answers call session chunks = (confirmed, .ok (s', ids))) :
    Narrowed sdk session s' := by
  induction chunks generalizing call session confirmed ids with
  | nil =>
      simp only [closeChunks, Prod.mk.injEq, Except.ok.injEq] at h
      obtain ⟨-, rfl, -⟩ := h
      exact .refl hs
  | cons chunk rest ih =>
      unfold closeChunks at h
      cases hclose : closeChunk sdk answers call session chunk with
      | error e => simp [hclose] at h
      | ok r =>
          obtain ⟨s₁, closedIds⟩ := r
          simp only [hclose, Prod.mk.injEq, exceptMap_eq_ok] at h
          obtain ⟨-, ⟨last, lastIds⟩, hrest, rfl, -⟩ := h
          simp only [closeChunk, bind_eq_ok, mapError_eq_ok, pure_eq_ok, Prod.mk.injEq] at hclose
          obtain ⟨closed, -, s₂, hs₂, -, -, rfl, -⟩ := hclose
          have hfirst := narrowed_of_close hs hs₂
          exact hfirst.trans (ih hfirst.sound (Prod.ext rfl hrest))

/-- A call that closes trades. -/
def TradeCall.IsClose : TradeCall ε → Prop
  | .isolatedOrder .. => False
  | _ => True

/-- What holds of the old session and of any new one holds of the one that is stored. -/
theorem of_store {α : Type} {P : LiveTradingSession → Prop} {opened closed : List Uuid}
    {r : ActionResult ε (LiveTradingSession × α)} (hold : P session)
    (hnew : ∀ s' a, r = .ok (s', a) → P s') :
    P (LiveOutcome.store session opened closed r).session := by
  unfold LiveOutcome.store
  cases r with
  | error e => exact hold
  | ok result => exact hnew _ _ rfl

theorem closed_store {α : Type} {opened closed : List Uuid}
    (r : ActionResult ε (LiveTradingSession × α)) :
    (LiveOutcome.store session opened closed r).closed = closed := by
  cases r <;> rfl

theorem narrowed_of_closeCall {config : LiveTradeExecutorConfig} {call : TradeCall ε}
    (hs : session.Sound sdk) (hclose : call.IsClose) :
    Narrowed sdk session (call.perform sdk config session).session := by
  cases call with
  | isolatedOrder => exact hclose.elim
  | isolatedOrderClose answers tradeId =>
      simp only [TradeCall.perform, LiveOutcome.void, LiveTradeExecutor.isolatedOrderClose]
      split_ifs
      · exact .refl hs
      cases answers.closeTrade tradeId with
      | error e => exact .refl hs
      | ok t =>
          refine of_store (.refl hs) fun s' a h => ?_
          simp only [bind_eq_ok, pure_eq_ok, Prod.mk.injEq] at h
          obtain ⟨-, -, s₁, hs₁, rfl, -⟩ := h
          exact narrowed_of_close hs hs₁
  | closeTrades answers side =>
      simp only [TradeCall.perform, LiveOutcome.void, LiveTradeExecutor.closeTrades]
      refine of_store (.refl hs) fun s' ids h => ?_
      exact narrowed_of_chunks hs (Prod.ext rfl h)
  | isolatedOrderCloseAll answers =>
      simp only [TradeCall.perform, LiveOutcome.void, LiveTradeExecutor.isolatedOrderCloseAll]
      cases answers.runningTrades with
      | error e => exact .refl hs
      | ok runningTrades =>
          refine of_store (.refl hs) fun s' ids h => ?_
          simp only [bind_eq_ok, pure_eq_ok, Prod.mk.injEq] at h
          obtain ⟨closed, -, -, -, s₁, hs₁, rfl, -⟩ := h
          exact narrowed_of_close hs hs₁

/-- A call of cross trading, with what the API answers. -/
inductive CrossCall (ε : Type)
  | deposit (amount : ℕ) (answer : Except ε (CrossPosition ε))
  | withdraw (amount : ℕ) (answer : Except ε (CrossPosition ε))
  | setLeverage (leverage : CrossLeverage) (answer : CrossLeverage → Except ε (CrossPosition ε))
  | order (request : CrossOrderRequest) (orderAnswer : TradeSide → Quantity → Except ε CrossOrder)
      (answer : Except ε (CrossPosition ε))
  | closePosition (latest : Except ε (CrossPosition ε)) (orderAnswer : Except ε CrossOrder)
      (answer : Except ε (CrossPosition ε))

/-- The session that the call leaves. -/
def CrossCall.perform (session : LiveTradingSession) : CrossCall ε → LiveTradingSession
  | deposit amount answer => (crossDeposit session amount answer).session
  | withdraw amount answer => (crossWithdraw session amount answer).session
  | setLeverage leverage answer => (crossSetLeverage session leverage answer).session
  | order request orderAnswer answer =>
    (LiveTradeExecutor.crossOrder session request orderAnswer answer).session
  | closePosition latest orderAnswer answer =>
    (crossOrderClosePosition session latest orderAnswer answer).session

theorem SameTrades.trans {s'' : LiveTradingSession} (h : SameTrades session s')
    (h' : SameTrades s' s'') : SameTrades session s'' :=
  ⟨h'.tslStepSize.trans h.tslStepSize, h'.runningMap.trans h.runningMap,
    h'.fundingFees.trans h.fundingFees, h'.fundingSnapshot.trans h.fundingSnapshot⟩

theorem sameTrades_afterCrossOrder {orderAnswer : Except ε CrossOrder}
    {answer : Except ε (CrossPosition ε)} {id : Uuid}
    (h : afterCrossOrder session orderAnswer answer = .ok (s', id)) : SameTrades session s' := by
  simp only [afterCrossOrder, bind_eq_ok] at h
  obtain ⟨order, -, h⟩ := h
  split_ifs at h
  simp only [bind_eq_ok, pure_eq_ok, Prod.mk.injEq] at h
  obtain ⟨raw, -, next, hnext, rfl, -⟩ := h
  exact sameTrades_registerCrossOrder hnext

theorem sameTrades_of_crossCall (session : LiveTradingSession) (call : CrossCall ε) :
    SameTrades session (call.perform session) := by
  cases call with
  | deposit amount answer =>
      refine of_store (.refl session) fun s' a h => ?_
      simp only [withCrossPosition, exceptMap_eq_ok, Prod.mk.injEq] at h
      obtain ⟨next, hnext, rfl, -⟩ := h
      split_ifs at hnext
      simp only [bind_eq_ok] at hnext
      obtain ⟨raw, -, hnext⟩ := hnext
      exact sameTrades_applyCrossDeposit hnext
  | withdraw amount answer =>
      refine of_store (.refl session) fun s' a h => ?_
      simp only [withCrossPosition, exceptMap_eq_ok, Prod.mk.injEq, bind_eq_ok] at h
      obtain ⟨next, ⟨raw, -, hnext⟩, rfl, -⟩ := h
      exact sameTrades_applyCrossWithdraw hnext
  | setLeverage leverage answer =>
      refine of_store (.refl session) fun s' a h => ?_
      simp only [withCrossPosition, exceptMap_eq_ok, Prod.mk.injEq, bind_eq_ok] at h
      obtain ⟨next, ⟨raw, -, hnext⟩, rfl, -⟩ := h
      exact sameTrades_replaceCrossPosition hnext
  | order request orderAnswer answer =>
      exact of_store (.refl session) fun s' id h => sameTrades_afterCrossOrder h
  | closePosition latest orderAnswer answer =>
      refine of_store (.refl session) fun s' id h => ?_
      simp only [bind_eq_ok] at h
      obtain ⟨raw, -, refreshed, hrefreshed, h⟩ := h
      have hsame := sameTrades_replaceCrossPosition hrefreshed
      split_ifs at h
      · obtain ⟨rfl, -⟩ := Prod.mk.inj (pure_eq_ok.mp h)
        exact hsame
      · simp only [bind_eq_ok, pure_eq_ok, Prod.mk.injEq] at h
        obtain ⟨⟨next, orderId⟩, hnext, rfl, -⟩ := h
        exact hsame.trans (sameTrades_afterCrossOrder hnext)

theorem sameTrades_expire (session : LiveTradingSession) (now : ℤ) :
    SameTrades session (session.expire now) := by
  unfold LiveTradingSession.expire
  split_ifs <;> exact ⟨rfl, rfl, rfl, rfl⟩

/-! ### The account -/

/-- An account on the exchange, the table, and the session when the process runs. -/
structure Account where
  running : List Trade
  issued : List Uuid
  table : RunningTradesTable
  session : Option LiveTradingSession
  acknowledged : List (Uuid × Option TradeTrailingStoploss)

namespace Account

/-- The ids of the trades that run on the exchange. -/
def runningIds (w : Account) : List Uuid := w.running.map (·.id)

def opens (w : Account) (t : Trade) : Account :=
  { w with running := t :: w.running, issued := t.id :: w.issued }

end Account

/-- What the exchange does with an order, and what it answers. -/
inductive Opens (w : Account) : Except ε Trade → Account → Prop
  | opened {t : Trade} (hnew : t.id ∉ w.issued) : Opens w (.ok t) (w.opens t)
  | lost {t : Trade} {e : ε} (hnew : t.id ∉ w.issued) : Opens w (.error e) (w.opens t)
  | refused {e : ε} : Opens w (.error e) w

/-- What the database does with an insertion, and what it answers. -/
inductive Inserts (accountId : Uuid) (w : Account) (tradeId : Uuid)
    (tsl : Option TradeTrailingStoploss) : Except DbError Unit → Account → Prop
  | inserted {now : ℤ} {table : RunningTradesTable}
      (hadd : w.table.addRunningTrade now accountId tradeId tsl = .ok table) :
      Inserts accountId w tradeId tsl (.ok ()) { w with table }
  | lost {now : ℤ} {table : RunningTradesTable} {e : DbError}
      (hadd : w.table.addRunningTrade now accountId tradeId tsl = .ok table) :
      Inserts accountId w tradeId tsl (.error e) { w with table }
  | refused {e : DbError} : Inserts accountId w tradeId tsl (.error e) w

/-- What an order does outside the session, once its checks have passed. -/
def Ordered (accountId : Uuid) (w w' : Account) (tsl : Option TradeTrailingStoploss)
    (answer : Except ε Trade) (add : Uuid → Option TradeTrailingStoploss → Except DbError Unit) :
    Prop :=
  ∃ w₁, Opens w answer w₁ ∧
    match answer with
    | .error _ => w' = w₁
    | .ok t => Inserts accountId w₁ t.id tsl (add t.id tsl) w'

/-- The sources of a renewal answer what runs on the exchange and what is in the table. -/
structure Truthful (tryFrom : F64 → Except ε PercentageCapped) (accountId : Uuid) (w : Account)
    (sources : SessionSources ε) : Prop where
  running : ∀ ts, sources.tradesRunning = .ok ts → ts = w.running
  stored : ∀ m, sources.runningTradesMap = .ok m →
    w.table.getRunningTradesMap tryFrom accountId = .ok m

/-! ### What the database is asked to forget -/

/-- The answers of the database to the numbered removals of a call. -/
def withRemovals (removals : ℕ × List Uuid → Except DbError Unit) (answers : CloseAnswers ε) :
    CloseAnswers ε :=
  { answers with removeRunningTrades := fun call ids => removals (call, ids) }

def TradeCall.withRemovals (removals : ℕ × List Uuid → Except DbError Unit) :
    TradeCall ε → TradeCall ε
  | .isolatedOrder answers side size leverage stoploss takeprofit =>
    .isolatedOrder answers side size leverage stoploss takeprofit
  | .isolatedOrderClose answers tradeId =>
    .isolatedOrderClose (Live.withRemovals removals answers) tradeId
  | .closeTrades answers side => .closeTrades (Live.withRemovals removals answers) side
  | .isolatedOrderCloseAll answers => .isolatedOrderCloseAll (Live.withRemovals removals answers)

theorem isClose_withRemovals {removals : ℕ × List Uuid → Except DbError Unit}
    {call : TradeCall ε} : (call.withRemovals removals).IsClose ↔ call.IsClose := by
  cases call <;> rfl

/-- The id is in a removal that the call asks for. -/
def TradeCall.AsksToForget (sdk : LnmSdk ε) (config : LiveTradeExecutorConfig)
    (session : LiveTradingSession) (call : TradeCall ε)
    (removals : ℕ × List Uuid → Except DbError Unit) (id : Uuid) : Prop :=
  ∃ removal : ℕ × List Uuid, id ∈ removal.2 ∧
    Asks (fun removals => (call.withRemovals removals).perform sdk config session) removals removal

/-- The id is in a removal that the renewal of a session asks for. -/
def RenewalAsksToForget (sdk : LnmSdk ε) (recoverTradesOnStartup : Bool)
    (tslStepSize : PercentageCapped) (sources : SessionSources ε)
    (prev : Option LiveTradingSession) (id : Uuid) : Prop :=
  ∃ ids, id ∈ ids ∧
    Asks (fun removeRunningTrades => LiveTradingSession.new sdk recoverTradesOnStartup tslStepSize
      { sources with removeRunningTrades } prev) sources.removeRunningTrades ids

/-- A batch asks for the removal of what the exchange confirmed. -/
theorem asked_of_closeChunk {answers : CloseAnswers ε} {chunk : List Uuid} {call : ℕ}
    {removals : ℕ × List Uuid → Except DbError Unit} {removal : ℕ × List Uuid}
    (h : Asks (fun removals => closeChunk sdk (withRemovals removals answers) call session chunk)
      removals removal) : removal.2 = confirmedIn answers chunk := by
  simp only [closeChunk, withRemovals] at h
  obtain ⟨closed, hclosed, h⟩ := h.of_bind
  obtain ⟨s', -, h⟩ := h.of_bind
  obtain rfl := h.eq (j := (call, closed.map (·.id))) fun g g' heq => by rw [heq]
  exact (confirmedIn_of_mapM (mapError_eq_ok.mp hclosed)).symm

theorem asked_of_closeChunks {answers : CloseAnswers ε} {chunks : List (List Uuid)} {call : ℕ}
    {removals : ℕ × List Uuid → Except DbError Unit} {removal : ℕ × List Uuid}
    (h : Asks (fun removals => closeChunks sdk (withRemovals removals answers) call session chunks)
      removals removal) :
    removal.2 ⊆ (closeChunks sdk (withRemovals removals answers) call session chunks).1 := by
  induction chunks generalizing call session with
  | nil => exact (not_asks_of_const (fun _ _ => rfl) h).elim
  | cons chunk rest ih =>
      by_cases hchunk : Asks (fun removals =>
        closeChunk sdk (withRemovals removals answers) call session chunk) removals removal
      · rw [closeChunks, asked_of_closeChunk hchunk]
        cases closeChunk sdk (withRemovals removals answers) call session chunk with
        | error e => exact List.Subset.refl _
        | ok r => exact List.subset_append_left _ _
      · -- The batch comes out the same, so the removal is one of a later batch.
        have hsame := update_of_not_asks hchunk
        obtain ⟨a, a', hne⟩ := h
        simp only [closeChunks, hsame] at hne ⊢
        cases hclose : closeChunk sdk (withRemovals removals answers) call session chunk with
        | error e =>
            rw [hclose] at hne
            exact (hne rfl).elim
        | ok r =>
            rw [hclose] at hne
            have hrest : Asks (fun removals => closeChunks sdk (withRemovals removals answers)
                (call + 1) r.1 rest) removals removal := by
              refine ⟨a, a', fun heq => hne ?_⟩
              simp only [heq]
              rfl
            exact List.Subset.trans (ih hrest) (List.subset_append_right _ _)

theorem closeInTurn_withRemovals {answers : CloseAnswers ε} {ids : List Uuid}
    (removals : ℕ × List Uuid → Except DbError Unit) :
    closeInTurn (withRemovals removals answers) ids = closeInTurn answers ids := by
  induction ids with
  | nil => rfl
  | cons id rest ih =>
      rw [closeInTurn, closeInTurn, ih]
      rfl

/-- A call asks for the removal of closures that the exchange confirmed, and of no others. -/
theorem closed_of_asked {config : LiveTradeExecutorConfig} {call : TradeCall ε}
    {removals : ℕ × List Uuid → Except DbError Unit} {id : Uuid}
    (h : call.AsksToForget sdk config session removals id) :
    id ∈ ((call.withRemovals removals).perform sdk config session).closed := by
  obtain ⟨removal, hid, h⟩ := h
  cases call with
  | isolatedOrder => exact (not_asks_of_const (fun _ _ => rfl) h).elim
  | isolatedOrderCloseAll answers =>
      refine (not_asks_of_const (fun g g' => ?_) h).elim
      simp only [TradeCall.withRemovals, TradeCall.perform,
        LiveTradeExecutor.isolatedOrderCloseAll, closeInTurn_withRemovals]
      rfl
  | isolatedOrderClose answers tradeId =>
      simp only [TradeCall.withRemovals, TradeCall.perform, LiveTradeExecutor.isolatedOrderClose,
        Live.withRemovals] at h ⊢
      split_ifs at h ⊢ with hregistered
      · exact (not_asks_of_const (fun _ _ => rfl) h).elim
      cases hclose : answers.closeTrade tradeId with
      | error e =>
          simp only [hclose] at h
          exact (not_asks_of_const (fun _ _ => rfl) h).elim
      | ok t =>
          simp only [hclose] at h
          obtain rfl := h.eq (j := (0, [t.id])) fun g g' heq => by rw [heq]
          rw [LiveOutcome.void, closed_store]
          exact hid
  | closeTrades answers side =>
      have hchunks : Asks (fun removals => closeChunks sdk (Live.withRemovals removals answers) 0
          session (chunksOfThree (toClose session side))) removals removal :=
        h.of_comp (k := fun r => LiveOutcome.void (.store session [] r.1 r.2))
      simp only [TradeCall.withRemovals, TradeCall.perform, LiveTradeExecutor.closeTrades,
        LiveOutcome.void, closed_store]
      exact asked_of_closeChunks hchunks hid

/-- What is left of the rows once every running trade has been taken out runs no more. -/
theorem erased_of_fold {snapshot : OrdMap Uuid ℤ} {runningTrades : List Trade}
    {start acc : LiveTradingSession × OrdMap Uuid (Option TradeTrailingStoploss)}
    (hfold : runningTrades.foldlM (recoverTrade sdk snapshot) start = .ok acc) :
    ∀ e ∈ acc.2.entries, e.1 ∉ runningTrades.map (·.id) := by
  have herased : ∀ id ∈ runningTrades.map (·.id), acc.2.get id = none := by
    refine foldlM_invariant (P := fun done (acc : LiveTradingSession ×
      OrdMap Uuid (Option TradeTrailingStoploss)) => ∀ id ∈ done.map (·.id),
        acc.2.get id = none) hfold (by simp) ?_
    intro done t rest acc acc' _ hdone hstep id hid
    rw [(recoverTrade_eq_ok hstep).2]
    by_cases heq : id = t.id
    · rw [heq, OrdMap.get_erase_self]
    · rw [OrdMap.get_erase_of_ne heq]
      rw [List.map_append, List.map_singleton, List.mem_append, List.mem_singleton] at hid
      exact hdone id (hid.resolve_right heq)
  intro e he hrunning
  exact OrdMap.get_eq_none.mp (herased e.1 hrunning) e.2 he

theorem notRunning_of_recoverTrades {sources : SessionSources ε} {snapshot : OrdMap Uuid ℤ}
    {runningTrades : List Trade} {removals : List Uuid → Except DbError Unit} {ids : List Uuid}
    (h : Asks (fun removeRunningTrades => session.recoverTrades sdk
      { sources with removeRunningTrades } snapshot runningTrades) removals ids) :
    ∀ id ∈ ids, id ∉ runningTrades.map (·.id) := by
  simp only [recoverTrades] at h
  obtain ⟨rows, -, h⟩ := h.of_bind
  obtain ⟨acc, hfold, h⟩ := h.of_bind
  by_cases hempty : acc.2.isEmpty = true
  · simp only [if_pos hempty] at h
    exact (not_asks_of_const (fun _ _ => rfl) h).elim
  · obtain rfl := h.eq (j := acc.2.entries.map (·.1)) fun g g' heq => by rw [heq]
    intro id hid
    obtain ⟨e, he, rfl⟩ := List.mem_map.mp hid
    exact erased_of_fold hfold e he

/-- A renewal asks for the removal of trades that do not run, and of no others. -/
theorem notRunning_of_asked {recoverTradesOnStartup : Bool} {tslStepSize : PercentageCapped}
    {sources : SessionSources ε} {prev : Option LiveTradingSession} {id : Uuid}
    (h : RenewalAsksToForget sdk recoverTradesOnStartup tslStepSize sources prev id) :
    ∃ runningTrades, sources.tradesRunning = .ok runningTrades ∧
      id ∉ runningTrades.map (·.id) := by
  obtain ⟨ids, hid, h⟩ := h
  -- Nothing before the recovery is given the answers of the removal.
  have hstart : ∀ removeRunningTrades, unrecovered { sources with removeRunningTrades }
      tslStepSize prev = unrecovered sources tslStepSize prev := fun _ => rfl
  have hreconcile : ∀ removeRunningTrades (p : LiveTradingSession) runningTrades session,
      p.reconcile { sources with removeRunningTrades } runningTrades session =
        (p.reconcile sources runningTrades session : ActionResult ε _) := fun _ _ _ _ => rfl
  simp only [LiveTradingSession.new, hstart, hreconcile] at h
  obtain ⟨session, -, h⟩ := h.of_bind
  cases recoverTradesOnStartup with
  | false => exact (not_asks_of_const (fun _ _ => rfl) h).elim
  | true =>
      obtain ⟨runningTrades, hrunning, h⟩ := h.of_bind
      refine ⟨runningTrades, mapError_eq_ok.mp hrunning, ?_⟩
      cases prev with
      | none => exact notRunning_of_recoverTrades h id hid
      | some p =>
          simp only at h
          obtain ⟨session, -, h⟩ := h.of_bind
          exact notRunning_of_recoverTrades h id hid

/-! ### The steps of an account -/

/-- Who takes a step. -/
inductive Party
  | exchange
  | otherAccounts
  | operator
  | refresh
  | process

section Steps

variable (sdk : LnmSdk ε) (margins : MarginSdk) (config : LiveTradeExecutorConfig)
  (tryFrom : F64 → Except ε PercentageCapped) (accountId : Uuid)

inductive AccountStep : Account → Party → Account → Prop
  /-- Trades are closed or changed, or opened by other means, under ids never given before. -/
  | exchange {w : Account} {running : List Trade} {issued : List Uuid}
      (hknown : ∀ t ∈ running, t.id ∈ w.runningIds ∨ t.id ∉ w.issued)
      (hissued : ∀ id, id ∈ w.issued ∨ id ∈ running.map (·.id) → id ∈ issued) :
      AccountStep w .exchange { w with running, issued }
  | otherAccounts {w : Account} {table : RunningTradesTable}
      (hsame : ∀ id, table.stored accountId id = w.table.stored accountId id) :
      AccountStep w .otherAccounts { w with table }
  | orderRefused {w : Account} {session : LiveTradingSession} {answers : OrderAnswers ε}
      {side : TradeSide} {size : TradeSize} {leverage : Leverage} {stoploss : Option Stoploss}
      {takeprofit : Option Price} {e : ExecutorActionError ε}
      (hs : w.session = some session)
      (hcheck : checkOrder sdk config session answers side size leverage stoploss takeprofit =
        .error e) :
      AccountStep w .operator { w with session := some (executeIsolatedOrder sdk config session
        answers side size leverage stoploss takeprofit).session }
  /-- An order is acknowledged when the operator gets the trade's id. -/
  | order {w w' : Account} {session : LiveTradingSession} {answers : OrderAnswers ε}
      {side : TradeSide} {size : TradeSize} {leverage : Leverage} {stoploss : Option Stoploss}
      {takeprofit stoplossPrice : Option Price} {tsl : Option TradeTrailingStoploss}
      {out : LiveOutcome ε Uuid} (hs : w.session = some session)
      (hcheck : checkOrder sdk config session answers side size leverage stoploss takeprofit =
        .ok (stoplossPrice, tsl))
      (hordered : Ordered accountId w w' tsl
        (answers.newTrade side size leverage stoplossPrice takeprofit) answers.addRunningTrade)
      (hout : out = executeIsolatedOrder sdk config session answers side size leverage stoploss
        takeprofit) :
      AccountStep w .operator { w' with
        session := some out.session
        acknowledged := out.result.toOption.toList.map (·, tsl) ++ w.acknowledged }
  /-- What the exchange confirms is closed, and any of the removals asked for may be made. -/
  | close {w : Account} {session : LiveTradingSession} {call : TradeCall ε}
      {removals : ℕ × List Uuid → Except DbError Unit} {out : LiveOutcome ε Unit}
      {removed : List Uuid} (hs : w.session = some session) (hclose : call.IsClose)
      (hout : out = (call.withRemovals removals).perform sdk config session)
      (hremoved : ∀ id ∈ removed, call.AsksToForget sdk config session removals id) :
      AccountStep w .operator { w with
        session := some out.session
        running := w.running.filter fun t => !out.closed.contains t.id
        table := w.table.removeRunningTrades accountId removed }
  | addMargin {w : Account} {session : LiveTradingSession} {tradeId : Uuid} {amount : ℕ}
      {answer : Uuid → ℕ → Except ε Trade} (hs : w.session = some session) :
      AccountStep w .operator { w with
        session := (isolatedTradeAddMargin sdk margins session tradeId amount
          answer).toOption.getD session }
  | cashIn {w : Account} {session : LiveTradingSession} {tradeId : Uuid} {amount : ℕ}
      {latestEntry : Except DbError (Option (ℤ × F64))} {answer : Uuid → ℕ → Except ε Trade}
      (hs : w.session = some session) :
      AccountStep w .operator { w with
        session := (isolatedTradeCashIn sdk margins session tradeId amount latestEntry
          answer).toOption.getD session }
  | evaluate {w : Account} {session : LiveTradingSession} {tables : PriceTables}
      {sources : EvaluationSources ε} (hs : w.session = some session) :
      AccountStep w .refresh { w with
        session := ((session.reevaluate sdk tables sources).map Prod.fst).toOption.getD session }
  /-- A renewal that fails may have removed rows before it did. -/
  | renew {w : Account} {recoverTradesOnStartup : Bool} {tslStepSize : PercentageCapped}
      {sources : SessionSources ε} {removed : List Uuid}
      (htruthful : Truthful tryFrom accountId w sources)
      (hremoved : ∀ id ∈ removed, RenewalAsksToForget sdk recoverTradesOnStartup tslStepSize
        sources w.session id) :
      AccountStep w .refresh { w with
        session := (LiveTradingSession.new sdk recoverTradesOnStartup tslStepSize sources
          w.session).toOption.or w.session
        table := w.table.removeRunningTrades accountId removed }
  | crossTrading {w : Account} {session : LiveTradingSession} {call : CrossCall ε}
      (hs : w.session = some session) :
      AccountStep w .operator { w with session := some (call.perform session) }
  | expire {w : Account} {session : LiveTradingSession} {now : ℤ} (hs : w.session = some session) :
      AccountStep w .refresh { w with session := some (session.expire now) }
  /-- The process ends, in whatever way; what it had in memory is gone. -/
  | crash {w : Account} : AccountStep w .process { w with session := none }

/-- An account before its first session, whatever the table holds of earlier ones. -/
def accountSystem : System Account Party where
  start w := w.session = none ∧ w.acknowledged = [] ∧ ∀ t ∈ w.running, t.id ∈ w.issued
  step := AccountStep sdk margins config tryFrom accountId

end Steps

/-! ### What every step keeps -/

variable {margins : MarginSdk} {config : LiveTradeExecutorConfig}
  {tryFrom : F64 → Except ε PercentageCapped} {accountId : Uuid} {w w' : Account} {t : Trade}
  {tsl : Option TradeTrailingStoploss} {table : RunningTradesTable}

/-- Every acknowledged trade that still runs is stored with its trailing stoploss, and every
running trade of the session with the session's. -/
structure Durable (sdk : LnmSdk ε) (accountId : Uuid) (w : Account) : Prop where
  issued : ∀ t ∈ w.running, t.id ∈ w.issued
  sound : ∀ s, w.session = some s → s.Sound sdk
  known : ∀ s, w.session = some s → ∀ e ∈ s.runningMap.tradesDesc, e.1.id ∈ w.issued
  given : ∀ a ∈ w.acknowledged, a.1 ∈ w.issued
  stores : ∀ a ∈ w.acknowledged, a.1 ∈ w.runningIds →
    w.table.stored accountId a.1 = some (column a.2)
  agrees : ∀ s, w.session = some s → ∀ e ∈ s.runningMap.tradesDesc, e.1.id ∈ w.runningIds →
    (w.table.stored accountId e.1.id).join = column e.2

namespace Durable

theorem crashes (h : Durable sdk accountId w) :
    Durable sdk accountId { w with session := none } := by
  refine ⟨h.issued, ?_, ?_, h.given, h.stores, ?_⟩ <;>
    · intro s hs
      cases hs

theorem narrows (h : Durable sdk accountId w) (hs : w.session = some session)
    (hnarrowed : Narrowed sdk session s') :
    Durable sdk accountId { w with session := some s' } := by
  refine ⟨h.issued, ?_, ?_, h.given, h.stores, ?_⟩
  · rintro s ⟨⟩
    exact hnarrowed.sound
  · rintro s ⟨⟩ e he
    obtain ⟨e₀, he₀, hid, -⟩ := hnarrowed.keeps e he
    rw [← hid]
    exact h.known session hs e₀ he₀
  · rintro s ⟨⟩ e he hrunning
    obtain ⟨e₀, he₀, hid, htsl⟩ := hnarrowed.keeps e he
    rw [← hid] at hrunning ⊢
    rw [← htsl]
    exact h.agrees session hs e₀ he₀ hrunning

theorem exchanges (h : Durable sdk accountId w) {running : List Trade} {issued : List Uuid}
    (hknown : ∀ t ∈ running, t.id ∈ w.runningIds ∨ t.id ∉ w.issued)
    (hissued : ∀ id, id ∈ w.issued ∨ id ∈ running.map (·.id) → id ∈ issued) :
    Durable sdk accountId { w with running, issued } := by
  -- A trade that was known runs only if it did before.
  have hold : ∀ id ∈ w.issued, id ∈ running.map (·.id) → id ∈ w.runningIds := by
    intro id hid hrunning
    obtain ⟨t, ht, rfl⟩ := List.mem_map.mp hrunning
    exact (hknown t ht).resolve_right fun hnew => hnew hid
  refine ⟨?_, h.sound, ?_, ?_, ?_, ?_⟩
  · exact fun t ht => hissued _ (Or.inr (List.mem_map_of_mem ht))
  · exact fun s hs e he => hissued _ (Or.inl (h.known s hs e he))
  · exact fun a ha => hissued _ (Or.inl (h.given a ha))
  · exact fun a ha hrunning => h.stores a ha (hold _ (h.given a ha) hrunning)
  · exact fun s hs e he hrunning => h.agrees s hs e he (hold _ (h.known s hs e he) hrunning)

theorem opens (h : Durable sdk accountId w) (hnew : t.id ∉ w.issued) :
    Durable sdk accountId (w.opens t) := by
  refine h.exchanges ?_ ?_
  · intro t' ht'
    rcases List.mem_cons.mp ht' with rfl | hold
    · exact Or.inr hnew
    · exact Or.inl (List.mem_map_of_mem hold)
  · intro id hid
    rcases hid with hid | hid
    · exact List.mem_cons_of_mem _ hid
    · rcases List.mem_cons.mp hid with rfl | hid
      · exact List.mem_cons_self
      · obtain ⟨t', ht', rfl⟩ := List.mem_map.mp hid
        exact List.mem_cons_of_mem _ (h.issued t' ht')

/-- A table that stores the same of every trade that the account or the session knows. -/
theorem tables (h : Durable sdk accountId w)
    (hsame : ∀ id, id ∈ w.runningIds → (∃ a ∈ w.acknowledged, a.1 = id) ∨
      (∃ s, w.session = some s ∧ id ∈ s.runningMap.ids) →
      table.stored accountId id = w.table.stored accountId id) :
    Durable sdk accountId { w with table } := by
  refine ⟨h.issued, h.sound, h.known, h.given, ?_, ?_⟩
  · intro a ha hrunning
    rw [hsame a.1 hrunning (Or.inl ⟨a, ha, rfl⟩)]
    exact h.stores a ha hrunning
  · intro s hs e he hrunning
    have hid := DynRunningTradesMap.mem_ids_of_mem he
    rw [hsame e.1.id hrunning (Or.inr ⟨s, hs, hid⟩)]
    exact h.agrees s hs e he hrunning

/-- Rows of trades that do not run can go. -/
theorem removes (h : Durable sdk accountId w) {removed : List Uuid}
    (hgone : ∀ id ∈ removed, id ∉ w.runningIds) :
    Durable sdk accountId { w with table := w.table.removeRunningTrades accountId removed } := by
  refine h.tables fun id hrunning _ => ?_
  rw [stored_removeRunningTrades, if_neg]
  rintro ⟨-, hid⟩
  exact hgone id hid hrunning

/-- The row of a trade that was just opened is of none that was known. -/
theorem inserts (h : Durable sdk accountId w) (hnew : t.id ∉ w.issued) {now : ℤ}
    (hadd : w.table.addRunningTrade now accountId t.id tsl = .ok table) :
    Durable sdk accountId { w.opens t with table } := by
  obtain ⟨-, -, hother⟩ := addRunningTrade_eq_ok hadd
  refine (h.opens hnew).tables fun id _ hknown => hother accountId id ?_
  rintro heq
  obtain rfl := (Prod.mk.inj heq).2
  rcases hknown with ⟨a, ha, hid⟩ | ⟨s, hs, hid⟩
  · exact hnew (hid ▸ h.given a ha)
  · obtain ⟨e, he, hid⟩ := DynRunningTradesMap.mem_ids.mp hid
    exact hnew (hid ▸ h.known s hs e he)

/-- An order that the session books is acknowledged and stored. -/
theorem acknowledges (h : Durable sdk accountId w) (hs : w.session = some session)
    (hnew : t.id ∉ w.issued) {now : ℤ}
    (hadd : w.table.addRunningTrade now accountId t.id tsl = .ok table)
    (hregisters : session.Registers sdk t tsl s') :
    Durable sdk accountId { w.opens t with
      table, session := some s', acknowledged := (t.id, tsl) :: w.acknowledged } := by
  have hinserts := h.inserts hnew hadd
  obtain ⟨-, hstored, -⟩ := addRunningTrade_eq_ok hadd
  have hsound := h.sound session hs
  have hunknown : t.id ∉ session.runningMap.ids := by
    intro hid
    obtain ⟨e, he, hid⟩ := DynRunningTradesMap.mem_ids.mp hid
    exact hnew (hid ▸ h.known session hs e he)
  have hentries : ∀ e ∈ s'.runningMap.tradesDesc,
      e ∈ session.runningMap.tradesDesc ∨ e = (t, tsl) := by
    intro e he
    rw [hregisters.runningMap] at he
    exact (hsound.consistent.mem_add hunknown).mp he
  refine ⟨hinserts.issued, ?_, ?_, ?_, ?_, ?_⟩
  · rintro s ⟨⟩
    exact hregisters.sound hsound
  · rintro s ⟨⟩ e he
    rcases hentries e he with hold | rfl
    · exact hinserts.known session hs e hold
    · exact List.mem_cons_self
  · intro a ha
    rcases List.mem_cons.mp ha with rfl | hold
    · exact List.mem_cons_self
    · exact hinserts.given a hold
  · intro a ha hrunning
    rcases List.mem_cons.mp ha with rfl | hold
    · exact hstored
    · exact hinserts.stores a hold hrunning
  · rintro s ⟨⟩ e he hrunning
    rcases hentries e he with hold | rfl
    · exact hinserts.agrees session hs e hold hrunning
    · rw [hstored]
      rfl

end Durable

/-! ### Steps -/

theorem Durable.order {answers : OrderAnswers ε} {side : TradeSide} {size : TradeSize}
    {leverage : Leverage} {stoploss : Option Stoploss} {takeprofit stoplossPrice : Option Price}
    {out : LiveOutcome ε Uuid} (h : Durable sdk accountId w) (hs : w.session = some session)
    (hcheck : checkOrder sdk config session answers side size leverage stoploss takeprofit =
      .ok (stoplossPrice, tsl))
    (hordered : Ordered accountId w w' tsl
      (answers.newTrade side size leverage stoplossPrice takeprofit) answers.addRunningTrade)
    (hout : out = executeIsolatedOrder sdk config session answers side size leverage stoploss
      takeprofit) :
    Durable sdk accountId { w' with
      session := some out.session
      acknowledged := out.result.toOption.toList.map (·, tsl) ++ w.acknowledged } := by
  obtain ⟨w₁, hopens, hordered⟩ := hordered
  simp only [executeIsolatedOrder, hcheck] at hout
  cases hnewTrade : answers.newTrade side size leverage stoplossPrice takeprofit with
  | error e =>
      simp only [hnewTrade] at hout hordered hopens
      subst hout hordered
      cases hopens with
      | lost hnew =>
          have hopen := h.opens hnew
          simpa [LiveOutcome.rejected, Except.toOption, Account.opens, hs] using hopen
      | refused =>
          simpa [LiveOutcome.rejected, Except.toOption, ← hs] using h
  | ok t =>
      simp only [hnewTrade] at hout hordered hopens
      cases hopens with
      | opened hnew =>
          generalize answers.addRunningTrade t.id tsl = add at hout hordered
          cases hordered with
          | refused =>
              subst hout
              simpa [LiveOutcome.store, Except.toOption, bind, Except.bind, Account.opens, hs] using
                h.opens hnew
          | lost hadd =>
              subst hout
              simpa [LiveOutcome.store, Except.toOption, bind, Except.bind, Account.opens, hs] using
                h.inserts hnew hadd
          | inserted hadd =>
              cases hregister : session.registerRunningTrade sdk t tsl true with
              | error e =>
                  simp only [mapError_ok, bind, Except.bind, hregister] at hout
                  subst hout
                  simpa [LiveOutcome.store, Except.toOption, Account.opens, hs] using
                    h.inserts hnew hadd
              | ok s' =>
                  simp only [mapError_ok, bind, Except.bind, hregister] at hout
                  subst hout
                  exact h.acknowledges hs hnew hadd (registers_of_ok hregister)

theorem Durable.close {call : TradeCall ε} {removals : ℕ × List Uuid → Except DbError Unit}
    {out : LiveOutcome ε Unit} {removed : List Uuid} (h : Durable sdk accountId w)
    (hs : w.session = some session) (hclose : call.IsClose)
    (hout : out = (call.withRemovals removals).perform sdk config session)
    (hremoved : ∀ id ∈ removed, call.AsksToForget sdk config session removals id) :
    Durable sdk accountId { w with
      session := some out.session
      running := w.running.filter fun t => !out.closed.contains t.id
      table := w.table.removeRunningTrades accountId removed } := by
  have hclosed : Durable sdk accountId { w with
      running := w.running.filter fun t => !out.closed.contains t.id } := by
    refine h.exchanges ?_ ?_
    · intro t ht
      exact Or.inl (List.mem_map_of_mem (List.mem_filter.mp ht).1)
    · rintro id (hid | hid)
      · exact hid
      · obtain ⟨t, ht, rfl⟩ := List.mem_map.mp hid
        exact h.issued t (List.mem_filter.mp ht).1
  have hgone : ∀ id ∈ removed, id ∉ (w.running.filter fun t =>
      !out.closed.contains t.id).map (·.id) := by
    intro id hid hrunning
    obtain ⟨t, ht, rfl⟩ := List.mem_map.mp hrunning
    have hconfirmed : t.id ∈ out.closed := by
      rw [hout]
      exact closed_of_asked (hremoved t.id hid)
    simpa [hconfirmed] using (List.mem_filter.mp ht).2
  refine (hclosed.removes hgone).narrows hs ?_
  rw [hout]
  exact narrowed_of_closeCall (h.sound session hs) (isClose_withRemovals.mpr hclose)

theorem join_map_column (x : Option (Option TradeTrailingStoploss)) :
    (x.map column).join = column x.join := by
  rcases x with _ | _ | tsl <;> rfl

/-- A renewal that recovers has the trades of the exchange, with what the table stores. -/
theorem recovered_of_new {tslStepSize : PercentageCapped} {sources : SessionSources ε}
    {prev : Option LiveTradingSession} (hlaws : PercentageLaws tryFrom)
    (htruthful : Truthful tryFrom accountId w sources)
    (h : LiveTradingSession.new sdk true tslStepSize sources prev = .ok s') :
    (∀ e ∈ s'.runningMap.tradesDesc,
      e.1 ∈ w.running ∧ (w.table.stored accountId e.1.id).join = column e.2) ∧
    ∀ t ∈ w.running, ∃ e ∈ s'.runningMap.tradesDesc, e.1 = t := by
  obtain ⟨runningTrades, rows, hrenews⟩ := renews_of_ok h
  obtain ⟨_, _, -, -, hrecovers⟩ := hrenews.built
  obtain rfl := htruthful.running runningTrades hrenews.running
  have hstored := getRunningTradesMap_eq_ok hlaws (htruthful.stored rows hrenews.stored)
  refine ⟨fun e he => ?_, fun t ht => ⟨_, (hrecovers.mem_iff _).mpr ⟨t, ht, rfl⟩, rfl⟩⟩
  obtain ⟨t, ht, rfl⟩ := (hrecovers.mem_iff e).mp he
  exact ⟨ht, by rw [← hstored, join_map_column]⟩

theorem Durable.renew {recoverTradesOnStartup : Bool} {tslStepSize : PercentageCapped}
    {sources : SessionSources ε} (h : Durable sdk accountId w) (hlaws : PercentageLaws tryFrom)
    (htruthful : Truthful tryFrom accountId w sources)
    (hnew : LiveTradingSession.new sdk recoverTradesOnStartup tslStepSize sources w.session =
      .ok s') : Durable sdk accountId { w with session := some s' } := by
  have hentries : ∀ e ∈ s'.runningMap.tradesDesc,
      e.1 ∈ w.running ∧ (w.table.stored accountId e.1.id).join = column e.2 := by
    cases recoverTradesOnStartup with
    | true => exact (recovered_of_new hlaws htruthful hnew).1
    | false =>
        intro e he
        rw [(unrecovered_of_new hnew).runningMap] at he
        exact absurd (DynRunningTradesMap.mem_ids_of_mem he)
          (by simp [DynRunningTradesMap.ids_new])
  refine ⟨h.issued, ?_, ?_, h.given, h.stores, ?_⟩
  · rintro s ⟨⟩
    exact sound_of_new hnew
  · rintro s ⟨⟩ e he
    exact h.issued e.1 (hentries e he).1
  · rintro s ⟨⟩ e he _
    exact (hentries e he).2

theorem Durable.step {party : Party} (hlaws : PercentageLaws tryFrom)
    (h : Durable sdk accountId w)
    (hstep : AccountStep sdk margins config tryFrom accountId w party w') :
    Durable sdk accountId w' := by
  cases hstep with
  | exchange hknown hissued => exact h.exchanges hknown hissued
  | otherAccounts hsame => exact h.tables fun id _ _ => hsame id
  | @orderRefused session _ _ _ _ _ _ _ hs hcheck =>
      have hsame : Narrowed sdk session session := .refl (h.sound session hs)
      simpa only [executeIsolatedOrder, hcheck, LiveOutcome.rejected] using h.narrows hs hsame
  | order hs hcheck hordered hout => exact h.order hs hcheck hordered hout
  | close hs hclose hout hremoved => exact h.close hs hclose hout hremoved
  | @addMargin session tradeId amount answer hs =>
      refine h.narrows hs ?_
      cases hmargin : isolatedTradeAddMargin sdk margins session tradeId amount answer with
      | error e => exact .refl (h.sound session hs)
      | ok s' => exact narrowed_of_margin (h.sound session hs) hmargin
  | @cashIn session tradeId amount latestEntry answer hs =>
      refine h.narrows hs ?_
      cases hcash : isolatedTradeCashIn sdk margins session tradeId amount latestEntry answer with
      | error e => exact .refl (h.sound session hs)
      | ok s' => exact narrowed_of_cashIn (h.sound session hs) hcash
  | @evaluate session tables sources hs =>
      refine h.narrows hs ?_
      cases hcall : session.reevaluate sdk tables sources with
      | error e => exact .refl (h.sound session hs)
      | ok result => exact narrowed_of_reevaluate (h.sound session hs) hcall
  | @renew recover tslStepSize sources removed htruthful hremoved =>
      have hgone : ∀ id ∈ removed, id ∉ w.runningIds := by
        intro id hid
        obtain ⟨runningTrades, hrunning, hleft⟩ := notRunning_of_asked (hremoved id hid)
        obtain rfl := htruthful.running runningTrades hrunning
        exact hleft
      cases hnew : LiveTradingSession.new sdk recover tslStepSize sources w.session with
      | error e => exact h.removes hgone
      | ok s' => exact (h.renew hlaws htruthful hnew).removes hgone
  | @crossTrading session call hs =>
      exact h.narrows hs (narrowed_of_same (h.sound session hs)
        (sameTrades_of_crossCall session call))
  | @expire session now hs =>
      exact h.narrows hs (narrowed_of_same (h.sound session hs) (sameTrades_expire session now))
  | crash => exact h.crashes

theorem durable_of_run {steps : List Party} (hlaws : PercentageLaws tryFrom)
    (h : (accountSystem sdk margins config tryFrom accountId).Run steps w) :
    Durable sdk accountId w := by
  refine h.invariant ?_ fun _ _ _ h hstep => h.step hlaws hstep
  rintro w ⟨hsession, hacknowledged, hissued⟩
  refine ⟨hissued, ?_, ?_, ?_, ?_, ?_⟩ <;> simp [hsession, hacknowledged]

/-- In every run, crashes and lost answers included, each acknowledged order that still runs has
its trailing stoploss in the table, which can be read, and every session that recovers its trades
has it again. -/
theorem trailing_stoplosses_survive {steps : List Party} (hlaws : PercentageLaws tryFrom)
    (h : (accountSystem sdk margins config tryFrom accountId).Run steps w) :
    (∀ id tsl, (id, tsl) ∈ w.acknowledged → id ∈ w.runningIds →
      w.table.stored accountId id = some (column tsl)) ∧
    (∀ s, w.session = some s → ∀ e ∈ s.runningMap.tradesDesc, e.1.id ∈ w.runningIds →
      (w.table.stored accountId e.1.id).join = column e.2) ∧
    (∃ rows, w.table.getRunningTradesMap tryFrom accountId = .ok rows) ∧
    ∀ tslStepSize sources s', Truthful tryFrom accountId w sources →
      LiveTradingSession.new sdk true tslStepSize sources w.session = .ok s' →
      ∀ id tsl, (id, tsl) ∈ w.acknowledged → id ∈ w.runningIds →
        ∃ t, (t, tsl) ∈ s'.runningMap.tradesDesc ∧ t.id = id := by
  have hdurable := durable_of_run hlaws h
  refine ⟨fun id tsl hack => hdurable.stores (id, tsl) hack, hdurable.agrees,
    getRunningTradesMap_isOk hlaws w.table accountId, ?_⟩
  intro tslStepSize sources s' htruthful hnew id tsl hack hrunning
  obtain ⟨hentries, hall⟩ := recovered_of_new hlaws htruthful hnew
  obtain ⟨t, ht, rfl⟩ := List.mem_map.mp hrunning
  obtain ⟨e, he, rfl⟩ := hall t ht
  have hcolumn := (hentries e he).2
  rw [hdurable.stores _ hack hrunning] at hcolumn
  have htsl : tsl = e.2 := column_injective hcolumn
  exact ⟨e.1, htsl ▸ he, rfl⟩

/-! ### An order and a crash -/

def percentageTryFrom (x : F64) : Except Refusal PercentageCapped :=
  if F64.ofRat (1 / 10) ≤ x ∧ x ≤ F64.ofRat (999 / 10) then .ok ⟨x⟩ else .error .stoploss

theorem percentageTryFrom_laws : PercentageLaws percentageTryFrom := by
  constructor
  · intro x hlo hhi
    exact ⟨⟨x⟩, if_pos ⟨hlo, hhi⟩⟩
  · intro x p h
    unfold percentageTryFrom at h
    split_ifs at h
    exact congrArg PercentageCapped.asF64 (Except.ok.inj h).symm

def heldMargins : MarginSdk := ⟨⟨F64.clamp 100⟩, fun _ _ _ => ReferenceSdk.margin 10000⟩

/-- A trade that ended while no session was there has left its row. -/
def leftover : RunningTradeRow := ⟨⟨0⟩, ⟨9⟩, none, 0⟩

def newAccount : Account :=
  ⟨[], [], ⟨[leftover], List.nodup_singleton _, by decide⟩, none, []⟩

def firstSources : SessionSources Refusal :=
  accountSources 0 [] (OrdMap.empty.insert leftover.tradeId none)

def firstRenewal (removeRunningTrades : List Uuid → Except DbError Unit) :
    ActionResult Refusal LiveTradingSession :=
  LiveTradingSession.new referenceSdk true ReferenceSdk.tenthPercent
    { firstSources with removeRunningTrades } none

theorem firstRenewal_isOk : (firstRenewal firstSources.removeRunningTrades).isOk = true := by
  decide +kernel

def firstSession : LiveTradingSession := get _ firstRenewal_isOk

/-- The first session asks for the row to be forgotten. -/
theorem asks_leftover : Asks firstRenewal firstSources.removeRunningTrades [leftover.tradeId] := by
  refine ⟨.ok (), .error .query, fun heq => ?_⟩
  have hdiffer : (firstRenewal (Function.update firstSources.removeRunningTrades
      [leftover.tradeId] (.ok ()))).isOk ≠ (firstRenewal (Function.update
        firstSources.removeRunningTrades [leftover.tradeId] (.error .query))).isOk := by
    decide +kernel
  exact hdiffer (by rw [heq])

def heldAnswers : OrderAnswers Refusal where
  latestEntry := .ok (some (0, F64.clamp 100000))
  newTrade _ _ _ _ _ := .ok heldTrade
  addRunningTrade _ _ := .ok ()

/-- The order of the held trade. -/
def heldOrder : LiveOutcome Refusal Uuid :=
  executeIsolatedOrder referenceSdk heldConfig firstSession heldAnswers .buy (.quantity ⟨1000⟩)
    ⟨F64.clamp 10⟩ (some (.trailing ⟨F64.clamp 5⟩)) none

def renewedAccount : Account :=
  { newAccount with
    session := some firstSession
    table := newAccount.table.removeRunningTrades ⟨0⟩ [leftover.tradeId] }

theorem first_renewal : AccountStep referenceSdk heldMargins heldConfig percentageTryFrom ⟨0⟩
    newAccount .refresh renewedAccount := by
  have htruthful : Truthful percentageTryFrom ⟨0⟩ newAccount firstSources := by
    constructor
    · rintro ts ⟨⟩
      rfl
    · rintro m ⟨⟩
      simp [getRunningTradesMap, rowsOf, newAccount, leftover, insertRow, pure, Except.pure]
  have hasked : ∀ id ∈ [leftover.tradeId], RenewalAsksToForget referenceSdk true
      ReferenceSdk.tenthPercent firstSources newAccount.session id :=
    fun id hid => ⟨[leftover.tradeId], hid, asks_leftover⟩
  have hnew : LiveTradingSession.new referenceSdk true ReferenceSdk.tenthPercent firstSources
      newAccount.session = .ok firstSession := eq_ok_get firstRenewal_isOk
  have hstep : AccountStep referenceSdk heldMargins heldConfig percentageTryFrom ⟨0⟩ newAccount
      .refresh { newAccount with
        session := (LiveTradingSession.new referenceSdk true ReferenceSdk.tenthPercent
          firstSources newAccount.session).toOption.or newAccount.session
        table := newAccount.table.removeRunningTrades ⟨0⟩ [leftover.tradeId] } :=
    .renew htruthful hasked
  rw [hnew] at hstep
  exact hstep

/-- The order is acknowledged with its trailing stoploss. -/
theorem held_order : ∃ table, AccountStep referenceSdk heldMargins heldConfig percentageTryFrom
    ⟨0⟩ renewedAccount .operator { renewedAccount.opens heldTrade with
      table, session := some heldOrder.session, acknowledged := [(heldTrade.id, heldTsl)] } := by
  have hchecked : (checkOrder referenceSdk heldConfig firstSession heldAnswers .buy
      (.quantity ⟨1000⟩) ⟨F64.clamp 10⟩ (some (.trailing ⟨F64.clamp 5⟩)) none).map (·.2) =
        .ok heldTsl := by decide +kernel
  obtain ⟨⟨stoplossPrice, tsl⟩, hcheck, htsl⟩ := exceptMap_eq_ok.mp hchecked
  obtain rfl : tsl = heldTsl := htsl
  have hresult : heldOrder.result = .ok heldTrade.id := by decide +kernel
  have hadded : (renewedAccount.table.addRunningTrade 0 ⟨0⟩ heldTrade.id heldTsl).isOk =
      true := by decide +kernel
  have hnew : heldTrade.id ∉ renewedAccount.issued := List.not_mem_nil
  have hstep : AccountStep referenceSdk heldMargins heldConfig percentageTryFrom ⟨0⟩
      renewedAccount .operator { renewedAccount.opens heldTrade with
        table := get _ hadded
        session := some heldOrder.session
        acknowledged := heldOrder.result.toOption.toList.map (·, heldTsl) ++
          renewedAccount.acknowledged } :=
    .order rfl hcheck ⟨_, .opened hnew, .inserted (eq_ok_get hadded)⟩ rfl
  rw [hresult] at hstep
  exact ⟨_, hstep⟩

theorem trailing_stoplosses_survive_crash : ∃ w,
    (accountSystem referenceSdk heldMargins heldConfig percentageTryFrom ⟨0⟩).Run
      [.refresh, .operator, .process] w ∧ w.session = none ∧
    w.table.stored ⟨0⟩ heldTrade.id = some (column heldTsl) := by
  obtain ⟨table, horder⟩ := held_order
  have hstart : (accountSystem referenceSdk heldMargins heldConfig percentageTryFrom ⟨0⟩).start
      newAccount := ⟨rfl, rfl, List.forall_mem_nil _⟩
  have hrun := (((System.Run.start hstart).step first_renewal).step horder).step .crash
  refine ⟨_, hrun, rfl, ?_⟩
  exact (trailing_stoplosses_survive percentageTryFrom_laws hrun).1 heldTrade.id heldTsl
    List.mem_cons_self List.mem_cons_self

end Quantoxide.Live
