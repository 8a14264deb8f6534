import Quantoxide.Model.RunningTrades
import Quantoxide.Verification.Live.Agreement
import Quantoxide.Verification.Live.Counterparts

/-! # What the calls of the live executor leave

A call that succeeds leaves the running trades it was not about. A closure takes the trades it
selects, as long as the exchange closes the trades it is asked to close. -/

namespace Quantoxide.Live

open Executor Result SimulatedTradeExecutor LiveTradingSession LiveTradeExecutor

variable {ε : Type} {ex : SimulatedTradeExecutor ε} {sdk : LnmSdk ε}
  {session s s' : LiveTradingSession} {gone : List Uuid} {answers : CloseAnswers ε}

/-! ### Closures -/

theorem Carries.trans {s'' : LiveTradingSession} (h : Carries sdk session s')
    (h' : Carries sdk s' s'') : Carries sdk session s'' :=
  ⟨h'.tslStepSize.trans h.tslStepSize, h'.sound, h'.summarised⟩

/-- The session goes on without the trades that are gone. -/
structure Leaves (sdk : LnmSdk ε) (session : LiveTradingSession) (gone : List Uuid)
    (s : LiveTradingSession) : Prop extends Carries sdk session s where
  mem_iff : ∀ e, e ∈ s.runningMap.tradesDesc ↔
    e ∈ session.runningMap.tradesDesc ∧ e.1.id ∉ gone

theorem Leaves.start (hs : session.Sound sdk) (hsummarised : Summarised sdk session) :
    Leaves sdk session [] session :=
  ⟨⟨rfl, hs, hsummarised⟩, by simp⟩

theorem Leaves.closes {closed : List Trade} (h : Leaves sdk session gone s)
    (hclose : s.closeTrades sdk closed = .ok s') :
    Leaves sdk session (gone ++ closed.map (·.id)) s' := by
  obtain ⟨hcloses, hs', -⟩ := closes_of_ok h.sound hclose
  have hcarries : Carries sdk s s' :=
    ⟨hcloses.tslStepSize, hs', summarised_close h.sound h.summarised hclose⟩
  refine ⟨h.toCarries.trans hcarries, fun e => ?_⟩
  rw [hcloses.mem_iff, h.mem_iff, List.mem_append, not_or, and_assoc]

/-- The exchange closes the trade it is asked to close, and runs the trades of the session. -/
structure ClosesAsked (session : LiveTradingSession) (answers : CloseAnswers ε) : Prop where
  asked : ∀ id t, answers.closeTrade id = .ok t → t.id = id
  running : ∀ trades, answers.runningTrades = .ok trades →
    ∀ id ∈ session.runningMap.ids, id ∈ trades.map (·.id)

theorem ClosesAsked.mapM {ids : List Uuid} {closed : List Trade}
    (h : ClosesAsked session answers) (hclosed : ids.mapM answers.closeTrade = .ok closed) :
    closed.map (·.id) = ids := by
  have hanswered := forall₂_of_mapM hclosed
  clear hclosed
  induction hanswered with
  | nil => rfl
  | cons ht _ ih => rw [List.map_cons, ih, h.asked _ _ ht]

theorem ClosesAsked.inTurn {ids : List Uuid} {confirmed closed : List Trade}
    (h : ClosesAsked session answers)
    (hclosed : closeInTurn answers ids = (confirmed, .ok closed)) : closed.map (·.id) = ids := by
  induction ids generalizing confirmed closed with
  | nil =>
      simp only [closeInTurn, Prod.mk.injEq, Except.ok.injEq] at hclosed
      rw [← hclosed.2]
      rfl
  | cons id rest ih =>
      unfold closeInTurn at hclosed
      cases ht : answers.closeTrade id with
      | error e => simp [ht] at hclosed
      | ok t =>
          simp only [ht, Prod.mk.injEq, exceptMap_eq_ok] at hclosed
          obtain ⟨-, later, hlater, rfl⟩ := hclosed
          rw [List.map_cons, h.asked id t ht, ih (Prod.ext rfl hlater)]

theorem flatten_chunksOfThree (ids : List Uuid) : (chunksOfThree ids).flatten = ids := by
  induction ids using chunksOfThree.induct with
  | case1 => rfl
  | case2 a => rfl
  | case3 a b => rfl
  | case4 a b c rest ih => simp [chunksOfThree, ih]

/-- The batches leave the trades that are in none of them. -/
theorem Leaves.chunks {chunks : List (List Uuid)} {call : ℕ} {confirmed ids : List Uuid}
    {start : LiveTradingSession} (hasked : ClosesAsked start answers)
    (h : Leaves sdk session gone s)
    (hchunks : closeChunks sdk answers call s chunks = (confirmed, .ok (s', ids))) :
    Leaves sdk session (gone ++ chunks.flatten) s' := by
  induction chunks generalizing call s gone confirmed ids with
  | nil =>
      simp only [closeChunks, Prod.mk.injEq, Except.ok.injEq] at hchunks
      obtain ⟨-, rfl, -⟩ := hchunks
      simpa using h
  | cons chunk rest ih =>
      unfold closeChunks at hchunks
      cases hclose : closeChunk sdk answers call s chunk with
      | error e => simp [hclose] at hchunks
      | ok r =>
          obtain ⟨s₁, closedIds⟩ := r
          simp only [hclose, Prod.mk.injEq, exceptMap_eq_ok] at hchunks
          obtain ⟨-, ⟨last, lastIds⟩, hrest, rfl, -⟩ := hchunks
          simp only [closeChunk, bind_eq_ok, mapError_eq_ok, pure_eq_ok, Prod.mk.injEq] at hclose
          obtain ⟨closed, hclosed, s₂, hs₂, -, -, rfl, -⟩ := hclose
          have hfirst := h.closes hs₂
          rw [hasked.mapM hclosed] at hfirst
          have hall := ih hfirst (Prod.ext rfl hrest)
          rwa [List.append_assoc] at hall

/-- The closure as the live executor is asked for it. -/
def liveClose (answers : CloseAnswers ε) : Close → TradeCall ε
  | .single id => .isolatedOrderClose answers id
  | .side tradeSide => .closeTrades answers tradeSide
  | .all => .isolatedOrderCloseAll answers

theorem store_eq_ok {α : Type} {opened closed : List Uuid}
    {r : ActionResult ε (LiveTradingSession × α)} {a : α}
    (h : (LiveOutcome.store session opened closed r).result = .ok a) :
    r = .ok ((LiveOutcome.store session opened closed r).session, a) := by
  cases r with
  | error e => cases h
  | ok p =>
      obtain rfl := Except.ok.inj h
      rfl

/-- A closure that succeeds leaves the trades that it does not select. -/
theorem liveClose_leaves {config : LiveTradeExecutorConfig} {close : Close}
    {out : LiveOutcome ε Unit} (hs : session.Sound sdk) (hsummarised : Summarised sdk session)
    (hasked : ClosesAsked session answers)
    (hout : (liveClose answers close).perform sdk config session = out)
    (hdone : out.result = .ok ()) :
    ∃ gone, Leaves sdk session gone out.session ∧
      ∀ e ∈ session.runningMap.tradesDesc, e.1.id ∈ gone ↔ close.selects e.1.asRunning = true := by
  subst hout
  have hstart := Leaves.start hs hsummarised
  cases close with
  | single id =>
      simp only [liveClose, TradeCall.perform, LiveOutcome.void, exceptMap_eq_ok,
        LiveTradeExecutor.isolatedOrderClose] at hdone ⊢
      obtain ⟨⟨⟩, hdone, -⟩ := hdone
      split_ifs at hdone ⊢
      · cases hdone
      cases hclose : answers.closeTrade id with
      | error e => simp [hclose, LiveOutcome.rejected] at hdone
      | ok closed =>
          simp only [hclose] at hdone ⊢
          have hstored := store_eq_ok hdone
          simp only [bind_eq_ok, mapError_eq_ok, pure_eq_ok, Prod.mk.injEq] at hstored
          obtain ⟨_, -, next, hnext, hsame, -⟩ := hstored
          rw [← hsame]
          refine ⟨[id], ?_, fun e he => ?_⟩
          · simpa [hasked.asked id closed hclose] using hstart.closes hnext
          · simp [Close.selects, Trade.asRunning, @eq_comm _ id]
  | side tradeSide =>
      simp only [liveClose, TradeCall.perform, LiveOutcome.void, exceptMap_eq_ok,
        LiveTradeExecutor.closeTrades] at hdone ⊢
      obtain ⟨ids, hdone, -⟩ := hdone
      have hstored := store_eq_ok hdone
      have hleaves := hstart.chunks hasked (Prod.ext rfl hstored)
      rw [flatten_chunksOfThree, List.nil_append] at hleaves
      refine ⟨_, hleaves, fun e he => ?_⟩
      unfold toClose
      rw [List.mem_map]
      constructor
      · rintro ⟨e', he', hid⟩
        obtain ⟨he', hside⟩ := List.mem_filter.mp he'
        obtain rfl := hs.consistent.eq_of_id he' he hid
        simpa [Close.selects, Trade.asRunning, @eq_comm _ tradeSide] using hside
      · intro hselected
        refine ⟨e, List.mem_filter.mpr ⟨he, ?_⟩, rfl⟩
        simpa [Close.selects, Trade.asRunning, @eq_comm _ tradeSide] using hselected
  | all =>
      simp only [liveClose, TradeCall.perform, LiveOutcome.void, exceptMap_eq_ok,
        LiveTradeExecutor.isolatedOrderCloseAll] at hdone ⊢
      obtain ⟨ids, hdone, -⟩ := hdone
      cases hrunning : answers.runningTrades with
      | error e => simp [hrunning, LiveOutcome.rejected] at hdone
      | ok trades =>
          simp only [hrunning] at hdone ⊢
          have hstored := store_eq_ok hdone
          simp only [bind_eq_ok, mapError_eq_ok, pure_eq_ok, Prod.mk.injEq] at hstored
          obtain ⟨closed, hclosed, _, hcancelled, next, hnext, hsame, -⟩ := hstored
          rw [← hsame]
          have hids := hasked.inTurn (Prod.ext rfl hclosed)
          refine ⟨_, hstart.closes hnext, fun e he => ?_⟩
          refine iff_of_true ?_ rfl
          rw [List.nil_append, hids]
          simp only [reachedByCloseAll, hcancelled]
          exact hasked.running trades hrunning _ (DynRunningTradesMap.mem_ids_of_mem he)

/-! ### Orders -/

/-- The trailing stoploss that an order asks for. -/
def trailingOf : Option Stoploss → Option TradeTrailingStoploss
  | some (.trailing perc) => some ⟨perc⟩
  | _ => none

theorem evaluate_tsl {stoploss : Stoploss} {step : PercentageCapped} {side : TradeSide}
    {market p : Price} {tsl : Option TradeTrailingStoploss}
    (h : stoploss.evaluate sdk step side market = .ok (p, tsl)) :
    tsl = trailingOf (some stoploss) := by
  cases stoploss with
  | fixed price =>
      obtain ⟨-, rfl⟩ := Prod.mk.inj (Except.ok.inj h)
      rfl
  | trailing perc =>
      simp only [Stoploss.evaluate] at h
      split_ifs at h
      cases side
      all_goals
        simp only [bind_eq_ok, pure_eq_ok, Prod.mk.injEq] at h
        obtain ⟨_, -, -, rfl⟩ := h
        rfl

theorem openTrade_tsl {replay : SimulatedTradeExecutorState} {request : IsolatedOrderRequest}
    {entry : RunningEntry} (h : ex.openTrade replay request.side request.size request.leverage
      request.stoploss request.takeprofit = .ok entry) : entry.2 = trailingOf request.stoploss := by
  simp only [openTrade, bind_eq_ok, pure_eq_ok] at h
  obtain ⟨market, -, ⟨p, tsl⟩, hstoploss, t, -, rfl⟩ := h
  cases hstop : request.stoploss with
  | none =>
      rw [hstop] at hstoploss
      obtain ⟨-, rfl⟩ := Prod.mk.inj (Except.ok.inj hstoploss)
      rfl
  | some stoploss =>
      rw [hstop] at hstoploss
      simp only [orderStoploss, bind_eq_ok, mapError_eq_ok, pure_eq_ok, Prod.mk.injEq] at hstoploss
      obtain ⟨_, heval, -, rfl⟩ := hstoploss
      exact evaluate_tsl heval

section Order

variable {config : LiveTradeExecutorConfig} {answers : OrderAnswers ε} {side : TradeSide}
  {size : TradeSize} {leverage : Leverage} {stoploss : Option Stoploss} {takeprofit : Option Price}

theorem checkOrder_tsl {p : Option Price} {tsl : Option TradeTrailingStoploss}
    (h : checkOrder sdk config session answers side size leverage stoploss takeprofit =
      .ok (p, tsl)) : tsl = trailingOf stoploss := by
  unfold checkOrder at h
  cases stoploss with
  | none =>
      simp only [bind_eq_ok, pure_eq_ok] at h
      obtain ⟨market, -, _, rfl, params, -, h⟩ := h
      split_ifs at h
      exact (Prod.mk.inj (Except.ok.inj h)).2.symm
  | some stoploss =>
      simp only [bind_eq_ok, pure_eq_ok, mapError_eq_ok] at h
      obtain ⟨market, -, evaluated, heval, _, rfl, params, -, h⟩ := h
      split_ifs at h
      obtain ⟨-, rfl⟩ := Prod.mk.inj (Except.ok.inj h)
      exact evaluate_tsl heval

/-- An order that succeeds registers the trade that the exchange opened. -/
theorem order_registers {out : LiveOutcome ε Unit}
    (hout : (TradeCall.isolatedOrder answers side size leverage stoploss takeprofit).perform sdk
      config session = out) (hdone : out.result = .ok ()) :
    ∃ p t, checkOrder sdk config session answers side size leverage stoploss takeprofit =
        .ok (p, trailingOf stoploss) ∧
      answers.newTrade side size leverage p takeprofit = .ok t ∧
      session.registerRunningTrade sdk t (trailingOf stoploss) true = .ok out.session := by
  subst hout
  simp only [TradeCall.perform, LiveOutcome.void, exceptMap_eq_ok, executeIsolatedOrder]
    at hdone ⊢
  obtain ⟨id, hdone, -⟩ := hdone
  cases hcheck : checkOrder sdk config session answers side size leverage stoploss takeprofit with
  | error e => simp [hcheck, LiveOutcome.rejected] at hdone
  | ok params =>
      obtain ⟨p, tsl⟩ := params
      obtain rfl := checkOrder_tsl hcheck
      simp only [hcheck] at hdone ⊢
      cases hnew : answers.newTrade side size leverage p takeprofit with
      | error e => simp [hnew, LiveOutcome.rejected] at hdone
      | ok t =>
          simp only [hnew] at hdone ⊢
          have hstored := store_eq_ok hdone
          simp only [bind_eq_ok, mapError_eq_ok, pure_eq_ok, Prod.mk.injEq] at hstored
          obtain ⟨_, -, next, hregister, hsame, -⟩ := hstored
          rw [← hsame]
          exact ⟨p, t, rfl, hnew, hregister⟩

end Order

/-! ### Margins and the cross position -/

theorem addMargin_books {margins : MarginSdk} {id : Uuid} {amount : ℕ}
    {answer : Uuid → ℕ → Except ε Trade}
    (h : LiveTradeExecutor.isolatedTradeAddMargin sdk margins session id amount answer = .ok s') :
    ∃ t, answer id amount = .ok t ∧
      session.updateRunningTrades sdk (tradesById [t]) = .ok s' := by
  unfold LiveTradeExecutor.isolatedTradeAddMargin at h
  split at h
  · cases h
  simp only at h
  split_ifs at h
  simp only [bookUpdatedTrade, mapError_eq_ok, bind_eq_ok] at h
  exact h

/-- Operations on the cross position, any number of them. -/
inductive Crosses (ε : Type) (session : LiveTradingSession) : LiveTradingSession → Prop
  | refl : Crosses ε session session
  | replace {s s' : LiveTradingSession} (raw : CrossPosition ε) (h : Crosses ε session s)
      (hs' : s.replaceCrossPosition raw = .ok s') : Crosses ε session s'
  | deposit {s s' : LiveTradingSession} (amount : ℕ) (raw : CrossPosition ε)
      (h : Crosses ε session s) (hs' : s.applyCrossDeposit amount raw = .ok s') :
      Crosses ε session s'
  | withdraw {s s' : LiveTradingSession} (amount : ℕ) (raw : CrossPosition ε)
      (h : Crosses ε session s) (hs' : s.applyCrossWithdraw amount raw = .ok s') :
      Crosses ε session s'
  | order {s s' : LiveTradingSession} (raw : CrossPosition ε) (order : CrossOrder)
      (h : Crosses ε session s) (hs' : s.registerCrossOrder raw order = .ok s') :
      Crosses ε session s'

theorem Crosses.carries (h : Crosses ε session s) (hs : session.Sound sdk)
    (hsummarised : Summarised sdk session) :
    Carries sdk session s ∧ s.runningMap = session.runningMap := by
  have hcross : ∀ (op : SessionOp ε) {s s' : LiveTradingSession},
      Carries sdk session s ∧ s.runningMap = session.runningMap → SameTrades s s' →
      op.perform sdk s = .ok s' → Carries sdk session s' ∧ s'.runningMap = session.runningMap := by
    intro op s s' hs hsame hs'
    have hnext : Carries sdk s s' := ⟨hsame.tslStepSize, hsame.sound hs.1.sound,
      summarised_perform hs.1.sound hs.1.summarised hs'⟩
    exact ⟨hs.1.trans hnext, hsame.runningMap.trans hs.2⟩
  induction h with
  | refl => exact ⟨⟨rfl, hs, hsummarised⟩, rfl⟩
  | replace raw _ hs' ih =>
      exact hcross (.replaceCrossPosition raw) ih (sameTrades_replaceCrossPosition hs') hs'
  | deposit amount raw _ hs' ih =>
      exact hcross (.applyCrossDeposit amount raw) ih (sameTrades_applyCrossDeposit hs') hs'
  | withdraw amount raw _ hs' ih =>
      exact hcross (.applyCrossWithdraw amount raw) ih (sameTrades_applyCrossWithdraw hs') hs'
  | order raw order _ hs' ih =>
      exact hcross (.registerCrossOrder raw order) ih (sameTrades_registerCrossOrder hs') hs'

end Quantoxide.Live
