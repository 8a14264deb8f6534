import Quantoxide.Verification.Live.Closures
import Quantoxide.Verification.Live.Renewal

/-! # The runs of the live session

The executor replaces its session by what a session method returns, and keeps it when the
method fails. So do the steps here, in any order and with any arguments. -/

namespace Quantoxide.Live

open Result LiveTradingSession

variable {ε : Type} {sdk : LnmSdk ε} {session s' : LiveTradingSession}

inductive SessionOp (ε : Type)
  | renew (recoverTradesOnStartup : Bool) (tslStepSize : PercentageCapped)
      (sources : SessionSources ε)
  | registerRunningTrade (trade : Trade) (tsl : Option TradeTrailingStoploss)
      (updateBalance : Bool)
  | updateRunningTrades (updatedTrades : List Trade)
  | closeTrades (closedTrades : List Trade)
  | evaluated (time : ℤ) (price : F64)
  | replaceCrossPosition (raw : CrossPosition ε)
  | applyCrossDeposit (amount : ℕ) (raw : CrossPosition ε)
  | applyCrossWithdraw (amount : ℕ) (raw : CrossPosition ε)
  | registerCrossOrder (raw : CrossPosition ε) (order : CrossOrder)

/-- What the step returns; the updated trades are collected by their ids. -/
def SessionOp.perform (sdk : LnmSdk ε) (session : LiveTradingSession) :
    SessionOp ε → ActionResult ε LiveTradingSession
  | renew recover tslStepSize sources =>
    LiveTradingSession.new sdk recover tslStepSize sources (some session)
  | registerRunningTrade trade tsl updateBalance =>
    session.registerRunningTrade sdk trade tsl updateBalance
  | updateRunningTrades updatedTrades => session.updateRunningTrades sdk (tradesById updatedTrades)
  | closeTrades closedTrades => session.closeTrades sdk closedTrades
  | evaluated time price => .ok { session with lastEvaluationTime := time, lastPrice := price }
  | replaceCrossPosition raw => session.replaceCrossPosition raw
  | applyCrossDeposit amount raw => session.applyCrossDeposit amount raw
  | applyCrossWithdraw amount raw => session.applyCrossWithdraw amount raw
  | registerCrossOrder raw order => session.registerCrossOrder raw order

/-- The session that the executor holds after the step. -/
def SessionOp.next (sdk : LnmSdk ε) (session : LiveTradingSession) (op : SessionOp ε) :
    LiveTradingSession :=
  match op.perform sdk session with
  | .ok s' => s'
  | .error _ => session

/-- The sessions an executor can come to hold. -/
def sessionSystem (sdk : LnmSdk ε) : Runs.System LiveTradingSession (SessionOp ε) where
  start s := ∃ recover tslStepSize sources,
    LiveTradingSession.new sdk recover tslStepSize sources none = .ok s
  step s op s' := op.next sdk s = s'

/-! ### Cross operations leave isolated trading alone -/

/-- What isolated trading is made of. -/
structure SameTrades (session s' : LiveTradingSession) : Prop where
  tslStepSize : s'.tslStepSize = session.tslStepSize
  runningMap : s'.runningMap = session.runningMap
  fundingFees : s'.fundingFees = session.fundingFees
  fundingSnapshot : s'.fundingSnapshot = session.fundingSnapshot

theorem SameTrades.refl (session : LiveTradingSession) : SameTrades session session :=
  ⟨rfl, rfl, rfl, rfl⟩

theorem SameTrades.sound (h : SameTrades session s') (hs : session.Sound sdk) : s'.Sound sdk := by
  constructor
  · rw [h.runningMap]
    exact hs.consistent
  · rw [h.runningMap, h.tslStepSize]
    exact hs.bounds

theorem sameTrades_replaceCrossPosition {raw : CrossPosition ε}
    (h : session.replaceCrossPosition raw = .ok s') : SameTrades session s' := by
  simp only [LiveTradingSession.replaceCrossPosition, bind_eq_ok, pure_eq_ok] at h
  obtain ⟨cross, -, rfl⟩ := h
  exact ⟨rfl, rfl, rfl, rfl⟩

theorem sameTrades_applyCrossDeposit {amount : ℕ} {raw : CrossPosition ε}
    (h : session.applyCrossDeposit amount raw = .ok s') : SameTrades session s' := by
  unfold LiveTradingSession.applyCrossDeposit at h
  by_cases hlow : session.balance < amount
  · simp [hlow] at h
  · simp only [hlow, if_false, bind_eq_ok, pure_eq_ok] at h
    obtain ⟨replaced, hreplaced, rfl⟩ := h
    have hsame := sameTrades_replaceCrossPosition hreplaced
    exact ⟨hsame.tslStepSize, hsame.runningMap, hsame.fundingFees, hsame.fundingSnapshot⟩

theorem sameTrades_applyCrossWithdraw {amount : ℕ} {raw : CrossPosition ε}
    (h : session.applyCrossWithdraw amount raw = .ok s') : SameTrades session s' := by
  simp only [LiveTradingSession.applyCrossWithdraw, bind_eq_ok, okOr_eq_ok, pure_eq_ok] at h
  obtain ⟨balance, -, replaced, hreplaced, rfl⟩ := h
  have hsame := sameTrades_replaceCrossPosition hreplaced
  exact ⟨hsame.tslStepSize, hsame.runningMap, hsame.fundingFees, hsame.fundingSnapshot⟩

theorem sameTrades_registerCrossOrder {raw : CrossPosition ε} {order : CrossOrder}
    (h : session.registerCrossOrder raw order = .ok s') : SameTrades session s' := by
  simp only [LiveTradingSession.registerCrossOrder, bind_eq_ok, pure_eq_ok] at h
  obtain ⟨cross, -, rfl⟩ := h
  exact ⟨rfl, rfl, rfl, rfl⟩

/-! ### Soundness of every session -/

theorem sound_of_new {recover : Bool} {tslStepSize : PercentageCapped}
    {sources : SessionSources ε} {prev : Option LiveTradingSession}
    (h : LiveTradingSession.new sdk recover tslStepSize sources prev = .ok s') :
    s'.Sound sdk := by
  cases recover with
  | false => exact .of_empty (unrecovered_of_new h).runningMap
  | true =>
      obtain ⟨_, _, hrenews⟩ := renews_of_ok h
      obtain ⟨_, _, _, _, hrecovers⟩ := hrenews.built
      exact hrecovers.sound

theorem sound_of_perform {op : SessionOp ε} (hs : session.Sound sdk)
    (h : op.perform sdk session = .ok s') : s'.Sound sdk := by
  cases op with
  | renew recover tslStepSize sources => exact sound_of_new h
  | registerRunningTrade trade tsl updateBalance => exact (registers_of_ok h).sound hs
  | updateRunningTrades updatedTrades =>
      exact (updates_of_ok hs (keyed_tradesById updatedTrades) h).2
  | closeTrades closedTrades => exact (closes_of_ok hs h).2.1
  | evaluated time price =>
      obtain rfl := Except.ok.inj h
      exact ⟨hs.consistent, hs.bounds⟩
  | replaceCrossPosition raw => exact (sameTrades_replaceCrossPosition h).sound hs
  | applyCrossDeposit amount raw => exact (sameTrades_applyCrossDeposit h).sound hs
  | applyCrossWithdraw amount raw => exact (sameTrades_applyCrossWithdraw h).sound hs
  | registerCrossOrder raw order => exact (sameTrades_registerCrossOrder h).sound hs

theorem sound_next (op : SessionOp ε) (hs : session.Sound sdk) :
    (op.next sdk session).Sound sdk := by
  unfold SessionOp.next
  cases hop : op.perform sdk session with
  | error e => exact hs
  | ok s' => exact sound_of_perform hs hop

/-- Every session an executor holds is sound. -/
theorem sound_of_run {ops : List (SessionOp ε)} (h : (sessionSystem sdk).Run ops session) :
    session.Sound sdk := by
  refine h.invariant ?_ ?_
  · intro s hstart
    obtain ⟨recover, tslStepSize, sources, hnew⟩ := hstart
    exact sound_of_new hnew
  · intro s op next hs hstep
    rw [← hstep]
    exact sound_next op hs

end Quantoxide.Live
