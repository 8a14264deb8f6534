import Quantoxide.Verification.Executor.Invariants

/-! # The executor's clock and price

An operator's call moves neither the time nor the market price; a candle sets both and a
settlement leaves both. No step but an order opens a cross position. -/

namespace Quantoxide.Executor

open Result SimulatedTradeExecutor

variable {ε : Type} {ex : SimulatedTradeExecutor ε} {s s' : SimulatedTradeExecutorState}

/-- The time and the market price are what they were. -/
structure SameClock (s s' : SimulatedTradeExecutorState) : Prop where
  time : s'.time = s.time
  marketPrice : s'.marketPrice = s.marketPrice

theorem sameClock_refl (s : SimulatedTradeExecutorState) : SameClock s s := ⟨rfl, rfl⟩

theorem SameClock.trans {s'' : SimulatedTradeExecutorState} (h : SameClock s s')
    (h' : SameClock s' s'') : SameClock s s'' :=
  ⟨h'.time.trans h.time, h'.marketPrice.trans h.marketPrice⟩

/-! ### Calls -/

theorem closeRunning_clock (close : Close) : SameClock s (ex.closeRunning s close).1 := by
  unfold closeRunning
  cases ex.closePass s close <;> exact ⟨rfl, rfl⟩

theorem isolatedOrder_clock (request : IsolatedOrderRequest) :
    SameClock s (ex.isolatedOrder s request).1 := by
  unfold isolatedOrder createRunning
  cases ex.openTrade s request.side request.size request.leverage request.stoploss
      request.takeprofit with
  | error e => exact ⟨rfl, rfl⟩
  | ok entry =>
      obtain ⟨trade, tsl⟩ := entry
      simp only
      split_ifs
      · exact ⟨rfl, rfl⟩
      · exact ⟨rfl, rfl⟩
      · cases s.trigger.update ex.sdk ex.config.trailingStoplossStepSize trade tsl <;>
          exact ⟨rfl, rfl⟩

theorem addMargin_clock (id : Uuid) (amount : ℕ) :
    SameClock s (ex.isolatedTradeAddMargin s id amount).1 := by
  unfold isolatedTradeAddMargin
  split_ifs
  · exact ⟨rfl, rfl⟩
  cases s.runningMap.getById id with
  | none => exact ⟨rfl, rfl⟩
  | some found =>
      obtain ⟨key, trade, tsl⟩ := found
      simp only
      cases trade.withAddedMargin ex.sdk amount <;> exact ⟨rfl, rfl⟩

theorem cashIn_clock (id : Uuid) (amount : ℕ) :
    SameClock s (ex.isolatedTradeCashIn s id amount).1 := by
  unfold isolatedTradeCashIn
  cases s.runningMap.getById id with
  | none => exact ⟨rfl, rfl⟩
  | some found =>
      obtain ⟨key, trade, tsl⟩ := found
      simp only
      cases trade.withCashIn ex.sdk (ex.sdk.bounded s.marketPrice) amount <;> exact ⟨rfl, rfl⟩

theorem crossCommit_clock (balance : ℤ) (pos : ExecutorResult ε SimulatedCrossPosition) :
    SameClock s (ex.crossCommit s balance pos).1 := by
  have hspec := @crossCommit_spec ε ex s balance pos
  rcases hspec with ⟨hs, -⟩ | ⟨p, hs⟩ <;> rw [hs] <;> exact ⟨rfl, rfl⟩

theorem crossDeposit_clock (amount : ℕ) : SameClock s (ex.crossDeposit s amount).1 := by
  unfold crossDeposit
  cases I64.tryFrom amount with
  | none => exact ⟨rfl, rfl⟩
  | some a =>
      simp only
      split_ifs
      · exact ⟨rfl, rfl⟩
      · exact crossCommit_clock _ _

theorem crossWithdraw_clock (amount : ℕ) : SameClock s (ex.crossWithdraw s amount).1 := by
  unfold crossWithdraw
  cases I64.tryFrom amount with
  | none => exact ⟨rfl, rfl⟩
  | some a =>
      simp only
      split_ifs
      · exact ⟨rfl, rfl⟩
      · cases I64.checkedAdd s.balance a with
        | none => exact ⟨rfl, rfl⟩
        | some b => exact crossCommit_clock _ _

theorem crossOrder_clock (request : CrossOrderRequest) :
    SameClock s (ex.crossOrder s request).1 := by
  unfold crossOrder executeCrossOrder
  cases ex.orderedPosition s request.side request.quantity <;> exact ⟨rfl, rfl⟩

theorem crossOrderClosePosition_clock : SameClock s (ex.crossOrderClosePosition s).1 := by
  unfold crossOrderClosePosition
  split_ifs
  · exact ⟨rfl, rfl⟩
  · cases ex.closedPosition s <;> exact ⟨rfl, rfl⟩

theorem call_clock (c : Call) : SameClock s (c.execute ex s).1 := by
  cases c with
  | isolatedOrder request => exact isolatedOrder_clock request
  | isolatedTradeAddMargin id amount => exact addMargin_clock id amount
  | isolatedTradeCashIn id amount => exact cashIn_clock id amount
  | isolatedOrderClose id => exact closeRunning_clock _
  | isolatedOrderCloseLongs => exact closeRunning_clock _
  | isolatedOrderCloseShorts => exact closeRunning_clock _
  | isolatedOrderCloseAll => exact closeRunning_clock _
  | crossDeposit amount => exact crossDeposit_clock amount
  | crossWithdraw amount => exact crossWithdraw_clock amount
  | crossSetLeverage leverage => exact crossCommit_clock _ _
  | crossOrder request => exact crossOrder_clock request
  | crossOrderClosePosition => exact crossOrderClosePosition_clock
  | tradingState => exact sameClock_refl s

/-! ### The engine's own steps -/

theorem candleUpdate_clock {candle : OhlcCandleRow}
    (h : ex.candleUpdate s candle = (s', .ok ())) :
    s'.time = candle.time + Duration.seconds 59 ∧ s'.marketPrice = candle.close := by
  obtain ⟨pos, last, -, ⟨-, -, rfl⟩ | ⟨-, acc, history, -, -, rfl⟩⟩ := candleUpdate_eq_ok h
  · exact ⟨rfl, rfl⟩
  · exact ⟨rfl, rfl⟩

/-! ### When positions are opened -/

/-- Every running trade was entered at a time that meets `Q`. -/
def EnteredAt (Q : ℤ → Prop) (s : SimulatedTradeExecutorState) : Prop :=
  ∀ key entry, (key, entry) ∈ s.runningMap.trades → Q entry.1.entryTime

theorem enteredAt_new {Q : ℤ → Prop} {startCandle : OhlcCandleRow} {startBalance : ℕ} :
    EnteredAt Q (ex.new startCandle startBalance) := by
  intro key entry h
  simp [SimulatedTradeExecutor.new, RunningTradesMap.new, OrdMap.empty, OrdMap.mem_def] at h

theorem EnteredAt.of_map {Q : ℤ → Prop} (h : EnteredAt Q s) (hmap : s'.runningMap = s.runningMap) :
    EnteredAt Q s' := by
  intro key entry he
  rw [hmap] at he
  exact h key entry he

theorem EnteredAt.imp {Q Q' : ℤ → Prop} (h : EnteredAt Q s) (hq : ∀ t, Q t → Q' t) :
    EnteredAt Q' s :=
  fun key entry he => hq _ (h key entry he)

theorem EnteredAt.tradesDesc {Q : ℤ → Prop} (h : EnteredAt Q s) {entry : RunningEntry}
    (he : entry ∈ s.runningMap.tradesDesc) : Q entry.1.entryTime := by
  obtain ⟨key, hmem⟩ := mem_tradesDesc.mp he
  exact h key entry hmem

/-- Only a call enters a trade, at the executor's time. -/
theorem EnteredAt.step {Q : ℤ → Prop} {op : Op} (h : EnteredAt Q s) (he : Effect ex s op s')
    (hq : ∀ c, op = .call c → Q s.time) : EnteredAt Q s' := by
  refine he.entries (P := fun e => Q e.1.entryTime) h ?_ ?_ ?_ ?_ ?_
  · intro request entry hop hopen
    obtain ⟨market, stoploss, p, -, hentry⟩ := openTrade_spec hopen
    rw [hentry]
    exact hq _ hop
  · intro entry t' amount hp hadd
    rw [(withAddedMargin_same hadd).entryTime]
    exact hp
  · intro id amount key entry t' _ _ hp hcash
    rw [(withCashIn_same hcash).entryTime]
    exact hp
  · intro candle entry t' hp htrail
    rw [(trailStoploss_same htrail).entryTime]
    exact hp
  · intro settlement entry t' fee _ _ hp hset
    rcases (settled_cases hset).2 with ⟨-, rfl⟩ | ⟨-, m, l, -, -, rfl⟩
    · exact hp
    · exact hp

/-- A settlement opens no cross position. -/
theorem settlement_neutral (settlement : FundingSettlementRow)
    (h : s.crossPosition.exposure = .neutral) :
    (ex.applyFundingSettlement s settlement).1.crossPosition.exposure = .neutral := by
  unfold applyFundingSettlement
  split_ifs
  · exact h
  cases s.runningMap.tradesDesc.foldlM (ex.settleTrade s settlement) (startPass s) with
  | error e => exact h
  | ok acc =>
      simp only
      cases (addClosed s.closedHistory acc.closedTrades : ExecutorResult ε _) with
      | error e => exact h
      | ok history => simp [SimulatedCrossPosition.applyFundingSettlement, h]

/-- A candle opens no cross position. -/
theorem candleUpdate_neutral (candle : OhlcCandleRow) (h : s.crossPosition.exposure = .neutral) :
    (ex.candleUpdate s candle).1.crossPosition.exposure = .neutral := by
  have hcross : ex.crossAfterCandle s candle = .ok (s.crossPosition, s.lastTradeTime) := by
    simp [crossAfterCandle, SimulatedCrossPosition.liquidationReached, h]
  simp only [candleUpdate, hcross]
  split_ifs
  · exact h
  · exact h
  cases ex.candleLoop s candle { startPass s with lastTradeTime := s.lastTradeTime } with
  | error e => exact h
  | ok acc =>
      simp only
      cases (addClosed s.closedHistory acc.closedTrades : ExecutorResult ε _) <;> exact h

end Quantoxide.Executor
