import Mathlib.Tactic.Linarith.Frontend
import Quantoxide.Library.Runs
import Quantoxide.Verification.Executor.Passes

/-! # What a step of the executor can do

A step is one operation with whatever outcome it has. It leaves the running trades alone,
opens or rewrites one of them, or passes over all of them; a candle whose loop fails has
already moved the stoplosses before the failure. -/

namespace Quantoxide.Executor

open Result SimulatedTradeExecutor

variable {ε : Type} {ex : SimulatedTradeExecutor ε} {s s' : SimulatedTradeExecutorState}

inductive Op
  | call (call : Call)
  | candleUpdate (candle : OhlcCandleRow)
  | applyFundingSettlement (settlement : FundingSettlementRow)
  | updateTime (time : ℤ)

/-- What an operation leaves behind, and whether it succeeded. -/
def Op.perform (ex : SimulatedTradeExecutor ε) (s : SimulatedTradeExecutorState) :
    Op → Outcome ε Unit
  | call c => ((c.execute ex s).1, (c.execute ex s).2.map fun _ => ())
  | candleUpdate candle => ex.candleUpdate s candle
  | applyFundingSettlement settlement => ex.applyFundingSettlement s settlement
  | updateTime time => SimulatedTradeExecutor.updateTime s time

/-- The runs of one executor, from `new`. -/
def system (ex : SimulatedTradeExecutor ε) : Runs.System SimulatedTradeExecutorState Op where
  start s := ∃ startCandle startBalance, s = ex.new startCandle startBalance
  step s op s' := (op.perform ex s).1 = s'

def Succeeds (ex : SimulatedTradeExecutor ε) (s : SimulatedTradeExecutorState) (op : Op) : Prop :=
  (op.perform ex s).2 = .ok ()

instance [DecidableEq ε] (op : Op) : Decidable (Succeeds ex s op) :=
  inferInstanceAs (Decidable (_ = _))

/-- What a list of operations leaves behind. -/
def performAll (ex : SimulatedTradeExecutor ε) (s : SimulatedTradeExecutorState)
    (ops : List Op) : SimulatedTradeExecutorState :=
  ops.foldl (fun s op => (op.perform ex s).1) s

/-- Allowed operations make a run. -/
theorem performAll_run {sys : Runs.System SimulatedTradeExecutorState Op}
    {start : SimulatedTradeExecutorState} {allowed : SimulatedTradeExecutorState → Op → Prop}
    {ops : List Op} (hstart : sys.start start)
    (hstep : ∀ s op, allowed s op → sys.step s op (op.perform ex s).1)
    (h : Runs.System.Along (fun s op => (op.perform ex s).1) allowed start ops) :
    sys.Run ops (performAll ex start ops) :=
  (Runs.System.Run.start hstart).foldl hstep h

/-- The loop of a candle update is reached and fails. -/
def LoopFails (ex : SimulatedTradeExecutor ε) (s : SimulatedTradeExecutorState)
    (candle : OhlcCandleRow) : Prop :=
  s.time ≤ candle.time + Duration.seconds 59 ∧
  (s.trigger.wasReached candle.low = true ∨ s.trigger.wasReached candle.high = true) ∧
  (match ex.crossAfterCandle s candle with
    | .error _ => false
    | .ok (_, lastTradeTime) =>
      !(ex.candleLoop s candle { startPass s with lastTradeTime }).isOk) = true

instance (candle : OhlcCandleRow) : Decidable (LoopFails ex s candle) :=
  inferInstanceAs (Decidable (_ ∧ _ ∧ _))

def Op.isCashIn : Op → Bool
  | .call (.isolatedTradeCashIn _ _) => true
  | _ => false

/-- What a successful operation moves from the cross margin to the balance. -/
def crossFlow : Op → ℤ
  | .call (.crossDeposit amount) => -amount
  | .call (.crossWithdraw amount) => amount
  | _ => 0

/-- The fates of the pass an operation makes, if it makes one. -/
def Op.fates (ex : SimulatedTradeExecutor ε) (s : SimulatedTradeExecutorState) :
    Op → Option (Fates ε)
  | .call (.isolatedOrderClose id) => some (closeFates ex s.time (.single id))
  | .call .isolatedOrderCloseLongs => some (closeFates ex s.time (.side .buy))
  | .call .isolatedOrderCloseShorts => some (closeFates ex s.time (.side .sell))
  | .call .isolatedOrderCloseAll => some (closeFates ex s.time .all)
  | .candleUpdate candle => some (candleFates ex candle)
  | .applyFundingSettlement settlement => some (settleFates ex settlement)
  | _ => none

/-- The books of isolated trading: everything a pass or an order moves. -/
structure SameBooks (s s' : SimulatedTradeExecutorState) (flow : ℤ) : Prop where
  balance : s'.balance = s.balance + flow
  realizedPl : s'.realizedPl = s.realizedPl
  closedFees : s'.closedFees = s.closedFees
  fundingFees : s'.fundingFees = s.fundingFees

/-- The state after a pass has been committed. -/
structure Commits (ε : Type) (s s' : SimulatedTradeExecutorState) (acc : Pass) : Prop where
  balance : s'.balance = acc.balance
  trigger : s'.trigger = acc.trigger
  runningMap : s'.runningMap = acc.runningMap
  realizedPl : s'.realizedPl = acc.realizedPl
  closedFees : s'.closedFees = acc.closedFees
  fundingFees : s'.fundingFees = acc.fundingFees
  drawn : s'.drawn = s.drawn
  history : (addClosed s.closedHistory acc.closedTrades : ExecutorResult ε _) =
    .ok s'.closedHistory

inductive Effect (ex : SimulatedTradeExecutor ε) (s : SimulatedTradeExecutorState) (op : Op)
    (s' : SimulatedTradeExecutorState) : Prop
  | quiet (htrigger : s'.trigger = s.trigger) (hmap : s'.runningMap = s.runningMap)
      (hdrawn : s.drawn ≤ s'.drawn)
      (hbooks : Succeeds ex s op → SameBooks s s' (crossFlow op))
  | opened (request : IsolatedOrderRequest) (entry : RunningEntry) (trigger : PriceTrigger)
      (hop : op = .call (.isolatedOrder request))
      (hopen : ex.openTrade s request.side request.size request.leverage request.stoploss
        request.takeprofit = .ok entry)
      (htrigger : s.trigger.update ex.sdk ex.config.trailingStoplossStepSize entry.1 entry.2 =
        .ok trigger)
      (hs' : s' = { s with
        drawn := s.drawn + 1
        balance := s.balance
          - (entry.1.margin.asI64 + entry.1.maintenanceMargin + entry.1.openingFee)
        lastTradeTime := some entry.1.entryTime
        trigger
        runningMap := s.runningMap.add entry.1 entry.2 })
  | marginAdded (id : Uuid) (amount : ℕ) (key : TradeReference)
      (entry : RunningEntry) (trade : SimulatedTradeRunning)
      (hop : op = .call (.isolatedTradeAddMargin id amount))
      (hget : s.runningMap.getById id = some (key, entry))
      (hadd : entry.1.withAddedMargin ex.sdk amount = .ok trade)
      (hs' : s' = { writeTrade s key (trade, entry.2) with
        balance := s.balance - I64.ofU64 amount })
  | cashedIn (id : Uuid) (amount : ℕ) (key : TradeReference)
      (entry : RunningEntry) (trade : SimulatedTradeRunning)
      (hop : op = .call (.isolatedTradeCashIn id amount))
      (hget : s.runningMap.getById id = some (key, entry))
      (hcash : entry.1.withCashIn ex.sdk (ex.sdk.bounded s.marketPrice) amount = .ok trade)
      (hs' : s' = { writeTrade s key (trade, entry.2) with
        balance := s.balance + amount
        realizedPl := s.realizedPl + F64.roundI64 (entry.1.estPl ex.sdk trade.price) })
  | passed (fates : Fates ε) (acc : Pass) (lastTradeTime : Option ℤ)
      (hfates : op.fates ex s = some fates)
      (hpass : Passes ex fates s.runningMap.tradesDesc { startPass s with lastTradeTime } acc)
      (hcommit : Commits ε s s' acc)
  | interrupted (candle : OhlcCandleRow) (hop : op = .candleUpdate candle)
      (hs' : s' = { s with runningMap := { s.runningMap with
        trades := s.runningMap.trades.withValuesDesc
          (ex.candleWrites candle s.runningMap.tradesDesc) } })
      (hfail : ¬ Succeeds ex s op) (hloop : LoopFails ex s candle)

/-! ### Free passes -/

/-- A pass that charges no fee leaves the funding fees alone. -/
theorem Passes.fundingFees_eq {fates : Fates ε} {entries : List RunningEntry} {acc acc' : Pass}
    (hkeep : ∀ entry trade fee, fates.keeps entry trade fee → fee = 0)
    (hclose : ∀ entry closed fee, fates.closes entry closed fee → fee = 0)
    (h : Passes ex fates entries acc acc') : acc'.fundingFees = acc.fundingFees := by
  induction h with
  | nil acc => rfl
  | keep fee trigger hfate _ _ ih => rw [ih, hkeep _ _ _ hfate, add_zero]
  | close fee _ hfate _ ih => rw [ih, hclose _ _ _ hfate, add_zero]

theorem candlePass_fundingFees {candle : OhlcCandleRow} {entries : List RunningEntry}
    {acc acc' : Pass} (h : Passes ex (candleFates ex candle) entries acc acc') :
    acc'.fundingFees = acc.fundingFees := by
  apply h.fundingFees_eq
  · intro _ _ _ hk
    exact hk.1
  · intro _ _ _ hc
    exact hc.1

theorem closePass_fundingFees {time : ℤ} {close : Close} {entries : List RunningEntry}
    {acc acc' : Pass} (h : Passes ex (closeFates ex time close) entries acc acc') :
    acc'.fundingFees = acc.fundingFees := by
  apply h.fundingFees_eq
  · intro _ _ _ hk
    exact hk.1
  · intro _ _ _ hc
    exact hc.1

/-! ### The methods -/

theorem sameBooks_self : SameBooks s s 0 := ⟨by simp, rfl, rfl, rfl⟩

/-- A call that succeeds has a method that does. -/
theorem method_succeeds {α : Type} {c : Call} {wrap : α → Answer} {out : Outcome ε α}
    (hc : c.execute ex s = answer wrap out) (h : Succeeds ex s (.call c)) :
    ∃ x, out.2 = .ok x := by
  cases hr : out.2 with
  | error e => simp [Succeeds, Op.perform, hc, answer, hr, Except.map] at h
  | ok x => exact ⟨x, rfl⟩

theorem closeRunning_effect {op : Op} {close : Close}
    (hfates : op.fates ex s = some (closeFates ex s.time close))
    (hsuc : Succeeds ex s op → ∃ ids, (ex.closeRunning s close).2 = .ok ids) :
    Effect ex s op (ex.closeRunning s close).1 := by
  unfold closeRunning at hsuc ⊢
  cases hclose : ex.closePass s close with
  | error e =>
      rw [hclose] at hsuc
      exact .quiet rfl rfl le_rfl fun h => by simpa using hsuc h
  | ok closing =>
      obtain ⟨acc, history⟩ := closing
      simp only [closePass, bind_eq_ok, pure_eq_ok, Prod.mk.injEq] at hclose
      obtain ⟨price, -, acc, hloop, history, hhist, rfl, rfl⟩ := hclose
      have hpass := closeLoop_passes hloop
      exact .passed _ acc s.lastTradeTime hfates hpass
        ⟨rfl, rfl, rfl, rfl, rfl, (closePass_fundingFees hpass).symm, rfl, hhist⟩

theorem createRunning_effect (request : IsolatedOrderRequest)
    (hsuc : Succeeds ex s (.call (.isolatedOrder request)) →
      ∃ id, (ex.isolatedOrder s request).2 = .ok id) :
    Effect ex s (.call (.isolatedOrder request)) (ex.isolatedOrder s request).1 := by
  unfold isolatedOrder createRunning at hsuc ⊢
  cases hopen : ex.openTrade s request.side request.size request.leverage request.stoploss
      request.takeprofit with
  | error e =>
      rw [hopen] at hsuc
      exact .quiet rfl rfl le_rfl fun h => by simpa using hsuc h
  | ok entry =>
      obtain ⟨trade, tsl⟩ := entry
      simp only [hopen] at hsuc ⊢
      split_ifs at hsuc ⊢ with hbalance hlen
      · exact .quiet rfl rfl (Nat.le_succ _) fun h => by simpa using hsuc h
      · exact .quiet rfl rfl (Nat.le_succ _) fun h => by simpa using hsuc h
      · cases htrigger : s.trigger.update ex.sdk ex.config.trailingStoplossStepSize trade tsl with
        | error e =>
            simp only [htrigger] at hsuc
            exact .quiet rfl rfl (Nat.le_succ _) fun h => by simpa using hsuc h
        | ok trigger => exact .opened request (trade, tsl) trigger rfl hopen htrigger rfl

theorem addMargin_effect (id : Uuid) (amount : ℕ)
    (hsuc : Succeeds ex s (.call (.isolatedTradeAddMargin id amount)) →
      ∃ u, (ex.isolatedTradeAddMargin s id amount).2 = .ok u) :
    Effect ex s (.call (.isolatedTradeAddMargin id amount))
      (ex.isolatedTradeAddMargin s id amount).1 := by
  unfold isolatedTradeAddMargin at hsuc ⊢
  split_ifs at hsuc ⊢ with hbalance
  · exact .quiet rfl rfl le_rfl fun h => by simpa using hsuc h
  cases hget : s.runningMap.getById id with
  | none =>
      rw [hget] at hsuc
      exact .quiet rfl rfl le_rfl fun h => by simpa using hsuc h
  | some found =>
      obtain ⟨key, trade, tsl⟩ := found
      simp only [hget] at hsuc ⊢
      cases hadd : trade.withAddedMargin ex.sdk amount with
      | error e =>
          simp only [hadd] at hsuc
          exact .quiet rfl rfl le_rfl fun h => by simpa using hsuc h
      | ok trade' => exact .marginAdded id amount key (trade, tsl) trade' rfl hget hadd rfl

theorem cashIn_effect (id : Uuid) (amount : ℕ)
    (hsuc : Succeeds ex s (.call (.isolatedTradeCashIn id amount)) →
      ∃ u, (ex.isolatedTradeCashIn s id amount).2 = .ok u) :
    Effect ex s (.call (.isolatedTradeCashIn id amount))
      (ex.isolatedTradeCashIn s id amount).1 := by
  unfold isolatedTradeCashIn at hsuc ⊢
  cases hget : s.runningMap.getById id with
  | none =>
      rw [hget] at hsuc
      exact .quiet rfl rfl le_rfl fun h => by simpa using hsuc h
  | some found =>
      obtain ⟨key, trade, tsl⟩ := found
      simp only [hget] at hsuc ⊢
      cases hcash : trade.withCashIn ex.sdk (ex.sdk.bounded s.marketPrice) amount with
      | error e =>
          simp only [hcash] at hsuc
          exact .quiet rfl rfl le_rfl fun h => by simpa using hsuc h
      | ok trade' => exact .cashedIn id amount key (trade, tsl) trade' rfl hget hcash rfl

/-- A cross commit changes the balance and the cross position at most. -/
theorem crossCommit_spec (balance : ℤ) (pos : ExecutorResult ε SimulatedCrossPosition) :
    (ex.crossCommit s balance pos).1 = s ∧ (∀ p, (ex.crossCommit s balance pos).2 ≠ .ok p) ∨
      ∃ p, (ex.crossCommit s balance pos).1 = { s with balance, crossPosition := p } := by
  unfold crossCommit
  cases pos with
  | error e => exact Or.inl ⟨rfl, by simp⟩
  | ok p =>
      by_cases hc : p.isCoherent ex.sdk (ex.sdk.bounded s.marketPrice) = true
      · exact Or.inr ⟨p, by simp [hc]⟩
      · exact Or.inl (by simp [hc])

theorem crossCommit_effect {op : Op} (balance : ℤ)
    (pos : ExecutorResult ε SimulatedCrossPosition) (hflow : balance = s.balance + crossFlow op)
    (hsuc : Succeeds ex s op → ∃ p, (ex.crossCommit s balance pos).2 = .ok p) :
    Effect ex s op (ex.crossCommit s balance pos).1 := by
  rcases crossCommit_spec balance pos with ⟨hs, hfail⟩ | ⟨p, hs⟩
  · rw [hs]
    refine .quiet rfl rfl le_rfl fun h => ?_
    obtain ⟨q, hq⟩ := hsuc h
    exact absurd hq (hfail q)
  · rw [hs]
    exact .quiet rfl rfl le_rfl fun _ => ⟨hflow, rfl, rfl, rfl⟩

theorem crossDeposit_effect (amount : ℕ)
    (hsuc : Succeeds ex s (.call (.crossDeposit amount)) →
      ∃ p, (ex.crossDeposit s amount).2 = .ok p) :
    Effect ex s (.call (.crossDeposit amount)) (ex.crossDeposit s amount).1 := by
  unfold crossDeposit at hsuc ⊢
  cases ha : I64.tryFrom amount with
  | none =>
      rw [ha] at hsuc
      exact .quiet rfl rfl le_rfl fun h => by simpa using hsuc h
  | some a =>
      obtain rfl := I64.eq_of_tryFrom ha
      simp only [ha] at hsuc ⊢
      split_ifs at hsuc ⊢
      · exact .quiet rfl rfl le_rfl fun h => by simpa using hsuc h
      · exact crossCommit_effect _ _ (by simp [crossFlow, sub_eq_add_neg]) hsuc

theorem crossWithdraw_effect (amount : ℕ)
    (hsuc : Succeeds ex s (.call (.crossWithdraw amount)) →
      ∃ p, (ex.crossWithdraw s amount).2 = .ok p) :
    Effect ex s (.call (.crossWithdraw amount)) (ex.crossWithdraw s amount).1 := by
  unfold crossWithdraw at hsuc ⊢
  cases ha : I64.tryFrom amount with
  | none =>
      rw [ha] at hsuc
      exact .quiet rfl rfl le_rfl fun h => by simpa using hsuc h
  | some a =>
      obtain rfl := I64.eq_of_tryFrom ha
      simp only [ha] at hsuc ⊢
      split_ifs at hsuc ⊢
      · exact .quiet rfl rfl le_rfl fun h => by simpa using hsuc h
      · cases hb : I64.checkedAdd s.balance amount with
        | none =>
            rw [hb] at hsuc
            exact .quiet rfl rfl le_rfl fun h => by simpa using hsuc h
        | some b =>
            obtain rfl := I64.eq_of_checkedAdd hb
            simp only [hb] at hsuc ⊢
            exact crossCommit_effect _ _ rfl hsuc

theorem executeCrossOrder_effect (request : CrossOrderRequest)
    (hsuc : Succeeds ex s (.call (.crossOrder request)) →
      ∃ id, (ex.crossOrder s request).2 = .ok id) :
    Effect ex s (.call (.crossOrder request)) (ex.crossOrder s request).1 := by
  unfold crossOrder executeCrossOrder at hsuc ⊢
  cases hpos : ex.orderedPosition s request.side request.quantity with
  | error e =>
      rw [hpos] at hsuc
      exact .quiet rfl rfl le_rfl fun h => by simpa using hsuc h
  | ok p => exact .quiet rfl rfl (Nat.le_succ _) fun _ => ⟨by simp [crossFlow], rfl, rfl, rfl⟩

theorem crossOrderClosePosition_effect
    (hsuc : Succeeds ex s (.call .crossOrderClosePosition) →
      ∃ id, (ex.crossOrderClosePosition s).2 = .ok id) :
    Effect ex s (.call .crossOrderClosePosition) (ex.crossOrderClosePosition s).1 := by
  unfold crossOrderClosePosition at hsuc ⊢
  split_ifs at hsuc ⊢
  · exact .quiet rfl rfl le_rfl fun _ => sameBooks_self
  cases hpos : ex.closedPosition s with
  | error e =>
      rw [hpos] at hsuc
      exact .quiet rfl rfl le_rfl fun h => by simpa using hsuc h
  | ok p => exact .quiet rfl rfl (Nat.le_succ _) fun _ => ⟨by simp [crossFlow], rfl, rfl, rfl⟩

theorem call_effect (c : Call) : Effect ex s (.call c) (c.execute ex s).1 := by
  cases c with
  | isolatedOrder request =>
      exact createRunning_effect request (method_succeeds rfl)
  | isolatedTradeAddMargin id amount =>
      exact addMargin_effect id amount (method_succeeds rfl)
  | isolatedTradeCashIn id amount => exact cashIn_effect id amount (method_succeeds rfl)
  | isolatedOrderClose id => exact closeRunning_effect rfl (method_succeeds rfl)
  | isolatedOrderCloseLongs => exact closeRunning_effect rfl (method_succeeds rfl)
  | isolatedOrderCloseShorts => exact closeRunning_effect rfl (method_succeeds rfl)
  | isolatedOrderCloseAll => exact closeRunning_effect rfl (method_succeeds rfl)
  | crossDeposit amount => exact crossDeposit_effect amount (method_succeeds rfl)
  | crossWithdraw amount => exact crossWithdraw_effect amount (method_succeeds rfl)
  | crossSetLeverage leverage =>
      exact crossCommit_effect _ _ (by simp [crossFlow]) (method_succeeds rfl)
  | crossOrder request => exact executeCrossOrder_effect request (method_succeeds rfl)
  | crossOrderClosePosition => exact crossOrderClosePosition_effect (method_succeeds rfl)
  | tradingState => exact .quiet rfl rfl le_rfl fun _ => sameBooks_self

/-- A candle update that succeeds has settled the cross position, and made a pass over the
running trades where it reached the trigger. -/
theorem candleUpdate_eq_ok {candle : OhlcCandleRow}
    (h : ex.candleUpdate s candle = (s', .ok ())) :
    ∃ pos last, ex.crossAfterCandle s candle = .ok (pos, last) ∧
      ((s.trigger.wasReached candle.low = false ∧ s.trigger.wasReached candle.high = false ∧
        s' = { s with
          time := candle.time + Duration.seconds 59
          marketPrice := candle.close
          lastTradeTime := last
          crossPosition := pos }) ∨
      ((s.trigger.wasReached candle.low = true ∨ s.trigger.wasReached candle.high = true) ∧
        ∃ acc closedHistory,
          ex.candleLoop s candle { startPass s with lastTradeTime := last } = .ok acc ∧
          (addClosed s.closedHistory acc.closedTrades : ExecutorResult ε _) = .ok closedHistory ∧
          s' = { s with
            time := candle.time + Duration.seconds 59
            marketPrice := candle.close
            balance := acc.balance
            lastTradeTime := acc.lastTradeTime
            trigger := acc.trigger
            runningMap := acc.runningMap
            realizedPl := acc.realizedPl
            closedHistory
            closedFees := acc.closedFees
            crossPosition := pos })) := by
  by_cases htime : candle.time + Duration.seconds 59 < s.time
  · simp [candleUpdate, htime] at h
  simp only [candleUpdate, htime, if_false] at h
  cases hcross : ex.crossAfterCandle s candle with
  | error e => simp [hcross] at h
  | ok found =>
      obtain ⟨pos, last⟩ := found
      refine ⟨pos, last, rfl, ?_⟩
      simp only [hcross] at h
      split_ifs at h with hreach
      · simp only [Bool.and_eq_true, Bool.not_eq_true'] at hreach
        simp only [Prod.mk.injEq, and_true] at h
        exact Or.inl ⟨hreach.1, hreach.2, h.symm⟩
      · simp only [Bool.and_eq_true, Bool.not_eq_true', not_and_or, Bool.not_eq_false] at hreach
        refine Or.inr ⟨hreach, ?_⟩
        cases hloop : ex.candleLoop s candle { startPass s with lastTradeTime := last } with
        | error e => simp [hloop] at h
        | ok acc =>
            simp only [hloop] at h
            cases hhist : (addClosed s.closedHistory acc.closedTrades : ExecutorResult ε _) with
            | error e => simp [hhist] at h
            | ok history =>
                simp only [hhist, Prod.mk.injEq, and_true] at h
                exact ⟨acc, history, rfl, hhist, h.symm⟩

/-- A candle either leaves the running trades alone, its trigger not reached, or passes over
all of them. -/
theorem candleUpdate_cases {candle : OhlcCandleRow}
    (h : ex.candleUpdate s candle = (s', .ok ())) :
    (s.trigger.wasReached candle.low = false ∧ s.trigger.wasReached candle.high = false ∧
      ∃ pos last, s' = { s with
        time := candle.time + Duration.seconds 59
        marketPrice := candle.close
        lastTradeTime := last
        crossPosition := pos }) ∨
    ((s.trigger.wasReached candle.low = true ∨ s.trigger.wasReached candle.high = true) ∧
      ∃ acc last, Passes ex (candleFates ex candle) s.runningMap.tradesDesc
        { startPass s with lastTradeTime := last } acc ∧ Commits ε s s' acc) := by
  obtain ⟨pos, last, -, ⟨hlow, hhigh, rfl⟩ | ⟨hreach, acc, history, hloop, hhist, rfl⟩⟩ :=
    candleUpdate_eq_ok h
  · exact Or.inl ⟨hlow, hhigh, pos, last, rfl⟩
  · have hpass := candleLoop_passes hloop
    exact Or.inr ⟨hreach, acc, last, hpass, rfl, rfl, rfl, rfl, rfl,
      (candlePass_fundingFees hpass).symm, rfl, hhist⟩

/-- A candle update that fails has at most moved stoplosses. -/
theorem candleUpdate_failed {candle : OhlcCandleRow} (h : (ex.candleUpdate s candle).2 ≠ .ok ()) :
    (ex.candleUpdate s candle).1 = s ∨
      LoopFails ex s candle ∧ (ex.candleUpdate s candle).1 = { s with
        runningMap := { s.runningMap with
          trades := s.runningMap.trades.withValuesDesc
            (ex.candleWrites candle s.runningMap.tradesDesc) } } := by
  by_cases htime : candle.time + Duration.seconds 59 < s.time
  · simp [candleUpdate, htime]
  simp only [candleUpdate, htime, if_false] at h ⊢
  cases hcross : ex.crossAfterCandle s candle with
  | error e => exact Or.inl rfl
  | ok found =>
      obtain ⟨pos, last⟩ := found
      simp only [hcross] at h ⊢
      split_ifs at h ⊢ with hreach
      · exact absurd rfl h
      cases hloop : ex.candleLoop s candle { startPass s with lastTradeTime := last } with
      | error e =>
          refine Or.inr ⟨⟨not_lt.mp htime, ?_, ?_⟩, rfl⟩
          · rw [Bool.and_eq_true, not_and_or] at hreach
            simpa using hreach
          · simp only [hcross, hloop]
            rfl
      | ok acc =>
          simp only [hloop] at h ⊢
          cases hhist : (addClosed s.closedHistory acc.closedTrades : ExecutorResult ε _) with
          | error e => exact Or.inl rfl
          | ok history => simp [hhist] at h

theorem applyFundingSettlement_failed {settlement : FundingSettlementRow}
    (h : (ex.applyFundingSettlement s settlement).2 ≠ .ok ()) :
    ∃ closedHistory, (ex.applyFundingSettlement s settlement).1 = { s with closedHistory } := by
  unfold applyFundingSettlement at h ⊢
  split_ifs at h ⊢ with hidle
  · exact absurd rfl h
  cases hloop : s.runningMap.tradesDesc.foldlM (ex.settleTrade s settlement) (startPass s) with
  | error e => exact ⟨s.closedHistory, rfl⟩
  | ok acc =>
      simp only [hloop] at h ⊢
      cases hhist : (addClosed s.closedHistory acc.closedTrades : ExecutorResult ε _) with
      | error e => exact ⟨s.closedHistory, rfl⟩
      | ok history =>
          simp only [hhist] at h ⊢
          cases hcross : s.crossPosition.applyFundingSettlement ex.sdk s.marketPrice settlement
              ex.config.feePerc with
          | error e => exact ⟨history, rfl⟩
          | ok found => simp [hcross] at h

theorem applyFundingSettlement_cases {settlement : FundingSettlementRow}
    (h : ex.applyFundingSettlement s settlement = (s', .ok ())) :
    s' = s ∨ ∃ acc, Passes ex (settleFates ex settlement) s.runningMap.tradesDesc (startPass s)
      acc ∧ Commits ε s s' acc := by
  unfold applyFundingSettlement at h
  split_ifs at h with hidle
  · simp only [Prod.mk.injEq, and_true] at h
    exact Or.inl h.symm
  refine Or.inr ?_
  cases hloop : s.runningMap.tradesDesc.foldlM (ex.settleTrade s settlement) (startPass s) with
  | error e => simp [hloop] at h
  | ok acc =>
      simp only [hloop] at h
      cases hhist : (addClosed s.closedHistory acc.closedTrades : ExecutorResult ε _) with
      | error e => simp [hhist] at h
      | ok history =>
          simp only [hhist] at h
          cases hcross : s.crossPosition.applyFundingSettlement ex.sdk s.marketPrice settlement
              ex.config.feePerc with
          | error e => simp [hcross] at h
          | ok found =>
              obtain ⟨pos, fee, flattened⟩ := found
              simp only [hcross, Prod.mk.injEq, and_true] at h
              subst h
              exact ⟨acc, settleLoop_passes hloop, rfl, rfl, rfl, rfl, rfl, rfl, rfl, hhist⟩

theorem candleUpdate_effect (candle : OhlcCandleRow) :
    Effect ex s (.candleUpdate candle) (ex.candleUpdate s candle).1 := by
  by_cases hsuc : (ex.candleUpdate s candle).2 = .ok ()
  · have hout : ex.candleUpdate s candle = ((ex.candleUpdate s candle).1, .ok ()) :=
      Prod.ext rfl hsuc
    rcases candleUpdate_cases hout with
      ⟨-, -, pos, last, hs'⟩ | ⟨-, acc, last, hpass, hcommit⟩
    · rw [hs']
      exact .quiet rfl rfl le_rfl fun _ => ⟨by simp [crossFlow], rfl, rfl, rfl⟩
    · exact .passed _ acc last rfl hpass hcommit
  · rcases candleUpdate_failed hsuc with hs' | ⟨hloop, hs'⟩
    · exact .quiet (by rw [hs']) (by rw [hs']) (by rw [hs']) fun h => absurd h hsuc
    · exact .interrupted candle rfl hs' hsuc hloop

theorem applyFundingSettlement_effect (settlement : FundingSettlementRow) :
    Effect ex s (.applyFundingSettlement settlement)
      (ex.applyFundingSettlement s settlement).1 := by
  by_cases hsuc : (ex.applyFundingSettlement s settlement).2 = .ok ()
  · have hout : ex.applyFundingSettlement s settlement =
        ((ex.applyFundingSettlement s settlement).1, .ok ()) := Prod.ext rfl hsuc
    rcases applyFundingSettlement_cases hout with hs' | ⟨acc, hpass, hcommit⟩
    · rw [hs']
      exact .quiet rfl rfl le_rfl fun _ => sameBooks_self
    · exact .passed _ acc s.lastTradeTime rfl hpass hcommit
  · obtain ⟨history, hs'⟩ := applyFundingSettlement_failed hsuc
    rw [hs']
    exact .quiet rfl rfl le_rfl fun h => absurd h hsuc

theorem updateTime_effect (time : ℤ) :
    Effect ex s (.updateTime time) (updateTime s time : Outcome ε Unit).1 := by
  unfold updateTime
  split_ifs
  · exact .quiet rfl rfl le_rfl fun _ => sameBooks_self
  · exact .quiet rfl rfl le_rfl fun _ => ⟨by simp [crossFlow], rfl, rfl, rfl⟩

theorem Op.effect (op : Op) : Effect ex s op (op.perform ex s).1 := by
  cases op with
  | call c => exact call_effect c
  | candleUpdate candle => exact candleUpdate_effect candle
  | applyFundingSettlement settlement => exact applyFundingSettlement_effect settlement
  | updateTime time => exact updateTime_effect time

end Quantoxide.Executor
