import Quantoxide.Verification.Executor.Atomicity

/-! # Overdrafts

An order is checked against its margin and the fees it reserves, and pays its opening fee
once more. Margin and deposits are checked against what they take. -/

namespace Quantoxide.Executor

open Result SimulatedTradeExecutor Runs

variable {ε : Type} {ex : SimulatedTradeExecutor ε} {s : SimulatedTradeExecutorState}

/-- An order or a transfer between the balance and a margin. -/
def spends : Call → Bool
  | .isolatedOrder _ => true
  | .isolatedTradeAddMargin _ _ => true
  | .crossDeposit _ => true
  | .crossWithdraw _ => true
  | _ => false

/-- An order below the cap whose balance covers its margin and reserved fees, but not the
opening fee on top of them. -/
def Overdraws (ex : SimulatedTradeExecutor ε) (s : SimulatedTradeExecutorState) : Call → Prop
  | .isolatedOrder request =>
    ∃ trade tsl, ex.openTrade s request.side request.size request.leverage request.stoploss
        request.takeprofit = .ok (trade, tsl) ∧
      trade.margin.asI64 + trade.maintenanceMargin ≤ s.balance ∧
      s.balance < trade.margin.asI64 + trade.maintenanceMargin + trade.openingFee ∧
      s.runningMap.len < ex.config.tradeMaxRunningQtd ∧ HasBounds ex (trade, tsl)
  | _ => False

theorem isolatedOrder_overdraws_iff (request : IsolatedOrderRequest) :
    (0 ≤ s.balance → (∃ id, (ex.isolatedOrder s request).2 = .ok id) →
      0 ≤ (ex.isolatedOrder s request).1.balance) ↔
        ¬ Overdraws ex s (.isolatedOrder request) := by
  constructor
  · rintro hcovered ⟨trade, tsl, hopen, hbalance, hfee, hroom, hbounds⟩
    rcases isolatedOrder_paid hopen hbalance hroom with ⟨-, trigger, hout⟩ | ⟨hno, -⟩
    · have hmargin : 0 ≤ trade.margin.asI64 := Int.natCast_nonneg _
      have hreserve : 0 ≤ trade.maintenanceMargin := by
        unfold SimulatedTradeRunning.maintenanceMargin
        omega
      have hafter := hcovered (by omega) ⟨trade.id, by rw [hout]⟩
      rw [hout] at hafter
      simp only [paid] at hafter
      omega
    · exact hno hbounds
  · rintro hcovers - ⟨id, hok⟩
    rcases isolatedOrder_cases ex s request with
      ⟨drawn, e, hout⟩ | ⟨trade, tsl, hopen, hbalance, hroom⟩
    · simp [hout] at hok
    · rcases isolatedOrder_paid hopen hbalance hroom with ⟨hbounds, trigger, hout⟩ | ⟨-, e, hout⟩
      · have hfee : ¬ s.balance <
            trade.margin.asI64 + trade.maintenanceMargin + trade.openingFee := fun hlt =>
          hcovers ⟨trade, tsl, hopen, hbalance, hlt, hroom, hbounds⟩
        rw [hout]
        simp only [paid]
        omega
      · simp [hout] at hok

/-! ### Transfers -/

theorem addMargin_covered (id : Uuid) (amount : ℕ) (h : 0 ≤ s.balance) :
    0 ≤ (ex.isolatedTradeAddMargin s id amount).1.balance := by
  unfold isolatedTradeAddMargin
  split_ifs with hlow
  · exact h
  · split
    · exact h
    · split
      · exact h
      · simp only
        omega

/-- A cross commit leaves the balance or sets the new one. -/
theorem crossCommit_covered {balance : ℤ} (pos : ExecutorResult ε SimulatedCrossPosition)
    (h : 0 ≤ s.balance) (hnew : 0 ≤ balance) : 0 ≤ (ex.crossCommit s balance pos).1.balance := by
  rcases crossCommit_spec balance pos with ⟨hs, -⟩ | ⟨p, hs⟩
  · rw [hs]
    exact h
  · rw [hs]
    exact hnew

theorem crossDeposit_covered (amount : ℕ) (h : 0 ≤ s.balance) :
    0 ≤ (ex.crossDeposit s amount).1.balance := by
  unfold crossDeposit
  cases I64.tryFrom amount with
  | none => exact h
  | some amountI64 =>
      simp only
      split_ifs with hlow
      · exact h
      · exact crossCommit_covered _ h (by omega)

theorem crossWithdraw_covered (amount : ℕ) (h : 0 ≤ s.balance) :
    0 ≤ (ex.crossWithdraw s amount).1.balance := by
  unfold crossWithdraw
  cases hamount : I64.tryFrom amount with
  | none => exact h
  | some amountI64 =>
      simp only
      split_ifs with hfree
      · exact h
      · cases hsum : I64.checkedAdd s.balance amountI64 with
        | none => exact h
        | some balance =>
            have hi64 := I64.eq_of_tryFrom hamount
            have hbalance := I64.eq_of_checkedAdd hsum
            exact crossCommit_covered _ h (by omega)

/-- An order or transfer that succeeds leaves a balance that was not negative so, unless it is
an order that the balance covers short of its opening fee. -/
theorem spending_never_overdraws_iff {c : Call} (hc : spends c = true) :
    (0 ≤ s.balance → Succeeds ex s (.call c) → 0 ≤ (c.execute ex s).1.balance) ↔
      ¬ Overdraws ex s c := by
  cases c with
  | isolatedOrder request =>
      rw [← isolatedOrder_overdraws_iff]
      have hsuc : Succeeds ex s (.call (.isolatedOrder request)) ↔
          ∃ id, (ex.isolatedOrder s request).2 = .ok id := by
        constructor
        · exact method_succeeds rfl
        · rintro ⟨id, hid⟩
          simp only [Succeeds, Op.perform, Call.execute, answer, hid]
          rfl
      rw [hsuc]
      rfl
  | isolatedTradeAddMargin id amount =>
      exact iff_of_true (fun h _ => addMargin_covered id amount h) not_false
  | crossDeposit amount => exact iff_of_true (fun h _ => crossDeposit_covered amount h) not_false
  | crossWithdraw amount => exact iff_of_true (fun h _ => crossWithdraw_covered amount h) not_false
  | _ => simp [spends] at hc

/-- A long of 1000 dollars at leverage ten. -/
def coveredOrder : IsolatedOrderRequest := longOrder 1000 10 none

/-- An executor with its margin and reserved fees, and its opening fee on top. -/
def coveredStart : SimulatedTradeExecutorState :=
  referenceExecutor.new (minuteCandle 0 100000 100000 100000 100000) 103100

theorem spending_never_overdraws_order :
    Succeeds referenceExecutor coveredStart (.call (.isolatedOrder coveredOrder)) ∧
      0 ≤ ((Call.isolatedOrder coveredOrder).execute referenceExecutor coveredStart).1.balance := by
  have hsuc : Succeeds referenceExecutor coveredStart (.call (.isolatedOrder coveredOrder)) := by
    decide +kernel
  have hcovers : ¬ Overdraws referenceExecutor coveredStart (.isolatedOrder coveredOrder) := by
    rintro ⟨trade, tsl, hopen, -, hfee, -⟩
    have hcost : (referenceExecutor.openTrade coveredStart coveredOrder.side coveredOrder.size
        coveredOrder.leverage coveredOrder.stoploss coveredOrder.takeprofit).toOption.map
          (fun e => e.1.margin.asI64 + e.1.maintenanceMargin + (e.1.openingFee : ℤ)) =
        some coveredStart.balance := by
      decide +kernel
    rw [hopen] at hcost
    exact absurd (Option.some.inj hcost) hfee.ne'
  exact ⟨hsuc, (spending_never_overdraws_iff rfl).mpr hcovers (by decide +kernel) hsuc⟩

/-- The same executor without the opening fee. -/
def exactStart : SimulatedTradeExecutorState :=
  referenceExecutor.new (minuteCandle 0 100000 100000 100000 100000) 102100

theorem order_overdraws :
    (system referenceExecutor).start exactStart ∧ 0 ≤ exactStart.balance ∧
      Succeeds referenceExecutor exactStart (.call (.isolatedOrder coveredOrder)) ∧
      ((Call.isolatedOrder coveredOrder).execute referenceExecutor exactStart).1.balance < 0 :=
  ⟨⟨_, _, rfl⟩, by decide +kernel⟩

end Quantoxide.Executor
