import Quantoxide.Verification.CrossPosition.Coherence
import Quantoxide.Verification.Executor.Invariants

/-! # Coherence of the executor's cross position

Deposits, withdrawals and leverage changes commit a position only when it is coherent at the
market price. Orders do not look. -/

namespace Quantoxide.Executor

open Result SimulatedTradeExecutor CrossPosition

variable {ε : Type} {ex : SimulatedTradeExecutor ε} {s : SimulatedTradeExecutorState} {tick : ℚ}

/-- The cross position is neutral or coherent at the market price. -/
def CoherentAtMarket (ex : SimulatedTradeExecutor ε) (s : SimulatedTradeExecutorState) : Prop :=
  s.crossPosition.isCoherent ex.sdk (ex.sdk.bounded s.marketPrice) = true

instance : Decidable (CoherentAtMarket ex s) := inferInstanceAs (Decidable (_ = _))

/-- The operator's cross actions. -/
inductive CrossAction : Op → Prop
  | deposit (amount : ℕ) : CrossAction (.call (.crossDeposit amount))
  | withdraw (amount : ℕ) : CrossAction (.call (.crossWithdraw amount))
  | setLeverage (leverage : CrossLeverage) : CrossAction (.call (.crossSetLeverage leverage))
  | order (request : CrossOrderRequest) : CrossAction (.call (.crossOrder request))

/-- When an action leaves a coherent position, told within a tick of the market price. -/
def KeepsCoherent (ex : SimulatedTradeExecutor ε) (tick : ℚ) (s : SimulatedTradeExecutorState) :
    Op → Prop
  | .call (.crossOrder request) =>
    OrderCoherent ex.sdk tick ex.config.feePerc (ex.sdk.bounded s.marketPrice) request.side
      request.quantity s.crossPosition
  | _ => True

/-- The type of an entry price promises a price. -/
def ValidEntry (sdk : LnmSdk ε) (pos : SimulatedCrossPosition) : Prop :=
  ∀ e, pos.exposure = .running e → IsPrice sdk e.entryPrice

/-- What is committed is coherent. -/
theorem crossCommit_coherent {balance : ℤ} {pos : ExecutorResult ε SimulatedCrossPosition}
    {p : SimulatedCrossPosition} (h : (ex.crossCommit s balance pos).2 = .ok p) :
    CoherentAtMarket ex (ex.crossCommit s balance pos).1 := by
  unfold crossCommit at h ⊢
  cases pos with
  | error e => cases h
  | ok q =>
      by_cases hc : q.isCoherent ex.sdk (ex.sdk.bounded s.marketPrice) = true
      · simp only [hc, Bool.not_true, Bool.false_eq_true, if_false]
        exact hc
      · simp [hc] at h

theorem crossDeposit_coherent {amount : ℕ} {p : SimulatedCrossPosition}
    (h : (ex.crossDeposit s amount).2 = .ok p) :
    CoherentAtMarket ex (ex.crossDeposit s amount).1 := by
  unfold crossDeposit at h ⊢
  cases ha : I64.tryFrom amount with
  | none => simp [ha] at h
  | some a =>
      simp only [ha] at h ⊢
      split_ifs at h ⊢
      exact crossCommit_coherent h

theorem crossWithdraw_coherent {amount : ℕ} {p : SimulatedCrossPosition}
    (h : (ex.crossWithdraw s amount).2 = .ok p) :
    CoherentAtMarket ex (ex.crossWithdraw s amount).1 := by
  unfold crossWithdraw at h ⊢
  cases ha : I64.tryFrom amount with
  | none => simp [ha] at h
  | some a =>
      simp only [ha] at h ⊢
      split_ifs at h ⊢
      cases hb : I64.checkedAdd s.balance a with
      | none => simp [hb] at h
      | some b =>
          simp only [hb] at h ⊢
          exact crossCommit_coherent h

theorem crossOrder_coherent_within {request : CrossOrderRequest} {id : Uuid}
    (hl : CoherenceLaws ex.sdk tick) (hv : ValidEntry ex.sdk s.crossPosition)
    (h : (ex.crossOrder s request).2 = .ok id) :
    (KeepsCoherent ex tick s (.call (.crossOrder request)) →
      CoherentAtMarket ex (ex.crossOrder s request).1) ∧
    (CoherentAtMarket ex (ex.crossOrder s request).1 →
      KeepsCoherent ex (-tick) s (.call (.crossOrder request))) := by
  unfold crossOrder executeCrossOrder at h ⊢
  cases hordered : ex.orderedPosition s request.side request.quantity with
  | error e => simp [hordered] at h
  | ok p =>
      simp only [orderedPosition, bind_eq_ok, mapError_eq_ok] at hordered
      obtain ⟨marketPrice, hround, horder⟩ := hordered
      obtain rfl := hl.prices.round hround
      exact order_coherent_within hl hv (hl.prices.bounded _) horder

/-- A cross action that succeeds leaves a coherent position when it is no order that leaves less
margin than the loss of its exposure, and only then, up to a tick of the market price. -/
theorem cross_action_coherent_within (ex : SimulatedTradeExecutor ε) (tick : ℚ)
    (s : SimulatedTradeExecutorState) (op : Op) (hl : CoherenceLaws ex.sdk tick)
    (hv : ValidEntry ex.sdk s.crossPosition) (hop : CrossAction op) (hsuc : Succeeds ex s op) :
    (KeepsCoherent ex tick s op → CoherentAtMarket ex (op.perform ex s).1) ∧
      (CoherentAtMarket ex (op.perform ex s).1 → KeepsCoherent ex (-tick) s op) := by
  cases hop with
  | deposit amount =>
      obtain ⟨p, hp⟩ := method_succeeds rfl hsuc
      exact ⟨fun _ => crossDeposit_coherent hp, fun _ => trivial⟩
  | withdraw amount =>
      obtain ⟨p, hp⟩ := method_succeeds rfl hsuc
      exact ⟨fun _ => crossWithdraw_coherent hp, fun _ => trivial⟩
  | setLeverage leverage =>
      obtain ⟨p, hp⟩ := method_succeeds rfl hsuc
      exact ⟨fun _ => crossCommit_coherent hp, fun _ => trivial⟩
  | order request =>
      obtain ⟨id, hid⟩ := method_succeeds rfl hsuc
      exact crossOrder_coherent_within hl hv hid

/-! ### An increase that carries too much -/

def collateralExecutor : SimulatedTradeExecutor Refusal where
  config := ⟨50, ReferenceSdk.tenthPercent, ReferenceSdk.tenthPercent⟩
  sdk := collateralSdk.toLnmSdk
  newV4 n := ⟨n⟩

theorem coherenceLaws : CoherenceLaws collateralSdk.toLnmSdk ReferenceSdk.halfTick :=
  ⟨ReferenceSdk.crossMargins, ReferenceSdk.priceResults, ReferenceSdk.priceRange,
    ReferenceSdk.solvency⟩

def crossBuy (quantity : ℕ) : Op := .call (.crossOrder ⟨.buy, ⟨quantity⟩⟩)

/-- A long of 1000 dollars at 100000 with a margin of 100000 satoshis, and a fall to 91200,
just above its liquidation. -/
def fallenOps : List Op :=
  [.call (.crossDeposit 100000), .call (.crossSetLeverage ⟨100⟩), crossBuy 1000,
    .candleUpdate (minuteCandle 1 100000 100000 91200 91200)]

def fallenState : SimulatedTradeExecutorState :=
  performAll collateralExecutor
    (collateralExecutor.new (minuteCandle 0 100000 100000 100000 100000) 10000000) fallenOps

theorem fallen_valid : ValidEntry collateralSdk.toLnmSdk fallenState.crossPosition := by
  intro e he
  have hexposure : (fallenState.crossPosition.exposure.asRunningParams.map
      fun params => params.2.2) = some (ReferenceSdk.price 100000) := by
    decide +kernel
  rw [he] at hexposure
  have hprice : e.entryPrice = ReferenceSdk.price 100000 := by
    simpa [CrossExposure.asRunningParams] using hexposure
  rw [hprice]
  decide +kernel

theorem cross_action_coherent_within_small :
    (KeepsCoherent collateralExecutor ReferenceSdk.halfTick fallenState (crossBuy 100) →
      CoherentAtMarket collateralExecutor
        ((crossBuy 100).perform collateralExecutor fallenState).1) ∧
    (CoherentAtMarket collateralExecutor
        ((crossBuy 100).perform collateralExecutor fallenState).1 →
      KeepsCoherent collateralExecutor (-ReferenceSdk.halfTick) fallenState (crossBuy 100)) :=
  cross_action_coherent_within collateralExecutor ReferenceSdk.halfTick fallenState (crossBuy 100)
    coherenceLaws fallen_valid (.order _) (by decide +kernel)

/-- Half as much again is accepted, and the position is beyond its liquidation. -/
theorem increase_leaves_incoherent :
    (system collateralExecutor).Run fallenOps fallenState ∧
      CoherentAtMarket collateralExecutor fallenState ∧
      Succeeds collateralExecutor fallenState (crossBuy 500) ∧
      ¬ CoherentAtMarket collateralExecutor
        ((crossBuy 500).perform collateralExecutor fallenState).1 := by
  have hrun : (system collateralExecutor).Run fallenOps fallenState :=
    performAll_run ⟨_, _, rfl⟩ (fun _ _ (_ : True) => rfl)
      ⟨trivial, trivial, trivial, trivial, trivial⟩
  exact ⟨hrun, by decide +kernel⟩

end Quantoxide.Executor
