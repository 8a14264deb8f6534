import Quantoxide.Verification.Executor.Clock

/-! # Failures of the clock

Only the two checks of the time fail with `TimeSequenceViolation`: a candle or a time report
that is earlier than the executor's time. -/

namespace Quantoxide

variable {ε : Type}

/-- The new and the current time of a `TimeSequenceViolation`. -/
def SimulatedTradeExecutorError.timeViolation : SimulatedTradeExecutorError ε → Option (ℤ × ℤ)
  | .timeSequenceViolation newTime currentTime => some (newTime, currentTime)
  | _ => none

namespace Executor

open Result SimulatedTradeExecutor

variable {ex : SimulatedTradeExecutor ε} {s : SimulatedTradeExecutorState} {α : Type}

/-- The computation does not fail with `TimeSequenceViolation`. -/
abbrev InTime (x : ExecutorResult ε α) : Prop := FailsOnly (fun e => e.timeViolation = none) x

theorem okOr_inTime {o : Option α} {e : SimulatedTradeExecutorError ε}
    (h : e.timeViolation = none) : InTime (okOr o e) := failsOnly_okOr h

theorem mapError_inTime {β : Type} {x : Except β α} {wrap : β → SimulatedTradeExecutorError ε}
    (h : ∀ e, (wrap e).timeViolation = none) : InTime (x.mapError wrap) := failsOnly_mapError h

/-! ### The cross position -/

section Cross

variable {sdk : LnmSdk ε} {pos : SimulatedCrossPosition}

theorem new_inTime {margin : ℕ} {leverage : CrossLeverage}
    {running : Option (TradeSide × Quantity × Price)} {fees : ℕ} {funding pl : ℤ} :
    InTime (SimulatedCrossPosition.new sdk margin leverage running fees funding pl) :=
  (mapError_inTime fun _ => rfl).bind fun _ _ => failsOnly_ok

theorem applyAmountToMargin_inTime {margin : ℕ} {amount : ℤ} :
    InTime (SimulatedCrossPosition.applyAmountToMargin margin amount : ExecutorResult ε ℕ) := by
  unfold SimulatedCrossPosition.applyAmountToMargin
  split_ifs
  · exact failsOnly_ok
  · exact okOr_inTime rfl

theorem close_inTime {price : Price} {feePerc : PercentageCapped} :
    InTime (pos.close sdk price feePerc) := by
  unfold SimulatedCrossPosition.close
  cases pos.exposure with
  | neutral => exact failsOnly_ok
  | running exposure =>
      apply (okOr_inTime rfl).bind
      intro fee _
      apply (okOr_inTime rfl).bind
      intro delta _
      apply applyAmountToMargin_inTime.bind
      intro margin _
      apply (okOr_inTime rfl).bind
      intro fees _
      exact (okOr_inTime rfl).bind fun _ _ => new_inTime

theorem forceClose_inTime {price : Price} {feePerc : PercentageCapped} {fee fees : ℤ} :
    InTime (pos.forceClose sdk price feePerc fee fees) := by
  apply close_inTime.bind
  intro closed _
  apply (okOr_inTime rfl).bind
  intro amount _
  apply applyAmountToMargin_inTime.bind
  intro margin _
  exact new_inTime.bind fun _ _ => failsOnly_ok

theorem crossSettlement_inTime {price : F64} {row : FundingSettlementRow}
    {feePerc : PercentageCapped} :
    InTime (pos.applyFundingSettlement sdk price row feePerc) := by
  unfold SimulatedCrossPosition.applyFundingSettlement
  cases pos.exposure with
  | neutral => exact failsOnly_ok
  | running exposure =>
      apply (okOr_inTime rfl).bind
      intro fees _
      split_ifs
      · exact forceClose_inTime
      · apply (okOr_inTime rfl).bind
        intro amount _
        apply applyAmountToMargin_inTime.bind
        intro margin _
        split
        · exact forceClose_inTime
        · rename_i e _ hnew
          exact failsOnly_error (new_inTime e hnew)
        · split_ifs
          · exact failsOnly_ok
          · exact forceClose_inTime

end Cross

/-! ### Passes -/

theorem keepRunning_inTime {acc : Pass} {trade : SimulatedTradeRunning}
    {tsl : Option TradeTrailingStoploss} : InTime (ex.keepRunning acc trade tsl) :=
  (mapError_inTime fun _ => rfl).bind fun _ _ => failsOnly_ok

theorem addClosed_inTime {history : ClosedTradeHistory} {closed : List SimulatedTradeClosed} :
    InTime (addClosed history closed : ExecutorResult ε _) :=
  FailsOnly.foldlM (fun _ _ => mapError_inTime fun _ => rfl) closed history

theorem trailedStoploss_inTime {candle : OhlcCandleRow} {side : TradeSide}
    {tsl : TradeTrailingStoploss} {nextTrigger marketPrice : Price} :
    InTime (ex.trailedStoploss candle side tsl nextTrigger marketPrice) := by
  cases side with
  | buy =>
      apply (mapError_inTime fun _ => rfl).bind
      intro highest _
      split_ifs
      · exact (mapError_inTime fun _ => rfl).bind fun _ _ => failsOnly_ok
      · exact failsOnly_ok
  | sell =>
      apply (mapError_inTime fun _ => rfl).bind
      intro lowest _
      split_ifs
      · exact (mapError_inTime fun _ => rfl).bind fun _ _ => failsOnly_ok
      · exact failsOnly_ok

theorem trailStoploss_inTime {candle : OhlcCandleRow} {trade : SimulatedTradeRunning}
    {tsl : Option TradeTrailingStoploss} : InTime (ex.trailStoploss candle trade tsl) := by
  cases tsl with
  | none => exact failsOnly_ok
  | some tsl =>
      apply (mapError_inTime fun _ => rfl).bind
      intro nextTrigger _
      apply (mapError_inTime fun _ => rfl).bind
      intro marketPrice _
      apply trailedStoploss_inTime.bind
      intro moved _
      cases moved with
      | none => exact failsOnly_ok
      | some stoploss => exact (mapError_inTime fun _ => rfl).bind fun _ _ => failsOnly_ok

theorem candleTrade_inTime {candle : OhlcCandleRow} {acc : Pass} {entry : RunningEntry} :
    InTime (ex.candleTrade candle acc entry) := by
  unfold candleTrade
  simp only
  split
  · exact failsOnly_ok
  · exact trailStoploss_inTime.bind fun _ _ => keepRunning_inTime

theorem settleTrade_inTime {row : FundingSettlementRow} {acc : Pass} {entry : RunningEntry} :
    InTime (ex.settleTrade s row acc entry) := by
  have htrade : InTime (entry.1.applyFundingSettlement ex.sdk row) := by
    unfold SimulatedTradeRunning.applyFundingSettlement
    simp only
    split_ifs
    · exact failsOnly_ok
    · cases ex.sdk.marginTrySub entry.1.margin (row.fundingFee entry.1.side entry.1.quantity) with
      | error e => exact failsOnly_ok
      | ok margin =>
          simp only
          split
          · exact failsOnly_ok
          · exact failsOnly_ok
          · exact failsOnly_ok
          · exact failsOnly_error rfl
          · exact failsOnly_error rfl
  apply htrade.bind
  intro settled _
  obtain ⟨updated, fee⟩ := settled
  cases updated with
  | none => exact (mapError_inTime fun _ => rfl).bind fun _ _ => failsOnly_ok
  | some trade => exact keepRunning_inTime

/-! ### The engine's steps -/

theorem applyFundingSettlement_inTime (row : FundingSettlementRow) :
    InTime (ex.applyFundingSettlement s row).2 := by
  unfold applyFundingSettlement
  split_ifs
  · exact failsOnly_ok
  · have hloop : InTime (s.runningMap.tradesDesc.foldlM (ex.settleTrade s row) (startPass s)) :=
      FailsOnly.foldlM (fun _ _ => settleTrade_inTime) _ _
    cases hpass : s.runningMap.tradesDesc.foldlM (ex.settleTrade s row) (startPass s) with
    | error e => exact failsOnly_error (hloop e hpass)
    | ok acc =>
        simp only
        cases hadd : (addClosed s.closedHistory acc.closedTrades : ExecutorResult ε _) with
        | error e => exact failsOnly_error (addClosed_inTime e hadd)
        | ok history =>
            simp only
            cases hcross : s.crossPosition.applyFundingSettlement ex.sdk s.marketPrice row
                ex.config.feePerc with
            | error e => exact failsOnly_error (crossSettlement_inTime e hcross)
            | ok found => exact failsOnly_ok

/-- A candle that does not end before the executor's time. -/
theorem candleUpdate_inTime {candle : OhlcCandleRow}
    (h : s.time ≤ candle.time + Duration.seconds 59) : InTime (ex.candleUpdate s candle).2 := by
  simp only [candleUpdate, if_neg (not_lt.mpr h)]
  have hcross : InTime (ex.crossAfterCandle s candle) := by
    unfold crossAfterCandle SimulatedCrossPosition.liquidate
    split_ifs
    · cases s.crossPosition.exposure with
      | neutral => exact failsOnly_ok
      | running exposure => exact close_inTime.map
    · exact failsOnly_ok
  cases hfound : ex.crossAfterCandle s candle with
  | error e => exact failsOnly_error (hcross e hfound)
  | ok found =>
      obtain ⟨position, lastTradeTime⟩ := found
      simp only
      split_ifs
      · exact failsOnly_ok
      · have hloop : InTime (ex.candleLoop s candle { startPass s with lastTradeTime }) :=
          FailsOnly.foldlM (fun _ _ => candleTrade_inTime) _ _
        cases hpass : ex.candleLoop s candle { startPass s with lastTradeTime } with
        | error e => exact failsOnly_error (hloop e hpass)
        | ok acc =>
            simp only
            cases hadd : (addClosed s.closedHistory acc.closedTrades : ExecutorResult ε _) with
            | error e => exact failsOnly_error (addClosed_inTime e hadd)
            | ok history => exact failsOnly_ok

/-- A settlement leaves the time. -/
theorem applyFundingSettlement_time (row : FundingSettlementRow) :
    (ex.applyFundingSettlement s row).1.time = s.time := by
  unfold applyFundingSettlement
  split_ifs
  · rfl
  · cases s.runningMap.tradesDesc.foldlM (ex.settleTrade s row) (startPass s) with
    | error e => rfl
    | ok acc =>
        simp only
        cases (addClosed s.closedHistory acc.closedTrades : ExecutorResult ε _) with
        | error e => rfl
        | ok history =>
            simp only
            cases s.crossPosition.applyFundingSettlement ex.sdk s.marketPrice row
                ex.config.feePerc <;> rfl

end Executor

end Quantoxide
