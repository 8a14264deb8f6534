import Mathlib.Data.List.Nodup
import Quantoxide.Model.Executor

/-! # Passes over the running trades

The three loops of the executor rebuild the trigger and the map of running trades from
nothing. Each gives every trade one fate: it is kept, possibly changed and charged a fee,
or it is closed. What holds of a pass follows from its fates. -/

namespace Quantoxide.Executor

open Result SimulatedTradeExecutor

variable {ε : Type} {ex : SimulatedTradeExecutor ε}

/-- What a loop may do with an entry, with the fee it charges. -/
structure Fates (ε : Type) where
  keeps : RunningEntry → SimulatedTradeRunning → ℤ → Prop
  closes : RunningEntry → SimulatedTradeClosed → ℤ → Prop

/-- A pass over a list of entries, from the variables `acc` to the last ones. -/
inductive Passes (ex : SimulatedTradeExecutor ε) (fates : Fates ε) :
    List RunningEntry → Pass → Pass → Prop
  | nil (acc : Pass) : Passes ex fates [] acc acc
  | keep {entry : RunningEntry} {trade : SimulatedTradeRunning} {rest : List RunningEntry}
      {acc acc' : Pass} (fee : ℤ) (trigger : PriceTrigger)
      (hfate : fates.keeps entry trade fee)
      (htrigger : acc.trigger.update ex.sdk ex.config.trailingStoplossStepSize trade entry.2 =
        .ok trigger)
      (hrest : Passes ex fates rest
        { acc with
          balance := acc.balance + max (-fee) 0
          fundingFees := acc.fundingFees + fee
          trigger
          runningMap := acc.runningMap.add trade entry.2 } acc') :
      Passes ex fates (entry :: rest) acc acc'
  | close {entry : RunningEntry} {closed : SimulatedTradeClosed} {rest : List RunningEntry}
      {acc acc' : Pass} (fee : ℤ) (lastTradeTime : Option ℤ)
      (hfate : fates.closes entry closed fee)
      (hrest : Passes ex fates rest
        { ex.bookClosed acc closed with
          balance := (ex.bookClosed acc closed).balance - fee
          fundingFees := acc.fundingFees + fee
          lastTradeTime } acc') :
      Passes ex fates (entry :: rest) acc acc'

/-! ### The loops are passes -/

def candleFates (ex : SimulatedTradeExecutor ε) (candle : OhlcCandleRow) : Fates ε where
  keeps entry trade fee := fee = 0 ∧ candleExit candle entry.1 = none ∧
    ex.trailStoploss candle entry.1 entry.2 = .ok trade
  closes entry closed fee := fee = 0 ∧ ∃ price, candleExit candle entry.1 = some price ∧
    closed = entry.1.toClosed ex.sdk ex.config.feePerc candle.time price

def settleFates (ex : SimulatedTradeExecutor ε) (settlement : FundingSettlementRow) :
    Fates ε where
  keeps entry trade fee := entry.1.applyFundingSettlement ex.sdk settlement = .ok (some trade, fee)
  closes entry closed fee := entry.1.applyFundingSettlement ex.sdk settlement = .ok (none, fee) ∧
    ∃ price, closed = entry.1.toClosed ex.sdk ex.config.feePerc settlement.time price

def closeFates (ex : SimulatedTradeExecutor ε) (time : ℤ) (close : Close) : Fates ε where
  keeps entry trade fee := fee = 0 ∧ close.selects entry.1 = false ∧ trade = entry.1
  closes entry closed fee := fee = 0 ∧ close.selects entry.1 = true ∧
    ∃ price, closed = entry.1.toClosed ex.sdk ex.config.feePerc time price

theorem keepRunning_eq_ok {acc acc' : Pass} {trade : SimulatedTradeRunning}
    {tsl : Option TradeTrailingStoploss} : ex.keepRunning acc trade tsl = .ok acc' ↔
      ∃ trigger, acc.trigger.update ex.sdk ex.config.trailingStoplossStepSize trade tsl =
        .ok trigger ∧ acc' = { acc with trigger, runningMap := acc.runningMap.add trade tsl } := by
  simp only [keepRunning, bind_eq_ok, mapError_eq_ok, pure_eq_ok, @eq_comm _ _ acc']

/-- A fold of a loop body is a pass when each call of the body begins one. -/
theorem passes_of_foldlM {fates : Fates ε} {body : Pass → RunningEntry → ExecutorResult ε Pass}
    (hbody : ∀ entry rest acc acc₁ acc', body acc entry = .ok acc₁ →
      Passes ex fates rest acc₁ acc' → Passes ex fates (entry :: rest) acc acc')
    {entries : List RunningEntry} {acc acc' : Pass} (h : entries.foldlM body acc = .ok acc') :
    Passes ex fates entries acc acc' := by
  induction entries generalizing acc with
  | nil =>
      simp only [List.foldlM_nil, pure_eq_ok] at h
      exact h ▸ Passes.nil acc
  | cons entry rest ih =>
      rw [List.foldlM_cons, bind_eq_ok] at h
      obtain ⟨acc₁, h1, h2⟩ := h
      exact hbody entry rest acc acc₁ acc' h1 (ih h2)

theorem candleLoop_passes {s : SimulatedTradeExecutorState} {candle : OhlcCandleRow}
    {acc acc' : Pass} (h : ex.candleLoop s candle acc = .ok acc') :
    Passes ex (candleFates ex candle) s.runningMap.tradesDesc acc acc' := by
  refine passes_of_foldlM ?_ h
  intro entry rest acc acc₁ acc' h1 hrest
  obtain ⟨trade, tsl⟩ := entry
  unfold candleTrade at h1
  cases hexit : candleExit candle trade with
  | some price =>
      simp only [hexit, Except.ok.injEq] at h1
      subst h1
      refine .close 0 (some (candle.time + Duration.seconds 59)) ⟨rfl, price, hexit, rfl⟩ ?_
      simpa [bookClosed] using hrest
  | none =>
      simp only [hexit, bind_eq_ok, keepRunning_eq_ok] at h1
      obtain ⟨t', ht', trigger, htrigger, rfl⟩ := h1
      refine .keep 0 trigger ⟨rfl, hexit, ht'⟩ htrigger ?_
      simpa using hrest

theorem settleLoop_passes {s : SimulatedTradeExecutorState} {settlement : FundingSettlementRow}
    {entries : List RunningEntry} {acc acc' : Pass}
    (h : entries.foldlM (ex.settleTrade s settlement) acc = .ok acc') :
    Passes ex (settleFates ex settlement) entries acc acc' := by
  refine passes_of_foldlM ?_ h
  intro entry rest acc acc₁ acc' h1 hrest
  obtain ⟨trade, tsl⟩ := entry
  simp only [settleTrade, bind_eq_ok] at h1
  obtain ⟨⟨updated, fee⟩, hup, h1⟩ := h1
  cases updated with
  | some t' =>
      simp only [keepRunning_eq_ok] at h1
      obtain ⟨trigger, htrigger, rfl⟩ := h1
      refine .keep fee trigger hup ?_ ?_
      · split_ifs at htrigger <;> exact htrigger
      · rcases lt_or_ge fee 0 with hneg | hpos
        · have hmax : max (-fee) 0 = -fee := max_eq_left (by omega)
          simpa [hneg, hmax, sub_eq_add_neg] using hrest
        · have hmax : max (-fee) 0 = 0 := max_eq_right (by omega)
          simpa [hpos.not_gt, hmax] using hrest
  | none =>
      simp only [bind_eq_ok, mapError_eq_ok, pure_eq_ok] at h1
      obtain ⟨price, -, rfl⟩ := h1
      exact .close fee (some settlement.time) ⟨hup, price, rfl⟩ hrest

theorem closeLoop_passes {s : SimulatedTradeExecutorState} {close : Close} {price : Price}
    {entries : List RunningEntry} {acc acc' : Pass}
    (h : entries.foldlM (ex.closeTrade s close price) acc = .ok acc') :
    Passes ex (closeFates ex s.time close) entries acc acc' := by
  refine passes_of_foldlM ?_ h
  intro entry rest acc acc₁ acc' h1 hrest
  obtain ⟨trade, tsl⟩ := entry
  unfold closeTrade at h1
  cases hsel : close.selects trade with
  | true =>
      simp only [hsel, if_true, Except.ok.injEq] at h1
      subst h1
      refine .close 0 acc.lastTradeTime ⟨rfl, hsel, price, rfl⟩ ?_
      simpa [bookClosed] using hrest
  | false =>
      simp only [hsel, Bool.false_eq_true, if_false, keepRunning_eq_ok] at h1
      obtain ⟨trigger, htrigger, rfl⟩ := h1
      refine .keep 0 trigger ⟨rfl, hsel, rfl⟩ htrigger ?_
      simpa using hrest

end Quantoxide.Executor
