import Quantoxide.Verification.Executor.Steps
import Quantoxide.Verification.Sdk.Reference

/-! # The running trades along a run

A trade keeps its identity through every step, so it stays filed under its own reference,
and a new trade's reference is new. -/

namespace Quantoxide.Executor

open Result SimulatedTradeExecutor

variable {ε : Type} {ex : SimulatedTradeExecutor ε} {s s' : SimulatedTradeExecutorState}

/-- The parts of a trade that no step changes. -/
structure SameTrade (t t' : SimulatedTradeRunning) : Prop where
  id : t'.id = t.id
  entryTime : t'.entryTime = t.entryTime
  side : t'.side = t.side
  quantity : t'.quantity = t.quantity
  takeprofit : t'.takeprofit = t.takeprofit
  openingFee : t'.openingFee = t.openingFee
  closingFeeReserved : t'.closingFeeReserved = t.closingFeeReserved

namespace SameTrade

variable {t t' : SimulatedTradeRunning}

theorem refl (t : SimulatedTradeRunning) : SameTrade t t := ⟨rfl, rfl, rfl, rfl, rfl, rfl, rfl⟩

theorem reference (h : SameTrade t t') : t'.reference = t.reference := by
  rw [SimulatedTradeRunning.reference, SimulatedTradeRunning.reference, h.id, h.entryTime]

theorem maintenanceMargin (h : SameTrade t t') : t'.maintenanceMargin = t.maintenanceMargin := by
  rw [SimulatedTradeRunning.maintenanceMargin, SimulatedTradeRunning.maintenanceMargin,
    h.openingFee, h.closingFeeReserved]

end SameTrade

/-! ### What the trade methods return -/

theorem withNewStoploss_eq_ok {sdk : LnmSdk ε} {t t' : SimulatedTradeRunning} {m p : Price} :
    t.withNewStoploss sdk m p = .ok t' ↔
      sdk.evaluateNewStoploss t.side t.liquidation t.takeprofit m p = .ok () ∧
        t' = { t with stoploss := some p } := by
  simp only [SimulatedTradeRunning.withNewStoploss, bind_eq_ok, mapError_eq_ok, pure_eq_ok,
    @eq_comm _ _ t']
  constructor
  · rintro ⟨_, hu, rfl⟩
    exact ⟨hu, rfl⟩
  · rintro ⟨hu, rfl⟩
    exact ⟨(), hu, rfl⟩

theorem withNewStoploss_same {sdk : LnmSdk ε} {t t' : SimulatedTradeRunning} {m p : Price}
    (h : t.withNewStoploss sdk m p = .ok t') : SameTrade t t' := by
  obtain ⟨-, rfl⟩ := withNewStoploss_eq_ok.mp h
  exact ⟨rfl, rfl, rfl, rfl, rfl, rfl, rfl⟩

theorem withAddedMargin_eq_ok {sdk : LnmSdk ε} {t t' : SimulatedTradeRunning} {amount : ℕ} :
    t.withAddedMargin sdk amount = .ok t' ↔
      ∃ r, sdk.evaluateAddedMargin t.side t.quantity t.price t.margin amount = .ok r ∧
        t' = { t with
          margin := r.margin, leverage := r.leverage, liquidation := r.liquidation } := by
  simp only [SimulatedTradeRunning.withAddedMargin, bind_eq_ok, mapError_eq_ok, pure_eq_ok,
    @eq_comm _ _ t']

theorem withAddedMargin_same {sdk : LnmSdk ε} {t t' : SimulatedTradeRunning} {amount : ℕ}
    (h : t.withAddedMargin sdk amount = .ok t') : SameTrade t t' := by
  obtain ⟨r, -, rfl⟩ := withAddedMargin_eq_ok.mp h
  exact ⟨rfl, rfl, rfl, rfl, rfl, rfl, rfl⟩

theorem withCashIn_eq_ok {sdk : LnmSdk ε} {t t' : SimulatedTradeRunning} {m : Price} {amount : ℕ} :
    t.withCashIn sdk m amount = .ok t' ↔
      ∃ r, sdk.evaluateCashIn t.side t.quantity t.margin t.price t.stoploss m amount = .ok r ∧
        t' = { t with
          price := r.price, stoploss := r.stoploss, margin := r.margin, leverage := r.leverage,
          liquidation := r.liquidation } := by
  simp only [SimulatedTradeRunning.withCashIn, bind_eq_ok, mapError_eq_ok, pure_eq_ok,
    @eq_comm _ _ t']

theorem withCashIn_same {sdk : LnmSdk ε} {t t' : SimulatedTradeRunning} {m : Price} {amount : ℕ}
    (h : t.withCashIn sdk m amount = .ok t') : SameTrade t t' := by
  obtain ⟨r, -, rfl⟩ := withCashIn_eq_ok.mp h
  exact ⟨rfl, rfl, rfl, rfl, rfl, rfl, rfl⟩

/-- A candle leaves a kept trade's stoploss or moves it to a price the SDK accepts. -/
theorem trailStoploss_cases {candle : OhlcCandleRow} {t t' : SimulatedTradeRunning}
    {tsl : Option TradeTrailingStoploss} (h : ex.trailStoploss candle t tsl = .ok t') :
    t' = t ∨ ∃ m p, t.withNewStoploss ex.sdk m p = .ok t' := by
  unfold trailStoploss at h
  cases tsl with
  | none =>
      cases h
      exact Or.inl rfl
  | some tsl =>
      simp only [bind_eq_ok] at h
      obtain ⟨_, _, m, _, p, _, h⟩ := h
      cases p with
      | none => exact Or.inl (pure_eq_ok.mp h).symm
      | some p => exact Or.inr ⟨m, p, h⟩

theorem trailStoploss_same {candle : OhlcCandleRow} {t t' : SimulatedTradeRunning}
    {tsl : Option TradeTrailingStoploss} (h : ex.trailStoploss candle t tsl = .ok t') :
    SameTrade t t' := by
  rcases trailStoploss_cases h with rfl | ⟨m, p, hnew⟩
  · exact .refl _
  · exact withNewStoploss_same hnew

/-- A settlement leaves a kept trade as it was or takes the fee from its margin. -/
theorem settled_cases {sdk : LnmSdk ε} {t t' : SimulatedTradeRunning}
    {settlement : FundingSettlementRow} {fee : ℤ}
    (h : t.applyFundingSettlement sdk settlement = .ok (some t', fee)) :
    fee = settlement.fundingFee t.side t.quantity ∧
    ((fee ≤ 0 ∧ t' = t) ∨ (0 < fee ∧ ∃ m l, sdk.marginTrySub t.margin fee = .ok m ∧
      (sdk.leverageTryCalculate t.quantity m t.price = .ok l ∨
        sdk.leverageTryCalculate t.quantity m t.price = .error .tooLow ∧ l = sdk.leverageMin) ∧
      t' = { t with
        margin := m
        leverage := l
        liquidation := sdk.estLiquidationFromLeverage t.side t.quantity t.price l })) := by
  unfold SimulatedTradeRunning.applyFundingSettlement at h
  simp only at h
  split_ifs at h with hneg
  · cases h
    exact ⟨rfl, Or.inl ⟨hneg, rfl⟩⟩
  cases hm : sdk.marginTrySub t.margin (settlement.fundingFee t.side t.quantity) with
  | error e => simp [hm] at h
  | ok m =>
      simp only [hm] at h
      cases hl : sdk.leverageTryCalculate t.quantity m t.price with
      | ok l =>
          simp only [hl, Except.ok.injEq, Prod.mk.injEq, Option.some.injEq] at h
          obtain ⟨rfl, rfl⟩ := h
          exact ⟨rfl, Or.inr ⟨not_le.mp hneg, m, l, hm, Or.inl hl, rfl⟩⟩
      | error e =>
          cases e with
          | tooLow =>
              simp only [hl, Except.ok.injEq, Prod.mk.injEq, Option.some.injEq] at h
              obtain ⟨rfl, rfl⟩ := h
              exact ⟨rfl, Or.inr ⟨not_le.mp hneg, m, sdk.leverageMin, hm, Or.inr ⟨hl, rfl⟩, rfl⟩⟩
          | tooHigh => simp [hl] at h
          | notANumber => simp [hl] at h
          | other => simp [hl] at h

/-- A new trade is entered at the rounded market price with the next id. -/
theorem openTrade_spec {request : IsolatedOrderRequest} {entry : RunningEntry}
    (h : ex.openTrade s request.side request.size request.leverage request.stoploss
      request.takeprofit = .ok entry) :
    ∃ market stoploss p,
      ex.sdk.evaluateOpenTradeParams request.side request.size request.leverage market stoploss
        request.takeprofit ex.config.feePerc = .ok p ∧
      entry.1 =
        { id := ex.newV4 s.drawn
          side := request.side
          openingFee := p.openingFee
          closingFeeReserved := p.closingFeeReserved
          quantity := p.quantity
          margin := p.margin
          leverage := request.leverage
          price := market
          liquidation := p.liquidation
          stoploss
          takeprofit := request.takeprofit
          entryTime := s.time
          entryPrice := market } := by
  simp only [openTrade, SimulatedTradeRunning.new, bind_eq_ok, mapError_eq_ok, pure_eq_ok] at h
  obtain ⟨market, -, ⟨stoploss, tsl⟩, -, trade, ⟨p, hp, rfl⟩, rfl⟩ := h
  exact ⟨market, stoploss, p, hp, rfl⟩

/-! ### Fates -/

theorem fates_cases {op : Op} {fates : Fates ε} (h : op.fates ex s = some fates) :
    (∃ time close, fates = closeFates ex time close) ∨
      (∃ candle, op = .candleUpdate candle ∧ fates = candleFates ex candle) ∨
      ∃ settlement, op = .applyFundingSettlement settlement ∧
        fates = settleFates ex settlement := by
  cases op with
  | call c =>
      refine Or.inl ?_
      cases c <;> simp only [Op.fates, Option.some.injEq, reduceCtorEq] at h <;>
        exact ⟨_, _, h.symm⟩
  | candleUpdate candle => exact Or.inr (Or.inl ⟨candle, rfl, (Option.some.inj h).symm⟩)
  | applyFundingSettlement x => exact Or.inr (Or.inr ⟨x, rfl, (Option.some.inj h).symm⟩)
  | updateTime time => simp [Op.fates] at h

theorem keeps_same {op : Op} {fates : Fates ε} (h : op.fates ex s = some fates)
    {entry : RunningEntry} {t' : SimulatedTradeRunning} {fee : ℤ}
    (hk : fates.keeps entry t' fee) : SameTrade entry.1 t' ∧ t'.price = entry.1.price := by
  rcases fates_cases h with ⟨time, close, rfl⟩ | ⟨candle, -, rfl⟩ | ⟨settlement, -, rfl⟩
  · obtain ⟨-, -, rfl⟩ := hk
    exact ⟨SameTrade.refl _, rfl⟩
  · obtain ⟨-, -, htrail⟩ := hk
    rcases trailStoploss_cases htrail with rfl | ⟨m, p, hp⟩
    · exact ⟨SameTrade.refl _, rfl⟩
    · obtain ⟨-, rfl⟩ := withNewStoploss_eq_ok.mp hp
      exact ⟨⟨rfl, rfl, rfl, rfl, rfl, rfl, rfl⟩, rfl⟩
  · rcases (settled_cases hk).2 with ⟨-, rfl⟩ | ⟨-, m, l, -, -, rfl⟩
    · exact ⟨SameTrade.refl _, rfl⟩
    · exact ⟨⟨rfl, rfl, rfl, rfl, rfl, rfl, rfl⟩, rfl⟩

theorem closes_eq {op : Op} {fates : Fates ε} (h : op.fates ex s = some fates)
    {entry : RunningEntry} {closed : SimulatedTradeClosed} {fee : ℤ}
    (hc : fates.closes entry closed fee) :
    ∃ time price, closed = entry.1.toClosed ex.sdk ex.config.feePerc time price := by
  rcases fates_cases h with ⟨time, close, rfl⟩ | ⟨candle, -, rfl⟩ | ⟨settlement, -, rfl⟩
  · obtain ⟨-, -, price, rfl⟩ := hc
    exact ⟨time, price, rfl⟩
  · obtain ⟨-, price, -, rfl⟩ := hc
    exact ⟨candle.time, price, rfl⟩
  · obtain ⟨-, price, rfl⟩ := hc
    exact ⟨settlement.time, price, rfl⟩

/-! ### Where the entries of a pass end up -/

namespace Passes

variable {fates : Fates ε} {entries : List RunningEntry} {acc acc' : Pass}

theorem mem_running (h : Passes ex fates entries acc acc') {e : TradeReference × RunningEntry}
    (he : e ∈ acc'.runningMap.trades) : e ∈ acc.runningMap.trades ∨
      ∃ entry ∈ entries, ∃ t' fee,
        fates.keeps entry t' fee ∧ e = (t'.reference, (t', entry.2)) := by
  induction h with
  | nil acc => exact Or.inl he
  | @keep entry trade rest acc acc' fee trigger hfate _ _ ih =>
      rcases ih he with hmem | ⟨entry', hin, t', fee', hk, rfl⟩
      · rcases OrdMap.mem_of_mem_insert hmem with rfl | hold
        · exact Or.inr ⟨entry, List.mem_cons_self, trade, fee, hfate, rfl⟩
        · exact Or.inl hold
      · exact Or.inr ⟨entry', List.mem_cons_of_mem _ hin, t', fee', hk, rfl⟩
  | close fee last hfate _ ih =>
      rcases ih he with hmem | ⟨entry', hin, t', fee', hk, rfl⟩
      · exact Or.inl hmem
      · exact Or.inr ⟨entry', List.mem_cons_of_mem _ hin, t', fee', hk, rfl⟩

theorem closed_mono (h : Passes ex fates entries acc acc') {c : SimulatedTradeClosed}
    (hc : c ∈ acc.closedTrades) : c ∈ acc'.closedTrades := by
  induction h with
  | nil acc => exact hc
  | keep _ _ _ _ _ ih => exact ih hc
  | close _ _ _ _ ih => exact ih (List.mem_append_left _ hc)

theorem mem_closed (h : Passes ex fates entries acc acc') {c : SimulatedTradeClosed}
    (hc : c ∈ acc'.closedTrades) : c ∈ acc.closedTrades ∨
      ∃ entry ∈ entries, ∃ fee, fates.closes entry c fee := by
  induction h with
  | nil acc => exact Or.inl hc
  | keep _ _ _ _ _ ih =>
      rcases ih hc with hold | ⟨entry', hin, fee', hk⟩
      · exact Or.inl hold
      · exact Or.inr ⟨entry', List.mem_cons_of_mem _ hin, fee', hk⟩
  | @close entry closed rest acc acc' fee last hfate _ ih =>
      rcases ih hc with hmem | ⟨entry', hin, fee', hk⟩
      · rcases List.mem_append.mp hmem with hold | hnew
        · exact Or.inl hold
        · obtain rfl := List.mem_singleton.mp hnew
          exact Or.inr ⟨entry, List.mem_cons_self, fee, hfate⟩
      · exact Or.inr ⟨entry', List.mem_cons_of_mem _ hin, fee', hk⟩

/-- Every entry is kept or closed. -/
theorem fate (h : Passes ex fates entries acc acc') {entry : RunningEntry}
    (he : entry ∈ entries) : (∃ t' fee, fates.keeps entry t' fee) ∨
      ∃ c fee, fates.closes entry c fee ∧ c ∈ acc'.closedTrades := by
  induction h with
  | nil acc => simp at he
  | keep fee _ hfate _ _ ih =>
      rcases List.mem_cons.mp he with rfl | he
      · exact Or.inl ⟨_, fee, hfate⟩
      · exact ih he
  | close fee _ hfate hrest ih =>
      rcases List.mem_cons.mp he with rfl | he
      · refine Or.inr ⟨_, fee, hfate, hrest.closed_mono ?_⟩
        exact List.mem_append_right _ (List.mem_singleton_self _)
      · exact ih he

end Passes

/-! ### Every trade is filed under its reference -/

theorem getById_mem {m : RunningTradesMap} {id : Uuid} {key : TradeReference}
    {entry : RunningEntry} (h : m.getById id = some (key, entry)) : (key, entry) ∈ m.trades := by
  simp only [RunningTradesMap.getById, Option.bind_eq_bind, Option.bind_eq_some_iff,
    Option.some.injEq, Prod.mk.injEq] at h
  obtain ⟨time, -, entry', hget, rfl, rfl⟩ := h
  exact OrdMap.get_eq_some.mp hget

theorem mem_tradesDesc {m : RunningTradesMap} {entry : RunningEntry} :
    entry ∈ m.tradesDesc ↔ ∃ key, (key, entry) ∈ m.trades := OrdMap.mem_valuesDesc

/-- Filed under its own reference, with an id that has been drawn. -/
def Keyed (ex : SimulatedTradeExecutor ε) (s : SimulatedTradeExecutorState) : Prop :=
  ∀ key entry, (key, entry) ∈ s.runningMap.trades →
    key = entry.1.reference ∧ ∃ i < s.drawn, entry.1.id = ex.newV4 i

theorem keyed_start {startCandle : OhlcCandleRow} {startBalance : ℕ} :
    Keyed ex (ex.new startCandle startBalance) := by
  intro key entry h
  simp [SimulatedTradeExecutor.new, RunningTradesMap.new, OrdMap.empty, OrdMap.mem_def] at h

/-- Writing a trade back under its key keeps the files in order. -/
theorem Keyed.write {key : TradeReference} {entry : RunningEntry} {t' : SimulatedTradeRunning}
    (h : Keyed ex s) (hget : (key, entry) ∈ s.runningMap.trades) (hsame : SameTrade entry.1 t')
    (hmap : s'.runningMap.trades = s.runningMap.trades.set key (t', entry.2))
    (hdrawn : s'.drawn = s.drawn) : Keyed ex s' := by
  intro k e he
  rw [hmap] at he
  obtain ⟨⟨k', e'⟩, hd, heq⟩ := OrdMap.mem_set.mp he
  simp only [Prod.mk.injEq] at heq
  obtain ⟨rfl, rfl⟩ := heq
  rw [hdrawn]
  split_ifs with hk
  · obtain ⟨hkey, i, hi, hid⟩ := h key entry hget
    exact ⟨hk.trans (hkey.trans hsame.reference.symm), i, hi, hsame.id.trans hid⟩
  · exact h k e' hd

/-- An entry that a failed candle update leaves behind, from the one it found. -/
theorem candleWrites_forall₂ (ex : SimulatedTradeExecutor ε) {candle : OhlcCandleRow}
    {entries : List RunningEntry} :
    List.Forall₂ (fun e e' => e'.2 = e.2 ∧
        (e'.1 = e.1 ∨ ex.trailStoploss candle e.1 e.2 = .ok e'.1))
      entries (ex.candleWrites candle entries) := by
  induction entries with
  | nil => exact List.Forall₂.nil
  | cons e rest ih =>
      obtain ⟨t, tsl⟩ := e
      have hrest : List.Forall₂ (fun e e' => e'.2 = e.2 ∧
          (e'.1 = e.1 ∨ ex.trailStoploss candle e.1 e.2 = .ok e'.1)) rest rest :=
        List.forall₂_same.mpr fun _ _ => ⟨rfl, Or.inl rfl⟩
      unfold candleWrites
      cases hexit : candleExit candle t with
      | some price => exact List.Forall₂.cons ⟨rfl, Or.inl rfl⟩ ih
      | none =>
          cases htrail : ex.trailStoploss candle t tsl with
          | error e => exact List.Forall₂.cons ⟨rfl, Or.inl rfl⟩ hrest
          | ok t' =>
              simp only
              cases t'.evalTriggerBounds ex.sdk ex.config.trailingStoplossStepSize tsl with
              | error e => exact List.Forall₂.cons ⟨rfl, Or.inr htrail⟩ hrest
              | ok bounds => exact List.Forall₂.cons ⟨rfl, Or.inr htrail⟩ ih

theorem Keyed.step {op : Op} (hi : Keyed ex s) (h : Effect ex s op s') : Keyed ex s' := by
  cases h with
  | quiet htrigger hmap hdrawn hbooks =>
      intro key entry he
      rw [hmap] at he
      obtain ⟨hkey, i, hlt, hid⟩ := hi key entry he
      exact ⟨hkey, i, hlt.trans_le hdrawn, hid⟩
  | opened request entry trigger hop hopen htrigger hs' =>
      subst hs'
      intro k e he
      rcases OrdMap.mem_of_mem_insert he with heq | hold
      · obtain ⟨rfl, rfl⟩ := Prod.mk.inj heq
        obtain ⟨market, stoploss, p, hp, hentry⟩ := openTrade_spec hopen
        exact ⟨rfl, s.drawn, Nat.lt_succ_self _, by simp [hentry]⟩
      · obtain ⟨hkey, i, hlt, hid⟩ := hi k e hold
        exact ⟨hkey, i, hlt.trans (Nat.lt_succ_self _), hid⟩
  | marginAdded id amount key entry t' hop hget hadd hs' =>
      subst hs'
      exact hi.write (getById_mem hget) (withAddedMargin_same hadd) rfl rfl
  | cashedIn id amount key entry t' hop hget hcash hs' =>
      subst hs'
      exact hi.write (getById_mem hget) (withCashIn_same hcash) rfl rfl
  | passed fates acc last hfates hpass hcommit =>
      intro k e he
      rw [hcommit.runningMap] at he
      rcases hpass.mem_running he with hnil | ⟨entry, hin, t', fee, hk, heq⟩
      · simp [startPass, RunningTradesMap.new, OrdMap.empty, OrdMap.mem_def] at hnil
      · obtain ⟨rfl, rfl⟩ := Prod.mk.inj heq
        obtain ⟨key, hmem⟩ := mem_tradesDesc.mp hin
        obtain ⟨-, i, hlt, hid⟩ := hi key entry hmem
        exact ⟨rfl, i, by rwa [hcommit.drawn], (keeps_same hfates hk).1.id.trans hid⟩
  | interrupted candle hop hs' hfail hloop =>
      subst hs'
      intro k e he
      obtain ⟨⟨key, entry⟩, hd, hk, -, hwrite⟩ :=
        OrdMap.mem_withValuesDesc (candleWrites_forall₂ ex) he
      obtain rfl : k = key := hk
      obtain ⟨hkey, i, hlt, hid⟩ := hi k entry hd
      rcases hwrite with hsame | htrail
      · exact ⟨by rw [hsame, hkey], i, hlt, by rw [hsame, hid]⟩
      · have hsame := trailStoploss_same htrail
        exact ⟨hkey.trans hsame.reference.symm, i, hlt, hsame.id.trans hid⟩

/-- A trade opened now has a reference that no running trade has. -/
theorem Keyed.fresh (hi : Keyed ex s) (hinj : Function.Injective ex.newV4)
    {request : IsolatedOrderRequest} {entry : RunningEntry}
    (hopen : ex.openTrade s request.side request.size request.leverage request.stoploss
      request.takeprofit = .ok entry) :
    ∀ e, (entry.1.reference, e) ∉ s.runningMap.trades := by
  intro e he
  obtain ⟨hkey, i, hlt, hid⟩ := hi _ _ he
  obtain ⟨market, stoploss, p, hp, hentry⟩ := openTrade_spec hopen
  have hids : entry.1.id = e.1.id := (Prod.mk.inj hkey).2
  rw [hid, hentry] at hids
  exact hlt.ne' (hinj hids)

/-- Running trades with one reference are one trade. -/
theorem Keyed.eq_of_reference (hi : Keyed ex s) {e e' : RunningEntry}
    (he : e ∈ s.runningMap.tradesDesc) (he' : e' ∈ s.runningMap.tradesDesc)
    (href : e.1.reference = e'.1.reference) : e = e' := by
  obtain ⟨k, hk⟩ := mem_tradesDesc.mp he
  obtain ⟨k', hk'⟩ := mem_tradesDesc.mp he'
  obtain rfl := (hi k e hk).1
  obtain rfl := (hi k' e' hk').1
  rw [← href] at hk'
  exact OrdMap.eq_of_mem hk hk'

/-! ### What holds of every running trade -/

/-- A property of an entry goes from step to step when every way to rewrite one keeps it. -/
theorem Effect.entries {P : RunningEntry → Prop} {op : Op} (h : Effect ex s op s')
    (hi : ∀ key entry, (key, entry) ∈ s.runningMap.trades → P entry)
    (hopen : ∀ request entry, op = .call (.isolatedOrder request) →
      ex.openTrade s request.side request.size request.leverage request.stoploss
        request.takeprofit = .ok entry → P entry)
    (hadd : ∀ entry t' amount, P entry → entry.1.withAddedMargin ex.sdk amount = .ok t' →
      P (t', entry.2))
    (hcash : ∀ id amount key entry t', op = .call (.isolatedTradeCashIn id amount) →
      s.runningMap.getById id = some (key, entry) → P entry →
      entry.1.withCashIn ex.sdk (ex.sdk.bounded s.marketPrice) amount = .ok t' → P (t', entry.2))
    (htrails : ∀ candle entry t', P entry →
      ex.trailStoploss candle entry.1 entry.2 = .ok t' → P (t', entry.2))
    (hsettle : ∀ settlement entry t' fee, op = .applyFundingSettlement settlement →
      entry ∈ s.runningMap.tradesDesc → P entry →
      entry.1.applyFundingSettlement ex.sdk settlement = .ok (some t', fee) → P (t', entry.2)) :
    ∀ key entry, (key, entry) ∈ s'.runningMap.trades → P entry := by
  intro k e he
  cases h with
  | quiet htrigger hmap hdrawn hbooks =>
      rw [hmap] at he
      exact hi k e he
  | opened request entry trigger hop hopen' htrigger hs' =>
      subst hs'
      rcases OrdMap.mem_of_mem_insert he with heq | hold
      · obtain ⟨rfl, rfl⟩ := Prod.mk.inj heq
        exact hopen request _ hop hopen'
      · exact hi k e hold
  | marginAdded id amount key entry trade hop hget hadd' hs' =>
      subst hs'
      obtain ⟨d, hd, heq⟩ := OrdMap.mem_set.mp he
      obtain ⟨rfl, rfl⟩ := Prod.mk.inj heq
      split_ifs with hk
      · exact hadd entry trade amount (hi _ _ (getById_mem hget)) hadd'
      · exact hi d.1 d.2 hd
  | cashedIn id amount key entry trade hop hget hcash' hs' =>
      subst hs'
      obtain ⟨d, hd, heq⟩ := OrdMap.mem_set.mp he
      obtain ⟨rfl, rfl⟩ := Prod.mk.inj heq
      split_ifs with hk
      · exact hcash id amount key entry trade hop hget (hi _ _ (getById_mem hget)) hcash'
      · exact hi d.1 d.2 hd
  | passed fates acc last hfates hpass hcommit =>
      rw [hcommit.runningMap] at he
      rcases hpass.mem_running he with hnil | ⟨entry, hin, t', fee, hk, heq⟩
      · simp [startPass, RunningTradesMap.new, OrdMap.empty, OrdMap.mem_def] at hnil
      obtain ⟨rfl, rfl⟩ := Prod.mk.inj heq
      obtain ⟨key, hmem⟩ := mem_tradesDesc.mp hin
      have hp := hi key entry hmem
      rcases fates_cases hfates with ⟨time, close, rfl⟩ | ⟨candle, -, rfl⟩ | ⟨settlement, hop, rfl⟩
      · obtain ⟨-, -, rfl⟩ := hk
        exact hp
      · exact htrails candle entry t' hp hk.2.2
      · exact hsettle settlement entry t' fee hop hin hp hk
  | interrupted candle hop hs' hfail hloop =>
      subst hs'
      obtain ⟨⟨key, entry⟩, hd, -, htsl, hwrite⟩ :=
        OrdMap.mem_withValuesDesc (candleWrites_forall₂ ex) he
      have hp := hi key entry hd
      obtain ⟨t', tsl⟩ := e
      obtain rfl : tsl = entry.2 := htsl
      rcases hwrite with hsame | htrail
      · obtain rfl : t' = entry.1 := hsame
        exact hp
      · exact htrails candle entry t' hp htrail

/-- A running trade's liquidation is the one the SDK gives its position. -/
def Priced (ex : SimulatedTradeExecutor ε) (s : SimulatedTradeExecutorState) : Prop :=
  ∀ key entry, (key, entry) ∈ s.runningMap.trades →
    Liquidates ex.sdk entry.1.side entry.1.quantity entry.1.price entry.1.margin
      entry.1.liquidation

theorem priced_start {startCandle : OhlcCandleRow} {startBalance : ℕ} :
    Priced ex (ex.new startCandle startBalance) := by
  intro key entry h
  simp [SimulatedTradeExecutor.new, RunningTradesMap.new, OrdMap.empty, OrdMap.mem_def] at h

theorem Priced.step {op : Op} (hi : Priced ex s) (h : Effect ex s op s') : Priced ex s' := by
  refine h.entries (P := fun e => Liquidates ex.sdk e.1.side e.1.quantity e.1.price e.1.margin
    e.1.liquidation) hi ?_ ?_ ?_ ?_ ?_
  · intro request entry _ hopen
    obtain ⟨market, stoploss, p, hp, hentry⟩ := openTrade_spec hopen
    rw [hentry]
    exact .opened hp
  · intro entry t' amount hp hadd
    obtain ⟨r, hr, rfl⟩ := withAddedMargin_eq_ok.mp hadd
    exact .added hp hr
  · intro id amount key entry t' _ _ hp hcash
    obtain ⟨r, hr, rfl⟩ := withCashIn_eq_ok.mp hcash
    exact .cashedIn hp hr
  · intro candle entry t' hp htrail
    rcases trailStoploss_cases htrail with rfl | ⟨m, p, hnew⟩
    · exact hp
    · obtain ⟨-, rfl⟩ := withNewStoploss_eq_ok.mp hnew
      exact hp
  · intro settlement entry t' fee _ _ hp hset
    rcases (settled_cases hset).2 with ⟨-, rfl⟩ | ⟨-, m, l, hsub, hl, rfl⟩
    · exact hp
    · exact .settled hp hsub hl

/-! ### A reference executor -/

/-- The reference SDK with a fee and a trailing step of 0.1 %, and ids drawn in order. -/
def referenceExecutor : SimulatedTradeExecutor Refusal where
  config := ⟨50, ReferenceSdk.tenthPercent, ReferenceSdk.tenthPercent⟩
  sdk := referenceSdk
  newV4 n := ⟨n⟩

theorem referenceExecutor_newV4 : Function.Injective referenceExecutor.newV4 := by
  intro a b h
  exact congrArg Uuid.asNat h

/-- The `n`-th minute of a history, with a volume of one. -/
def minuteCandle (n : ℕ) (openPrice high low close : ℚ) : OhlcCandleRow where
  time := Duration.minutes n
  openPrice := F64.clamp openPrice
  high := F64.clamp high
  low := F64.clamp low
  close := F64.clamp close
  volume := 1
  createdAt := 0
  updatedAt := 0
  stable := true

/-- A long of `quantity` dollars, perhaps with a stoploss. -/
def longOrder (quantity : ℕ) (leverage : ℚ) (stoploss : Option ℚ) : IsolatedOrderRequest where
  side := .buy
  size := .quantity ⟨quantity⟩
  leverage := ⟨F64.clamp leverage⟩
  stoploss := stoploss.map fun p => .fixed (ReferenceSdk.price p)
  takeprofit := none
  ordered := by cases stoploss <;> rfl

end Quantoxide.Executor
