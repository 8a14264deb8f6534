import Quantoxide.Verification.Executor.Invariants

/-! # The isolated ledger

A running trade holds its margin, its reserve and its opening fee. What the balance and the
running trades hold together moves only with the books and with the cross margin. -/

namespace Quantoxide.Executor

open Result SimulatedTradeExecutor Runs

variable {ε : Type} {ex : SimulatedTradeExecutor ε} {s s' : SimulatedTradeExecutorState}

/-- What a running trade has taken out of the balance: margin, reserve and opening fee. -/
def held (t : SimulatedTradeRunning) : ℤ :=
  t.margin.asI64 + t.maintenanceMargin + t.openingFee

def heldTotal (m : RunningTradesMap) : ℤ := m.trades.total fun e => held e.1

/-- The balance with everything that isolated trading has booked undone. -/
def ledger (s : SimulatedTradeExecutorState) : ℤ :=
  s.balance + heldTotal s.runningMap - s.realizedPl + s.closedFees + s.fundingFees

def passLedger (acc : Pass) : ℤ :=
  acc.balance + heldTotal acc.runningMap - acc.realizedPl + acc.closedFees + acc.fundingFees

theorem heldTotal_eq (m : RunningTradesMap) :
    heldTotal m = (m.tradesDesc.map fun e => held e.1).sum :=
  m.trades.total_eq_valuesDesc _

/-! ### One trade -/

theorem bookClosed_ledger (ex : SimulatedTradeExecutor ε) (acc : Pass)
    (t : SimulatedTradeRunning) (fee : PercentageCapped) (time : ℤ) (price : Price) :
    passLedger (ex.bookClosed acc (t.toClosed ex.sdk fee time price)) =
      passLedger acc + held t := by
  simp only [passLedger, bookClosed, SimulatedTradeClosed.maintenanceMargin,
    SimulatedTradeRunning.toClosed, held, SimulatedTradeRunning.maintenanceMargin]
  push_cast
  ring

/-- A kept trade loses exactly the fee it pays. -/
theorem held_of_keeps (laws : MarginLaws ex.sdk) {op : Op} {fates : Fates ε}
    (h : op.fates ex s = some fates) {entry : RunningEntry} {t' : SimulatedTradeRunning} {fee : ℤ}
    (hk : fates.keeps entry t' fee) : held t' = held entry.1 - max fee 0 := by
  have hsame := (keeps_same h hk).1
  have hmargin : t'.margin.asI64 = entry.1.margin.asI64 - max fee 0 := by
    rcases fates_cases h with ⟨time, close, rfl⟩ | ⟨candle, -, rfl⟩ | ⟨settlement, -, rfl⟩
    · obtain ⟨rfl, -, rfl⟩ := hk
      simp
    · obtain ⟨rfl, -, htrail⟩ := hk
      rcases trailStoploss_cases htrail with rfl | ⟨m, p, hp⟩
      · simp
      · obtain ⟨-, rfl⟩ := withNewStoploss_eq_ok.mp hp
        simp
    · rcases (settled_cases hk).2 with ⟨hfee, rfl⟩ | ⟨hfee, m, l, hsub, -, rfl⟩
      · rw [max_eq_right hfee, sub_zero]
      · rw [max_eq_left hfee.le]
        exact laws.taken hsub
  rw [held, held, hmargin, hsame.maintenanceMargin, hsame.openingFee]
  ring

theorem held_withAddedMargin (laws : MarginLaws ex.sdk) {t t' : SimulatedTradeRunning} {amount : ℕ}
    (h : t.withAddedMargin ex.sdk amount = .ok t') : held t' = held t + amount := by
  have hmaint := (withAddedMargin_same h).maintenanceMargin
  have hopening := (withAddedMargin_same h).openingFee
  obtain ⟨r, hr, htrade⟩ := withAddedMargin_eq_ok.mp h
  have hmargin : t'.margin.asI64 = t.margin.asI64 + amount := by
    rw [htrade, Margin.asI64, Margin.asI64, laws.added hr]
    push_cast
    rfl
  rw [held, held, hmargin, hmaint, hopening]
  ring

/-- An amount the SDK adds to a margin is an `i64`. -/
theorem ofU64_added (laws : MarginLaws ex.sdk) {t t' : SimulatedTradeRunning} {amount : ℕ}
    (h : t.withAddedMargin ex.sdk amount = .ok t') : I64.ofU64 amount = amount := by
  obtain ⟨r, hr, -⟩ := withAddedMargin_eq_ok.mp h
  have hadded := laws.added hr
  have hmargin := r.margin.lt_i64
  exact I64.ofU64_of_lt (by omega)

/-! ### A pass -/

/-- A pass over entries that are not yet in the new map adds what they hold. -/
theorem Passes.ledger (laws : MarginLaws ex.sdk) {op : Op} {fates : Fates ε}
    (hfates : op.fates ex s = some fates) {entries : List RunningEntry} {acc acc' : Pass}
    (h : Passes ex fates entries acc acc')
    (hnodup : (entries.map fun e => e.1.reference).Nodup)
    (hnew : ∀ e ∈ entries, ∀ a, (e.1.reference, a) ∉ acc.runningMap.trades) :
    passLedger acc' = passLedger acc + (entries.map fun e => held e.1).sum := by
  induction h with
  | nil acc => simp
  | @keep entry trade rest acc acc' fee trigger hfate _ _ ih =>
      obtain ⟨hentry, hrest⟩ := List.nodup_cons.mp hnodup
      have href := (keeps_same hfates hfate).1.reference
      have hold : ∀ a, (trade.reference, a) ∉ acc.runningMap.trades := by
        rw [href]
        exact hnew entry List.mem_cons_self
      have htotal : heldTotal (acc.runningMap.add trade entry.2) =
          held trade + heldTotal acc.runningMap := OrdMap.total_insert _ hold
      rw [ih hrest ?_, List.map_cons, List.sum_cons]
      · simp only [passLedger, htotal, held_of_keeps laws hfates hfate]
        omega
      · intro e he a hmem
        rcases OrdMap.mem_of_mem_insert hmem with heq | hmem
        · have hkey : e.1.reference = trade.reference := congrArg Prod.fst heq
          exact hentry (List.mem_map.mpr ⟨e, he, hkey.trans href⟩)
        · exact hnew e (List.mem_cons_of_mem _ he) a hmem
  | @close entry closed rest acc acc' fee last hfate _ ih =>
      obtain ⟨hentry, hrest⟩ := List.nodup_cons.mp hnodup
      obtain ⟨time, price, rfl⟩ := closes_eq hfates hfate
      have hbook := bookClosed_ledger ex acc entry.1 ex.config.feePerc time price
      rw [ih hrest fun e he => hnew e (List.mem_cons_of_mem _ he), List.map_cons, List.sum_cons]
      simp only [passLedger, bookClosed] at hbook ⊢
      omega

theorem Keyed.nodup (hi : Keyed ex s) :
    (s.runningMap.tradesDesc.map fun e => e.1.reference).Nodup := by
  have hkeys : s.runningMap.tradesDesc.map (fun e => e.1.reference) =
      (s.runningMap.trades.entries.map (·.1)).reverse := by
    rw [RunningTradesMap.tradesDesc, OrdMap.valuesDesc, List.map_reverse, List.map_map]
    congr 1
    apply List.map_congr_left
    intro e he
    exact (hi e.1 e.2 he).1.symm
  rw [hkeys, List.nodup_reverse]
  exact s.runningMap.trades.nodup_keys

/-! ### Runs -/

def Op.deposited : Op → ℤ
  | .call (.crossDeposit amount) => amount
  | _ => 0

def Op.withdrawn : Op → ℤ
  | .call (.crossWithdraw amount) => amount
  | _ => 0

theorem crossFlow_eq (op : Op) : crossFlow op = op.withdrawn - op.deposited := by
  cases op with
  | call c => cases c <;> simp [crossFlow, Op.withdrawn, Op.deposited]
  | candleUpdate candle => rfl
  | applyFundingSettlement settlement => rfl
  | updateTime time => rfl

theorem sum_crossFlow (ops : List Op) :
    (ops.map crossFlow).sum = (ops.map Op.withdrawn).sum - (ops.map Op.deposited).sum := by
  induction ops with
  | nil => rfl
  | cons op ops ih =>
      simp only [List.map_cons, List.sum_cons, crossFlow_eq, ih]
      ring

/-- Only a deposit and a withdrawal move money across the ledger's boundary. -/
theorem ledger_step (laws : MarginLaws ex.sdk) (hinj : Function.Injective ex.newV4) {op : Op}
    (hi : Keyed ex s) (hsuc : Succeeds ex s op) (hcash : op.isCashIn = false)
    (h : Effect ex s op s') : ledger s' = ledger s + crossFlow op := by
  cases h with
  | quiet htrigger hmap hdrawn hbooks =>
      have hb := hbooks hsuc
      simp only [ledger, hmap, hb.balance, hb.realizedPl, hb.closedFees, hb.fundingFees]
      ring
  | opened request entry trigger hop hopen htrigger hs' =>
      subst hop hs'
      have htotal : heldTotal (s.runningMap.add entry.1 entry.2) =
          held entry.1 + heldTotal s.runningMap :=
        OrdMap.total_insert _ (hi.fresh hinj hopen)
      simp only [ledger, htotal, crossFlow]
      unfold held
      ring
  | marginAdded id amount key entry trade hop hget hadd hs' =>
      subst hop hs'
      have htotal : heldTotal (writeTrade s key (trade, entry.2)).runningMap =
          heldTotal s.runningMap - held entry.1 + held trade :=
        OrdMap.total_set _ (getById_mem hget)
      rw [held_withAddedMargin laws hadd] at htotal
      simp only [ledger, htotal, crossFlow, ofU64_added laws hadd]
      simp only [writeTrade]
      ring
  | cashedIn id amount key entry trade hop hget hcash' hs' =>
      subst hop
      simp [Op.isCashIn] at hcash
  | passed fates acc last hfates hpass hcommit =>
      have hflow : crossFlow op = 0 := by
        rcases op with c | candle | settlement | time
        · cases c <;> simp [Op.fates, crossFlow] at hfates ⊢
        all_goals rfl
      have hledger := hpass.ledger laws hfates hi.nodup fun e _ a hmem => by
        simp [startPass, RunningTradesMap.new, OrdMap.empty, OrdMap.mem_def] at hmem
      have hstart : passLedger { startPass s with lastTradeTime := last } =
          s.balance - s.realizedPl + s.closedFees + s.fundingFees := by
        simp [passLedger, startPass, heldTotal, RunningTradesMap.new]
      have hs' : ledger s' = passLedger acc := by
        rw [ledger, passLedger, hcommit.balance, hcommit.runningMap, hcommit.realizedPl,
          hcommit.closedFees, hcommit.fundingFees]
      rw [hs', hledger, hstart, hflow, ledger, heldTotal_eq]
      ring
  | interrupted candle hop hs' hfail hloop => exact absurd hsuc hfail

/-- An operation of the ledger's runs: it succeeds and is not a cash-in. -/
def LedgerOp (ex : SimulatedTradeExecutor ε) (s : SimulatedTradeExecutorState) (op : Op) : Prop :=
  Succeeds ex s op ∧ op.isCashIn = false

instance [DecidableEq ε] (op : Op) : Decidable (LedgerOp ex s op) :=
  inferInstanceAs (Decidable (_ ∧ _))

/-- Isolated ledger conservation, after every run of successful operations. -/
theorem isolated_ledger_conserved (laws : MarginLaws ex.sdk)
    (hinj : Function.Injective ex.newV4) (startCandle : OhlcCandleRow) (startBalance : ℕ)
    {ops : List Op}
    (hrun : (((system ex).startedIn (ex.new startCandle startBalance)).restrict
      (LedgerOp ex)).Run ops s) :
    s.balance = startBalance
      - (s.runningMap.tradesDesc.map fun e => held e.1).sum
      + s.realizedPl - s.closedFees - s.fundingFees
      - ((ops.map Op.deposited).sum - (ops.map Op.withdrawn).sum) := by
  have hpot : Keyed ex s ∧ ledger s = (startBalance : ℤ) + (ops.map crossFlow).sum := by
    apply hrun.potential
    · intro s hs
      obtain rfl : s = ex.new startCandle startBalance := hs
      refine ⟨keyed_start, ?_⟩
      simp [ledger, SimulatedTradeExecutor.new, heldTotal, RunningTradesMap.new]
    · rintro s op _ hi ⟨⟨hsuc, hcash⟩, rfl⟩
      exact ⟨hi.step op.effect, ledger_step laws hinj hi hsuc hcash op.effect⟩
  have hledger := hpot.2
  rw [sum_crossFlow, ledger, heldTotal_eq] at hledger
  linarith

/-- Two longs, margin added to one, a cross deposit, a settlement and the closes. -/
def mixedOps : List Op :=
  [.call (.isolatedOrder (longOrder 500 2 none)), .call (.isolatedTradeAddMargin ⟨0⟩ 1000),
    .call (.isolatedOrder (longOrder 100 2 none)), .call (.crossDeposit 7000),
    .applyFundingSettlement ⟨Duration.minutes 1, F64.clamp 100000, F64.clamp (1 / 1000)⟩,
    .candleUpdate (minuteCandle 1 100000 100100 99900 100000),
    .call (.isolatedOrderClose ⟨1⟩)]

def openingCandle : OhlcCandleRow := minuteCandle 0 100000 100000 100000 100000

def mixedState : SimulatedTradeExecutorState :=
  performAll referenceExecutor (referenceExecutor.new openingCandle 10000000) mixedOps

theorem isolated_ledger_conserved_mixed :
    mixedState.balance = (10000000 : ℕ)
      - (mixedState.runningMap.tradesDesc.map fun e => held e.1).sum
      + mixedState.realizedPl - mixedState.closedFees - mixedState.fundingFees
      - ((mixedOps.map Op.deposited).sum - (mixedOps.map Op.withdrawn).sum) :=
  isolated_ledger_conserved ReferenceSdk.marginLaws referenceExecutor_newV4 openingCandle 10000000
    (performAll_run rfl (fun _ _ h => ⟨h, rfl⟩) (by decide +kernel))

end Quantoxide.Executor
