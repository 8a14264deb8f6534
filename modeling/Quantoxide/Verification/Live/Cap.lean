import Quantoxide.Model.LiveExecutor
import Quantoxide.Verification.Executor.Overdraft
import Quantoxide.Verification.Live.System

/-! # The cap on running trades

A live order is refused when as many trades run as the cap allows, a simulated one also when
more do. Recovery at start-up and renewal takes whatever runs on the exchange. -/

namespace Quantoxide.Live

open Result LiveTradingSession LiveTradeExecutor Runs

variable {ε : Type} {sdk : LnmSdk ε} {session s' : LiveTradingSession}
  {config : LiveTradeExecutorConfig}

/-! ### One order -/

theorem checkOrder_below {answers : OrderAnswers ε} {side : TradeSide} {size : TradeSize}
    {leverage : Leverage} {stoploss : Option Stoploss} {takeprofit : Option Price}
    {checked : Option Price × Option TradeTrailingStoploss}
    (h : checkOrder sdk config session answers side size leverage stoploss takeprofit =
      .ok checked) : session.runningMap.len ≠ config.tradeMaxRunningQtd := by
  unfold checkOrder at h
  rw [bind_eq_ok] at h
  obtain ⟨market, -, h⟩ := h
  have hcap : ∀ stop : Option Price × Option TradeTrailingStoploss, ∀ params : OpenTradeParams,
      ((if params.margin.asU64 + params.openingFee + params.closingFeeReserved > session.balance
        then .error .balanceTooLow
        else if session.runningMap.len = config.tradeMaxRunningQtd then
          .error (.maxRunningTradesReached config.tradeMaxRunningQtd)
        else pure (stop.1, stop.2) : ActionResult ε _)) = .ok checked →
        session.runningMap.len ≠ config.tradeMaxRunningQtd := by
    intro stop params hok
    split_ifs at hok with hbalance hlen
    exact hlen
  cases stoploss with
  | none =>
      simp only [bind_eq_ok] at h
      obtain ⟨stop, -, params, -, h⟩ := h
      exact hcap stop params h
  | some stoploss =>
      simp only [bind_eq_ok] at h
      obtain ⟨_, -, stop, -, params, -, h⟩ := h
      exact hcap stop params h

theorem len_of_registers {t : Trade} {tsl : Option TradeTrailingStoploss}
    (h : session.Registers sdk t tsl s') : s'.runningMap.len = session.runningMap.len + 1 := by
  have hnew : session.runningMap.idToTime.get t.id = none := by
    simpa [DynRunningTradesMap.contains] using h.unknown
  rw [h.runningMap]
  exact OrdMap.size_insert hnew

/-- A live order that succeeds registers one more trade, and did not find the cap met. -/
theorem executeIsolatedOrder_len {answers : OrderAnswers ε} {side : TradeSide}
    {size : TradeSize} {leverage : Leverage} {stoploss : Option Stoploss}
    {takeprofit : Option Price} {id : Uuid}
    (h : (executeIsolatedOrder sdk config session answers side size leverage stoploss
      takeprofit).result = .ok id) :
    session.runningMap.len ≠ config.tradeMaxRunningQtd ∧
      (executeIsolatedOrder sdk config session answers side size leverage stoploss
        takeprofit).session.runningMap.len = session.runningMap.len + 1 := by
  unfold executeIsolatedOrder at h ⊢
  cases hcheck : checkOrder sdk config session answers side size leverage stoploss takeprofit with
  | error e => simp [hcheck, LiveOutcome.rejected] at h
  | ok checked =>
      refine ⟨checkOrder_below hcheck, ?_⟩
      obtain ⟨stoplossPrice, tsl⟩ := checked
      simp only [hcheck] at h ⊢
      cases hnew : answers.newTrade side size leverage stoplossPrice takeprofit with
      | error e => simp [hnew, LiveOutcome.rejected] at h
      | ok trade =>
          simp only [hnew] at h ⊢
          cases hadd : answers.addRunningTrade trade.id tsl with
          | error e => simp [hadd, LiveOutcome.store, bind, Except.bind] at h
          | ok u =>
              cases hregister : session.registerRunningTrade sdk trade tsl true with
              | error e => simp [hadd, hregister, LiveOutcome.store, bind, Except.bind] at h
              | ok s' => exact len_of_registers (registers_of_ok hregister)

/-- A simulated order that succeeds leaves no more trades running than the cap. -/
theorem isolatedOrder_len {ex : SimulatedTradeExecutor ε} {s : SimulatedTradeExecutorState}
    {request : IsolatedOrderRequest} {id : Uuid} (h : (ex.isolatedOrder s request).2 = .ok id) :
    (ex.isolatedOrder s request).1.runningMap.len ≤ ex.config.tradeMaxRunningQtd := by
  rcases Executor.isolatedOrder_cases ex s request with
    ⟨drawn, e, hout⟩ | ⟨trade, tsl, hopen, hbalance, hroom⟩
  · simp [hout] at h
  · rcases Executor.isolatedOrder_paid hopen hbalance hroom with
      ⟨-, trigger, hout⟩ | ⟨-, e, hout⟩
    · have hsize := OrdMap.size_insert_le (m := s.runningMap.idToTime) (k := trade.id)
        (a := trade.entryTime)
      rw [hout]
      exact hsize.trans hroom
    · simp [hout] at h

/-! ### Runs whose recoveries keep within the cap -/

/-- A start-up or a renewal that finds no more trades running than the cap allows. -/
def RecoversWithin (max : ℕ) (recoverTradesOnStartup : Bool) (sources : SessionSources ε) : Prop :=
  recoverTradesOnStartup = true →
    ∀ runningTrades, sources.tradesRunning = .ok runningTrades → runningTrades.length ≤ max

/-- The step recovers within the cap; a trade is registered past the check of an order. -/
def KeepsWithin (max : ℕ) (session : LiveTradingSession) : SessionOp ε → Prop
  | .renew recover _ sources => RecoversWithin max recover sources
  | .registerRunningTrade _ _ _ => session.runningMap.len ≠ max
  | _ => True

/-- The sessions of an executor that always recovers within the cap. -/
def cappedSystem (sdk : LnmSdk ε) (max : ℕ) : System LiveTradingSession (SessionOp ε) where
  start s := ∃ recover tslStepSize sources, RecoversWithin max recover sources ∧
    LiveTradingSession.new sdk recover tslStepSize sources none = .ok s
  step s op s' := KeepsWithin max s op ∧ op.next sdk s = s'

theorem len_eq_ids {m : DynRunningTradesMap} (h : m.Consistent) : m.len = m.ids.length := by
  have hsize := Indexed.Agree.size_eq h
  rw [DynRunningTradesMap.ids_eq_reverse, List.length_reverse, Indexed.ids, List.length_map]
  exact hsize

theorem len_le_of_ids {m m' : DynRunningTradesMap} (h : m.Consistent) (h' : m'.Consistent)
    (hsub : ∀ id ∈ m'.ids, id ∈ m.ids) : m'.len ≤ m.len := by
  rw [len_eq_ids h, len_eq_ids h']
  exact (h'.nodup.subperm hsub).length_le

theorem len_of_new {recover : Bool} {tslStepSize : PercentageCapped}
    {sources : SessionSources ε} {prev : Option LiveTradingSession} {max : ℕ}
    (hwithin : RecoversWithin max recover sources)
    (h : LiveTradingSession.new sdk recover tslStepSize sources prev = .ok s') :
    s'.runningMap.len ≤ max := by
  have hsound := sound_of_new h
  cases recover with
  | false =>
      rw [(unrecovered_of_new h).runningMap]
      exact Nat.zero_le max
  | true =>
      obtain ⟨runningTrades, rows, hrenews⟩ := renews_of_ok h
      obtain ⟨_, _, _, _, hrecovers⟩ := hrenews.built
      have hids : ∀ id ∈ s'.runningMap.ids, id ∈ runningTrades.map (·.id) := by
        intro id hid
        obtain ⟨e, he, rfl⟩ := DynRunningTradesMap.mem_ids.mp hid
        obtain ⟨t, ht, rfl⟩ := (hrecovers.mem_iff e).mp he
        exact List.mem_map_of_mem ht
      have hlen := (hsound.consistent.nodup.subperm hids).length_le
      rw [List.length_map] at hlen
      rw [len_eq_ids hsound.consistent]
      exact hlen.trans (hwithin rfl runningTrades hrenews.running)

theorem len_of_perform {op : SessionOp ε} {max : ℕ} (hs : session.Sound sdk)
    (hlen : session.runningMap.len ≤ max) (hkeeps : KeepsWithin max session op)
    (h : op.perform sdk session = .ok s') : s'.runningMap.len ≤ max := by
  have hs' := sound_of_perform hs h
  have hsame : SameTrades session s' → s'.runningMap.len ≤ max := by
    intro hsame
    rw [hsame.runningMap]
    exact hlen
  cases op with
  | renew recover tslStepSize sources => exact len_of_new hkeeps h
  | registerRunningTrade trade tsl updateBalance =>
      rw [len_of_registers (registers_of_ok h)]
      exact lt_of_le_of_ne hlen hkeeps
  | updateRunningTrades updatedTrades =>
      have hkeyed := keyed_tradesById updatedTrades
      refine (len_le_of_ids hs.consistent hs'.consistent fun id hid => ?_).trans hlen
      exact ((updates_of_ok hs hkeyed h).1.mem_ids hkeyed).mp hid
  | closeTrades closedTrades =>
      have hcloses := (closes_of_ok hs h).1
      refine (len_le_of_ids hs.consistent hs'.consistent fun id hid => ?_).trans hlen
      obtain ⟨e, he, rfl⟩ := DynRunningTradesMap.mem_ids.mp hid
      exact DynRunningTradesMap.mem_ids_of_mem ((hcloses.mem_iff e).mp he).1
  | evaluated time price =>
      obtain rfl := Except.ok.inj h
      exact hlen
  | replaceCrossPosition raw => exact hsame (sameTrades_replaceCrossPosition h)
  | applyCrossDeposit amount raw => exact hsame (sameTrades_applyCrossDeposit h)
  | applyCrossWithdraw amount raw => exact hsame (sameTrades_applyCrossWithdraw h)
  | registerCrossOrder raw order => exact hsame (sameTrades_registerCrossOrder h)

theorem len_of_run {ops : List (SessionOp ε)} {max : ℕ}
    (h : (cappedSystem sdk max).Run ops session) : session.runningMap.len ≤ max := by
  have hinv : session.Sound sdk ∧ session.runningMap.len ≤ max := by
    apply h.invariant
    · intro s hstart
      obtain ⟨recover, tslStepSize, sources, hwithin, hnew⟩ := hstart
      exact ⟨sound_of_new hnew, len_of_new hwithin hnew⟩
    · intro s op next hi hstep
      obtain ⟨hkeeps, rfl⟩ := hstep
      refine ⟨sound_next op hi.1, ?_⟩
      unfold SessionOp.next
      cases hop : op.perform sdk s with
      | error e => exact hi.2
      | ok s' => exact len_of_perform hi.1 hi.2 hkeeps hop
  exact hinv.2

/-- A live order that succeeds leaves no more trades running than the cap exactly when no more
ran before it, as in every run whose recoveries keep within the cap. -/
theorem live_cap_iff (config : LiveTradeExecutorConfig) :
    (∀ (session : LiveTradingSession) (answers : OrderAnswers ε) (side : TradeSide)
      (size : TradeSize) (leverage : Leverage) (stoploss : Option Stoploss)
      (takeprofit : Option Price) (id : Uuid),
      (executeIsolatedOrder sdk config session answers side size leverage stoploss
        takeprofit).result = .ok id →
      ((executeIsolatedOrder sdk config session answers side size leverage stoploss
          takeprofit).session.runningMap.len ≤ config.tradeMaxRunningQtd ↔
        session.runningMap.len ≤ config.tradeMaxRunningQtd)) ∧
    ∀ (ops : List (SessionOp ε)) (session : LiveTradingSession),
      (cappedSystem sdk config.tradeMaxRunningQtd).Run ops session →
        session.runningMap.len ≤ config.tradeMaxRunningQtd := by
  constructor
  · intro session answers side size leverage stoploss takeprofit id h
    obtain ⟨hne, hlen⟩ := executeIsolatedOrder_len h
    rw [hlen]
    constructor
    · intro hafter
      exact (Nat.le_succ _).trans hafter
    · intro hbefore
      exact lt_of_le_of_ne hbefore hne
  · intro ops session hrun
    exact len_of_run hrun

/-! ### An order above the cap -/

/-- An account with two trades running when the executor starts. -/
def crowdedSources : SessionSources Refusal :=
  accountSources (Duration.hours 2) [heldTrade, { heldTrade with id := ⟨2⟩ }] .empty

def crowdedStart : ActionResult Refusal LiveTradingSession :=
  LiveTradingSession.new referenceSdk true ReferenceSdk.tenthPercent crowdedSources none

theorem crowdedStart_isOk : crowdedStart.isOk = true := by decide +kernel

def crowdedSession : LiveTradingSession := get _ crowdedStart_isOk

/-- The exchange opens a third trade. -/
def thirdTrade : OrderAnswers Refusal where
  latestEntry := .ok (some (Duration.hours 2, F64.clamp 100000))
  newTrade _ _ _ _ _ := .ok { heldTrade with id := ⟨3⟩ }
  addRunningTrade _ _ := .ok ()

/-- An order of a thousand dollars on an executor with the cap. -/
def crowdedOrder (max : ℕ) : LiveOutcome Refusal Uuid :=
  executeIsolatedOrder referenceSdk ⟨ReferenceSdk.tenthPercent, ReferenceSdk.tenthPercent, max⟩
    crowdedSession thirdTrade .buy (.quantity ⟨1000⟩) ⟨F64.clamp 10⟩ none none

theorem crowdedOrder_isOk : ∀ max ∈ [1, 3], (crowdedOrder max).result = .ok ⟨3⟩ := by
  decide +kernel

theorem live_cap_crowded :
    ((crowdedOrder 3).session.runningMap.len ≤ 3 ↔ crowdedSession.runningMap.len ≤ 3) ∧
      ∀ ops session, (cappedSystem referenceSdk 3).Run ops session →
        session.runningMap.len ≤ 3 := by
  have hcap := @live_cap_iff _ referenceSdk
    ⟨ReferenceSdk.tenthPercent, ReferenceSdk.tenthPercent, 3⟩
  exact ⟨hcap.1 _ _ _ _ _ _ _ _ (crowdedOrder_isOk 3 (by decide)), hcap.2⟩

theorem order_exceeds_cap :
    (sessionSystem referenceSdk).Run [] crowdedSession ∧
      (crowdedOrder 1).result = .ok ⟨3⟩ ∧ ¬ (crowdedOrder 1).session.runningMap.len ≤ 1 := by
  have hstart : crowdedStart = .ok crowdedSession := eq_ok_get _
  refine ⟨.start ⟨true, _, crowdedSources, hstart⟩, crowdedOrder_isOk 1 (by decide), ?_⟩
  decide +kernel

end Quantoxide.Live
