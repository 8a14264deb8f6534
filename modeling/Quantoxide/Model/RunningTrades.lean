import Quantoxide.Model.LiveExecutor

/-! # The table of running trades

The executor stores the trailing stoploss of each trade it opens, since the exchange does not
know of it. The rows of all accounts share one table; its key and its check are fields. -/

namespace Quantoxide

open Result

/-- `RunningTrade` with its key. -/
structure RunningTradeRow where
  accountId : Uuid
  tradeId : Uuid
  trailingStoploss : Option F64
  createdAt : ℤ
deriving DecidableEq

namespace RunningTradeRow

def key (r : RunningTradeRow) : Uuid × Uuid := (r.accountId, r.tradeId)

/-- `CHECK (trailing_stoploss IS NULL OR …)`. -/
def TrailingStoplossBounded (r : RunningTradeRow) : Prop :=
  ∀ tsl ∈ r.trailingStoploss, F64.ofRat (1 / 10) ≤ tsl ∧ tsl ≤ F64.ofRat (999 / 10)

instance (r : RunningTradeRow) : Decidable r.TrailingStoplossBounded :=
  inferInstanceAs (Decidable (∀ tsl ∈ r.trailingStoploss, _))

end RunningTradeRow

inductive RunningTradesError (ε : Type)
  | query
  | unexpectedQueryResult (tsl : F64) (e : ε)
deriving DecidableEq

structure RunningTradesTable where
  rows : List RunningTradeRow
  primaryKey : (rows.map RunningTradeRow.key).Nodup
  bounded : ∀ r ∈ rows, r.TrailingStoplossBounded

namespace RunningTradesTable

variable (table : RunningTradesTable)

def empty : RunningTradesTable := ⟨[], List.nodup_nil, List.forall_mem_nil _⟩

/-- The `INSERT`, which its key and its check can refuse. -/
def addRunningTrade (now : ℤ) (accountId tradeId : Uuid)
    (trailingStoploss : Option TradeTrailingStoploss) :
    Except DbError RunningTradesTable :=
  let row : RunningTradeRow :=
    ⟨accountId, tradeId, trailingStoploss.map fun tsl => tsl.perc.asF64, now⟩
  if h : row.key ∉ table.rows.map RunningTradeRow.key ∧ row.TrailingStoplossBounded then
    .ok
      { rows := table.rows ++ [row]
        primaryKey := by
          rw [List.map_append, List.map_singleton, List.nodup_append_comm]
          exact List.nodup_cons.mpr ⟨h.1, table.primaryKey⟩
        bounded := by
          intro r hr
          rcases List.mem_append.mp hr with hr | hr
          · exact table.bounded r hr
          · exact List.mem_singleton.mp hr ▸ h.2 }
  else .error .query

/-- `DELETE … WHERE account_id = $1 AND trade_id = ANY($2)`. -/
def removeRunningTrades (accountId : Uuid) (tradeIds : List Uuid) : RunningTradesTable where
  rows := table.rows.filter fun r => !(r.accountId = accountId && tradeIds.contains r.tradeId)
  primaryKey := table.primaryKey.sublist (List.filter_sublist.map _)
  bounded := fun r hr => table.bounded r (List.mem_filter.mp hr).1

/-- The account's rows, `ORDER BY created_at ASC`. -/
def rowsOf (accountId : Uuid) : List RunningTradeRow :=
  (table.rows.filter fun r => r.accountId = accountId).mergeSort fun a b =>
    a.createdAt ≤ b.createdAt

variable {ε : Type} (tryFrom : F64 → Except ε PercentageCapped)

/-- `tryFrom` is the conversion of the SDK, which a stored trailing stoploss went through. -/
def insertRow (m : OrdMap Uuid (Option TradeTrailingStoploss)) (r : RunningTradeRow) :
    Except (RunningTradesError ε) (OrdMap Uuid (Option TradeTrailingStoploss)) :=
  match r.trailingStoploss with
  | none => .ok (m.insert r.tradeId none)
  | some tsl => do
    let perc ← (tryFrom tsl).mapError (.unexpectedQueryResult tsl)
    pure (m.insert r.tradeId (some ⟨perc⟩))

def getRunningTradesMap (accountId : Uuid) :
    Except (RunningTradesError ε) (OrdMap Uuid (Option TradeTrailingStoploss)) :=
  (table.rowsOf accountId).foldlM (insertRow tryFrom) .empty

end RunningTradesTable

/-! ### Margin of a running trade -/

/-- The SDK's margin of a quantity at a price and leverage, and its highest leverage. -/
structure MarginSdk where
  leverageMax : Leverage
  marginCalculate : Quantity → Price → Leverage → Margin

inductive MarginActionError (ε : Type)
  | action (e : ExecutorActionError ε)
  | marginAmountExceedsMaxForTrade (amount maxAmount : ℕ)
  | cashInAmountExceedsMaxForTrade (amount maxCashIn : ℕ)
deriving DecidableEq

namespace Trade

variable {ε : Type} (sdk : LnmSdk ε) (margins : MarginSdk) (t : Trade)

def estMaxAdditionalMargin : ℕ :=
  if t.leverage = sdk.leverageMin then 0
  else (margins.marginCalculate t.quantity t.price sdk.leverageMin).asU64 - t.margin.asU64

def estMaxCashIn (marketPrice : Price) : ℕ :=
  let extractablePl := min (2 ^ 64 - 1) ⌊(max (t.estPl sdk marketPrice) 0).val⌋.toNat
  let minMargin := margins.marginCalculate t.quantity t.price margins.leverageMax
  t.margin.asU64 - minMargin.asU64 + extractablePl

end Trade

def DynRunningTradesMap.getById (m : DynRunningTradesMap) (id : Uuid) : Option TradeEntry :=
  (m.idToTime.get id).bind fun creationTs => m.trades.get (toLex (creationTs, id))

namespace LiveTradeExecutor

variable {ε : Type} (sdk : LnmSdk ε) (margins : MarginSdk) (session : LiveTradingSession)

/-- The trade as the exchange returns it, in the session. -/
def bookUpdatedTrade (answer : Except ε Trade) :
    Except (MarginActionError ε) LiveTradingSession :=
  (do
    let updatedTrade ← answer.mapError .restApi
    session.updateRunningTrades sdk (tradesById [updatedTrade])
    : ActionResult ε LiveTradingSession).mapError .action

/-- The session that `isolated_trade_add_margin` stores. -/
def isolatedTradeAddMargin (tradeId : Uuid) (amount : ℕ)
    (answer : Uuid → ℕ → Except ε Trade) : Except (MarginActionError ε) LiveTradingSession :=
  match session.runningMap.getById tradeId with
  | none => .error (.action (.tradeNotRegistered tradeId))
  | some (currentTrade, _) =>
    let maxAmount := currentTrade.estMaxAdditionalMargin sdk margins
    if amount > maxAmount then .error (.marginAmountExceedsMaxForTrade amount maxAmount)
    else if amount ≥ session.balance then .error (.action .balanceTooLow)
    else bookUpdatedTrade sdk session (answer tradeId amount)

/-- The session that `isolated_trade_cash_in` stores. -/
def isolatedTradeCashIn (tradeId : Uuid) (amount : ℕ)
    (latestEntry : Except DbError (Option (ℤ × F64))) (answer : Uuid → ℕ → Except ε Trade) :
    Except (MarginActionError ε) LiveTradingSession :=
  match session.runningMap.getById tradeId with
  | none => .error (.action (.tradeNotRegistered tradeId))
  | some (currentTrade, _) => do
    let marketPrice ← (getEstimatedMarketPrice sdk latestEntry).mapError .action
    let maxCashIn := currentTrade.estMaxCashIn sdk margins marketPrice
    if amount > maxCashIn then .error (.cashInAmountExceedsMaxForTrade amount maxCashIn)
    else bookUpdatedTrade sdk session (answer tradeId amount)

end LiveTradeExecutor

end Quantoxide
