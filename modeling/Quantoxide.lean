import Quantoxide.Library.Grid
import Quantoxide.Library.Groups
import Quantoxide.Library.Window
import Quantoxide.Library.Result
import Quantoxide.Library.Netting
import Quantoxide.Library.OrdMap
import Quantoxide.Library.Indexed
import Quantoxide.Library.Runs
import Quantoxide.Library.Loops
import Quantoxide.Library.Calls
import Quantoxide.Library.Queries
import Quantoxide.Library.Executions
import Quantoxide.Library.Timeline
import Quantoxide.Library.GapMarkers
import Quantoxide.Library.Telescope
import Quantoxide.Library.InverseGain
import Quantoxide.Library.Rounding
import Quantoxide.Library.Intervals
import Quantoxide.Library.Spread
import Quantoxide.Library.Brackets
import Quantoxide.Library.Matching
import Quantoxide.Model.Settlements
import Quantoxide.Model.Candles
import Quantoxide.Model.Consolidator
import Quantoxide.Model.Numeric
import Quantoxide.Model.Sdk
import Quantoxide.Model.CrossPosition
import Quantoxide.Model.CrossEstimates
import Quantoxide.Model.Trades
import Quantoxide.Model.Executor
import Quantoxide.Model.Backtest
import Quantoxide.Model.Operators
import Quantoxide.Model.Engine
import Quantoxide.Model.ParallelEngine
import Quantoxide.Model.Database
import Quantoxide.Model.CandleTable
import Quantoxide.Model.SettlementTable
import Quantoxide.Model.LiveCandles
import Quantoxide.Model.PriceHistorySync
import Quantoxide.Model.FundingSync
import Quantoxide.Model.LiveTrade
import Quantoxide.Model.LiveSession
import Quantoxide.Model.LiveExecutor
import Quantoxide.Model.Statuses
import Quantoxide.Model.LiveExecutorProcess
import Quantoxide.Model.RunningTrades
import Quantoxide.Model.TaskControllers
import Quantoxide.Model.LiveSignalProcess
import Quantoxide.Model.SyncProcess
import Quantoxide.Model.LiveProcess
import Quantoxide.Verification.Settlements.Correctness
import Quantoxide.Verification.Settlements.Exactness
import Quantoxide.Verification.Settlements.Missing
import Quantoxide.Verification.Consolidator.Batch
import Quantoxide.Verification.Consolidator.Correctness
import Quantoxide.Verification.Sdk.Reference
import Quantoxide.Verification.CrossPosition.Netting
import Quantoxide.Verification.CrossPosition.Orders
import Quantoxide.Verification.Sdk.Floats
import Quantoxide.Verification.Sdk.CrossLaws
import Quantoxide.Verification.Sdk.Collateral
import Quantoxide.Verification.CrossPosition.Estimates
import Quantoxide.Verification.CrossPosition.Carry
import Quantoxide.Verification.CrossPosition.Coherence
import Quantoxide.Verification.CrossPosition.Sizing
import Quantoxide.Verification.Executor.Passes
import Quantoxide.Verification.Executor.Steps
import Quantoxide.Verification.Executor.Invariants
import Quantoxide.Verification.Executor.Coherence
import Quantoxide.Verification.Sdk.Laws
import Quantoxide.Verification.Executor.Ledger
import Quantoxide.Verification.Executor.Conservation
import Quantoxide.Verification.Executor.Trigger
import Quantoxide.Verification.Executor.Liquidation
import Quantoxide.Verification.Consolidator.Warmup
import Quantoxide.Verification.Consolidator.Split
import Quantoxide.Verification.Engine.Lookbacks
import Quantoxide.Verification.Engine.Replay
import Quantoxide.Verification.Engine.Turns
import Quantoxide.Verification.Engine.Operators
import Quantoxide.Verification.Executor.Clock
import Quantoxide.Verification.Executor.Failures
import Quantoxide.Verification.Executor.Atomicity
import Quantoxide.Verification.Executor.Overdraft
import Quantoxide.Verification.Executor.Trailing
import Quantoxide.Verification.Executor.GoodCandles
import Quantoxide.Verification.Engine.Synchrony
import Quantoxide.Verification.Engine.Charges
import Quantoxide.Verification.Engine.Funding
import Quantoxide.Verification.Consolidator.Coverage
import Quantoxide.Verification.Engine.Warmup
import Quantoxide.Verification.Engine.Windows
import Quantoxide.Verification.Engine.ParallelTurns
import Quantoxide.Verification.Engine.Parallel
import Quantoxide.Verification.Engine.Calls
import Quantoxide.Verification.Engine.Buffering
import Quantoxide.Verification.Engine.Reports
import Quantoxide.Verification.Engine.Gaps
import Quantoxide.Verification.Live.Candles
import Quantoxide.Verification.CandleTable.Markers
import Quantoxide.Verification.CandleTable.Marks
import Quantoxide.Verification.CandleTable.Holes
import Quantoxide.Verification.Sync.Backfill
import Quantoxide.Verification.Sync.LiveHistory
import Quantoxide.Verification.Sync.LiveProgress
import Quantoxide.Verification.Sync.FundingScan
import Quantoxide.Verification.Sync.FundingBackfill
import Quantoxide.Verification.Sync.FundingProgress
import Quantoxide.Verification.Live.Session
import Quantoxide.Verification.Live.Closures
import Quantoxide.Verification.Live.Renewal
import Quantoxide.Verification.Live.Missed
import Quantoxide.Verification.Live.Shutdown
import Quantoxide.Verification.Live.System
import Quantoxide.Model.PriceTicks
import Quantoxide.Model.LiveEvaluation
import Quantoxide.Model.RealTimeCollection
import Quantoxide.Verification.Live.PriceRange
import Quantoxide.Verification.Live.Evaluations
import Quantoxide.Verification.Live.Trigger
import Quantoxide.Verification.Live.SkippedEvaluations
import Quantoxide.Verification.Live.Counterparts
import Quantoxide.Verification.Live.Cap
import Quantoxide.Verification.Live.Funding
import Quantoxide.Verification.Live.HistoryWarmup
import Quantoxide.Verification.Live.RunningTrades
import Quantoxide.Verification.Live.Durability
import Quantoxide.Verification.Live.CrossLedger
import Quantoxide.Verification.Live.Agreement
import Quantoxide.Verification.Controllers.Manager
import Quantoxide.Verification.Controllers.Backtest
import Quantoxide.Verification.Controllers.Sync
import Quantoxide.Verification.Live.SignalSchedule
import Quantoxide.Verification.Live.SignalRuns
import Quantoxide.Verification.Sync.RealTimeCollection
import Quantoxide.Verification.Sync.Starts
import Quantoxide.Verification.Sync.Process
import Quantoxide.Verification.Live.Calls
import Quantoxide.Verification.Live.Lockstep
import Quantoxide.Verification.Live.RawOperator
