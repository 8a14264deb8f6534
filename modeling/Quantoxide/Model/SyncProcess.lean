import Quantoxide.Model.FundingSync
import Quantoxide.Model.PriceHistorySync
import Quantoxide.Model.RealTimeCollection
import Quantoxide.Model.Statuses

/-! # The sync process

A mode downloads what it needs, publishes that it has, and then keeps the data up to date. The
process starts its mode anew after a recoverable error. A step is a turn of a task's loop, or
what an await of the process returns; whatever it awaits can also fail. -/

namespace Quantoxide

open SyncPriceHistoryTask (LiveError)

inductive SyncTaskError (ε : Type)
  | priceHistory (e : LiveError ε)
  | fundingSettlements (e : SyncFundingSettlementsError ε)
  | realTimeCollection (e : RealTimeCollectionError)

inductive SyncProcessError (ε : Type)
  | recoverable (e : SyncProcessRecoverableError (SyncTaskError ε))
  | fatal (e : SyncProcessFatalError (SyncTaskError ε))

namespace SyncProcessError

variable {ε : Type}

def mapPriceHistoryError (e : LiveError ε) : SyncProcessError ε :=
  match e with
  | .task (.recoverable _) => .recoverable (.syncPriceHistory (.priceHistory e))
  | .task (.fatal _) => .fatal (.syncPriceHistory (.priceHistory e))
  | .lookbackExceedsPriceHistoryReach _ _ => .fatal (.syncPriceHistory (.priceHistory e))

def mapFundingSettlementsError (e : SyncFundingSettlementsError ε) : SyncProcessError ε :=
  match e with
  | .recoverable _ => .recoverable (.syncFundingSettlements (.fundingSettlements e))
  | .fatal _ => .fatal (.syncFundingSettlements (.fundingSettlements e))

end SyncProcessError

structure SyncProcessConfig where
  streamEnabled : Bool
  priceHistoryFlagGapRange : Option ℤ
  fundingSettlementFlagMissingRange : Option ℤ
  priceHistory : SyncPriceHistoryTaskConfig
  fundingSettlements : SyncFundingSettlementsTaskConfig

inductive SyncModeInt
  | backfill
  | liveNoLookback
  | liveWithLookback (lookback : ℤ)
  | full
deriving DecidableEq

/-- Which part of its mode the process is in. The flag ranges are for the first pass only. -/
inductive SyncPart
  | downloading (firstPass : Bool)
  | listening (isSynced : Bool)
  | polling

/-- What the process awaits: a part of a task, the start of the stream, or its timers. -/
inductive SyncAwait
  | fundingState
  | backfillStart (flagGapsRange : Option ℤ)
  | backfillLoop (state : PriceHistoryState)
  | liveStart
  | liveLoop
  | fundingStart (flagMissingRange : Option ℤ)
  | fundingLoop (flagMissingRange : Option ℤ) (state : ScannedSettlementsState)
      (excludeMissingAfter : Option ℤ)
  | stream
  | select
  | sleep

inductive SyncStage
  | spawned
  | starting
  | running (part : SyncPart) (await : SyncAwait)
  | restarting
  | ended

/-- The process with the database it writes. Kept beside it are when the downloads at hand were
begun, when the last history that its mode has completed was begun, or else the mode was started,
and the ticks received since. -/
structure SyncProcess (ε : Type) where
  db : Database
  now : ℤ
  stage : SyncStage
  status : SyncStatus (SyncTaskError ε)
  arcs : ℕ
  begun : ℤ
  since : ℤ
  ticks : ℕ

inductive SyncProcessEvent (ε : Type)
  | spawned
  | starts (utcNow : ℤ)
  | evaluates (utcNow : ℤ)
  | flags (clock : Clock)
  | downloads (utcNow : ℤ) (turn : SyncTurn ε)
  | downloadsSettlements (turn : FundingTurn ε)
  | streamStarts
  | tick
  | reSyncTimer (utcNow : ℤ)
  | fundingTimer
  | fails (error : SyncProcessError ε)
  | restartInterval
  | stops

namespace SyncProcess

open ScannedSettlementsState SyncPriceHistoryTask SyncProcessError

variable {ε : Type} (config : SyncProcessConfig) (mode : SyncModeInt) (p : SyncProcess ε)

def spawn (db : Database) (now : ℤ) : SyncProcess ε where
  db := db
  now := now
  stage := .spawned
  status := .notSynced .notInitiated
  arcs := 0
  begun := now
  since := now
  ticks := 0

def update (newStatus : SyncStatus (SyncTaskError ε)) : SyncProcess ε :=
  { p with status := if p.status.eq newStatus then p.status else newStatus }

def run (part : SyncPart) (await : SyncAwait) : SyncProcess ε :=
  { p with stage := .running part await }

/-- What `recovery_loop` does with an error of the mode. -/
def fail : SyncProcessError ε → SyncProcess ε
  | .recoverable e =>
    { p with arcs := p.arcs + 1, stage := .restarting }.update (.notSynced (.failed ⟨p.arcs, e⟩))
  | .fatal e => { p with arcs := p.arcs + 1, stage := .ended }.update (.terminated ⟨p.arcs, e⟩)

/-- The start of `run_mode`. -/
def startMode (utcNow : ℤ) : SyncProcess ε :=
  let p := { p with begun := utcNow, since := utcNow, now := utcNow, ticks := 0 }.update
    (.notSynced .inProgress)
  match mode with
  | .backfill | .full => p.run (.downloading true) .fundingState
  | .liveNoLookback =>
    p.run (.downloading true) (if config.streamEnabled then .stream else .backfillStart none)
  | .liveWithLookback _ => p.run (.downloading true) .liveStart

/-- The start of a live mode's loop. -/
def startLive (part : SyncPart) : SyncProcess ε :=
  if config.streamEnabled then p.run part .stream else (p.update .synced).run .polling .sleep

def afterHistory (part : SyncPart) : SyncProcess ε :=
  let p := { p with since := p.begun }
  match part with
  | .downloading firstPass =>
    match mode with
    | .backfill => p.run part
        (.fundingStart (if firstPass then config.fundingSettlementFlagMissingRange else none))
    | .full => p.run part (.fundingStart config.fundingSettlementFlagMissingRange)
    | .liveNoLookback | .liveWithLookback _ => p.startLive config part
  | .listening _ => p.run part .select
  | .polling => p.run part .sleep

def afterFunding (part : SyncPart) : SyncProcess ε :=
  match part with
  | .downloading _ =>
    match mode with
    | .backfill => (p.update .backfilled).run (.downloading false) .sleep
    | .liveNoLookback | .liveWithLookback _ | .full => p.startLive config part
  | .listening _ => p.run part .select
  | .polling => p.run part .sleep

/-- The task that a re-sync runs. -/
def reSyncTask : SyncAwait :=
  match mode with
  | .liveWithLookback _ => .liveStart
  | .backfill | .liveNoLookback | .full => .backfillStart none

/-- The candles are written before the state is evaluated, which can fail. -/
def backfillTurnWrites (turn : SyncTurn ε) (state : PriceHistoryState) (db : Database) :
    Database :=
  match state.nextDownloadRange true with
  | .ok range => (partialDownload config.priceHistory turn range db).toOption.getD db
  | .error _ => db

def onBackfillTurn (part : SyncPart) (state : PriceHistoryState) (turn : SyncTurn ε) :
    SyncProcess ε :=
  match backfillTurn config.priceHistory turn p.db state with
  | .error e =>
    { p with db := backfillTurnWrites config turn state p.db, now := turn.addClock.utcNow }.fail
      (mapPriceHistoryError (.task e))
  | .ok (db, state, finished) =>
    let p := { p with db, now := turn.addClock.utcNow }
    if finished then p.afterHistory config mode part else p.run part (.backfillLoop state)

def onLiveStart (part : SyncPart) (lookback utcNow : ℤ) (turn : SyncTurn ε) : SyncProcess ε :=
  if utcNow - lookback < config.priceHistory.priceHistoryReach then
    p.fail (mapPriceHistoryError (.lookbackExceedsPriceHistoryReach (utcNow - lookback)
      config.priceHistory.priceHistoryReach))
  else
    match SyncPriceHistoryTask.liveStart config.priceHistory turn p.db with
    | .error e => p.fail (mapPriceHistoryError (.task e))
    | .ok db => { p with db, now := turn.addClock.utcNow }.run part .liveLoop

def onLiveTurn (part : SyncPart) (lookback : ℤ) (turn : SyncTurn ε) : SyncProcess ε :=
  match liveTurn config.priceHistory turn lookback p.db with
  | .error e => p.fail (mapPriceHistoryError (.task e))
  | .ok none => p.afterHistory config mode part
  | .ok (some db) => { p with db, now := turn.addClock.utcNow }.run part .liveLoop

/-- The settlements are written before the state is evaluated, which can fail. -/
def fundingTurnWrites (turn : FundingTurn ε) (state : ScannedSettlementsState) (db : Database) :
    Database :=
  match (state.nextDownloadRange true : SyncFundingSettlementsResult ε FundingDownloadRange) with
  | .ok range => (SyncFundingSettlementsTask.partialDownload config.fundingSettlements turn range
      db).toOption.getD db
  | .error _ => db

def onFundingTurn (part : SyncPart) (flagMissingRange : Option ℤ) (s : FundingBackfill)
    (turn : FundingTurn ε) : SyncProcess ε :=
  match SyncFundingSettlementsTask.backfillTurn config.fundingSettlements flagMissingRange turn s
    with
  | .error e =>
    { p with db := fundingTurnWrites config turn s.state s.db }.fail (mapFundingSettlementsError e)
  | .ok (s, some _) => { p with db := s.db }.afterFunding config mode part
  | .ok (s, none) =>
    { p with db := s.db }.run part (.fundingLoop flagMissingRange s.state s.excludeMissingAfter)

/-- A scan of the settlements: that of the mode's start, or that of the funding task's. -/
def onEvaluate (part : SyncPart) (flagMissingRange : Option ℤ) (utcNow : ℤ)
    (next : ScannedSettlementsState → SyncAwait) : SyncProcess ε :=
  match evaluateWithReach p.db config.fundingSettlements.fundingSettlementReach flagMissingRange
    none utcNow with
  | .error e => p.fail (mapFundingSettlementsError e)
  | .ok state => p.run part (next state)

def onFlags (part : SyncPart) (flagGapsRange : Option ℤ) (clock : Clock) : SyncProcess ε :=
  let p := { p with db := flagged flagGapsRange clock p.db }
  match PriceHistoryState.evaluateWithReach p.db config.priceHistory.priceHistoryReach with
  | .error e => p.fail (mapPriceHistoryError (.task (.fatal e)))
  | .ok state => p.run part (.backfillLoop state)

/-- A tick that was inserted. -/
def onTick (isSynced : Bool) : SyncProcess ε :=
  let p := { p with ticks := p.ticks + 1 }
  (if isSynced then p else p.update .synced).run (.listening true) .select

def onReSyncTimer (utcNow : ℤ) : SyncPart → SyncAwait → Option (SyncProcess ε)
  | .downloading firstPass, .sleep =>
    some ({ p with begun := utcNow, now := utcNow }.update (.notSynced .inProgress) |>.run
      (.downloading firstPass) (.backfillStart none))
  | .listening isSynced, .select =>
    match mode with
    | .backfill | .liveNoLookback => none
    | .liveWithLookback _ | .full =>
      some ({ p with begun := utcNow, now := utcNow }.run (.listening isSynced) (reSyncTask mode))
  | .polling, .sleep =>
    some ({ p with begun := utcNow, now := utcNow }.run .polling (reSyncTask mode))
  | _, _ => none

def onFundingTimer : SyncPart → SyncAwait → Option (SyncProcess ε)
  | .listening isSynced, .select =>
    if mode = .full then some (p.run (.listening isSynced) (.fundingStart none)) else none
  | .polling, .sleep => if mode = .full then some (p.run .polling (.fundingStart none)) else none
  | _, _ => none

def onEvent (part : SyncPart) (await : SyncAwait) : SyncProcessEvent ε → Option (SyncProcess ε)
  | .evaluates utcNow =>
    match await with
    | .fundingState => some (p.onEvaluate config part config.fundingSettlementFlagMissingRange
        utcNow fun _ => .backfillStart config.priceHistoryFlagGapRange)
    | .fundingStart flagMissingRange => some (p.onEvaluate config part flagMissingRange utcNow
        fun state => .fundingLoop flagMissingRange state none)
    | _ => none
  | .flags clock =>
    match await with
    | .backfillStart flagGapsRange => some (p.onFlags config part flagGapsRange clock)
    | _ => none
  | .downloads utcNow turn =>
    match await, mode with
    | .backfillLoop state, _ => some (p.onBackfillTurn config mode part state turn)
    | .liveStart, .liveWithLookback lookback =>
      some (p.onLiveStart config part lookback utcNow turn)
    | .liveLoop, .liveWithLookback lookback => some (p.onLiveTurn config mode part lookback turn)
    | _, _ => none
  | .downloadsSettlements turn =>
    match await with
    | .fundingLoop flagMissingRange state excludeMissingAfter =>
      some (p.onFundingTurn config mode part flagMissingRange ⟨p.db, state, excludeMissingAfter⟩
        turn)
    | _ => none
  | .streamStarts =>
    match await with
    | .stream => some (p.run (.listening false) .select)
    | _ => none
  | .tick =>
    match part, await with
    | .listening isSynced, .select => some (p.onTick isSynced)
    | _, _ => none
  | .reSyncTimer utcNow => p.onReSyncTimer mode utcNow part await
  | .fundingTimer => p.onFundingTimer mode part await
  | .fails error => some (p.fail error)
  | .stops => some { p with stage := .ended }
  | .spawned | .starts _ | .restartInterval => none

def step (event : SyncProcessEvent ε) : Option (SyncProcess ε) :=
  match p.stage, event with
  | .spawned, .spawned => some ({ p with stage := .starting }.update (.notSynced .starting))
  | .starting, .starts utcNow => some (p.startMode config mode utcNow)
  | .running part await, event => p.onEvent config mode part await event
  | .restarting, .restartInterval =>
    some ({ p with stage := .starting }.update (.notSynced .restarting))
  | .restarting, .fails (.fatal e) => some (p.fail (.fatal e))
  | .starting, .stops | .restarting, .stops => some { p with stage := .ended }
  | _, _ => none

end SyncProcess

end Quantoxide
