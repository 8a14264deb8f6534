import Quantoxide.Library.Result
import Quantoxide.Model.SettlementTable

/-! # The funding settlements sync task

`backfill` downloads one page after another until the settlements reach far enough back and
none of a scanned range is missing. Settlements that the API does not have are excluded from
the scan one at a time. What one turn of its loop meets outside the database is its
environment. -/

namespace Quantoxide

open DateTime Result

/-- `FundingSettlement` of the API. -/
structure FundingSettlement where
  time : ℤ
  fixingPrice : F64
  fundingRate : F64
deriving DecidableEq

namespace Database

variable (db : Database)

/-- `INSERT … ON CONFLICT (time) DO NOTHING`. -/
def insertSettlement (settlement : FundingSettlement) : Database where
  ohlcCandles := db.ohlcCandles
  fundingSettlements := Timeline.upsert FundingSettlementRow.time (fun _ existing => existing)
    ⟨settlement.time, settlement.fixingPrice, settlement.fundingRate⟩ db.fundingSettlements
  candlesAscending := db.candlesAscending
  candlesMinutes := db.candlesMinutes
  settlementsAscending := Timeline.Ascending.upsert (fun _ h => h) db.settlementsAscending

def addSettlements (settlements : List FundingSettlement) : Database :=
  settlements.foldl insertSettlement db

end Database

inductive SyncFundingSettlementsRecoverableError (ε : Type)
  | restApiMaxTrialsReached (error : ε) (trials : ℕ)
  | db (e : DbError)
deriving DecidableEq, Repr

inductive SyncFundingSettlementsFatalError
  | unreachableMissingSettlement (time reach : ℤ)
  | fundingSettlementsStateReachNotSet
  | apiSettlementsNotAvailableBeforeHistoryStart (historyStart : ℤ)
  | invalidSettlementTime (time : ℤ)
deriving DecidableEq, Repr

inductive SyncFundingSettlementsError (ε : Type)
  | recoverable (e : SyncFundingSettlementsRecoverableError ε)
  | fatal (e : SyncFundingSettlementsFatalError)
deriving DecidableEq, Repr

abbrev SyncFundingSettlementsResult (ε : Type) := Except (SyncFundingSettlementsError ε)

inductive FundingDownloadRange
  | latest
  | upperBound (fromTime : ℤ)
  | missing (fromTime toTime : ℤ)
  | lowerBound (toTime : ℤ)
deriving DecidableEq, Repr

namespace FundingDownloadRange

/-- `FundingDownloadRange::from`. -/
def fromTime? : FundingDownloadRange → Option ℤ
  | upperBound fromTime => some fromTime
  | missing fromTime _ => some fromTime
  | _ => none

/-- `FundingDownloadRange::to`. -/
def toTime? : FundingDownloadRange → Option ℤ
  | lowerBound toTime => some toTime
  | missing _ toTime => some toTime
  | _ => none

end FundingDownloadRange

/-! ### The scanned state -/

/-- `FundingSettlementsState` with its reach and the missing times of its scan. -/
structure ScannedSettlementsState extends FundingSettlementsState where
  reachTime : Option ℤ
  missing : List ℤ
deriving DecidableEq

namespace ScannedSettlementsState

variable {ε : Type}

/-- Fails when the time lies before the reach. -/
def checkReach (reachTime : Option ℤ) (time : ℤ) : SyncFundingSettlementsResult ε Unit :=
  match reachTime.filter fun reach => time < reach with
  | some reach => .error (.fatal (.unreachableMissingSettlement time reach))
  | none => .ok ()

/-- The times of the range looked back to that are missing, up to the excluded ones. -/
def scan (db : Database) (earliestTime latestTime : ℤ) (flagMissingRange : Option ℤ)
    (excludeMissingAfter : Option ℤ) (utcNow : ℤ) : SyncFundingSettlementsResult ε (List ℤ) :=
  match flagMissingRange with
  | some range =>
    let scanFrom := ceilFundingSettlementTime (max (utcNow - range) earliestTime)
    let scanTo := (excludeMissingAfter.map fun t =>
      floorFundingSettlementTime (t - Duration.seconds 1)).getD latestTime
    if scanFrom > scanTo then .ok []
    else (db.getMissingSettlementTimes scanFrom scanTo).mapError fun e => .recoverable (.db e)
  | none => .ok []

def new (db : Database) (reachTime flagMissingRange excludeMissingAfter : Option ℤ)
    (utcNow : ℤ) : SyncFundingSettlementsResult ε ScannedSettlementsState :=
  match db.getEarliestSettlementTime, db.getLatestSettlementTime with
  | some earliestTime, some latestTime =>
    if earliestTime = latestTime then do
      checkReach reachTime earliestTime
      pure { reachTime, bounds := some (earliestTime, earliestTime), missing := [] }
    else do
      let missing ← scan db earliestTime latestTime flagMissingRange excludeMissingAfter utcNow
      missing.head?.forM (checkReach reachTime)
      pure { reachTime, bounds := some (earliestTime, latestTime), missing }
  | _, _ => .ok { reachTime, bounds := none, missing := [] }

def evaluateWithReach (db : Database) (reach : ℤ)
    (flagMissingRange excludeMissingAfter : Option ℤ) (utcNow : ℤ) :
    SyncFundingSettlementsResult ε ScannedSettlementsState :=
  new db (some reach) flagMissingRange excludeMissingAfter utcNow

variable (state : ScannedSettlementsState)

/-- Where the last group of times at most eight hours apart starts. -/
def lastGroupStart (missing : List ℤ) : ℕ :=
  match (missing.zip missing.tail).reverse.findIdx? fun w =>
      w.2 - w.1 > LNM_SETTLEMENT_INTERVAL_8H with
  | some i => missing.length - 1 - i
  | none => 0

def latestMissingGroup : Option (List ℤ) :=
  if state.missing.isEmpty then none
  else some (state.missing.drop (lastGroupStart state.missing))

def nextDownloadRange (backfilling : Bool) : SyncFundingSettlementsResult ε FundingDownloadRange :=
  match state.bounds with
  | none => .ok .latest
  | some bounds => do
    checkReach (state.reachTime.filter fun _ => bounds.1 = bounds.2) bounds.1
    match state.latestMissingGroup.bind fun group =>
        group.head?.bind fun first => group.getLast?.map fun last => (first, last) with
    | some (first, last) => do
      checkReach state.reachTime first
      pure (.missing first last)
    | none =>
      if state.reachTime.any fun reach => backfilling && decide (bounds.1 > reach) then
        pure (.lowerBound bounds.1)
      else pure (.upperBound bounds.2)

def hasMissing : SyncFundingSettlementsResult ε Bool :=
  match state.reachTime with
  | none => .error (.fatal .fundingSettlementsStateReachNotSet)
  | some reach =>
    .ok (state.bounds.all fun bounds => !state.missing.isEmpty || decide (reach < bounds.1))

end ScannedSettlementsState

structure SyncFundingSettlementsTaskConfig where
  restApiErrorMaxTrials : ℕ
  fundingSettlementReach : ℤ
  trials_pos : 0 < restApiErrorMaxTrials

/-- The environment of one turn: what the API answers at each trial, and `Utc::now()` at the
two evaluations of the state and at the check that ends the loop. -/
structure FundingTurn (ε : Type) where
  getFundingSettlements : (trial : ℕ) → (fromTime toTime : Option ℤ) →
    Except ε (List FundingSettlement)
  evaluatedNow : ℤ
  excludedNow : ℤ
  syncedNow : ℤ

/-- What the loop of `backfill` keeps, with the table. -/
structure FundingBackfill where
  db : Database
  state : ScannedSettlementsState
  excludeMissingAfter : Option ℤ

namespace SyncFundingSettlementsTask

open ScannedSettlementsState

variable {ε : Type} (config : SyncFundingSettlementsTaskConfig) (flagMissingRange : Option ℤ)
  (turn : FundingTurn ε) (range : FundingDownloadRange)

/-- The request, repeated after an error until `left` more have failed. -/
def fetchPage (getPage : ℕ → Except ε (List FundingSettlement)) :
    (trial left : ℕ) → SyncFundingSettlementsResult ε (List FundingSettlement)
  | trial, 0 =>
    (getPage trial).mapError fun e => .recoverable (.restApiMaxTrialsReached e (trial + 1))
  | trial, left + 1 =>
    match getPage trial with
    | .ok page => .ok page
    | .error _ => fetchPage getPage (trial + 1) left

def getNewSettlements : SyncFundingSettlementsResult ε (List FundingSettlement) :=
  let toTime := range.toTime?.map (· + Duration.seconds 1)
  fetchPage (fun trial => turn.getFundingSettlements trial range.fromTime? toTime) 0
    (config.restApiErrorMaxTrials - 1)

def partialDownload (db : Database) : SyncFundingSettlementsResult ε Database := do
  let newSettlements ← getNewSettlements config turn range
  match newSettlements.find? fun s => !isValidFundingSettlementTime s.time with
  | some settlement => .error (.fatal (.invalidSettlementTime settlement.time))
  | none =>
    match newSettlements, range with
    | [], .lowerBound toTime =>
      .error (.fatal (.apiSettlementsNotAvailableBeforeHistoryStart toTime))
    | _, _ => pure (db.addSettlements newSettlements)

/-- The state after a download. A latest missing time that the API does not fill is excluded
from the scans that follow. -/
def evaluateDownload (db : Database) (excludeMissingAfter : Option ℤ) :
    SyncFundingSettlementsResult ε FundingBackfill := do
  let newState ← evaluateWithReach db config.fundingSettlementReach flagMissingRange
    excludeMissingAfter turn.evaluatedNow
  match range with
  | .missing _ toTime =>
    if newState.missing.contains toTime then do
      let state ← evaluateWithReach db config.fundingSettlementReach flagMissingRange
        (some toTime) turn.excludedNow
      pure ⟨db, state, some toTime⟩
    else pure ⟨db, newState, excludeMissingAfter⟩
  | _ => pure ⟨db, newState, excludeMissingAfter⟩

/-- One turn of the loop: what it keeps, and the value of `synced` it returns if it does. -/
def backfillTurn (s : FundingBackfill) :
    SyncFundingSettlementsResult ε (FundingBackfill × Option Bool) := do
  let range ← s.state.nextDownloadRange true
  let db ← partialDownload config turn range s.db
  let s' ← evaluateDownload config flagMissingRange turn range db s.excludeMissingAfter
  let missing ← s'.state.hasMissing
  if missing then pure (s', none)
  else
    let synced := s'.state.boundEnd.any fun last =>
      last ≥ floorFundingSettlementTime turn.syncedNow
    if synced || range.toTime?.isNone then pure (s', some synced)
    else pure (s', none)

/-- The first `fuel` turns of the loop; `none` when it is still running. -/
def backfillLoop (turns : ℕ → FundingTurn ε) :
    ℕ → ℕ → FundingBackfill → Option (SyncFundingSettlementsResult ε (Database × Bool))
  | 0, _, _ => none
  | fuel + 1, i, s =>
    match backfillTurn config flagMissingRange (turns i) s with
    | .error e => some (.error e)
    | .ok (s', some synced) => some (.ok (s'.db, synced))
    | .ok (s', none) => backfillLoop turns fuel (i + 1) s'

def backfill (startNow : ℤ) (turns : ℕ → FundingTurn ε) (fuel : ℕ) (db : Database) :
    Option (SyncFundingSettlementsResult ε (Database × Bool)) :=
  match evaluateWithReach db config.fundingSettlementReach flagMissingRange none startNow with
  | .error e => some (.error e)
  | .ok state => backfillLoop config flagMissingRange turns fuel 0 ⟨db, state, none⟩

end SyncFundingSettlementsTask

end Quantoxide
