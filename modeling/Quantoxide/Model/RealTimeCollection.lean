import Quantoxide.Model.PriceTicks

/-! # The real-time collection task

The task inserts the ticks of the exchange's stream, a batch at a time: what arrives while a
batch is in flight waits for the next one. A turn of its loop takes the first branch that is
ready: an update of the stream, then the shutdown signal, then the end of the insertion. -/

namespace Quantoxide

inductive StreamUpdate
  | futuresInverseBtcUsdLastPrice (tick : LastPrice)
  | connectionStatus (isConnected : Bool)
  | other
deriving DecidableEq

/-- Of `Connect` and `Subscribe` errors the loop sees none. -/
inductive RealTimeCollectionError
  | badConnectionUpdate
  | streamRecvLagged (skipped : ℕ)
  | streamRecvClosed
  | shutdownSignalRecv
  | db (e : DbError)
deriving DecidableEq

/-- The updates still to be received, behind those that were overwritten before they were. -/
structure StreamReceiver where
  skipped : ℕ
  updates : List StreamUpdate
  closed : Bool
deriving DecidableEq

namespace StreamReceiver

/-- `recv`, or `none` where it waits. -/
def recv (rx : StreamReceiver) :
    Option (Except RealTimeCollectionError StreamUpdate × StreamReceiver) :=
  if rx.skipped ≠ 0 then
    some (.error (.streamRecvLagged rx.skipped), { rx with skipped := 0 })
  else
    match rx.updates with
    | update :: rest => some (.ok update, { rx with updates := rest })
    | [] => if rx.closed then some (.error .streamRecvClosed, rx) else none

end StreamReceiver

/-- A call of `add_ticks` that was spawned, or that the shutdown waits for. -/
inductive DbOp
  | inserting (ticks : List LastPrice)
  | finished (result : Except DbError (List PriceTickRow))

inductive CollectionPhase
  | collecting
  | awaitingDbOp
  | flushing
  | returned (result : Except RealTimeCollectionError Unit)
  | aborted

structure RealTimeCollectionTask where
  streamRx : StreamReceiver
  shutdownRx : Option (Except Unit Unit)
  pendingTicks : List LastPrice
  dbOp : Option DbOp
  phase : CollectionPhase
  /-- The rows sent on `price_tick_tx`. -/
  priceTickTx : List PriceTickRow

namespace RealTimeCollectionTask

variable (task : RealTimeCollectionTask)

def start : RealTimeCollectionTask := ⟨⟨0, [], false⟩, none, [], none, .collecting, []⟩

def returns (result : Except RealTimeCollectionError Unit) : RealTimeCollectionTask :=
  { task with phase := .returned result }

/-- The end of a turn: the pending ticks are inserted unless an insertion is in flight. -/
def startDbOp : RealTimeCollectionTask :=
  if task.dbOp.isNone ∧ task.pendingTicks ≠ [] then
    { task with pendingTicks := [], dbOp := some (.inserting task.pendingTicks) }
  else task

def onUpdate : StreamUpdate → RealTimeCollectionTask
  | .futuresInverseBtcUsdLastPrice tick =>
    { task with pendingTicks := task.pendingTicks ++ [tick] }.startDbOp
  | .connectionStatus isConnected =>
    if isConnected then task.startDbOp else task.returns (.error .badConnectionUpdate)
  | .other => task.startDbOp

/-- The insertion that has finished is taken, and its rows are sent. -/
def takeDbOp (result : Except DbError (List PriceTickRow))
    (next : RealTimeCollectionTask → RealTimeCollectionTask) : RealTimeCollectionTask :=
  match result with
  | .error e => { task with dbOp := none }.returns (.error (.db e))
  | .ok insertedTicks =>
    next { task with dbOp := none, priceTickTx := task.priceTickTx ++ insertedTicks }

/-- Flush pending ticks before shutdown. -/
def flush : RealTimeCollectionTask :=
  if task.pendingTicks ≠ [] then
    { task with
      pendingTicks := [], dbOp := some (.inserting task.pendingTicks), phase := .flushing }
  else task.returns (.ok ())

/-- What the task does next, or `none` where it waits. -/
def turn : Option RealTimeCollectionTask :=
  match task.phase with
  | .collecting =>
    match task.streamRx.recv with
    | some (.ok update, rx) => some ({ task with streamRx := rx }.onUpdate update)
    | some (.error e, rx) => some ({ task with streamRx := rx }.returns (.error e))
    | none =>
      match task.shutdownRx with
      | some (.error _) => some (task.returns (.error .shutdownSignalRecv))
      | some (.ok _) => some { task with phase := .awaitingDbOp }
      | none =>
        match task.dbOp with
        | some (.finished result) => some (task.takeDbOp result startDbOp)
        | _ => none
  | .awaitingDbOp =>
    match task.dbOp with
    | some (.finished result) => some (task.takeDbOp result flush)
    | some (.inserting _) => none
    | none => some task.flush
  | .flushing =>
    match task.dbOp with
    | some (.finished result) => some (task.takeDbOp result fun task => task.returns (.ok ()))
    | _ => none
  | .returned _ | .aborted => none

end RealTimeCollectionTask

end Quantoxide
