import Quantoxide.Model.Statuses

/-! # Spawned tasks and their controllers

A backtest and the sync process run in a task that publishes its status. Their controllers stop
the task and publish too. A step is what one party does between two points where the other can
come in; a status is stored under its lock and sent after the lock is released. -/

namespace Quantoxide

/-! ### The status manager -/

inductive Party
  | task
  | controller
deriving DecidableEq

/-- The status, what was sent of it, and what each party has stored and is about to send. -/
structure StatusManager (S : Type) where
  status : S
  published : List S
  sending : Party → Option S

namespace StatusManager

variable {S : Type} (m : StatusManager S)

def new (status : S) : StatusManager S := ⟨status, [], fun _ => none⟩

/-- `update` up to the release of the lock. -/
def update (eq : S → S → Bool) (p : Party) (newStatus : S) : StatusManager S :=
  if eq m.status newStatus then m
  else { m with status := newStatus, sending := Function.update m.sending p (some newStatus) }

/-- The rest of `update`. -/
def send (p : Party) : Option (StatusManager S) :=
  (m.sending p).map fun status =>
    { m with published := m.published ++ [status], sending := Function.update m.sending p none }

end StatusManager

variable {ε : Type}

/-! ### A backtest

The engines for one and for several operators start their task in the same way, and the two
controllers have the same `abort`. -/

inductive BacktestTask
  | spawned
  | starting
  | running
  | stopping
  | ended (cancelled : Bool)
deriving DecidableEq

/-- Where the call of `abort` that consumed the handle is. -/
inductive AbortCall
  | notCalled
  | aborting
  | publishing
  | joining
  | returned
deriving DecidableEq

structure BacktestWorld (ε : Type) where
  manager : StatusManager (BacktestStatus ε)
  task : BacktestTask
  aborted : Bool
  abortCall : AbortCall
  arcs : ℕ

inductive BacktestStep (ε : Type)
  | starts
  | runs
  | stops (result : Except ε Unit)
  | taskSends
  | taskEnds
  | taskAborted
  | abort
  | aborts
  | publishesAborted
  | controllerSends
  | joins

namespace BacktestTask

/-- Before the final status the task can be aborted where it waits. -/
def canWait : BacktestTask → Bool
  | .spawned | .starting | .running => true
  | .stopping | .ended _ => false

def isEnded : BacktestTask → Bool
  | .ended _ => true
  | _ => false

end BacktestTask

namespace BacktestWorld

variable (w : BacktestWorld ε)

def update (p : Party) (status : BacktestStatus ε) : BacktestWorld ε :=
  { w with manager := w.manager.update BacktestStatus.eq p status }

def send (p : Party) : Option (BacktestWorld ε) :=
  (w.manager.send p).map fun manager => { w with manager }

/-- The final status of `start`'s task. -/
def stop : Except ε Unit → BacktestWorld ε
  | .ok () => w.update .task .finished
  | .error e => { w with arcs := w.arcs + 1 }.update .task (.failed ⟨w.arcs, e⟩)

/-- The party has nothing left to send. -/
def Sent (p : Party) : Prop := (w.manager.sending p).isNone = true

instance (p : Party) : Decidable (w.Sent p) := inferInstanceAs (Decidable (_ = true))

/-- What the task does when it has nothing left to send. -/
def taskStep (w : BacktestWorld ε) : BacktestStep ε → Option (BacktestWorld ε)
  | .starts =>
    match w.task with
    | .spawned => some { w.update .task .starting with task := .starting }
    | _ => none
  | .runs =>
    match w.task with
    | .starting => some { w.update .task .running with task := .running }
    | _ => none
  | .stops result =>
    -- `run` fails from its preparation as well as from its loop, and succeeds from its loop only.
    match w.task, result with
    | .running, _ | .starting, .error _ => some { w.stop result with task := .stopping }
    | _, _ => none
  | .taskEnds =>
    match w.task with
    | .stopping => some { w with task := .ended false }
    | _ => none
  | .taskAborted =>
    if w.aborted && w.task.canWait then some { w with task := .ended true } else none
  | _ => none

/-- What `abort` does when it has nothing left to send. -/
def abortStep (w : BacktestWorld ε) : BacktestStep ε → Option (BacktestWorld ε)
  | .abort =>
    match w.abortCall with
    | .notCalled => some { w with abortCall := if w.task.isEnded then .joining else .aborting }
    | _ => none
  | .aborts =>
    match w.abortCall with
    | .aborting => some { w with aborted := true, abortCall := .publishing }
    | _ => none
  | .publishesAborted =>
    match w.abortCall with
    | .publishing => some { w.update .controller .aborted with abortCall := .joining }
    | _ => none
  | .joins =>
    match w.abortCall with
    | .joining => if w.task.isEnded then some { w with abortCall := .returned } else none
    | _ => none
  | _ => none

def step (w : BacktestWorld ε) : BacktestStep ε → Option (BacktestWorld ε)
  | .taskSends => w.send .task
  | .controllerSends => w.send .controller
  | i => (if w.Sent .task then w.taskStep i else none).or
      (if w.Sent .controller then w.abortStep i else none)

def started : BacktestWorld ε where
  manager := .new .notInitiated
  task := .spawned
  aborted := false
  abortCall := .notCalled
  arcs := 0

end BacktestWorld

/-! ### The sync process

The process keeps a sender of the shutdown channel and at most one signal is sent on it, so that
receiving the signal does not fail. -/

inductive SyncMode
  | backfill
  | live
  | full

/-- How a sync task ended. -/
inductive SyncEnd
  | fatal
  | signalled
  | cancelled
deriving DecidableEq

/-- What joining the task returns. -/
def SyncEnd.joined : SyncEnd → Except (SyncProcessFatalError ε) Unit
  | .fatal | .signalled => .ok ()
  | .cancelled => .error .syncProcessTaskJoin

inductive SyncTask
  | spawned
  | subscribing
  | running
  | restarting
  | stopping (how : SyncEnd)
  | ended (how : SyncEnd)
deriving DecidableEq

/-- Where the call of `shutdown` that consumed the handle is. -/
inductive SyncShutdownCall (ε : Type)
  | notCalled
  | alreadyTerminated
  | initiating
  | signalling
  | waiting
  | aborting (error : SyncProcessFatalError ε)
  | finishing (result : Except (SyncProcessFatalError ε) Unit)
  | returned

structure SyncWorld (ε : Type) where
  mode : SyncMode
  manager : StatusManager (SyncStatus ε)
  task : SyncTask
  signalled : Bool
  aborted : Bool
  shutdownCall : SyncShutdownCall ε
  arcs : ℕ

inductive SyncStep (ε : Type)
  | starts
  | subscribes
  | reports (status : SyncStatus ε)
  | fails (error : SyncProcessRecoverableError ε)
  | restarts
  | terminates (error : SyncProcessFatalError ε)
  | receivesSignal
  | taskSends
  | taskEnds
  | taskAborted
  | shutdown
  | initiates
  | sendsSignal (delivered : Bool)
  | joins
  | timesOut
  | aborts
  | finishes
  | controllerSends

/-- The statuses that `run_mode` itself publishes. -/
def SyncMode.reports : SyncMode → SyncStatus ε → Bool
  | _, .notSynced .inProgress => true
  | .backfill, .backfilled => true
  | .live, .synced | .full, .synced => true
  | _, _ => false

namespace SyncTask

def isEnded : SyncTask → Bool
  | .ended _ => true
  | _ => false

def canWait : SyncTask → Bool
  | .spawned | .running | .restarting => true
  | .subscribing | .stopping _ | .ended _ => false

/-- Whether a signal sent now is delivered. The receiver of the task is enough; once the task
stops, that of the price stream it spawned may still be there. -/
def delivers : SyncTask → Bool → Bool
  | .spawned, delivered | .subscribing, delivered => !delivered
  | .running, delivered | .restarting, delivered => delivered
  | .stopping _, _ | .ended _, _ => true

end SyncTask

namespace SyncWorld

variable (w : SyncWorld ε)

def update (p : Party) (status : SyncStatus ε) : SyncWorld ε :=
  { w with manager := w.manager.update SyncStatus.eq p status }

def send (p : Party) : Option (SyncWorld ε) :=
  (w.manager.send p).map fun manager => { w with manager }

def terminate (p : Party) (error : SyncProcessFatalError ε) : SyncWorld ε :=
  { w with arcs := w.arcs + 1 }.update p (.terminated ⟨w.arcs, error⟩)

def fail (error : SyncProcessRecoverableError ε) : SyncWorld ε :=
  { w with arcs := w.arcs + 1 }.update .task (.notSynced (.failed ⟨w.arcs, error⟩))

/-- The last status of `shutdown`. -/
def finish : Except (SyncProcessFatalError ε) Unit → SyncWorld ε
  | .ok () => w.update .controller .shutdown
  | .error e => w.terminate .controller e

def Sent (p : Party) : Prop := (w.manager.sending p).isNone = true

instance (p : Party) : Decidable (w.Sent p) := inferInstanceAs (Decidable (_ = true))

/-- What the task does when it has nothing left to send. -/
def taskStep (w : SyncWorld ε) : SyncStep ε → Option (SyncWorld ε)
  | .starts =>
    match w.task with
    | .spawned => some { w.update .task (.notSynced .starting) with task := .subscribing }
    | _ => none
  | .subscribes =>
    match w.task with
    | .subscribing => some { w with task := .running }
    | _ => none
  | .reports status =>
    match w.task with
    | .running => if w.mode.reports status then some (w.update .task status) else none
    | _ => none
  | .fails error =>
    match w.task with
    | .running => some { w.fail error with task := .restarting }
    | _ => none
  | .restarts =>
    match w.task with
    | .restarting => some { w.update .task (.notSynced .restarting) with task := .running }
    | _ => none
  | .terminates error =>
    match w.task with
    | .running => some { w.terminate .task error with task := .stopping .fatal }
    | _ => none
  | .receivesSignal =>
    match w.task with
    | .running | .restarting =>
      if w.signalled then some { w with task := .stopping .signalled } else none
    | _ => none
  | .taskEnds =>
    match w.task with
    | .stopping how => some { w with task := .ended how }
    | _ => none
  | .taskAborted =>
    if w.aborted && w.task.canWait then some { w with task := .ended .cancelled } else none
  | _ => none

/-- What `shutdown` does when it has nothing left to send. -/
def shutdownStep (w : SyncWorld ε) : SyncStep ε → Option (SyncWorld ε)
  | .shutdown =>
    match w.shutdownCall with
    | .notCalled =>
      some { w with shutdownCall := if w.task.isEnded then .alreadyTerminated else .initiating }
    | _ => none
  | .initiates =>
    match w.shutdownCall with
    | .initiating =>
      some { w.update .controller .shutdownInitiated with shutdownCall := .signalling }
    | _ => none
  | .sendsSignal delivered =>
    match w.shutdownCall with
    | .signalling =>
      if w.task.delivers delivered then
        some { w with signalled := delivered
                      shutdownCall := if delivered then .waiting
                        else .aborting .sendShutdownSignalFailed }
      else none
    | _ => none
  | .joins =>
    match w.shutdownCall, w.task with
    | .waiting, .ended how =>
      some { w with shutdownCall := .finishing how.joined }
    | _, _ => none
  | .timesOut =>
    match w.shutdownCall with
    | .waiting => some { w with shutdownCall := .aborting .shutdownTimeout }
    | _ => none
  | .aborts =>
    match w.shutdownCall with
    | .aborting error => some { w with aborted := true, shutdownCall := .finishing (.error error) }
    | _ => none
  | .finishes =>
    match w.shutdownCall with
    | .finishing result => some { w.finish result with shutdownCall := .returned }
    | _ => none
  | _ => none

def step (w : SyncWorld ε) : SyncStep ε → Option (SyncWorld ε)
  | .taskSends => w.send .task
  | .controllerSends => w.send .controller
  | i => (if w.Sent .task then w.taskStep i else none).or
      (if w.Sent .controller then w.shutdownStep i else none)

def started (mode : SyncMode) : SyncWorld ε where
  mode := mode
  manager := .new (.notSynced .notInitiated)
  task := .spawned
  signalled := false
  aborted := false
  shutdownCall := .notCalled
  arcs := 0

end SyncWorld

end Quantoxide
