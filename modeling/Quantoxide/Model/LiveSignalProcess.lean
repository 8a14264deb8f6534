import Quantoxide.Model.CandleTable
import Quantoxide.Model.Operators

/-! # The live signal process

The loop of `run`: it wakes at the scheduled time, waits for the sync, and gives each
evaluator whose minimum interval has passed a turn. An error ends the run, and the recovery
loop starts a new one. -/

namespace Quantoxide

inductive SignalProcessRecoverableError
  | evaluator (e : SignalEvaluatorError)
  | db (e : DbError)
deriving DecidableEq

inductive SignalProcessFatalError
  | evaluator (e : SignalEvaluatorError)
deriving DecidableEq

/-- `SignalProcessError`; `panicked` is the panic of an operator or an `expect`. -/
inductive SignalProcessError
  | recoverable (e : SignalProcessRecoverableError)
  | fatal (e : SignalProcessFatalError)
  | panicked (message : String)
deriving DecidableEq

namespace DateTime

/-- The `+` of an instant and a duration, which panics out of range. -/
def add (t d : ℤ) : Except SignalProcessError ℤ :=
  if t + d ≤ maxUtc then .ok (t + d) else .error (.panicked "`DateTime + TimeDelta` overflowed")

end DateTime

/-- `Duration::MAX`: the milliseconds of an `i64`. -/
def Duration.MAX : ℤ := 9223372036854775807 * 1000000

namespace LiveSignalProcess

variable {S ω : Type} (evaluators : List (SignalEvaluator S ω))

/-- An evaluator with the time of its last evaluation and the period it looks at. -/
structure Scheduled (π : Type) where
  lastEval : ℤ
  evaluatorIdx : Fin evaluators.length
  period : π

structure ResolutionGroup where
  maxPeriod : Period
  evaluators : List (Scheduled evaluators Period)

/-- The groups are a map in an order of its own. -/
structure EvaluatorGroups where
  resolutionGroups : List (OhlcResolution × ResolutionGroup evaluators)
  noLookbackEvaluators : List (Scheduled evaluators Unit)

/-- What `run` schedules by. -/
structure Schedule extends EvaluatorGroups evaluators where
  nextEval : ℤ

variable {evaluators}

def ResolutionGroup.push (group : ResolutionGroup evaluators)
    (scheduled : Scheduled evaluators Period) : ResolutionGroup evaluators where
  maxPeriod := if scheduled.period > group.maxPeriod then scheduled.period else group.maxPeriod
  evaluators := group.evaluators ++ [scheduled]

/-- `entry(resolution).or_insert_with(..)` and what is done with the entry. -/
def pushGroup (resolution : OhlcResolution) (scheduled : Scheduled evaluators Period) :
    List (OhlcResolution × ResolutionGroup evaluators) →
      List (OhlcResolution × ResolutionGroup evaluators)
  | [] => [(resolution, ResolutionGroup.push ⟨scheduled.period, []⟩ scheduled)]
  | (key, group) :: groups =>
    if key = resolution then (key, group.push scheduled) :: groups
    else (key, group) :: pushGroup resolution scheduled groups

/-- The body of the first loop, over the interval and the groups so far. -/
def addEvaluator (now : ℤ) (acc : ℤ × EvaluatorGroups evaluators)
    (idx : Fin evaluators.length) :
    Except SignalProcessError (ℤ × EvaluatorGroups evaluators) := do
  let evaluator := evaluators.get idx
  let interval ← (WrappedSignalEvaluator.minIterationInterval evaluator).mapError fun e =>
    .fatal (.evaluator e)
  let lookback ← (WrappedSignalEvaluator.lookback evaluator).mapError fun e =>
    .fatal (.evaluator e)
  let groups := acc.2
  let groups := match lookback with
    | some lookback =>
      { groups with
        resolutionGroups :=
          pushGroup lookback.resolution ⟨now, idx, lookback.period⟩ groups.resolutionGroups }
    | none =>
      { groups with noLookbackEvaluators := groups.noLookbackEvaluators ++ [⟨now, idx, ()⟩] }
  pure (min acc.1 interval.asDuration, groups)

/-- `run` up to its loop, at the time `Utc::now()` reads. -/
def start (utcNow : ℤ) : Except SignalProcessError (Schedule evaluators) := do
  let now := DateTime.ceilSec utcNow
  let (minIterationInterval, groups) ←
    (List.finRange evaluators.length).foldlM (addEvaluator now) (Duration.MAX, ⟨[], []⟩)
  let nextEval ← DateTime.add now minIterationInterval
  pure { toEvaluatorGroups := groups, nextEval }

/-! ### A pass -/

/-- The variables of a pass, with the evaluators called and the signals sent. -/
structure Pass (evaluators : List (SignalEvaluator S ω)) where
  nextEval : ℤ
  memory : ω
  called : List (Fin evaluators.length)
  sent : List S

/-- The loop body over the evaluators. -/
def evaluateOne {π : Type} (now : ℤ) (candles : π → List OhlcCandleRow) (pass : Pass evaluators)
    (scheduled : Scheduled evaluators π) :
    Pass evaluators × Except SignalProcessError (Scheduled evaluators π) :=
  let evaluator := evaluators.get scheduled.evaluatorIdx
  match WrappedSignalEvaluator.minIterationInterval evaluator with
  | .error e => (pass, .error (.fatal (.evaluator e)))
  | .ok interval =>
    match DateTime.add scheduled.lastEval interval.asDuration with
    | .error e => (pass, .error e)
    | .ok due =>
      if now < due then (pass, .ok scheduled)
      else
        match DateTime.add now interval.asDuration with
        | .error e => (pass, .error e)
        | .ok evaluatorNextEval =>
          let nextEval :=
            if evaluatorNextEval < pass.nextEval then evaluatorNextEval else pass.nextEval
          let (memory, signal) := WrappedSignalEvaluator.evaluate evaluator
            (candles scheduled.period) pass.memory
          let pass := { pass with
            nextEval, memory, called := pass.called ++ [scheduled.evaluatorIdx] }
          match signal with
          | .error e => (pass, .error (.recoverable (.evaluator e)))
          | .ok signal =>
            ({ pass with sent := pass.sent ++ [signal] }, .ok { scheduled with lastEval := now })

def evaluateAll {π : Type} (now : ℤ) (candles : π → List OhlcCandleRow) :
    Pass evaluators → List (Scheduled evaluators π) →
      Pass evaluators × Except SignalProcessError (List (Scheduled evaluators π))
  | pass, [] => (pass, .ok [])
  | pass, scheduled :: rest =>
    match evaluateOne now candles pass scheduled with
    | (pass, .error e) => (pass, .error e)
    | (pass, .ok scheduled) =>
      ((evaluateAll now candles pass rest).1,
        (evaluateAll now candles pass rest).2.map (scheduled :: ·))

/-- The last `period` candles of a group's buffer. -/
def lastCandles (candleBuffer : List OhlcCandleRow) (period : Period) : List OhlcCandleRow :=
  candleBuffer.drop (candleBuffer.length - period.asUsize)

/-- The loop over the groups, each with its buffer. -/
def evaluateGroups (now : ℤ) :
    Pass evaluators → List ((OhlcResolution × ResolutionGroup evaluators) × List OhlcCandleRow) →
      Pass evaluators ×
        Except SignalProcessError (List (OhlcResolution × ResolutionGroup evaluators))
  | pass, [] => (pass, .ok [])
  | pass, ((resolution, group), candleBuffer) :: rest =>
    match evaluateAll now (lastCandles candleBuffer) pass group.evaluators with
    | (pass, .error e) => (pass, .error e)
    | (pass, .ok scheduled) =>
      ((evaluateGroups now pass rest).1, (evaluateGroups now pass rest).2.map
        ((resolution, { group with evaluators := scheduled }) :: ·))

/-- The candles of a group, from the database's `get_candles_consolidated`. -/
def fetchBuffer (candles : ℤ → ℤ → OhlcResolution → Except DbError (List OhlcCandleRow))
    (now : ℤ) (entry : OhlcResolution × ResolutionGroup evaluators) :
    Except SignalProcessError
      ((OhlcResolution × ResolutionGroup evaluators) × List OhlcCandleRow) := do
  let currentBucket := DateTime.floorToResolution now entry.1
  let fromTime := DateTime.stepBackCandles currentBucket entry.1 (entry.2.maxPeriod.asInt - 1)
  let buffer ← (candles fromTime now entry.1).mapError fun e => .recoverable (.db e)
  pure (entry, buffer)

/-- The body of the loop of `run`, once the process is awake and synced. -/
def pass (candles : ℤ → ℤ → OhlcResolution → Except DbError (List OhlcCandleRow)) (now : ℤ)
    (memory : ω) (schedule : Schedule evaluators) :
    Pass evaluators × Except SignalProcessError (Schedule evaluators) :=
  let pass : Pass evaluators := ⟨DateTime.maxUtc, memory, [], []⟩
  match schedule.resolutionGroups.mapM (fetchBuffer candles now) with
  | .error e => (pass, .error e)
  | .ok buffers =>
    match evaluateGroups now pass buffers with
    | (pass, .error e) => (pass, .error e)
    | (pass, .ok resolutionGroups) =>
      match evaluateAll now (fun _ => []) pass schedule.noLookbackEvaluators with
      | (pass, .error e) => (pass, .error e)
      | (pass, .ok noLookbackEvaluators) =>
        (pass, .ok ⟨⟨resolutionGroups, noLookbackEvaluators⟩, pass.nextEval⟩)

end LiveSignalProcess

end Quantoxide
