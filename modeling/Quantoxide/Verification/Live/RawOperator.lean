import Quantoxide.Model.LiveProcess
import Quantoxide.Verification.Live.HistoryWarmup
import Quantoxide.Verification.Sync.Process

/-! # What the live process hands a raw operator

A turn that the sync lets pass finds the operator's window filled, and it still is filled when
the candles are fetched, whatever the sync process does in between. Turns keep the operator's
interval, also from one run of the loop to the next. -/

namespace Quantoxide.Live

open DateTime (floorToResolution ceilSec isRoundMinute)
open Consolidator Engine Runs CandleTable Sync LiveProcess

variable {ε η ω : Type} {config : LiveTradeConfig} {mode : SyncModeInt}
  {operator : RawOperator η ω} {s s' : LiveProcess ε η} {turn : LiveTurn ε}
  {db db' : Database} {l : Lookback} {now utcNow : ℤ}
  {event : LiveProcessEvent ε η} {events : List (LiveProcessEvent ε η)}

/-! ### The window of a turn -/

def syncEvent : LiveProcessEvent ε η → Option (SyncProcessEvent ε)
  | .sync event => some event
  | _ => none

/-- What the sync process has been told so far. -/
def syncEvents (events : List (LiveProcessEvent ε η)) : List (SyncProcessEvent ε) :=
  events.filterMap syncEvent

/-- The turn was woken while the sync process had begun a history, when its mode was last started
or later. -/
def WokenSince (events : List (LiveProcessEvent ε η)) (now since : ℤ) : Prop :=
  ∃ before rest started after, events = before ++ .wakes now :: rest ∧
    StartedLast (syncEvents before) started after ∧ BegunSince started after since

theorem WokenSince.extend {since : ℤ} (h : WokenSince events now since)
    (event : LiveProcessEvent ε η) : WokenSince (events ++ [event]) now since := by
  obtain ⟨before, rest, started, after, rfl, hsince⟩ := h
  exact ⟨before, rest ++ [event], started, after, by simp, hsince⟩

/-- The window is filled up to a minute that was current when a history before the turn was begun.
The full mode fills no window that opens before its reach. -/
def Supplied (config : LiveTradeConfig) (events : List (LiveProcessEvent ε η)) (l : Lookback)
    (turn : LiveTurn ε) (db : Database) : Prop :=
  ∃ last since, 0 ≤ last ∧ last ≤ turn.now ∧ WokenSince events turn.now since ∧
    since ≤ last + minute ∧ ((config.syncModeFull = true →
        config.sync.priceHistory.priceHistoryReach ≤ liveFrom l turn.now) →
      Consolidator.Stored db.candleRows (liveFrom l turn.now) last)

theorem Supplied.retain (h : Supplied config events l turn db) (hretains : Retains db db') :
    Supplied config events l turn db' := by
  obtain ⟨last, since, hnonneg, hle, hbegun, hsince, hstored⟩ := h
  refine ⟨last, since, hnonneg, hle, hbegun, hsince, fun hreach m hround hlo hhi => ?_⟩
  have hm := hstored hreach m hround hlo hhi
  exact stored_iff.mp (hretains.candles m (stored_iff.mpr hm))

theorem Supplied.extend (h : Supplied config events l turn db) (event : LiveProcessEvent ε η) :
    Supplied config (events ++ [event]) l turn db := by
  obtain ⟨last, since, hnonneg, hle, hbegun, hrest⟩ := h
  exact ⟨last, since, hnonneg, hle, hbegun.extend event, hrest⟩

theorem WokenSince.started {since : ℤ} (h : WokenSince events now since) :
    ∃ started, .sync (.starts started) ∈ events ∧ started ≤ since := by
  obtain ⟨before, rest, started, after, rfl, ⟨⟨earlier, hlast⟩, -⟩, hsince⟩ := h
  have hmem : .starts started ∈ syncEvents before := by
    rw [hlast]
    exact List.mem_append_right earlier List.mem_cons_self
  obtain ⟨event, hevent, hsync⟩ := List.mem_filterMap.mp hmem
  cases event with
  | sync e =>
      obtain rfl := Option.some.inj hsync
      exact ⟨started, List.mem_append_left _ hevent, hsince.le⟩
  | _ => cases hsync

theorem supplied_of_obtained
    (hmode : LiveTradeEngine.withRawOperator config operator = .ok mode)
    (hlookback : WrappedRawOperator.lookback operator = .ok (some l))
    (hwritten : Written (db, now)) (hle : now ≤ turn.now) {since : ℤ}
    (hbegun : WokenSince events turn.now since) (hobtained : Obtained config.sync mode since db) :
    Supplied config events l turn db := by
  have hpast : ∀ last, GapMarkers.Stored (marks db) last → 0 ≤ last ∧ last ≤ turn.now := by
    intro last hlast
    obtain ⟨c, hc, rfl⟩ := stored_iff.mp hlast
    have hepoch := ((candleRows_feed db).minutes c hc).epoch_le
    exact ⟨hepoch, (hwritten.tidy.past _ hlast).le.trans hle⟩
  unfold LiveTradeEngine.withRawOperator at hmode
  split_ifs at hmode with hfull
  · obtain rfl := Except.ok.inj hmode
    obtain ⟨last, hlast, hsince, hfilled⟩ := hobtained.candles
    obtain ⟨hnonneg, hlt⟩ := hpast last hlast
    refine ⟨last, since, hnonneg, hlt, hbegun, hsince, fun hreach m hround hlo hhi => ?_⟩
    exact stored_iff.mp (hfilled m hround ((hreach hfull).trans hlo) hhi)
  · rw [hlookback] at hmode
    obtain rfl := Except.ok.inj hmode
    obtain ⟨last, hlast, hsince, hfilled⟩ := hobtained.candles
    obtain ⟨hnonneg, hlt⟩ := hpast last hlast
    refine ⟨last, since, hnonneg, hlt, hbegun, hsince, fun _ => window_stored hnonneg hlt ?_⟩
    intro m hround hlo hhi
    exact stored_iff.mp (hfilled m hround hlo hhi)

/-! ### What holds of the process -/

/-- What holds of a turn that the sync has let pass. -/
structure Passed (config : LiveTradeConfig) (operator : RawOperator η ω)
    (events : List (LiveProcessEvent ε η)) (db : Database) (lastEval : ℤ)
    (iterations : List (LiveIteration ε)) (turn : LiveTurn ε) : Prop where
  now : turn.now = lastEval
  gate : ∀ status, turn.gate ≠ .notSynced status
  supplied : turn.gate = .synced → ∀ l, WrappedRawOperator.lookback operator = .ok (some l) →
    Supplied config events l turn db
  spaced : ∀ interval, WrappedRawOperator.minIterationInterval operator = .ok interval →
    ∀ i ∈ iterations, ceilSec (i.now + interval.asDuration) ≤ turn.now

/-- What holds of a call of the operator. -/
structure Fed (config : LiveTradeConfig) (operator : RawOperator η ω)
    (events : List (LiveProcessEvent ε η)) (i : LiveIteration ε) : Prop where
  gate : ∀ status, i.gate ≠ .notSynced status
  fetched : ∀ lookback, WrappedRawOperator.lookback operator = .ok lookback →
    fetchCandles i.db lookback i.now = .ok i.candles
  supplied : i.gate = .synced → ∀ l, WrappedRawOperator.lookback operator = .ok (some l) →
    Supplied config events l i.toLiveTurn i.db

theorem Fed.extend {i : LiveIteration ε} (h : Fed config operator events i)
    (event : LiveProcessEvent ε η) : Fed config operator (events ++ [event]) i :=
  ⟨h.gate, h.fetched, fun hgate l hl => (h.supplied hgate l hl).extend event⟩

/-- The status while the operator is at work: others than the loop publish only that a shutdown
has begun, or that the updates of the executor have lagged. -/
def Announced (status : LiveTradeStatus ε η) : Prop :=
  status = .running ∨ status = .shutdownInitiated ∨
    ∃ arc skipped, status = .failed ⟨arc, .executorRecvLagged skipped⟩

/-- What holds where the loop waits. -/
def Awaiting (config : LiveTradeConfig) (operator : RawOperator η ω)
    (events : List (LiveProcessEvent ε η)) (s : LiveProcess ε η) : LiveAwait ε → Prop
  | .sleep targetExec => ∀ interval,
      WrappedRawOperator.minIterationInterval operator = .ok interval →
        targetExec = ceilSec (s.lastEval + interval.asDuration)
  | .sync => True
  | .executorState turn => Passed config operator events s.sync.db s.lastEval s.iterations turn
  | .candles turn => Passed config operator events s.sync.db s.lastEval s.iterations turn ∧
      Announced s.status
  | .iteration => Announced s.status

structure Tended (config : LiveTradeConfig) (mode : SyncModeInt) (operator : RawOperator η ω)
    (events : List (LiveProcessEvent ε η)) (s : LiveProcess ε η) : Prop where
  sync : ∃ base, Sound config.sync mode base s.sync
  timed : Timed (syncEvents events) s.sync
  clock : s.sync.now ≤ s.now
  lastEval_le : s.lastEval ≤ s.now
  before : ∀ i ∈ s.iterations, i.now ≤ s.lastEval
  spaced : ∀ interval, WrappedRawOperator.minIterationInterval operator = .ok interval →
    s.iterations.Pairwise fun i j => ceilSec (i.now + interval.asDuration) ≤ j.now
  fed : ∀ i ∈ s.iterations, Fed config operator events i

structure LiveSound (config : LiveTradeConfig) (mode : SyncModeInt) (operator : RawOperator η ω)
    (events : List (LiveProcessEvent ε η)) (s : LiveProcess ε η) : Prop where
  tended : Tended config mode operator events s
  running : ∀ await, s.stage = .running await → Awaiting config operator events s await

/-! ### The process, one operation after another -/

theorem ceilSec_mono {t u : ℤ} (h : t ≤ u) : ceilSec t ≤ ceilSec u := by
  unfold ceilSec DateTime.nanosecond Duration.seconds
  split_ifs <;> omega

/-- Statuses and stages are beside what the invariant is about. -/
theorem Tended.frame (h : Tended config mode operator events s) (hsync : s'.sync = s.sync)
    (hnow : s'.now = s.now) (hlastEval : s'.lastEval = s.lastEval)
    (hiterations : s'.iterations = s.iterations) : Tended config mode operator events s' := by
  refine ⟨hsync ▸ h.sync, hsync ▸ h.timed, ?_, ?_, ?_, ?_, ?_⟩
  · rw [hsync, hnow]
    exact h.clock
  · rw [hlastEval, hnow]
    exact h.lastEval_le
  · rw [hiterations, hlastEval]
    exact h.before
  · rw [hiterations]
    exact h.spaced
  · rw [hiterations]
    exact h.fed

theorem Tended.await {await : LiveAwait ε} (h : Tended config mode operator events s)
    (hawaiting : Awaiting config operator events s await) :
    LiveSound config mode operator events (s.await await) := by
  refine ⟨h.frame rfl rfl rfl rfl, fun other hother => ?_⟩
  obtain rfl : await = other := LiveStage.running.inj hother
  cases await with
  | sleep targetExec => exact hawaiting
  | sync => trivial
  | executorState turn => exact hawaiting
  | candles turn => exact hawaiting
  | iteration => exact hawaiting

def runsOperator : LiveStage ε → Bool
  | .running _ => true
  | _ => false

theorem Tended.rests (h : Tended config mode operator events s)
    (hrests : runsOperator s.stage = false) : LiveSound config mode operator events s := by
  refine ⟨h, fun await hawait => ?_⟩
  rw [hawait] at hrests
  cases hrests

theorem Tended.fail (h : Tended config mode operator events s) (error : LiveProcessError ε η) :
    LiveSound config mode operator events (s.fail error) := by
  cases error with
  | recoverable e => exact Tended.rests (h.frame rfl rfl rfl rfl) rfl
  | fatal e => exact Tended.rests (h.frame rfl rfl rfl rfl) rfl

theorem Tended.nextTurn (h : Tended config mode operator events s) :
    LiveSound config mode operator events (s.nextTurn operator) := by
  unfold LiveProcess.nextTurn
  cases hinterval : WrappedRawOperator.minIterationInterval operator with
  | error e => exact h.fail _
  | ok interval =>
      dsimp only
      split_ifs
      · refine h.await fun other hother => ?_
        rw [hinterval] at hother
        rw [Except.ok.inj hother]
      · exact Tended.rests (h.frame rfl rfl rfl rfl) rfl

theorem Tended.read (h : Tended config mode operator events s) (hle : s.now ≤ utcNow) :
    Tended config mode operator events { s with now := utcNow, lastEval := utcNow } where
  sync := h.sync
  timed := h.timed
  clock := h.clock.trans hle
  lastEval_le := le_rfl
  before i hi := ((h.before i hi).trans h.lastEval_le).trans hle
  spaced := h.spaced
  fed := h.fed

/-- The turn that a wake begins keeps its distance from the iterations before it. -/
theorem onWake_sound {targetExec : ℤ}
    (hmode : LiveTradeEngine.withRawOperator config operator = .ok mode)
    (h : Tended config mode operator events s)
    (hawaiting : Awaiting config operator events s (.sleep targetExec))
    (htarget : targetExec ≤ utcNow) (hle : s.now ≤ utcNow)
    (hbegun : s.sync.status = .synced → WokenSince events utcNow s.sync.since) :
    LiveSound config mode operator events (s.onWake utcNow) := by
  obtain ⟨base, hsync⟩ := h.sync
  unfold onWake
  split
  case h_1 status _ =>
    have hclock : Tended config mode operator events { s with now := utcNow } :=
      ⟨h.sync, h.timed, h.clock.trans hle, h.lastEval_le.trans hle, h.before, h.spaced, h.fed⟩
    have hwaits : Tended config mode operator events
        ({ s with now := utcNow }.update (.waitingForSync status)) :=
      hclock.frame rfl rfl rfl rfl
    exact hwaits.await trivial
  case h_2 hgate =>
    refine (h.read hle).await ⟨rfl, hgate, fun hsynced l hlookback => ?_, ?_⟩
    · obtain ⟨-, hobtained, -⟩ := hsync.grounded.published.synced hsynced
      exact supplied_of_obtained hmode hlookback hsync.grounded.written (h.clock.trans hle)
        (hbegun hsynced) hobtained
    · intro interval hinterval i hi
      have hmono := ceilSec_mono (add_le_add_left (h.before i hi) interval.asDuration)
      rw [← hawaiting interval hinterval] at hmono
      exact hmono.trans htarget

theorem onSyncStatus_sound {status : SyncStatus (SyncTaskError ε)}
    (h : Tended config mode operator events s) (hstage : s.stage = .running .sync) :
    LiveSound config mode operator events (s.onSyncStatus operator status) := by
  cases status with
  | notSynced status =>
      refine ⟨h.frame rfl rfl rfl rfl, fun await hawait => ?_⟩
      obtain rfl : LiveAwait.sync = await := LiveStage.running.inj (hstage.symm.trans hawait)
      trivial
  | synced => exact h.nextTurn
  | backfilled => exact h.fail (.fatal .unexpectedSyncBackfilled)
  | terminated e => exact h.fail (.fatal (.syncProcessTerminated e))
  | shutdownInitiated => exact h.fail (.fatal .syncProcessShutdown)
  | shutdown => exact h.fail (.fatal .syncProcessShutdown)

theorem onSyncRecv_sound {received : SyncReceived (SyncTaskError ε)}
    (h : LiveSound config mode operator events s) (hstage : s.stage = .running .sync) :
    LiveSound config mode operator events (s.onSyncRecv operator received) := by
  cases received with
  | update update =>
      cases update with
      | status status => exact onSyncStatus_sound h.tended hstage
      | priceTick => exact h.tended.nextTurn
      | priceHistoryState => exact h
      | fundingSettlementsState => exact h
  | lagged skipped => exact h.tended.fail (.recoverable (.syncRecvLagged skipped))
  | closed => exact h.tended.fail (.fatal .syncRecvClosed)

theorem status_updateIfNotRunning (s : LiveProcess ε η) :
    (s.updateIfNotRunning .running).status = .running := by
  unfold updateIfNotRunning LiveProcess.update
  cases hstatus : s.status <;> simp [LiveTradeStatus.eq, hstatus]

theorem updateIfNotRunning_cases (s : LiveProcess ε η) (newStatus : LiveTradeStatus ε η) :
    s.updateIfNotRunning newStatus = s ∨ s.updateIfNotRunning newStatus = s.update newStatus := by
  unfold updateIfNotRunning
  cases s.status <;> simp

theorem Tended.updateIfNotRunning (h : Tended config mode operator events s)
    (newStatus : LiveTradeStatus ε η) :
    Tended config mode operator events (s.updateIfNotRunning newStatus) := by
  rcases updateIfNotRunning_cases s newStatus with heq | heq
  · rwa [heq]
  · rw [heq]
    exact h.frame rfl rfl rfl rfl

theorem onExecutorState_sound {status : LiveTradeExecutorStatus η}
    (h : Tended config mode operator events s)
    (hpassed : Passed config operator events s.sync.db s.lastEval s.iterations turn) :
    LiveSound config mode operator events (s.onExecutorState operator turn status) := by
  cases status with
  | ready =>
      refine (h.updateIfNotRunning .running).await ⟨?_, Or.inl (status_updateIfNotRunning s)⟩
      rcases updateIfNotRunning_cases s .running with heq | heq
      · rwa [heq]
      · rw [heq]
        exact hpassed
  | notReady status =>
      have hwaits : Tended config mode operator events (s.update (.waitingTradeExecutor status)) :=
        h.frame rfl rfl rfl rfl
      cases status with
      | terminated e => exact h.fail (.fatal (.executorProcessTerminated e))
      | shutdownInitiated => exact h.fail (.fatal .executorProcessShutdown)
      | shutdown => exact h.fail (.fatal .executorProcessShutdown)
      | starting => exact hwaits.nextTurn
      | waitingForSync status => exact hwaits.nextTurn
      | failed e => exact hwaits.nextTurn

/-- The candles are those of the turn's window, as it is stored by then. -/
theorem onFetch_sound (h : Tended config mode operator events s)
    (hpassed : Passed config operator events s.sync.db s.lastEval s.iterations turn)
    (hannounced : Announced s.status) :
    LiveSound config mode operator events (s.onFetch operator turn) := by
  unfold onFetch
  cases hlookback : WrappedRawOperator.lookback operator with
  | error e => exact h.fail _
  | ok lookback =>
      dsimp only
      cases hfetch : fetchCandles s.sync.db lookback turn.now with
      | error e => exact h.fail _
      | ok candles =>
          have hfed : Fed config operator events
              ({ turn with db := s.sync.db, candles } : LiveIteration ε) := by
            refine ⟨hpassed.gate, fun other hother => ?_, hpassed.supplied⟩
            obtain rfl := Except.ok.inj (hlookback.symm.trans hother)
            exact hfetch
          refine Tended.await ⟨h.sync, h.timed, h.clock, h.lastEval_le, ?_, ?_, ?_⟩ hannounced
          · intro i hi
            rw [List.mem_append, List.mem_singleton] at hi
            rcases hi with hi | rfl
            · exact h.before i hi
            · exact hpassed.now.le
          · intro interval hinterval
            refine List.pairwise_append.mpr ⟨h.spaced interval hinterval,
              List.pairwise_singleton _ _, fun i hi j hj => ?_⟩
            obtain rfl := List.mem_singleton.mp hj
            exact hpassed.spaced interval hinterval i hi
          · intro i hi
            rw [List.mem_append, List.mem_singleton] at hi
            rcases hi with hi | rfl
            · exact h.fed i hi
            · exact hfed

theorem onIterate_sound {result : Except Failure Unit} (h : Tended config mode operator events s) :
    LiveSound config mode operator events (s.onIterate operator result) := by
  unfold onIterate
  split
  · exact h.fail _
  · exact h.nextTurn

theorem onLaunch_sound {setTradeExecutor : Except Failure Unit}
    (h : Tended config mode operator events s) :
    LiveSound config mode operator events (s.onLaunch setTradeExecutor) := by
  unfold onLaunch
  split
  · exact h.fail _
  · exact Tended.rests (h.frame rfl rfl rfl rfl) rfl

/-! ### One event after another -/

theorem Announced.update {newStatus : LiveTradeStatus ε η} (h : Announced s.status)
    (hnew : Announced newStatus) : Announced (s.update newStatus).status := by
  unfold LiveProcess.update
  dsimp only
  split_ifs
  · exact h
  · exact hnew

/-- Statuses that others publish leave the loop where it waits. -/
theorem LiveSound.announce (h : LiveSound config mode operator events s)
    {newStatus : LiveTradeStatus ε η} (hnew : Announced newStatus) (arcs : ℕ) :
    LiveSound config mode operator events ({ s with arcs := arcs }.update newStatus) := by
  refine ⟨h.tended.frame rfl rfl rfl rfl, fun await hawait => ?_⟩
  have hawaiting := h.running await hawait
  have hannounced : Announced s.status →
      Announced ({ s with arcs := arcs }.update newStatus).status :=
    fun hstatus => Announced.update (s := { s with arcs := arcs }) hstatus hnew
  cases await with
  | sleep targetExec => exact hawaiting
  | sync => trivial
  | executorState turn => exact hawaiting
  | candles turn => exact ⟨hawaiting.1, hannounced hawaiting.2⟩
  | iteration => exact hannounced hawaiting

/-- The clock does not go back, and the pages that the sync process gets are the newest of their
ranges. -/
def Ticks (now : ℤ) : LiveProcessEvent ε η → Prop
  | .sync event => Timely now event
  | .begins utcNow | .wakes utcNow => now ≤ utcNow
  | _ => True

theorem timely_anti {event : SyncProcessEvent ε} {now' : ℤ} (h : Timely now event)
    (hle : now' ≤ now) : Timely now' event := by
  cases event with
  | starts utcNow => exact hle.trans h
  | reSyncTimer utcNow => exact hle.trans h
  | downloads utcNow turn => exact ⟨hle.trans h.1, h.2⟩
  | _ => trivial

/-- What the sync process writes beside the loop keeps what its turns found stored. -/
theorem LiveSound.onSync {event : SyncProcessEvent ε} {sync : SyncProcess ε}
    (hbatch : 61 ≤ config.sync.priceHistory.priceHistoryBatchSize)
    (h : LiveSound config mode operator events s) (htimely : Timely s.now event)
    (hstep : s.sync.step config.sync mode event = some sync) :
    LiveSound config mode operator (events ++ [.sync event])
      { s with sync, now := max s.now sync.now } := by
  obtain ⟨base, hsound⟩ := h.tended.sync
  have htimely := timely_anti htimely h.tended.clock
  have hretains := hsound.kept_step hbatch htimely hstep
  have htimed : Timed (syncEvents (events ++ [.sync event])) sync := by
    rw [syncEvents, List.filterMap_append]
    exact h.tended.timed.step hstep fun _ => reSyncTime_le hsound.grounded htimely
  have hpassed : ∀ {turn : LiveTurn ε},
      Passed config operator events s.sync.db s.lastEval s.iterations turn →
        Passed config operator (events ++ [.sync event]) sync.db s.lastEval s.iterations turn :=
    fun hturn => ⟨hturn.now, hturn.gate,
      fun hgate l hl => ((hturn.supplied hgate l hl).retain hretains).extend _, hturn.spaced⟩
  refine ⟨⟨⟨base, hsound.step hbatch htimely hstep⟩, htimed, le_max_right _ _,
    h.tended.lastEval_le.trans (le_max_left _ _), h.tended.before, h.tended.spaced,
    fun i hi => (h.tended.fed i hi).extend _⟩, fun await hawait => ?_⟩
  have hawaiting := h.running await hawait
  cases await with
  | sleep targetExec => exact hawaiting
  | sync => trivial
  | executorState turn => exact hpassed hawaiting
  | candles turn => exact ⟨hpassed hawaiting.1, hawaiting.2⟩
  | iteration => exact hawaiting

/-- An event of the loop itself tells the sync process nothing. -/
theorem LiveSound.extend (h : LiveSound config mode operator events s)
    (event : LiveProcessEvent ε η) (hother : syncEvent event = none) :
    LiveSound config mode operator (events ++ [event]) s := by
  have hsame : syncEvents (events ++ [event]) = syncEvents events := by
    rw [syncEvents, List.filterMap_append, List.filterMap_cons_none hother, List.filterMap_nil,
      List.append_nil, syncEvents]
  have hpassed : ∀ {turn : LiveTurn ε},
      Passed config operator events s.sync.db s.lastEval s.iterations turn →
        Passed config operator (events ++ [event]) s.sync.db s.lastEval s.iterations turn :=
    fun hturn => ⟨hturn.now, hturn.gate,
      fun hgate l hl => (hturn.supplied hgate l hl).extend _, hturn.spaced⟩
  refine ⟨⟨h.tended.sync, hsame ▸ h.tended.timed, h.tended.clock, h.tended.lastEval_le,
    h.tended.before, h.tended.spaced, fun i hi => (h.tended.fed i hi).extend _⟩,
    fun await hawait => ?_⟩
  have hawaiting := h.running await hawait
  cases await with
  | sleep targetExec => exact hawaiting
  | sync => trivial
  | executorState turn => exact hpassed hawaiting
  | candles turn => exact ⟨hpassed hawaiting.1, hawaiting.2⟩
  | iteration => exact hawaiting

theorem LiveSound.onEvent {await : LiveAwait ε}
    (hmode : LiveTradeEngine.withRawOperator config operator = .ok mode)
    (h : LiveSound config mode operator events s) (hstage : s.stage = .running await)
    (hticks : Ticks s.now event)
    (hbegun : ∀ utcNow, event = .wakes utcNow → s.sync.status = .synced →
      WokenSince events utcNow s.sync.since)
    (hstep : s.onEvent operator await event = some s') :
    LiveSound config mode operator events s' := by
  have hawaiting := h.running await hstage
  cases event with
  | wakes utcNow =>
      cases await with
      | sleep targetExec =>
          simp only [LiveProcess.onEvent] at hstep
          split_ifs at hstep with htarget
          obtain rfl := Option.some.inj hstep
          exact onWake_sound hmode h.tended hawaiting htarget hticks (hbegun utcNow rfl)
      | _ => cases hstep
  | syncRecv received =>
      cases await with
      | sync =>
          obtain rfl := Option.some.inj hstep
          exact onSyncRecv_sound h hstage
      | _ => cases hstep
  | syncUpdateTimeout =>
      cases await with
      | sync =>
          obtain rfl := Option.some.inj hstep
          exact onSyncStatus_sound h.tended hstage
      | _ => cases hstep
  | executorState status =>
      cases await with
      | executorState turn =>
          obtain rfl := Option.some.inj hstep
          exact onExecutorState_sound h.tended hawaiting
      | _ => cases hstep
  | fetches =>
      cases await with
      | candles turn =>
          obtain rfl := Option.some.inj hstep
          exact onFetch_sound h.tended hawaiting.1 hawaiting.2
      | _ => cases hstep
  | iterates result =>
      cases await with
      | iteration =>
          obtain rfl := Option.some.inj hstep
          exact onIterate_sound h.tended
      | _ => cases hstep
  | fails error =>
      obtain rfl := Option.some.inj hstep
      exact h.tended.fail error
  | stops =>
      obtain rfl := Option.some.inj hstep
      exact Tended.rests (h.tended.frame rfl rfl rfl rfl) rfl
  | _ => cases hstep

theorem LiveSound.step (hbatch : 61 ≤ config.sync.priceHistory.priceHistoryBatchSize)
    (hmode : LiveTradeEngine.withRawOperator config operator = .ok mode)
    (h : LiveSound config mode operator events s) (hticks : Ticks s.now event)
    (hstep : s.step config mode operator event = some s') :
    LiveSound config mode operator (events ++ [event]) s' := by
  unfold LiveProcess.step at hstep
  split at hstep
  case h_1 event =>
    obtain ⟨sync, hsync, rfl⟩ := Option.map_eq_some_iff.mp hstep
    exact h.onSync hbatch hticks hsync
  · cases hstep
  case h_3 skipped _ =>
    obtain rfl := Option.some.inj hstep
    exact (h.extend (.executorLagged skipped) rfl).announce (Or.inr (Or.inr ⟨_, skipped, rfl⟩)) _
  · obtain rfl := Option.some.inj hstep
    exact (h.extend .shutdownInitiated rfl).announce (Or.inr (Or.inl rfl)) _
  · obtain rfl := Option.some.inj hstep
    exact (h.extend .launchFails rfl).tended.fail _
  case h_6 result _ =>
    obtain rfl := Option.some.inj hstep
    exact onLaunch_sound (h.extend (.launches result) rfl).tended
  case h_7 utcNow _ =>
    obtain rfl := Option.some.inj hstep
    exact ((h.extend (.begins utcNow) rfl).tended.read hticks).nextTurn
  case h_8 event _ _ await hstage hsync _ _ =>
    have hother : syncEvent event = none := by
      cases event with
      | sync e => exact absurd rfl (hsync e)
      | _ => rfl
    refine (h.extend event hother).onEvent hmode hstage hticks
      (fun utcNow hwakes hsynced => ?_) hstep
    obtain ⟨started, after, hlast, hdated⟩ := h.tended.timed.dated (Or.inl hsynced)
    exact ⟨events, [], started, after, by rw [hwakes], hlast, hdated.since⟩
  · obtain rfl := Option.some.inj hstep
    exact Tended.rests ((h.extend .restartInterval rfl).tended.frame rfl rfl rfl rfl) rfl
  case h_10 e _ =>
    obtain rfl := Option.some.inj hstep
    exact (h.extend (.fails (.fatal e)) rfl).tended.fail _
  · obtain rfl := Option.some.inj hstep
    exact Tended.rests ((h.extend .stops rfl).tended.frame rfl rfl rfl rfl) rfl
  · cases hstep

/-! ### Runs -/

/-- The process is spawned on what earlier downloads have left. -/
def liveSystem (ε : Type) {η ω : Type} (config : LiveTradeConfig) (mode : SyncModeInt)
    (operator : RawOperator η ω) : System (LiveProcess ε η) (LiveProcessEvent ε η) where
  start s := ∃ writes db now, (taskWrites ε config.sync.priceHistory).Run writes (db, now) ∧
    s = spawn db now
  step s event s' := Ticks s.now event ∧ s.step config mode operator event = some s'

theorem liveSound_of_run (hbatch : 61 ≤ config.sync.priceHistory.priceHistoryBatchSize)
    (hmode : LiveTradeEngine.withRawOperator config operator = .ok mode)
    (h : (liveSystem ε config mode operator).Run events s) :
    LiveSound config mode operator events s := by
  induction h with
  | start hs =>
      obtain ⟨writes, db, now, hrun, rfl⟩ := hs
      refine Tended.rests ⟨⟨db, sound_of_start hbatch hrun⟩, Or.inl (idle_spawn db now), le_rfl,
        le_rfl, ?_, fun _ _ => .nil, ?_⟩ rfl
      · exact List.forall_mem_nil _
      · exact List.forall_mem_nil _
  | step _ hs ih => exact ih.step hbatch hmode hs.1 hs.2

/-- A raw operator is called at its interval at the earliest, while its process says so, with the
candles of its window. Those of a turn that `Synced` has let pass are all there, up to a minute
that was current when the history before the turn was begun. -/
theorem raw_operator_is_fed (hbatch : 61 ≤ config.sync.priceHistory.priceHistoryBatchSize)
    (hmode : LiveTradeEngine.withRawOperator config operator = .ok mode)
    (h : (liveSystem ε config mode operator).Run events s) :
    (∀ interval, WrappedRawOperator.minIterationInterval operator = .ok interval →
      s.iterations.Pairwise fun i j => ceilSec (i.now + interval.asDuration) ≤ j.now) ∧
    (s.stage = .running .iteration → Announced s.status) ∧
    ∀ i ∈ s.iterations, (∀ status, i.gate ≠ .notSynced status) ∧
      ∀ l, WrappedRawOperator.lookback operator = .ok (some l) →
        i.candles.map quote =
          (batch l.resolution (i.db.getCandles (liveFrom l i.now) i.now)).map quote ∧
        (i.gate = .synced → ∃ last since, last ≤ i.now ∧ WokenSince events i.now since ∧
          since ≤ last + minute ∧
          ((config.syncModeFull = true →
              config.sync.priceHistory.priceHistoryReach ≤ liveFrom l i.now) →
            Consolidator.Stored i.db.candleRows (liveFrom l i.now) last ∧
            (floorToResolution last l.resolution = floorToResolution i.now l.resolution →
              i.candles.length = l.period.asUsize))) := by
  have hsound := liveSound_of_run hbatch hmode h
  refine ⟨hsound.tended.spaced, hsound.running .iteration, fun i hi => ?_⟩
  have hfed := hsound.tended.fed i hi
  refine ⟨hfed.gate, fun l hlookback => ?_⟩
  have hfetched := hfed.fetched _ hlookback
  obtain ⟨-, hrows⟩ := getCandlesConsolidated_spec i.db l.resolution (liveFrom l i.now) i.now
  refine ⟨hrows i.candles hfetched, fun hsynced => ?_⟩
  obtain ⟨last, since, hnonneg, hle, hbegun, hsince, hstored⟩ := hfed.supplied hsynced l hlookback
  refine ⟨last, since, hle, hbegun, hsince, fun hreach => ⟨hstored hreach, fun hbucket => ?_⟩⟩
  exact fetched_length hnonneg hle hbucket (hstored hreach) hfetched

/-! ### A call five seconds after the start -/

def halfHour : Lookback := ⟨.oneMinute, ⟨30, by decide, by decide⟩, by decide⟩

def fiveSeconds : MinIterationInterval := ⟨Duration.seconds 5, by decide, by decide⟩

/-- An operator that looks at half an hour and does nothing. -/
def watchingOperator : RawOperator Unit Unit where
  setTradeExecutor memory := (memory, .ok ())
  lookback := .ok (some halfHour)
  minIterationInterval := .ok fiveSeconds
  iterate _ memory := .done (memory, .ok ())

def watchingConfig : LiveTradeConfig := ⟨false, pollingConfig⟩

def firstWake : ℤ := lateClock.utcNow + Duration.seconds 5

/-- The process before its operator's first call. -/
def watchingState (sync : SyncProcess Unit) (stage : LiveStage Unit)
    (status : LiveTradeStatus Unit Unit) (now lastEval : ℤ) : LiveProcess Unit Unit :=
  ⟨sync, now, stage, status, 0, lastEval, []⟩

def watchingTurn : LiveTurn Unit := ⟨firstWake, .synced⟩

def watchingSystem : System (LiveProcess Unit Unit) (LiveProcessEvent Unit Unit) :=
  liveSystem Unit watchingConfig pollingMode watchingOperator

/-- The sync process goes on beside a process that waits to be launched. -/
theorem watching_sync {events : List (LiveProcessEvent Unit Unit)} {p p' : SyncProcess Unit}
    (h : watchingSystem.Run events (watchingState p .launching .notInitiated p.now 0))
    (event : SyncProcessEvent Unit) (htimely : Timely p.now event)
    (hstep : p.step pollingConfig pollingMode event = some p') (hle : p.now ≤ p'.now) :
    watchingSystem.Run (events ++ [.sync event])
      (watchingState p' .launching .notInitiated p'.now 0) := by
  have hnext : (watchingState p .launching .notInitiated p.now 0).step watchingConfig pollingMode
      watchingOperator (.sync event) =
        some (watchingState p' .launching .notInitiated (max p.now p'.now) 0) := by
    show Option.map _ (p.step pollingConfig pollingMode event) = _
    rw [hstep]
    rfl
  rw [max_eq_right hle] at hnext
  exact h.step ⟨htimely, hnext⟩

/-- The lookback is downloaded before the operator is launched. -/
theorem watching_synced : ∃ db, watchingSystem.Run
    [.sync .spawned, .sync (.starts lateClock.utcNow), .sync lateDownload, .sync lateDownload]
    (watchingState (pollingDone db) .launching .notInitiated lateClock.utcNow 0) := by
  obtain ⟨db, hstart, hturn⟩ := late_history
  have hspawn : watchingSystem.Run []
      (watchingState (SyncProcess.spawn emptyTable 0) .launching .notInitiated 0 0) :=
    .start ⟨[], emptyTable, 0, .start rfl, rfl⟩
  have hclock : (0 : ℤ) ≤ lateClock.utcNow := by decide
  have hstarting := watching_sync hspawn .spawned trivial rfl le_rfl
  have hstarted := watching_sync hstarting (.starts lateClock.utcNow) hclock rfl hclock
  have hloop := watching_sync hstarted lateDownload lateDownload_timely (pollingLoop_step hstart)
    le_rfl
  exact ⟨db, watching_sync hloop lateDownload lateDownload_timely (pollingDone_step hturn) le_rfl⟩

theorem watching_step {events : List (LiveProcessEvent Unit Unit)} {s : LiveProcess Unit Unit}
    (h : watchingSystem.Run events s) (event : LiveProcessEvent Unit Unit)
    (s' : LiveProcess Unit Unit) (hticks : Ticks s.now event)
    (hstep : s.step watchingConfig pollingMode watchingOperator event = some s') :
    watchingSystem.Run (events ++ [event]) s' :=
  h.step ⟨hticks, hstep⟩

/-- The first call gets the half hour up to the minute in which the sync process was started. -/
theorem raw_operator_is_fed_watching : ∃ events s i, watchingSystem.Run events s ∧
    s.status = .running ∧ s.iterations = [i] ∧ i.now = firstWake ∧
    ∃ last, last ≤ firstWake ∧ lateClock.utcNow ≤ last + minute ∧
      Consolidator.Stored i.db.candleRows (liveFrom halfHour firstWake) last := by
  obtain ⟨db, hsynced⟩ := watching_synced
  have hlaunched := watching_step hsynced (.launches (.ok ()))
    (watchingState (pollingDone db) .starting .starting lateClock.utcNow 0) trivial rfl
  have hbegun := watching_step hlaunched (.begins lateClock.utcNow)
    (watchingState (pollingDone db) (.running (.sleep firstWake)) .starting lateClock.utcNow
      lateClock.utcNow) le_rfl rfl
  have hclock : lateClock.utcNow ≤ firstWake := by decide
  have hwoken := watching_step hbegun (.wakes firstWake)
    (watchingState (pollingDone db) (.running (.executorState watchingTurn)) .starting firstWake
      firstWake) hclock rfl
  have hready := watching_step hwoken (.executorState .ready)
    (watchingState (pollingDone db) (.running (.candles watchingTurn)) .running firstWake
      firstWake) trivial rfl
  have hfetched := watching_step hready .fetches _ trivial rfl
  have hfed := (raw_operator_is_fed (by decide) rfl hfetched).2.2 _ (List.mem_singleton_self _)
  obtain ⟨last, since, hle, hsince, hfresh, hstored⟩ := (hfed.2 halfHour rfl).2 rfl
  obtain ⟨started, hmem, hstarted⟩ := hsince.started
  obtain rfl : started = lateClock.utcNow := by simpa [lateDownload] using hmem
  have hpolls : ¬ watchingConfig.syncModeFull = true := by decide
  exact ⟨_, _, _, hfetched, rfl, rfl, rfl, last, hle, hstarted.trans hfresh,
    (hstored fun hfull => absurd hfull hpolls).1⟩

end Quantoxide.Live
