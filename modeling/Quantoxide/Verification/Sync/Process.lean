import Quantoxide.Model.SyncProcess
import Quantoxide.Verification.Sync.FundingBackfill
import Quantoxide.Verification.Sync.LiveHistory
import Quantoxide.Verification.Sync.Starts

/-! # What a status of the sync process promises

A status is published where the downloads of the mode have completed. What they filled stays
filled, through later downloads, failures and restarts. -/

namespace Quantoxide.Sync

open DateTime (isRoundMinute)
open GapMarkers Result Runs CandleTable SyncPriceHistoryTask SyncProcess

variable {ε : Type} {db db' : Database} {turn : SyncTurn ε} {state state' : PriceHistoryState}
  {range : DownloadRange} {now since reach : ℤ}

/-! ### Stored data -/

/-- Whatever was stored still is. -/
structure Retains (db db' : Database) : Prop where
  candles : ∀ t, Stored (marks db) t → Stored (marks db') t
  settlements : ∀ t, Settlements.Stored db t → Settlements.Stored db' t

theorem Retains.refl (db : Database) : Retains db db := ⟨fun _ h => h, fun _ h => h⟩

theorem Retains.trans {db'' : Database} (h : Retains db db') (h' : Retains db' db'') :
    Retains db db'' :=
  ⟨fun t ht => h'.candles t (h.candles t ht), fun t ht => h'.settlements t (h.settlements t ht)⟩

/-- The minutes from a start on, up to one that was current at `since`. -/
def Held (start : ℤ → ℤ) (since : ℤ) (db : Database) : Prop :=
  ∃ last, Stored (marks db) last ∧ since ≤ last + minute ∧
    ∀ m, isRoundMinute m = true → start last ≤ m → m ≤ last → Stored (marks db) m

theorem Held.retain {start : ℤ → ℤ} (h : Held start since db) (hretains : Retains db db') :
    Held start since db' := by
  obtain ⟨last, hlast, hsince, hfilled⟩ := h
  refine ⟨last, hretains.candles last hlast, hsince, fun m hround hlo hhi => ?_⟩
  exact hretains.candles m (hfilled m hround hlo hhi)

theorem Held.since_mono {start : ℤ → ℤ} {since' : ℤ} (h : Held start since db)
    (hle : since' ≤ since) : Held start since' db := by
  obtain ⟨last, hlast, hsince, hfilled⟩ := h
  exact ⟨last, hlast, hle.trans hsince, hfilled⟩

/-- Some settlement lies at or before the reach. -/
def SettlementsReach (reach : ℤ) (db : Database) : Prop :=
  ∃ t, Settlements.Stored db t ∧ t ≤ reach

theorem SettlementsReach.retain (h : SettlementsReach reach db) (hretains : Retains db db') :
    SettlementsReach reach db' := by
  obtain ⟨t, ht, hle⟩ := h
  exact ⟨t, hretains.settlements t ht, hle⟩

/-! ### Downloads of candles -/

theorem fundingSettlements_insertCandles {clock : Clock} {cutoff : ℤ}
    {batch : List (OhlcCandle × Bool)} (h : ∀ e ∈ batch, isRoundMinute e.1.time = true) :
    (Database.insertCandles clock cutoff db batch h).fundingSettlements =
      db.fundingSettlements := by
  induction batch generalizing db with
  | nil => rfl
  | cons e batch ih => exact ih _

theorem fundingSettlements_addCandles {clock : Clock} {before : Option ℤ}
    {candles : List OhlcCandle} (h : db.addCandles clock before candles = .ok db') :
    db'.fundingSettlements = db.fundingSettlements := by
  unfold Database.addCandles at h
  split at h
  · obtain rfl := Except.ok.inj h
    rfl
  · split at h
    · cases h
    · obtain rfl := Except.ok.inj h
      rw [fundingSettlements_insertCandles]
      cases before <;> rfl

theorem fundingSettlements_partialDownload {config : SyncPriceHistoryTaskConfig}
    (h : partialDownload config turn range db = .ok db') :
    db'.fundingSettlements = db.fundingSettlements := by
  simp only [partialDownload, liftDb, bind_eq_ok, mapError_eq_ok] at h
  obtain ⟨candles, -, added, hadd, h⟩ := h
  have hadded := fundingSettlements_addCandles hadd
  split_ifs at h
  · cases range with
    | lowerBound toTime => cases h
    | gap fromTime toTime =>
        obtain rfl := pure_eq_ok.mp h
        exact hadded
    | latest =>
        obtain rfl := pure_eq_ok.mp h
        exact hadded
    | upperBound fromTime =>
        obtain rfl := pure_eq_ok.mp h
        exact hadded
  · obtain rfl := pure_eq_ok.mp h
    exact hadded

theorem Downloaded.retains {config : SyncPriceHistoryTaskConfig} {limit : ℕ} {lo hi : ℤ}
    {clock : Clock} (h : Downloaded limit range clock db db' lo hi)
    (hok : partialDownload config turn range db = .ok db') : Retains db db' := by
  refine ⟨fun t ht => h.stored_mono ht, fun t ht => ?_⟩
  rwa [Settlements.Stored, fundingSettlements_partialDownload hok]

section Tasks

variable {config : SyncPriceHistoryTaskConfig}

/-- A turn of the backfill; the one that ends it leaves the history filled from the reach. -/
theorem backfillTurn_held {finished : Bool} (hbatch : 61 ≤ config.priceHistoryBatchSize)
    (h : Written (db, turn.limitNow)) (hserves : Serves turn)
    (hstate : PriceHistoryState.evaluateWithReach db config.priceHistoryReach = .ok state)
    (hok : backfillTurn config turn db state = .ok (db', state', finished)) :
    Written (db', turn.addClock.utcNow) ∧ Retains db db' ∧
      PriceHistoryState.evaluateWithReach db' config.priceHistoryReach = .ok state' ∧
      (finished = true → Held (fun _ => config.priceHistoryReach) turn.limitNow db') := by
  obtain ⟨-, -, hstate', hcomplete⟩ :=
    backfillTurn_spec hbatch h.tidy hserves (h.head config.priceHistoryReach) hstate hok
  simp only [backfillTurn, liftFatal, bind_eq_ok, mapError_eq_ok, pure_eq_ok, Prod.mk.injEq] at hok
  obtain ⟨range, hrange, _, hdownload, _, -, gaps, -, rfl, rfl, rfl⟩ := hok
  obtain ⟨hwritten, lo, hi, hdown, -, -, hfresh⟩ :=
    partialDownload_written hbatch h hserves (nextDownloadRange_bounded hstate hrange) hdownload
  refine ⟨hwritten, hdown.retains hdownload, hstate', fun hfinished => ?_⟩
  obtain ⟨hfilled, first, hfirst, hreach⟩ := hcomplete hfinished
  rw [Bool.and_eq_true] at hfinished
  have hend : Stored (marks _) hi := hdown.writes.stored_iff.mpr (Or.inl hdown.writes.last)
  refine ⟨hi, hend, hfresh (toTime?_of_isNewest hfinished.2), fun m hround hlo hhi => ?_⟩
  exact hfilled first hi m (getEarliest_eq_some.mp hfirst).1 hend hround (hreach.trans hlo) hhi

/-- A download that a failing turn has made before it failed. -/
theorem download_written (hbatch : 61 ≤ config.priceHistoryBatchSize)
    (h : Written (db, turn.limitNow)) (hserves : Serves turn) (hbounded : Bounded db range)
    (hok : partialDownload config turn range db = .ok db') :
    Written (db', turn.addClock.utcNow) ∧ Retains db db' := by
  obtain ⟨hwritten, lo, hi, hdown, -⟩ := partialDownload_written hbatch h hserves hbounded hok
  exact ⟨hwritten, hdown.retains hok⟩

/-- The loop of `live` ends with the lookback held, and keeps what it follows until then. -/
theorem liveTurn_held {start lookback : ℤ} {next : Option Database}
    (hbatch : 61 ≤ config.priceHistoryBatchSize) (h : Following start (db, turn.limitNow))
    (hserves : Serves turn) (hok : liveTurn config turn lookback db = .ok next) :
    match next with
    | none => Held (· - lookback) start db
    | some db' => Following start (db', turn.addClock.utcNow) ∧ Retains db db' := by
  have hnext := liveTurn_spec hbatch h hserves hok
  cases next with
  | none =>
      obtain ⟨latest, hlatest, hfilled⟩ := hnext
      obtain ⟨t, ht, hfresh⟩ := h.fresh
      have hle := (getLatest_eq_some.mp hlatest).2 t ht
      have hstored := (getLatest_eq_some.mp hlatest).1
      exact ⟨latest, hstored, hfresh.trans (add_le_add_left hle minute), hfilled⟩
  | some db' =>
      refine ⟨hnext, ?_⟩
      simp only [liveTurn, liftFatal, bind_eq_ok, mapError_eq_ok] at hok
      obtain ⟨state, hstate, hok⟩ := hok
      split_ifs at hok
      · cases hok
      · simp only [bind_eq_ok, mapError_eq_ok, pure_eq_ok, Option.some.injEq] at hok
        obtain ⟨range, hrange, _, hdownload, rfl⟩ := hok
        exact (download_written hbatch h.written hserves (nextDownloadRange_bounded hstate hrange)
          hdownload).2

theorem liveStart_held (hbatch : 61 ≤ config.priceHistoryBatchSize)
    (h : Written (db, turn.limitNow)) (hserves : Serves turn)
    (hok : liveStart config turn db = .ok db') :
    Following turn.limitNow (db', turn.addClock.utcNow) ∧ Retains db db' := by
  refine ⟨liveStart_spec hbatch h hserves hok, ?_⟩
  simp only [liveStart, liftFatal, bind_eq_ok, mapError_eq_ok] at hok
  obtain ⟨state, hstate, hdownload⟩ := hok
  exact (download_written hbatch h hserves (Asked.initial hstate).bounded hdownload).2

end Tasks

/-! ### Downloads of settlements -/

section Funding

variable {config : SyncFundingSettlementsTaskConfig} {flagMissingRange : Option ℤ}
  {fundingTurn : FundingTurn ε} {fundingRange : FundingDownloadRange} {s s' : FundingBackfill}
  {synced : Option Bool}

theorem addSettlements_written (settlements : List FundingSettlement) (h : Written (db, now)) :
    Written (db.addSettlements settlements, now) ∧ Retains db (db.addSettlements settlements) := by
  induction settlements generalizing db with
  | nil => exact ⟨h, .refl db⟩
  | cons settlement settlements ih =>
      have hinsert : Written (db.insertSettlement settlement, now) :=
        ⟨⟨h.tidy.marked, h.tidy.aged, h.tidy.past⟩, h.head, h.sharp⟩
      have hretains : Retains db (db.insertSettlement settlement) :=
        ⟨fun _ ht => ht,
          fun _ ht => (Settlements.stored_insertSettlement settlement).mpr (Or.inr ht)⟩
      obtain ⟨hwritten, hmore⟩ := ih hinsert
      exact ⟨hwritten, hretains.trans hmore⟩

theorem fundingDownload_written (h : Written (db, now))
    (hok : SyncFundingSettlementsTask.partialDownload config fundingTurn fundingRange db =
      .ok db') : Written (db', now) ∧ Retains db db' := by
  simp only [SyncFundingSettlementsTask.partialDownload, bind_eq_ok] at hok
  obtain ⟨page, -, hok⟩ := hok
  split at hok
  · cases hok
  · split at hok
    · cases hok
    · obtain rfl := pure_eq_ok.mp hok
      exact addSettlements_written page h

/-- A turn of the funding task; the one that ends it leaves settlements back to the reach. -/
theorem fundingTurn_reaches (h : Written (s.db, now))
    (hok : SyncFundingSettlementsTask.backfillTurn config flagMissingRange fundingTurn s =
      .ok (s', synced)) :
    Written (s'.db, now) ∧ Retains s.db s'.db ∧
      (synced.isSome = true → SettlementsReach config.fundingSettlementReach s'.db) := by
  simp only [SyncFundingSettlementsTask.backfillTurn, bind_eq_ok] at hok
  obtain ⟨range, -, db, hdownload, t, ht, missing, hmissing, hok⟩ := hok
  have hstate : t.db = db ∧ ∃ exclude utcNow, Settlements.Scanned db config.fundingSettlementReach
      flagMissingRange exclude utcNow t.state := by
    cases Settlements.reevaluated_of_ok ht with
    | kept hstate _ => exact ⟨rfl, _, _, Settlements.evaluateWithReach_spec hstate⟩
    | excluded _ _ _ hstate => exact ⟨rfl, _, _, Settlements.evaluateWithReach_spec hstate⟩
  obtain ⟨rfl, _, _, hscanned⟩ := hstate
  obtain ⟨hwritten, hretains⟩ := fundingDownload_written h hdownload
  cases missing with
  | true =>
      simp only [if_true, pure_eq_ok, Prod.mk.injEq] at hok
      obtain ⟨rfl, rfl⟩ := hok
      exact ⟨hwritten, hretains, by simp⟩
  | false =>
      have hs' : s' = t := by
        split_ifs at hok
        all_goals exact (Prod.mk.inj (pure_eq_ok.mp hok)).1.symm
      subst hs'
      refine ⟨hwritten, hretains, fun _ => ?_⟩
      -- Nothing is missing, so that there are bounds, and the first is not above the reach.
      simp only [ScannedSettlementsState.hasMissing, hscanned.reachTime, Except.ok.injEq]
        at hmissing
      cases hbounds : s'.state.bounds with
      | none => simp [hbounds] at hmissing
      | some bounds =>
          have hle : bounds.1 ≤ config.fundingSettlementReach := by
            simp only [hbounds, Option.all_some, Bool.or_eq_false_iff, decide_eq_false_iff_not,
              not_lt] at hmissing
            exact hmissing.2
          rw [hscanned.evaluated] at hbounds
          obtain ⟨hearliest, -⟩ := Settlements.bounds_eq_some hbounds
          exact ⟨bounds.1, (Settlements.earliest_eq_some.mp hearliest).1, hle⟩

end Funding

/-! ### What the process has obtained -/

section Process

variable {config : SyncProcessConfig} {mode : SyncModeInt} {base : Database}
  {p p' : SyncProcess ε} {part : SyncPart} {await : SyncAwait} {lookback : ℤ}

/-- The candles that a mode downloads before it goes on. -/
def CandlesHeld (config : SyncProcessConfig) (since : ℤ) (db : Database) : SyncModeInt → Prop
  | .backfill | .full => Held (fun _ => config.priceHistory.priceHistoryReach) since db
  | .liveNoLookback => config.streamEnabled = true ∨
      Held (fun _ => config.priceHistory.priceHistoryReach) since db
  | .liveWithLookback lookback => Held (· - lookback) since db

/-- What a mode has when it says that it has downloaded. -/
structure Obtained (config : SyncProcessConfig) (mode : SyncModeInt) (since : ℤ)
    (db : Database) : Prop where
  candles : CandlesHeld config since db mode
  settlements : mode = .backfill ∨ mode = .full →
    SettlementsReach config.fundingSettlements.fundingSettlementReach db

theorem CandlesHeld.retain (h : CandlesHeld config since db mode) (hretains : Retains db db') :
    CandlesHeld config since db' mode := by
  cases mode with
  | backfill => exact Held.retain h hretains
  | liveNoLookback => exact Or.imp_right (fun h => h.retain hretains) h
  | liveWithLookback lookback => exact Held.retain h hretains
  | full => exact Held.retain h hretains

theorem Obtained.retain (h : Obtained config mode since db) (hretains : Retains db db') :
    Obtained config mode since db' :=
  ⟨h.candles.retain hretains, fun hmode => (h.settlements hmode).retain hretains⟩

/-- What the status says of the database, and of the stream. -/
structure Published (config : SyncProcessConfig) (mode : SyncModeInt) (p : SyncProcess ε) :
    Prop where
  synced : p.status = .synced → mode ≠ .backfill ∧ Obtained config mode p.since p.db ∧
    (config.streamEnabled = true → 0 < p.ticks)
  backfilled : p.status = .backfilled → mode = .backfill ∧ Obtained config mode p.since p.db

structure Grounded (config : SyncProcessConfig) (mode : SyncModeInt) (base : Database)
    (p : SyncProcess ε) : Prop where
  written : Written (p.db, p.now)
  kept : Retains base p.db
  begun_le : p.begun ≤ p.now
  published : Published config mode p

/-- What holds in a part of the mode. -/
def Served (config : SyncProcessConfig) (mode : SyncModeInt) (p : SyncProcess ε) :
    SyncPart → Prop
  | .downloading _ => True
  | .listening isSynced => config.streamEnabled = true ∧ mode ≠ .backfill ∧
      Obtained config mode p.since p.db ∧ (isSynced = true → 0 < p.ticks)
  | .polling => config.streamEnabled = false ∧ mode ≠ .backfill ∧
      Obtained config mode p.since p.db

/-- What holds where the process waits. -/
def Awaits (config : SyncProcessConfig) (mode : SyncModeInt) (p : SyncProcess ε)
    (part : SyncPart) : SyncAwait → Prop
  | .fundingState => mode = .backfill ∨ mode = .full
  | .backfillStart _ => ∀ lookback, mode ≠ .liveWithLookback lookback
  | .backfillLoop state => (∀ lookback, mode ≠ .liveWithLookback lookback) ∧
      PriceHistoryState.evaluateWithReach p.db config.priceHistory.priceHistoryReach = .ok state
  | .liveLoop => ∃ start, p.begun ≤ start ∧ Following start (p.db, p.now)
  | .fundingStart _ | .fundingLoop .. => CandlesHeld config p.since p.db mode
  | .stream => config.streamEnabled = true ∧ mode ≠ .backfill ∧
      Obtained config mode p.since p.db
  | .sleep => part ≠ .polling → mode = .backfill
  | .liveStart | .select => True

structure Sound (config : SyncProcessConfig) (mode : SyncModeInt) (base : Database)
    (p : SyncProcess ε) : Prop where
  grounded : Grounded config mode base p
  running : ∀ part await, p.stage = .running part await →
    Served config mode p part ∧ Awaits config mode p part await

/-! ### The process, one operation after another -/

theorem Grounded.update (h : Grounded config mode base p) {newStatus : SyncStatus (SyncTaskError ε)}
    (hpublished : Published config mode { p with status := newStatus }) :
    Grounded config mode base (p.update newStatus) := by
  refine ⟨h.written, h.kept, h.begun_le, ?_, ?_⟩
  · intro hsynced
    exact hpublished.synced ((update_status_iff (Or.inl rfl) newStatus).mp hsynced)
  · intro hbackfilled
    exact hpublished.backfilled ((update_status_iff (Or.inr rfl) newStatus).mp hbackfilled)

/-- A download keeps what the status says. -/
theorem Grounded.advance (h : Grounded config mode base p) (hwritten : Written (db', now))
    (hretains : Retains p.db db') (hle : p.now ≤ now) :
    Grounded config mode base { p with db := db', now := now } := by
  refine ⟨hwritten, h.kept.trans hretains, h.begun_le.trans hle, ?_, ?_⟩
  · intro hsynced
    obtain ⟨hmode, hobtained, hticks⟩ := h.published.synced hsynced
    exact ⟨hmode, hobtained.retain hretains, hticks⟩
  · intro hbackfilled
    obtain ⟨hmode, hobtained⟩ := h.published.backfilled hbackfilled
    exact ⟨hmode, hobtained.retain hretains⟩

theorem Served.advance (h : Served config mode p part) (hretains : Retains p.db db') (now : ℤ) :
    Served config mode { p with db := db', now := now } part := by
  cases part with
  | downloading firstPass => trivial
  | listening isSynced =>
      obtain ⟨hstream, hmode, hobtained, hticks⟩ := h
      exact ⟨hstream, hmode, hobtained.retain hretains, hticks⟩
  | polling =>
      obtain ⟨hstream, hmode, hobtained⟩ := h
      exact ⟨hstream, hmode, hobtained.retain hretains⟩

/-- A history that is complete is held from the time at which it was begun. -/
theorem Grounded.complete (h : Grounded config mode base p)
    (hheld : CandlesHeld config p.begun p.db mode) :
    Grounded config mode base { p with since := p.begun } := by
  refine ⟨h.written, h.kept, h.begun_le, ?_, ?_⟩
  · intro hsynced
    obtain ⟨hmode, hobtained, hticks⟩ := h.published.synced hsynced
    exact ⟨hmode, ⟨hheld, hobtained.settlements⟩, hticks⟩
  · intro hbackfilled
    obtain ⟨hmode, hobtained⟩ := h.published.backfilled hbackfilled
    exact ⟨hmode, hheld, hobtained.settlements⟩

theorem Served.complete (h : Served config mode p part)
    (hheld : CandlesHeld config p.begun p.db mode) :
    Served config mode { p with since := p.begun } part := by
  cases part with
  | downloading firstPass => trivial
  | listening isSynced =>
      obtain ⟨hstream, hmode, hobtained, hticks⟩ := h
      exact ⟨hstream, hmode, ⟨hheld, hobtained.settlements⟩, hticks⟩
  | polling =>
      obtain ⟨hstream, hmode, hobtained⟩ := h
      exact ⟨hstream, hmode, ⟨hheld, hobtained.settlements⟩⟩

theorem Grounded.run (h : Grounded config mode base p) (hserved : Served config mode p part)
    (hawaits : Awaits config mode p part await) : Sound config mode base (p.run part await) := by
  refine ⟨⟨h.written, h.kept, h.begun_le, h.published.synced, h.published.backfilled⟩, ?_⟩
  rintro _ _ ⟨⟩
  cases part <;> cases await <;> exact ⟨hserved, hawaits⟩

theorem Grounded.rests (h : Grounded config mode base p) (hrests : runsMode p.stage = false) :
    Sound config mode base p :=
  ⟨h, fun part await hstage => absurd hstage (not_running hrests part await)⟩

theorem Grounded.fail (h : Grounded config mode base p) (error : SyncProcessError ε) :
    Sound config mode base (p.fail error) := by
  have hstopped : ∀ {stage : SyncStage} {status : SyncStatus (SyncTaskError ε)},
      runsMode stage = false → status ≠ .synced → status ≠ .backfilled →
        Sound config mode base
          ({ p with arcs := p.arcs + 1, stage := stage }.update status) := by
    intro stage status hrests hsynced hbackfilled
    have hg : Grounded config mode base { p with arcs := p.arcs + 1, stage := stage } :=
      ⟨h.written, h.kept, h.begun_le, h.published.synced, h.published.backfilled⟩
    exact (hg.update ⟨fun h => absurd h hsynced, fun h => absurd h hbackfilled⟩).rests hrests
  cases error with
  | recoverable e => exact hstopped rfl nofun nofun
  | fatal e => exact hstopped rfl nofun nofun

theorem Grounded.startLive (h : Grounded config mode base p) (hmode : mode ≠ .backfill)
    (hobtained : Obtained config mode p.since p.db) (hserved : Served config mode p part) :
    Sound config mode base (p.startLive config part) := by
  unfold SyncProcess.startLive
  split_ifs with hstream
  · exact h.run hserved ⟨hstream, hmode, hobtained⟩
  · have hstream : config.streamEnabled = false := by simpa using hstream
    have hsynced : Grounded config mode base (p.update .synced) := by
      refine h.update ⟨fun _ => ⟨hmode, hobtained, ?_⟩, nofun⟩
      simp [hstream]
    exact hsynced.run ⟨hstream, hmode, hobtained⟩ (absurd rfl)

theorem Grounded.afterHistory (h : Grounded config mode base p)
    (hserved : Served config mode p part)
    (hheld : CandlesHeld config p.begun p.db mode) :
    Sound config mode base (p.afterHistory config mode part) := by
  have hcomplete := h.complete hheld
  have hserved := hserved.complete hheld
  cases part with
  | downloading firstPass =>
      cases mode with
      | backfill => exact hcomplete.run trivial hheld
      | full => exact hcomplete.run trivial hheld
      | liveNoLookback => exact hcomplete.startLive nofun ⟨hheld, by simp⟩ trivial
      | liveWithLookback lookback => exact hcomplete.startLive nofun ⟨hheld, by simp⟩ trivial
  | listening isSynced => exact hcomplete.run hserved trivial
  | polling => exact hcomplete.run hserved (absurd rfl)

theorem Grounded.afterFunding (h : Grounded config mode base p)
    (hserved : Served config mode p part)
    (hobtained : Obtained config mode p.since p.db) :
    Sound config mode base (p.afterFunding config mode part) := by
  cases part with
  | downloading firstPass =>
      cases mode with
      | backfill =>
          have hbackfilled : Grounded config .backfill base (p.update .backfilled) :=
            h.update ⟨nofun, fun _ => ⟨rfl, hobtained⟩⟩
          exact hbackfilled.run trivial fun _ => rfl
      | full => exact h.startLive nofun hobtained trivial
      | liveNoLookback => exact h.startLive nofun hobtained trivial
      | liveWithLookback lookback => exact h.startLive nofun hobtained trivial
  | listening isSynced => exact h.run hserved trivial
  | polling => exact h.run hserved (absurd rfl)

/-! ### What the process awaits, one event after another -/

theorem onBackfillTurn_sound {state : PriceHistoryState} (hbatch : 61 ≤
    config.priceHistory.priceHistoryBatchSize) (h : Grounded config mode base p)
    (hserved : Served config mode p part)
    (hawaits : Awaits config mode p part (.backfillLoop state))
    (hlimit : p.now ≤ turn.limitNow) (hclock : turn.limitNow ≤ turn.addClock.utcNow)
    (hserves : Serves turn) :
    Sound config mode base (p.onBackfillTurn config mode part state turn) := by
  obtain ⟨hmode, hstate⟩ := hawaits
  have hwritten := h.written.mono hlimit
  unfold onBackfillTurn
  cases hturn : backfillTurn config.priceHistory turn p.db state with
  | error e =>
      refine Grounded.fail ?_ _
      unfold backfillTurnWrites
      cases hrange : state.nextDownloadRange true with
      | error e => exact h.advance (hwritten.mono hclock) (.refl _) (hlimit.trans hclock)
      | ok range =>
          dsimp only
          cases hdownload : partialDownload config.priceHistory turn range p.db with
          | error e => exact h.advance (hwritten.mono hclock) (.refl _) (hlimit.trans hclock)
          | ok db =>
              obtain ⟨hwritten, hretains⟩ := download_written hbatch hwritten hserves
                (nextDownloadRange_bounded hstate hrange) hdownload
              exact h.advance hwritten hretains (hlimit.trans hclock)
  | ok result =>
      obtain ⟨db, state', finished⟩ := result
      obtain ⟨hwritten, hretains, hstate', hheld⟩ :=
        backfillTurn_held hbatch hwritten hserves hstate hturn
      have hgrounded := h.advance hwritten hretains (hlimit.trans hclock)
      have hserved := hserved.advance hretains turn.addClock.utcNow
      dsimp only
      split_ifs with hfinished
      · refine hgrounded.afterHistory hserved ?_
        have hheld := (hheld hfinished).since_mono (h.begun_le.trans hlimit)
        cases mode with
        | backfill => exact hheld
        | liveNoLookback => exact Or.inr hheld
        | liveWithLookback lookback => exact absurd rfl (hmode lookback)
        | full => exact hheld
      · exact hgrounded.run hserved ⟨hmode, hstate'⟩

theorem onLiveStart_sound {utcNow : ℤ} (hbatch : 61 ≤ config.priceHistory.priceHistoryBatchSize)
    (h : Grounded config mode base p) (hserved : Served config mode p part)
    (hlimit : p.now ≤ turn.limitNow) (hclock : turn.limitNow ≤ turn.addClock.utcNow)
    (hserves : Serves turn) :
    Sound config mode base (p.onLiveStart config part lookback utcNow turn) := by
  unfold onLiveStart
  split_ifs
  · exact h.fail _
  · cases hstart : SyncPriceHistoryTask.liveStart config.priceHistory turn p.db with
    | error e => exact h.fail _
    | ok db =>
        obtain ⟨hfollowing, hretains⟩ :=
          liveStart_held hbatch (h.written.mono hlimit) hserves hstart
        have hgrounded := h.advance hfollowing.written hretains (hlimit.trans hclock)
        exact hgrounded.run (hserved.advance hretains _)
          ⟨turn.limitNow, h.begun_le.trans hlimit, hfollowing⟩

theorem onLiveTurn_sound (hbatch : 61 ≤ config.priceHistory.priceHistoryBatchSize)
    (h : Grounded config (.liveWithLookback lookback) base p)
    (hserved : Served config (.liveWithLookback lookback) p part)
    (hawaits : Awaits config (.liveWithLookback lookback) p part .liveLoop)
    (hlimit : p.now ≤ turn.limitNow) (hclock : turn.limitNow ≤ turn.addClock.utcNow)
    (hserves : Serves turn) : Sound config (.liveWithLookback lookback) base
      (p.onLiveTurn config (.liveWithLookback lookback) part lookback turn) := by
  obtain ⟨start, hsince, hfollowing⟩ := hawaits
  unfold onLiveTurn
  cases hturn : liveTurn config.priceHistory turn lookback p.db with
  | error e => exact h.fail _
  | ok next =>
      have hnext := liveTurn_held hbatch (hfollowing.mono hlimit) hserves hturn
      cases next with
      | none => exact h.afterHistory hserved (Held.since_mono hnext hsince)
      | some db =>
          obtain ⟨hfollowing, hretains⟩ := hnext
          have hgrounded := h.advance hfollowing.written hretains (hlimit.trans hclock)
          exact hgrounded.run (hserved.advance hretains _) ⟨start, hsince, hfollowing⟩

theorem onFundingTurn_sound {flagMissingRange excludeMissingAfter : Option ℤ}
    {state : ScannedSettlementsState} {fundingTurn : FundingTurn ε}
    (h : Grounded config mode base p)
    (hserved : Served config mode p part) (hheld : CandlesHeld config p.since p.db mode) :
    Sound config mode base (p.onFundingTurn config mode part flagMissingRange
      ⟨p.db, state, excludeMissingAfter⟩ fundingTurn) := by
  unfold onFundingTurn
  cases hturn : SyncFundingSettlementsTask.backfillTurn config.fundingSettlements flagMissingRange
      fundingTurn ⟨p.db, state, excludeMissingAfter⟩ with
  | error e =>
      refine Grounded.fail ?_ _
      unfold fundingTurnWrites
      cases hrange : (state.nextDownloadRange true :
          SyncFundingSettlementsResult ε FundingDownloadRange) with
      | error e => exact h.advance h.written (.refl _) le_rfl
      | ok range =>
          dsimp only
          cases hdownload : SyncFundingSettlementsTask.partialDownload config.fundingSettlements
              fundingTurn range p.db with
          | error e => exact h.advance h.written (.refl _) le_rfl
          | ok db =>
              obtain ⟨hwritten, hretains⟩ := fundingDownload_written h.written hdownload
              exact h.advance hwritten hretains le_rfl
  | ok result =>
      obtain ⟨s, synced⟩ := result
      obtain ⟨hwritten, hretains, hreaches⟩ := fundingTurn_reaches h.written hturn
      have hgrounded := h.advance hwritten hretains le_rfl
      have hserved := hserved.advance hretains p.now
      cases synced with
      | none => exact hgrounded.run hserved (hheld.retain hretains)
      | some synced =>
          exact hgrounded.afterFunding hserved ⟨hheld.retain hretains, fun _ => hreaches rfl⟩

theorem onEvaluate_sound {flagMissingRange : Option ℤ} {utcNow : ℤ}
    {next : ScannedSettlementsState → SyncAwait} (h : Grounded config mode base p)
    (hserved : Served config mode p part)
    (hnext : ∀ state, Awaits config mode p part (next state)) :
    Sound config mode base (p.onEvaluate config part flagMissingRange utcNow next) := by
  unfold onEvaluate
  split
  · exact h.fail _
  · exact h.run hserved (hnext _)

theorem onFlags_sound {flagGapsRange : Option ℤ} {clock : Clock} (h : Grounded config mode base p)
    (hserved : Served config mode p part)
    (hmode : ∀ lookback, mode ≠ .liveWithLookback lookback) :
    Sound config mode base (p.onFlags config part flagGapsRange clock) := by
  have hflagged : flagged flagGapsRange clock p.db = p.db := by
    cases flagGapsRange with
    | none => rfl
    | some range => exact flagMissingCandles_of_marked h.written.tidy.marked clock range
  simp only [onFlags, hflagged]
  split
  case h_1 e hstate => exact h.fail _
  case h_2 state hstate => exact h.run hserved ⟨hmode, hstate⟩

theorem onTick_sound {isSynced : Bool} (h : Grounded config mode base p)
    (hserved : Served config mode p (.listening isSynced)) :
    Sound config mode base (p.onTick isSynced) := by
  obtain ⟨hstream, hmode, hobtained, -⟩ := hserved
  have hcounted : Grounded config mode base { p with ticks := p.ticks + 1 } := by
    refine ⟨h.written, h.kept, h.begun_le, fun hsynced => ?_, h.published.backfilled⟩
    obtain ⟨hmode, hobtained, -⟩ := h.published.synced hsynced
    exact ⟨hmode, hobtained, fun _ => Nat.succ_pos _⟩
  have hticks : 0 < p.ticks + 1 := Nat.succ_pos _
  unfold onTick
  cases isSynced with
  | true => exact hcounted.run ⟨hstream, hmode, hobtained, fun _ => hticks⟩ trivial
  | false =>
      have hsynced : Grounded config mode base
          ({ p with ticks := p.ticks + 1 }.update .synced) :=
        hcounted.update ⟨fun _ => ⟨hmode, hobtained, fun _ => hticks⟩, nofun⟩
      exact hsynced.run ⟨hstream, hmode, hobtained, fun _ => hticks⟩ trivial

/-- Downloads that are begun leave what the status says to the last ones completed. -/
theorem Grounded.begin (h : Grounded config mode base p) {utcNow : ℤ} (hle : p.now ≤ utcNow) :
    Grounded config mode base { p with begun := utcNow, now := utcNow } :=
  ⟨h.written.mono hle, h.kept, le_rfl, h.published.synced, h.published.backfilled⟩

/-- A mode that is started anew takes back what the status said. -/
theorem Grounded.restart (h : Grounded config mode base p) {utcNow : ℤ} (hle : p.now ≤ utcNow)
    (since : ℤ) (ticks : ℕ) : Grounded config mode base
      ({ p with begun := utcNow, since := since, now := utcNow, ticks := ticks }.update
        (.notSynced .inProgress)) := by
  refine ⟨h.written.mono hle, h.kept, le_rfl, fun hsynced => ?_, fun hbackfilled => ?_⟩
  · cases (update_status_iff (Or.inl rfl) _).mp hsynced
  · cases (update_status_iff (Or.inr rfl) _).mp hbackfilled

theorem Grounded.startMode (h : Grounded config mode base p) {utcNow : ℤ} (hle : p.now ≤ utcNow) :
    Sound config mode base (p.startMode config mode utcNow) := by
  have hrestart := h.restart hle utcNow 0
  cases mode with
  | backfill => exact hrestart.run trivial (Or.inl rfl)
  | full => exact hrestart.run trivial (Or.inr rfl)
  | liveWithLookback lookback => exact hrestart.run trivial trivial
  | liveNoLookback =>
      unfold SyncProcess.startMode
      dsimp only
      split_ifs with hstream
      · exact hrestart.run trivial ⟨hstream, nofun, Or.inl hstream, by simp⟩
      · exact hrestart.run trivial nofun

theorem awaits_reSyncTask (config : SyncProcessConfig) (mode : SyncModeInt) (p : SyncProcess ε)
    (part : SyncPart) : Awaits config mode p part (reSyncTask mode) := by
  cases mode with
  | liveWithLookback lookback => trivial
  | backfill => exact nofun
  | liveNoLookback => exact nofun
  | full => exact nofun

theorem onReSyncTimer_sound {utcNow : ℤ} (h : Grounded config mode base p)
    (hserved : Served config mode p part) (hawaits : Awaits config mode p part await)
    (hle : p.now ≤ utcNow) (hstep : p.onReSyncTimer mode utcNow part await = some p') :
    Sound config mode base p' := by
  unfold onReSyncTimer at hstep
  split at hstep
  · obtain rfl := Option.some.inj hstep
    obtain rfl : mode = .backfill := hawaits nofun
    exact (h.restart hle p.since p.ticks).run trivial nofun
  · split at hstep
    · cases hstep
    · cases hstep
    · obtain rfl := Option.some.inj hstep
      exact (h.begin hle).run hserved (awaits_reSyncTask config _ _ _)
    · obtain rfl := Option.some.inj hstep
      exact (h.begin hle).run hserved (awaits_reSyncTask config _ _ _)
  · obtain rfl := Option.some.inj hstep
    exact (h.begin hle).run hserved (awaits_reSyncTask config mode _ _)
  · cases hstep

theorem onFundingTimer_sound (h : Grounded config mode base p) (hserved : Served config mode p part)
    (hstep : p.onFundingTimer mode part await = some p') : Sound config mode base p' := by
  unfold onFundingTimer at hstep
  split at hstep
  · split_ifs at hstep
    obtain rfl := Option.some.inj hstep
    exact h.run hserved hserved.2.2.1.candles
  · split_ifs at hstep
    obtain rfl := Option.some.inj hstep
    exact h.run hserved hserved.2.2.candles
  · cases hstep

/-- The clock does not go back, and every page that arrives is the newest of its range. -/
def Timely (now : ℤ) : SyncProcessEvent ε → Prop
  | .starts utcNow | .reSyncTimer utcNow => now ≤ utcNow
  | .downloads _ turn =>
    now ≤ turn.limitNow ∧ turn.limitNow ≤ turn.addClock.utcNow ∧ Serves turn
  | _ => True

theorem Sound.onEvent {event : SyncProcessEvent ε}
    (hbatch : 61 ≤ config.priceHistory.priceHistoryBatchSize) (h : Grounded config mode base p)
    (hserved : Served config mode p part) (hawaits : Awaits config mode p part await)
    (htimely : Timely p.now event) (hstep : p.onEvent config mode part await event = some p') :
    Sound config mode base p' := by
  cases event with
  | evaluates utcNow =>
      cases await with
      | fundingState =>
          obtain rfl := Option.some.inj hstep
          refine onEvaluate_sound h hserved fun _ => ?_
          rcases hawaits with rfl | rfl
          · exact nofun
          · exact nofun
      | fundingStart flagMissingRange =>
          obtain rfl := Option.some.inj hstep
          exact onEvaluate_sound h hserved fun _ => hawaits
      | _ => cases hstep
  | flags clock =>
      cases await with
      | backfillStart flagGapsRange =>
          obtain rfl := Option.some.inj hstep
          exact onFlags_sound h hserved hawaits
      | _ => cases hstep
  | downloads utcNow turn =>
      obtain ⟨hlimit, hclock, hserves⟩ := htimely
      cases await with
      | backfillLoop state =>
          obtain rfl := Option.some.inj hstep
          exact onBackfillTurn_sound hbatch h hserved hawaits hlimit hclock hserves
      | liveStart =>
          cases mode with
          | liveWithLookback lookback =>
              obtain rfl := Option.some.inj hstep
              exact onLiveStart_sound hbatch h hserved hlimit hclock hserves
          | _ => cases hstep
      | liveLoop =>
          cases mode with
          | liveWithLookback lookback =>
              obtain rfl := Option.some.inj hstep
              exact onLiveTurn_sound hbatch h hserved hawaits hlimit hclock hserves
          | _ => cases hstep
      | _ => cases hstep
  | downloadsSettlements turn =>
      cases await with
      | fundingLoop flagMissingRange state excludeMissingAfter =>
          obtain rfl := Option.some.inj hstep
          exact onFundingTurn_sound h hserved hawaits
      | _ => cases hstep
  | streamStarts =>
      cases await with
      | stream =>
          obtain rfl := Option.some.inj hstep
          obtain ⟨hstream, hmode, hobtained⟩ := hawaits
          exact h.run ⟨hstream, hmode, hobtained, nofun⟩ trivial
      | _ => cases hstep
  | tick =>
      cases part with
      | listening isSynced =>
          cases await with
          | select =>
              obtain rfl := Option.some.inj hstep
              exact onTick_sound h hserved
          | _ => cases hstep
      | _ => cases hstep
  | reSyncTimer utcNow => exact onReSyncTimer_sound h hserved hawaits htimely hstep
  | fundingTimer => exact onFundingTimer_sound h hserved hstep
  | fails error =>
      obtain rfl := Option.some.inj hstep
      exact h.fail error
  | stops =>
      obtain rfl := Option.some.inj hstep
      exact Grounded.rests
        ⟨h.written, h.kept, h.begun_le, h.published.synced, h.published.backfilled⟩ rfl
  | _ => cases hstep

theorem Sound.step {event : SyncProcessEvent ε}
    (hbatch : 61 ≤ config.priceHistory.priceHistoryBatchSize) (h : Sound config mode base p)
    (htimely : Timely p.now event) (hstep : p.step config mode event = some p') :
    Sound config mode base p' := by
  have hg := h.grounded
  have hwaits : ∀ {stage : SyncStage} {status : SyncStatusNotSynced (SyncTaskError ε)},
      runsMode stage = false →
        Sound config mode base ({ p with stage := stage }.update (.notSynced status)) := by
    intro stage status hrests
    have hg' : Grounded config mode base { p with stage := stage } :=
      ⟨hg.written, hg.kept, hg.begun_le, hg.published.synced, hg.published.backfilled⟩
    have hpublished : Grounded config mode base
        ({ p with stage := stage }.update (.notSynced status)) := hg'.update ⟨nofun, nofun⟩
    exact hpublished.rests hrests
  have hends : Sound config mode base { p with stage := .ended } := Grounded.rests
    ⟨hg.written, hg.kept, hg.begun_le, hg.published.synced, hg.published.backfilled⟩ rfl
  unfold SyncProcess.step at hstep
  split at hstep
  · obtain rfl := Option.some.inj hstep
    exact hwaits rfl
  · obtain rfl := Option.some.inj hstep
    exact hg.startMode htimely
  case h_3 _ part await hstage =>
    obtain ⟨hserved, hawaits⟩ := h.running part await hstage
    exact Sound.onEvent hbatch hg hserved hawaits htimely hstep
  · obtain rfl := Option.some.inj hstep
    exact hwaits rfl
  · obtain rfl := Option.some.inj hstep
    exact hg.fail _
  · obtain rfl := Option.some.inj hstep
    exact hends
  · obtain rfl := Option.some.inj hstep
    exact hends
  · cases hstep

/-! ### Runs -/

/-- The process is spawned on what earlier downloads have left. -/
def processSystem (ε : Type) (config : SyncProcessConfig) (mode : SyncModeInt) :
    System (SyncProcess ε) (SyncProcessEvent ε) where
  start p := ∃ writes db now, (taskWrites ε config.priceHistory).Run writes (db, now) ∧
    p = spawn db now
  step p event p' := Timely p.now event ∧ p.step config mode event = some p'

theorem Sound.kept_step {event : SyncProcessEvent ε}
    (hbatch : 61 ≤ config.priceHistory.priceHistoryBatchSize) (h : Sound config mode base p)
    (htimely : Timely p.now event) (hstep : p.step config mode event = some p') :
    Retains p.db p'.db := by
  have hg := h.grounded
  have hself : Sound config mode p.db p :=
    ⟨⟨hg.written, .refl _, hg.begun_le, hg.published⟩, h.running⟩
  exact (hself.step hbatch htimely hstep).grounded.kept

theorem sound_of_start {writes : List (TaskWrite ε)}
    (hbatch : 61 ≤ config.priceHistory.priceHistoryBatchSize)
    (h : (taskWrites ε config.priceHistory).Run writes (db, now)) :
    Sound config mode db (spawn db now : SyncProcess ε) :=
  Grounded.rests ⟨written_of_run hbatch h, .refl db, le_rfl, nofun, nofun⟩ rfl

/-- What is stored when the process is spawned is stored in every later state. -/
theorem sound_of_run {events : List (SyncProcessEvent ε)}
    (hbatch : 61 ≤ config.priceHistory.priceHistoryBatchSize)
    (h : (processSystem ε config mode).Run events p) : ∃ base, Sound config mode base p := by
  induction h with
  | start hs =>
      obtain ⟨writes, db, now, hrun, rfl⟩ := hs
      exact ⟨db, sound_of_start hbatch hrun⟩
  | step _ hs ih =>
      obtain ⟨base, hsound⟩ := ih
      exact ⟨base, hsound.step hbatch hs.1 hs.2⟩

theorem reSyncTime_le {event : SyncProcessEvent ε} {utcNow : ℤ} (h : Grounded config mode base p)
    (htimely : Timely p.now event) (htime : reSyncTime event = some utcNow) :
    p.begun ≤ utcNow := by
  cases event with
  | reSyncTimer time =>
      obtain rfl := Option.some.inj htime
      exact h.begun_le.trans htimely
  | _ => cases htime

end Process

/-! ### Half an hour, then polling -/

def pollingConfig : SyncProcessConfig := ⟨false, none, none, batchConfig 60, ⟨1, 0, Nat.one_pos⟩⟩

/-- Whether one download is the history. -/
def endsAtOnce : Bool :=
  match SyncPriceHistoryTask.liveStart (batchConfig 60) lateTurn emptyTable with
  | .error _ => false
  | .ok db =>
    match liveTurn (batchConfig 60) lateTurn (Duration.minutes 30) db with
    | .ok none => true
    | _ => false

theorem late_history : ∃ db,
    SyncPriceHistoryTask.liveStart (batchConfig 60) lateTurn emptyTable = .ok db ∧
    liveTurn (batchConfig 60) lateTurn (Duration.minutes 30) db = .ok none := by
  have hends : endsAtOnce = true := by decide +kernel
  unfold endsAtOnce at hends
  split at hends
  · cases hends
  case h_2 db hdb =>
    split at hends
    case h_1 hturn => exact ⟨db, hdb, hturn⟩
    case h_2 => cases hends

def pollingMode : SyncModeInt := .liveWithLookback (Duration.minutes 30)

/-- The process when its mode has been started. -/
def pollingStart : SyncProcess Unit :=
  ({ spawn emptyTable 0 with stage := .starting }.update (.notSynced .starting)).startMode
    pollingConfig pollingMode lateClock.utcNow

/-- The process in the loop of its download, and when that has become its history. -/
def pollingLoop (db : Database) : SyncProcess Unit :=
  { pollingStart with db, now := lateClock.utcNow }.run (.downloading true) .liveLoop

def pollingDone (db : Database) : SyncProcess Unit :=
  ({ pollingLoop db with since := lateClock.utcNow }.update .synced).run .polling .sleep

def lateDownload : SyncProcessEvent Unit := .downloads lateClock.utcNow lateTurn

theorem lateDownload_timely : Timely lateClock.utcNow lateDownload :=
  ⟨le_rfl, le_rfl, (lateTurn_serving (le_refl lateClock.utcNow)).serves 0⟩

theorem pollingLoop_step
    (h : SyncPriceHistoryTask.liveStart (batchConfig 60) lateTurn emptyTable = .ok db) :
    pollingStart.step pollingConfig pollingMode lateDownload = some (pollingLoop db) := by
  have hreach : ¬ lateClock.utcNow - Duration.minutes 30 <
      pollingConfig.priceHistory.priceHistoryReach := by
    decide
  have hstep : pollingStart.onLiveStart pollingConfig (.downloading true) (Duration.minutes 30)
      lateClock.utcNow lateTurn = pollingLoop db := by
    have hdb : SyncPriceHistoryTask.liveStart pollingConfig.priceHistory lateTurn pollingStart.db =
        .ok db := h
    unfold onLiveStart
    rw [if_neg hreach, hdb]
    rfl
  exact congrArg some hstep

theorem pollingDone_step
    (h : liveTurn (batchConfig 60) lateTurn (Duration.minutes 30) db = .ok none) :
    (pollingLoop db).step pollingConfig pollingMode lateDownload = some (pollingDone db) := by
  have hstep : (pollingLoop db).onLiveTurn pollingConfig pollingMode (.downloading true)
      (Duration.minutes 30) lateTurn = pollingDone db := by
    have hdb : liveTurn pollingConfig.priceHistory lateTurn (Duration.minutes 30)
        (pollingLoop db).db = .ok none := h
    unfold onLiveTurn
    rw [hdb]
    rfl
  exact congrArg some hstep

end Quantoxide.Sync
