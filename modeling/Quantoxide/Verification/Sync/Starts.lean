import Quantoxide.Model.SyncProcess

/-! # When the sync process was started

The times kept beside the process are those of its events: of the last start of the mode, and of
the re-syncs since. -/

namespace Quantoxide.Sync

open SyncProcess

variable {ε : Type} {config : SyncProcessConfig} {mode : SyncModeInt} {p p' : SyncProcess ε}
  {event : SyncProcessEvent ε} {events after : List (SyncProcessEvent ε)} {started time : ℤ}

theorem update_status_iff {status : SyncStatus (SyncTaskError ε)}
    (hstatus : status = .synced ∨ status = .backfilled)
    (newStatus : SyncStatus (SyncTaskError ε)) :
    (p.update newStatus).status = status ↔ newStatus = status := by
  unfold SyncProcess.update
  dsimp only
  split_ifs with heq
  · rcases hstatus with rfl | rfl
    · cases hp : p.status <;> cases newStatus <;> simp_all [SyncStatus.eq]
    · cases hp : p.status <;> cases newStatus <;> simp_all [SyncStatus.eq]
  · rfl

/-! ### What a step does to the times -/

/-- Downloads go on as they were begun, and a history may have been completed. -/
structure Continues (begun₀ since₀ : ℤ) (ticks₀ : ℕ) (p : SyncProcess ε) : Prop where
  begun : p.begun = begun₀
  since : p.since = since₀ ∨ p.since = begun₀
  ticks : p.ticks = ticks₀

theorem Continues.refl (p : SyncProcess ε) : Continues p.begun p.since p.ticks p :=
  ⟨rfl, Or.inl rfl, rfl⟩

section Continues

variable {begun₀ since₀ : ℤ} {ticks₀ : ℕ} {part : SyncPart} {await : SyncAwait}
  (h : Continues begun₀ since₀ ticks₀ p)

include h

theorem Continues.fail (error : SyncProcessError ε) :
    Continues begun₀ since₀ ticks₀ (p.fail error) := by
  cases error with
  | recoverable e => exact ⟨h.begun, h.since, h.ticks⟩
  | fatal e => exact ⟨h.begun, h.since, h.ticks⟩

theorem Continues.run : Continues begun₀ since₀ ticks₀ (p.run part await) :=
  ⟨h.begun, h.since, h.ticks⟩

theorem Continues.startLive : Continues begun₀ since₀ ticks₀ (p.startLive config part) := by
  unfold SyncProcess.startLive
  split_ifs
  · exact h.run
  · exact ⟨h.begun, h.since, h.ticks⟩

theorem Continues.afterHistory :
    Continues begun₀ since₀ ticks₀ (p.afterHistory config mode part) := by
  have hcompleted : Continues begun₀ since₀ ticks₀ { p with since := p.begun } :=
    ⟨h.begun, Or.inr h.begun, h.ticks⟩
  cases part with
  | downloading firstPass =>
      cases mode with
      | backfill => exact hcompleted.run
      | full => exact hcompleted.run
      | liveNoLookback => exact hcompleted.startLive
      | liveWithLookback lookback => exact hcompleted.startLive
  | listening isSynced => exact hcompleted.run
  | polling => exact hcompleted.run

theorem Continues.afterFunding :
    Continues begun₀ since₀ ticks₀ (p.afterFunding config mode part) := by
  cases part with
  | downloading firstPass =>
      cases mode with
      | backfill => exact ⟨h.begun, h.since, h.ticks⟩
      | liveNoLookback => exact h.startLive
      | liveWithLookback lookback => exact h.startLive
      | full => exact h.startLive
  | listening isSynced => exact h.run
  | polling => exact h.run

/-- Writes to the database, and the clock, are beside the times. -/
theorem Continues.write (db : Database) (now : ℤ) :
    Continues begun₀ since₀ ticks₀ { p with db := db, now := now } :=
  ⟨h.begun, h.since, h.ticks⟩

theorem Continues.onBackfillTurn {state : PriceHistoryState} {turn : SyncTurn ε} :
    Continues begun₀ since₀ ticks₀ (p.onBackfillTurn config mode part state turn) := by
  unfold SyncProcess.onBackfillTurn
  split
  · exact (h.write _ _).fail _
  · dsimp only
    split_ifs
    · exact (h.write _ _).afterHistory
    · exact (h.write _ _).run

theorem Continues.onLiveStart {lookback utcNow : ℤ} {turn : SyncTurn ε} :
    Continues begun₀ since₀ ticks₀ (p.onLiveStart config part lookback utcNow turn) := by
  unfold SyncProcess.onLiveStart
  split_ifs
  · exact h.fail _
  · split
    · exact h.fail _
    · exact (h.write _ _).run

theorem Continues.onLiveTurn {lookback : ℤ} {turn : SyncTurn ε} :
    Continues begun₀ since₀ ticks₀ (p.onLiveTurn config mode part lookback turn) := by
  unfold SyncProcess.onLiveTurn
  split
  · exact h.fail _
  · exact h.afterHistory
  · exact (h.write _ _).run

theorem Continues.onFundingTurn {flagMissingRange : Option ℤ} {s : FundingBackfill}
    {turn : FundingTurn ε} : Continues begun₀ since₀ ticks₀
      (p.onFundingTurn config mode part flagMissingRange s turn) := by
  unfold SyncProcess.onFundingTurn
  split
  · exact (h.write _ p.now).fail _
  · exact (h.write _ p.now).afterFunding
  · exact (h.write _ p.now).run

theorem Continues.onEvaluate {flagMissingRange : Option ℤ} {utcNow : ℤ}
    {next : ScannedSettlementsState → SyncAwait} : Continues begun₀ since₀ ticks₀
      (p.onEvaluate config part flagMissingRange utcNow next) := by
  unfold SyncProcess.onEvaluate
  split
  · exact h.fail _
  · exact h.run

theorem Continues.onFlags {flagGapsRange : Option ℤ} {clock : Clock} :
    Continues begun₀ since₀ ticks₀ (p.onFlags config part flagGapsRange clock) := by
  unfold SyncProcess.onFlags
  dsimp only
  split
  · exact (h.write _ p.now).fail _
  · exact (h.write _ p.now).run

end Continues

theorem onReSyncTimer_times {part : SyncPart} {await : SyncAwait} {utcNow : ℤ}
    (h : p.onReSyncTimer mode utcNow part await = some p') :
    p'.begun = utcNow ∧ p'.since = p.since ∧ p'.ticks = p.ticks := by
  unfold onReSyncTimer at h
  split at h
  · obtain rfl := Option.some.inj h
    exact ⟨rfl, rfl, rfl⟩
  · cases mode with
    | backfill => cases h
    | liveNoLookback => cases h
    | liveWithLookback lookback =>
        obtain rfl := Option.some.inj h
        exact ⟨rfl, rfl, rfl⟩
    | full =>
        obtain rfl := Option.some.inj h
        exact ⟨rfl, rfl, rfl⟩
  · obtain rfl := Option.some.inj h
    exact ⟨rfl, rfl, rfl⟩
  · cases h

theorem onFundingTimer_continues {part : SyncPart} {await : SyncAwait}
    (h : p.onFundingTimer mode part await = some p') :
    Continues p.begun p.since p.ticks p' := by
  unfold onFundingTimer at h
  split at h
  · split_ifs at h
    obtain rfl := Option.some.inj h
    exact ⟨rfl, Or.inl rfl, rfl⟩
  · split_ifs at h
    obtain rfl := Option.some.inj h
    exact ⟨rfl, Or.inl rfl, rfl⟩
  · cases h

/-- What an event does to the times of a mode that runs. -/
def Moves (p : SyncProcess ε) (event : SyncProcessEvent ε) (p' : SyncProcess ε) : Prop :=
  match event with
  | .starts _ => False
  | .reSyncTimer utcNow => p'.begun = utcNow ∧ p'.since = p.since ∧ p'.ticks = p.ticks
  | .tick => Continues p.begun p.since (p.ticks + 1) p'
  | _ => Continues p.begun p.since p.ticks p'

theorem onEvent_moves {part : SyncPart} {await : SyncAwait}
    (h : p.onEvent config mode part await event = some p') : Moves p event p' := by
  cases event with
  | evaluates utcNow =>
      cases await with
      | fundingState =>
          obtain rfl := Option.some.inj h
          exact (Continues.refl p).onEvaluate
      | fundingStart flagMissingRange =>
          obtain rfl := Option.some.inj h
          exact (Continues.refl p).onEvaluate
      | _ => cases h
  | flags clock =>
      cases await with
      | backfillStart flagGapsRange =>
          obtain rfl := Option.some.inj h
          exact (Continues.refl p).onFlags
      | _ => cases h
  | downloads utcNow turn =>
      cases await with
      | backfillLoop state =>
          obtain rfl := Option.some.inj h
          exact (Continues.refl p).onBackfillTurn
      | liveStart =>
          cases mode with
          | liveWithLookback lookback =>
              obtain rfl := Option.some.inj h
              exact (Continues.refl p).onLiveStart
          | _ => cases h
      | liveLoop =>
          cases mode with
          | liveWithLookback lookback =>
              obtain rfl := Option.some.inj h
              exact (Continues.refl p).onLiveTurn
          | _ => cases h
      | _ => cases h
  | downloadsSettlements turn =>
      cases await with
      | fundingLoop flagMissingRange state excludeMissingAfter =>
          obtain rfl := Option.some.inj h
          exact (Continues.refl p).onFundingTurn
      | _ => cases h
  | streamStarts =>
      cases await with
      | stream =>
          obtain rfl := Option.some.inj h
          exact (Continues.refl p).run
      | _ => cases h
  | tick =>
      cases part with
      | listening isSynced =>
          cases await with
          | select =>
              obtain rfl := Option.some.inj h
              cases isSynced with
              | true => exact ⟨rfl, Or.inl rfl, rfl⟩
              | false => exact ⟨rfl, Or.inl rfl, rfl⟩
          | _ => cases h
      | _ => cases h
  | reSyncTimer utcNow => exact onReSyncTimer_times h
  | fundingTimer => exact onFundingTimer_continues h
  | fails error =>
      obtain rfl := Option.some.inj h
      exact (Continues.refl p).fail error
  | stops =>
      obtain rfl := Option.some.inj h
      exact ⟨rfl, Or.inl rfl, rfl⟩
  | _ => cases h

/-! ### The last start -/

def reSyncTime : SyncProcessEvent ε → Option ℤ
  | .reSyncTimer utcNow => some utcNow
  | _ => none

/-- The events since the mode was last started. -/
structure StartedLast (events : List (SyncProcessEvent ε)) (started : ℤ)
    (after : List (SyncProcessEvent ε)) : Prop where
  since : ∃ before, events = before ++ .starts started :: after
  last : ∀ utcNow, .starts utcNow ∉ after

theorem StartedLast.append (h : StartedLast events started after)
    (hother : ∀ utcNow, event ≠ .starts utcNow) :
    StartedLast (events ++ [event]) started (after ++ [event]) := by
  obtain ⟨⟨before, rfl⟩, hlast⟩ := h
  refine ⟨⟨before, by simp⟩, fun utcNow hmem => ?_⟩
  rcases List.mem_append.mp hmem with hmem | hmem
  · exact hlast utcNow hmem
  · exact hother utcNow (List.mem_singleton.mp hmem).symm

/-- A time at which the mode or one of its re-syncs since was begun. -/
structure BegunSince (started : ℤ) (after : List (SyncProcessEvent ε)) (time : ℤ) : Prop where
  le : started ≤ time
  mem : time ∈ started :: after.filterMap reSyncTime

theorem BegunSince.append (h : BegunSince started after time) (event : SyncProcessEvent ε) :
    BegunSince started (after ++ [event]) time := by
  refine ⟨h.le, ?_⟩
  rw [List.filterMap_append, ← List.cons_append]
  exact List.mem_append_left _ h.mem

/-- What the events tell of the times kept beside the process. -/
structure Dated (p : SyncProcess ε) (started : ℤ) (after : List (SyncProcessEvent ε)) :
    Prop where
  begun : BegunSince started after p.begun
  since : BegunSince started after p.since
  ticks : 0 < p.ticks → .tick ∈ after

/-- The process has not started its mode yet, and says nothing. -/
structure Idle (p : SyncProcess ε) : Prop where
  stage : ∀ part await, p.stage ≠ .running part await
  status : p.status ≠ .synced ∧ p.status ≠ .backfilled

/-- Either no mode was started yet, or the times are those of the last start and since. -/
def Timed (events : List (SyncProcessEvent ε)) (p : SyncProcess ε) : Prop :=
  Idle p ∨ ∃ started after, StartedLast events started after ∧ Dated p started after

/-- A status that says something is about the mode that was started last. -/
theorem Timed.dated (h : Timed events p) (hstatus : p.status = .synced ∨ p.status = .backfilled) :
    ∃ started after, StartedLast events started after ∧ Dated p started after := by
  rcases h with hidle | hdated
  · rcases hstatus with hsynced | hbackfilled
    · exact absurd hsynced hidle.status.1
    · exact absurd hbackfilled hidle.status.2
  · exact hdated

theorem Dated.continues (h : Dated p started after)
    (hkeeps : Continues p.begun p.since p.ticks p') (event : SyncProcessEvent ε) :
    Dated p' started (after ++ [event]) := by
  refine ⟨hkeeps.begun ▸ h.begun.append event, ?_, fun hticks => ?_⟩
  · rcases hkeeps.since with hsince | hsince
    · exact hsince ▸ h.since.append event
    · exact hsince ▸ h.begun.append event
  · exact List.mem_append_left _ (h.ticks (hkeeps.ticks ▸ hticks))

theorem Dated.moves (h : Dated p started after) (hmoves : Moves p event p')
    (hle : ∀ utcNow, reSyncTime event = some utcNow → p.begun ≤ utcNow) :
    Dated p' started (after ++ [event]) := by
  cases event with
  | starts utcNow => exact absurd hmoves id
  | reSyncTimer utcNow =>
      obtain ⟨hbegun, hsince, hticks⟩ := hmoves
      refine ⟨⟨?_, ?_⟩, hsince ▸ h.since.append _, fun hpos => ?_⟩
      · exact hbegun ▸ h.begun.le.trans (hle utcNow rfl)
      · rw [hbegun]
        simp [reSyncTime]
      · exact List.mem_append_left _ (h.ticks (hticks ▸ hpos))
  | tick =>
      obtain ⟨hbegun, hsince, -⟩ := hmoves
      have hkeeps : Continues p.begun p.since p.ticks { p' with ticks := p.ticks } :=
        ⟨hbegun, hsince, rfl⟩
      have hdated := h.continues hkeeps .tick
      exact ⟨hdated.begun, hdated.since, fun _ => List.mem_append_right _ List.mem_cons_self⟩
  | spawned => exact h.continues hmoves _
  | evaluates utcNow => exact h.continues hmoves _
  | flags clock => exact h.continues hmoves _
  | downloads utcNow turn => exact h.continues hmoves _
  | downloadsSettlements turn => exact h.continues hmoves _
  | streamStarts => exact h.continues hmoves _
  | fundingTimer => exact h.continues hmoves _
  | fails error => exact h.continues hmoves _
  | restartInterval => exact h.continues hmoves _
  | stops => exact h.continues hmoves _

theorem startMode_times (config : SyncProcessConfig) (mode : SyncModeInt) (p : SyncProcess ε)
    (utcNow : ℤ) : (p.startMode config mode utcNow).begun = utcNow ∧
      (p.startMode config mode utcNow).since = utcNow ∧
      (p.startMode config mode utcNow).ticks = 0 := by
  cases mode <;> exact ⟨rfl, rfl, rfl⟩

def runsMode : SyncStage → Bool
  | .running _ _ => true
  | _ => false

theorem not_running {stage : SyncStage} (h : runsMode stage = false) (part : SyncPart)
    (await : SyncAwait) : stage ≠ .running part await := by
  rintro rfl
  cases h

theorem idle_update {status : SyncStatus (SyncTaskError ε)}
    (hstage : ∀ part await, p.stage ≠ .running part await) (hsynced : status ≠ .synced)
    (hbackfilled : status ≠ .backfilled) : Idle (p.update status) :=
  ⟨hstage, fun h => hsynced ((update_status_iff (Or.inl rfl) _).mp h),
    fun h => hbackfilled ((update_status_iff (Or.inr rfl) _).mp h)⟩

theorem idle_spawn (db : Database) (now : ℤ) : Idle (spawn db now : SyncProcess ε) :=
  ⟨not_running rfl, nofun, nofun⟩

/-- A step starts the mode, moves the times of the one started last, or starts none yet. -/
theorem step_cases (hstep : p.step config mode event = some p') :
    (∃ utcNow, event = .starts utcNow ∧ p' = p.startMode config mode utcNow) ∨
      Moves p event p' ∧ ((∀ part await, p.stage ≠ .running part await) →
        (p.status ≠ .synced ∧ p.status ≠ .backfilled) → Idle p') := by
  unfold SyncProcess.step at hstep
  split at hstep
  · obtain rfl := Option.some.inj hstep
    exact Or.inr ⟨⟨rfl, Or.inl rfl, rfl⟩, fun _ _ => idle_update (not_running rfl) nofun nofun⟩
  case h_2 utcNow _ =>
    obtain rfl := Option.some.inj hstep
    exact Or.inl ⟨utcNow, rfl, rfl⟩
  case h_3 _ part await hstage =>
    exact Or.inr ⟨onEvent_moves hstep, fun hrunning => absurd hstage (hrunning part await)⟩
  · obtain rfl := Option.some.inj hstep
    exact Or.inr ⟨⟨rfl, Or.inl rfl, rfl⟩, fun _ _ => idle_update (not_running rfl) nofun nofun⟩
  case h_5 e _ =>
    obtain rfl := Option.some.inj hstep
    exact Or.inr ⟨(Continues.refl p).fail _, fun _ _ => idle_update (not_running rfl) nofun nofun⟩
  · obtain rfl := Option.some.inj hstep
    exact Or.inr ⟨⟨rfl, Or.inl rfl, rfl⟩, fun _ hstatus => ⟨not_running rfl, hstatus⟩⟩
  · obtain rfl := Option.some.inj hstep
    exact Or.inr ⟨⟨rfl, Or.inl rfl, rfl⟩, fun _ hstatus => ⟨not_running rfl, hstatus⟩⟩
  · cases hstep

theorem Timed.step (h : Timed events p) (hstep : p.step config mode event = some p')
    (hle : ∀ utcNow, reSyncTime event = some utcNow → p.begun ≤ utcNow) :
    Timed (events ++ [event]) p' := by
  rcases step_cases hstep with ⟨utcNow, rfl, rfl⟩ | ⟨hmoves, hidle⟩
  · obtain ⟨hbegun, hsince, hticks⟩ := startMode_times config mode p utcNow
    refine Or.inr ⟨utcNow, [], ⟨⟨events, rfl⟩, by simp⟩, ?_, ?_, ?_⟩
    · exact hbegun.symm ▸ ⟨le_rfl, List.mem_cons_self⟩
    · exact hsince.symm ▸ ⟨le_rfl, List.mem_cons_self⟩
    · exact fun hpos => absurd hticks hpos.ne'
  · rcases h with hnone | ⟨started, after, hlast, hdated⟩
    · exact Or.inl (hidle hnone.stage hnone.status)
    · refine Or.inr ⟨started, after ++ [event], hlast.append ?_, hdated.moves hmoves hle⟩
      rintro utcNow rfl
      exact hmoves

end Quantoxide.Sync
