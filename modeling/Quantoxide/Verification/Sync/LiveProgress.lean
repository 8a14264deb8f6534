import Mathlib.Data.Int.ConditionallyCompleteOrder
import Mathlib.Data.Int.Interval
import Quantoxide.Verification.Sync.LiveHistory

/-! # The live history task ends

Each turn that goes on makes a minute stable that was not, in a stretch that its first
download fixes: from the reach to the newest minute. It asks for nothing newer as long as the
reach lies a minute beyond the lookback. -/

namespace Quantoxide.Sync

open DateTime (isRoundMinute)
open GapMarkers Result Runs CandleTable SyncPriceHistoryTask

variable {ε : Type} {db db' : Database} {config : SyncPriceHistoryTaskConfig} {turn : SyncTurn ε}
  {turns : ℕ → SyncTurn ε} {range : DownloadRange} {state : PriceHistoryState}
  {now now₀ lo hi lookback b start last reach : ℤ} {limit : ℕ} {clock : Clock}

/-! ### What a turn that goes on asks for -/

/-- A turn that goes on asks for what lies below a row that follows on no stable one. -/
theorem asks_below (h : Following start (db, now))
    (hslack : config.priceHistoryReach + lookback + minute ≤ start)
    (hstate : PriceHistoryState.evaluateWithReach db config.priceHistoryReach = .ok state)
    (hshort : ∀ duration, state.tailContinuousDuration = some duration → duration < lookback)
    (hrange : state.nextDownloadRange false = .ok range) :
    ∃ b s, range.toTime? = some b ∧ Stored (marks db) b ∧ ¬ Stable (marks db) (b - minute) ∧
      config.priceHistoryReach < b ∧ Stable (marks db) s ∧ b ≤ s := by
  obtain ⟨hreach, hgaps, hstart, hend⟩ := new_eq_ok hstate
  obtain ⟨t, ht, hfresh⟩ := h.fresh
  cases hb : state.bounds with
  | none =>
      rw [PriceHistoryState.boundStart, hb, Option.map_none] at hstart
      obtain ⟨r, hr, -⟩ := exists_of_stored ht
      rw [earliest_eq_none.mp hstart.symm] at hr
      cases hr
  | some bounds =>
      rw [PriceHistoryState.boundStart, hb, Option.map_some] at hstart
      rw [PriceHistoryState.boundEnd, hb, Option.map_some] at hend
      obtain ⟨hfirst, hleast⟩ := getEarliest_eq_some.mp hstart.symm
      simp only [PriceHistoryState.nextDownloadRange, hb, hreach, Bool.false_eq_true, if_false]
        at hrange
      split at hrange
      · cases hrange
      cases hlast : state.gaps.getLast? with
      | some g =>
          simp only [hlast] at hrange
          split at hrange
          · cases hrange
          rename_i hwithin
          obtain rfl := Except.ok.inj hrange
          have hg := mem_getGaps.mp (hgaps ▸ List.mem_of_getLast? hlast)
          have hle : config.priceHistoryReach ≤ g.1 := by simpa using hwithin
          exact ⟨g.2, g.2, rfl, hg.upper.stored, h.written.sharp g.2 hg.flagged,
            hle.trans_lt hg.lt, hg.upper, le_rfl⟩
      | none =>
          simp only [hlast] at hrange
          by_cases hbeyond : config.priceHistoryReach < bounds.1
          · simp only [gt_iff_lt, Option.any_some, decide_eq_true_eq, hbeyond, if_true] at hrange
            obtain rfl := Except.ok.inj hrange
            obtain ⟨s, hs, -⟩ := h.tail
            refine ⟨bounds.1, s, rfl, hfirst, ?_, hbeyond, hs, hleast s hs.stored⟩
            intro hstable
            have := hleast _ hstable.stored
            rw [minute_eq] at this
            omega
          · -- The whole history is the tail, and reaches back beyond the lookback.
            have hlatest := (getLatest_eq_some.mp hend.symm).2 t ht
            have hduration := hshort (bounds.2 - bounds.1)
              (by rw [PriceHistoryState.tailContinuousDuration, hb, Option.map_some, hlast])
            omega

/-! ### The minutes that are not stable -/

open Classical in
/-- The minutes from the reach to the last one that are not stable. -/
noncomputable def unsettled (db : Database) (reach last : ℤ) : Finset ℤ :=
  (Finset.Icc (reach / minute) (last / minute)).filter fun k => ¬ Stable (marks db) (k * minute)

theorem mem_unsettled {k : ℤ} : k ∈ unsettled db reach last ↔
    (reach / minute ≤ k ∧ k ≤ last / minute) ∧ ¬ Stable (marks db) (k * minute) := by
  classical
  rw [unsettled, Finset.mem_filter, Finset.mem_Icc]

theorem card_unsettled_le (db : Database) (reach last : ℤ) :
    (unsettled db reach last).card ≤ (last / minute + 1 - reach / minute).toNat := by
  classical
  rw [← Int.card_Icc]
  exact Finset.card_filter_le _ _

theorem card_unsettled_lt {m : ℤ} (hround : isRoundMinute m = true)
    (hlo : reach < m + minute) (hhi : m ≤ last) (hold : ¬ Stable (marks db) m)
    (hnew : Stable (marks db') m) (hmono : ∀ t, Stable (marks db) t → Stable (marks db') t) :
    (unsettled db' reach last).card < (unsettled db reach last).card := by
  have hm : m / minute * minute = m := by
    simp only [isRoundMinute, DateTime.floorMinute, beq_iff_eq] at hround
    rw [minute_eq]
    omega
  apply Finset.card_lt_card
  rw [Finset.ssubset_iff_of_subset]
  · refine ⟨m / minute, ?_, ?_⟩
    · rw [mem_unsettled, hm]
      rw [minute_eq] at hlo hm ⊢
      exact ⟨⟨by omega, by omega⟩, hold⟩
    · rw [mem_unsettled, hm]
      exact fun hmem => hmem.2 hnew
  · intro k hk
    rw [mem_unsettled] at hk ⊢
    exact ⟨hk.1, fun hst => hk.2 (hmono _ hst)⟩

/-! ### Turns -/

/-- No row is newer than the last minute. -/
def Within (db : Database) (last : ℤ) : Prop := ∀ t, Stored (marks db) t → t ≤ last

/-- A turn that goes on settles a minute, and stores none that is newer. -/
theorem liveTurn_settles (hbatch : 61 ≤ config.priceHistoryBatchSize)
    (h : Following start (db, turn.limitNow)) (hwithin : Within db last)
    (hslack : config.priceHistoryReach + lookback + minute ≤ start) (hserves : Serves turn)
    (hok : liveTurn config turn lookback db = .ok (some db')) :
    Within db' last ∧ (unsettled db' config.priceHistoryReach last).card <
      (unsettled db config.priceHistoryReach last).card := by
  simp only [liveTurn, liftFatal, bind_eq_ok, mapError_eq_ok] at hok
  obtain ⟨state, hstate, hok⟩ := hok
  split_ifs at hok with hlong
  · cases pure_eq_ok.mp hok
  simp only [bind_eq_ok, mapError_eq_ok, pure_eq_ok, Option.some.injEq] at hok
  obtain ⟨range, hrange, db₁, hdownload, rfl⟩ := hok
  have hshort : ∀ duration, state.tailContinuousDuration = some duration →
      duration < lookback := by
    intro duration hduration
    rw [hduration, Option.any_some, decide_eq_true_eq, not_le] at hlong
    exact hlong
  obtain ⟨b, s, hto, hb, hprev, hreach, hs, hbs⟩ := asks_below h hslack hstate hshort hrange
  obtain ⟨-, lo, hi, hdown, -, hbelow, -⟩ := partialDownload_written hbatch h.written hserves
    (nextDownloadRange_bounded hstate hrange) hdownload
  obtain rfl : hi = b - minute := by
    rw [← hbelow b hto, add_sub_cancel_right]
  have hrun := hdown.writes.last
  have hlast := hwithin b hb
  have hminute : b - minute < b := by
    rw [minute_eq]
    omega
  -- The new minute is older than a stable row.
  have hstable : Stable (marks db₁) (b - minute) :=
    (hdown.writes.stable_inside hrun).mpr ((hminute.le.trans hbs).trans (hdown.aged s hs))
  refine ⟨fun t ht => ?_, ?_⟩
  · rcases hdown.writes.stored_iff.mp ht with ⟨-, hle, -⟩ | hold
    · exact hle.trans (hminute.le.trans hlast)
    · exact hwithin t hold
  · exact card_unsettled_lt (round_of_stored hstable.stored) (by rwa [sub_add_cancel])
      (hminute.le.trans hlast) hprev hstable fun t => hdown.writes.stable_mono hdown.aged

theorem liveLoop_ends {fuel i : ℕ} (hbatch : 61 ≤ config.priceHistoryBatchSize)
    (hserving : Serving now₀ turns) (h : Following start (db, (turns i).limitNow))
    (hwithin : Within db last) (hslack : config.priceHistoryReach + lookback + minute ≤ start)
    (hfuel : (unsettled db config.priceHistoryReach last).card < fuel) :
    ∃ result, liveLoop config lookback turns fuel i db = some result := by
  induction fuel generalizing i db with
  | zero => cases hfuel
  | succ fuel ih =>
      rw [liveLoop]
      cases hturn : liveTurn config (turns i) lookback db with
      | error e => exact ⟨_, rfl⟩
      | ok next =>
          cases next with
          | none => exact ⟨_, rfl⟩
          | some db₁ =>
              have hnext := liveTurn_spec hbatch h (hserving.serves i) hturn
              obtain ⟨hwithin₁, hless⟩ := liveTurn_settles hbatch h hwithin hslack
                (hserving.serves i) hturn
              exact ih (hnext.mono (hserving.forward i)) hwithin₁ (by omega)

/-- With a reach a minute beyond the lookback, the task ends once it has had more turns than
there are minutes from the reach to its first download. -/
theorem live_ends {writes : List (TaskWrite ε)} {fuel : ℕ}
    (hbatch : 61 ≤ config.priceHistoryBatchSize)
    (hrun : (taskWrites ε config).Run writes (db, now₀)) (hserving : Serving now₀ turns)
    (hnow : now ≤ (turns 0).limitNow)
    (hslack : config.priceHistoryReach + lookback + minute ≤ now)
    (hfuel : ((turns 0).addClock.utcNow / minute + 1 - config.priceHistoryReach / minute).toNat <
      fuel) :
    ∃ result, live config now lookback turns fuel db = some result ∧
      ∀ db', result = .ok db' → Covers db' lookback := by
  have hwritten := (written_of_run hbatch hrun).mono hserving.first
  unfold live
  split_ifs with hreach
  · exact ⟨_, rfl, fun db' h => nomatch h⟩
  cases hstart : liveStart config (turns 0) db with
  | error e => exact ⟨_, rfl, fun db' h => nomatch h⟩
  | ok db₁ =>
      have hfollowing := liveStart_spec hbatch hwritten (hserving.serves 0) hstart
      have hwithin : Within db₁ (turns 0).addClock.utcNow := fun t ht =>
        (hfollowing.written.tidy.past t ht).le
      have hcard := card_unsettled_le db₁ config.priceHistoryReach (turns 0).addClock.utcNow
      have hfollowing₁ := hfollowing.mono (hserving.forward 0)
      obtain ⟨looped, hloop⟩ := liveLoop_ends hbatch hserving hfollowing₁ hwithin
        (hslack.trans hnow) (hcard.trans_lt hfuel)
      refine ⟨looped.mapError .task, by simp [hloop], fun db' h => ?_⟩
      obtain rfl := mapError_eq_ok.mp h
      exact (liveLoop_spec hbatch hserving hfollowing₁ hloop).1

theorem live_ends_halfHour :
    ∃ result, live (batchConfig 60) lateClock.utcNow (Duration.minutes 30) (fun _ => lateTurn)
        2002 emptyTable = some result ∧
      ∀ db', result = .ok db' → Covers db' (Duration.minutes 30) := by
  have hrun : (taskWrites Unit (batchConfig 60)).Run [] (emptyTable, 0) := .start rfl
  exact live_ends (by decide) hrun (lateTurn_serving (by decide)) le_rfl (by decide) (by decide)

end Quantoxide.Sync
