import Mathlib.Data.Finset.Basic
import Mathlib.Data.Prod.Lex
import Mathlib.Order.WithBot
import Quantoxide.Verification.Sync.FundingBackfill

/-! # Which turns of the funding backfill progress

A turn that goes on progresses exactly when the history has what the turn asks for. At a time
that stands still, a turn that does not progress changes nothing, so that it is repeated for
ever, and every other turn lowers a measure. -/

namespace Quantoxide.Settlements

open DateTime Result SyncFundingSettlementsTask SettlementHistory

variable {ε : Type} {config : SyncFundingSettlementsTaskConfig} {flagMissingRange : Option ℤ}
  {api : SettlementHistory} {turn : FundingTurn ε} {s s' : FundingBackfill}
  {range : FundingDownloadRange} {db : Database} {now : ℤ}

/-- The turn stores a settlement, or excludes a time before the one excluded so far. -/
def Progress (s s' : FundingBackfill) : Prop :=
  (∃ t, ¬ Stored s.db t ∧ Stored s'.db t) ∨
    ∃ t', s'.excludeMissingAfter = some t' ∧ ∀ t, s.excludeMissingAfter = some t → t' < t

/-- The history has what the turn asks for, or the turn looks back to the time it does not
have. -/
def Advances (api : SettlementHistory) (flagMissingRange : Option ℤ) (turn : FundingTurn ε)
    (db : Database) : FundingDownloadRange → Prop
  | .latest => api.settlements ≠ []
  | .upperBound fromTime => ∃ s ∈ api.settlements, fromTime < s.time
  | .lowerBound toTime => (∃ s ∈ api.settlements, s.time < toTime) ∧
      (1 < api.pageSize ∨ ∀ s ∈ api.settlements, s.time ≠ toTime)
  | .missing fromTime toTime =>
      (∃ range, flagMissingRange = some range ∧ turn.evaluatedNow - range ≤ toTime) ∨
        api.Offers db (.missing fromTime toTime)

/-! ### Each turn -/

/-- The table has valid times, and the state is a scan of it. -/
structure Known (config : SyncFundingSettlementsTaskConfig) (flagMissingRange : Option ℤ)
    (s : FundingBackfill) : Prop where
  valid : AllValid s.db
  scanned : ∃ now, Scanned s.db config.fundingSettlementReach flagMissingRange
    s.excludeMissingAfter now s.state

theorem Downloaded.allValid {db db' : Database} (h : Downloaded api range db db')
    (hvalid : AllValid db) : AllValid db' := by
  rw [allValid_iff] at hvalid ⊢
  intro t hstored
  rw [h.stores, stored_addSettlements] at hstored
  rcases hstored with ⟨s, hs, rfl⟩ | hstored
  · exact h.page_valid s hs
  · exact hvalid t hstored

theorem Downloaded.eq_of_not_offers {db db' : Database} (h : Downloaded api range db db')
    (hoffers : ¬ api.Offers db range) : db' = db :=
  h.stores.trans (addSettlements_of_not_offers hoffers)

theorem GoesOn.known (h : GoesOn config flagMissingRange api turn s s' range)
    (hs : Known config flagMissingRange s) : Known config flagMissingRange s' := by
  refine ⟨h.downloaded.allValid hs.valid, ?_⟩
  obtain ⟨db', state', excluded'⟩ := s'
  cases h.reevaluated with
  | kept hstate _ => exact ⟨_, evaluateWithReach_spec hstate⟩
  | excluded _ _ _ hstate => exact ⟨_, evaluateWithReach_spec hstate⟩

/-- A missing time lies before the excluded ones. -/
theorem lt_excluded {db : Database} {reach t u : ℤ} {excludeMissingAfter : Option ℤ}
    {state : ScannedSettlementsState}
    (h : Scanned db reach flagMissingRange excludeMissingAfter now state)
    (ht : t ∈ state.missing) (hexclude : excludeMissingAfter = some u) : t < u := by
  obtain ⟨e, l, -, -, hmissed⟩ := (h.mem_iff t).mp ht
  have hto := hmissed.le_scanTo
  subst hexclude
  have hfloor := floor_le_self (u - Duration.seconds 1)
  simp only [scanTo, Option.map_some, Option.getD_some] at hto
  exact (hto.trans hfloor).trans_lt (by simp [Duration.seconds])

theorem GoesOn.progress_of_excluded {fromTime toTime : ℤ}
    (h : GoesOn config flagMissingRange api turn s s' (.missing fromTime toTime))
    (hs : Known config flagMissingRange s) (hexcluded : s'.excludeMissingAfter = some toTime) :
    Progress s s' := by
  obtain ⟨t, hscanned⟩ := hs.scanned
  cases nextDownload_of_ok h.next with
  | missing _ _ hlast =>
      refine Or.inr ⟨toTime, hexcluded, ?_⟩
      intro u hu
      exact lt_excluded hscanned (List.mem_of_getLast? hlast) hu

/-- What a turn that excludes nothing stores. -/
theorem progress_iff_offers (h : GoesOn config flagMissingRange api turn s s' range)
    (hkept : s'.excludeMissingAfter = s.excludeMissingAfter) :
    Progress s s' ↔ api.Offers s.db range := by
  rw [offers_iff_stores h.downloaded.stores]
  refine or_iff_left ?_
  rintro ⟨t, ht, hlt⟩
  exact lt_irrefl t (hlt t (hkept ▸ ht))

/-- A missing time of the window that the download does not offer is missing after it. -/
theorem still_missing {state : ScannedSettlementsState} {fromTime toTime range : ℤ}
    (h : GoesOn config flagMissingRange api turn s s' (.missing fromTime toTime))
    (hs : Known config flagMissingRange s) (hmem : toTime ∈ s.state.missing)
    (hrange : flagMissingRange = some range) (hwindow : turn.evaluatedNow - range ≤ toTime)
    (hoffers : ¬ api.Offers s.db (.missing fromTime toTime))
    (hstate : Scanned s'.db config.fundingSettlementReach flagMissingRange
      s.excludeMissingAfter turn.evaluatedNow state) : toTime ∈ state.missing := by
  obtain ⟨t, hscanned⟩ := hs.scanned
  rw [h.downloaded.eq_of_not_offers hoffers] at hstate
  obtain ⟨e, l, hbounds, hne, hmissed⟩ := (hscanned.mem_iff toTime).mp hmem
  refine (hstate.mem_iff toTime).mpr ⟨e, l, ?_, hne, ?_⟩
  · rw [hstate.evaluated, ← hscanned.evaluated]
    exact hbounds
  · exact ⟨⟨range, hrange, hwindow⟩, hmissed.earliest_le, hmissed.le_scanTo, hmissed.scheduled,
      hmissed.unstored⟩

/-- A turn that goes on progresses exactly when it advances. -/
theorem GoesOn.progress_iff (h : GoesOn config flagMissingRange api turn s s' range)
    (hs : Known config flagMissingRange s) :
    Progress s s' ↔ Advances api flagMissingRange turn s.db range := by
  obtain ⟨t, hscanned⟩ := hs.scanned
  have hbounds : ∀ b, s.state.bounds = b → (FundingSettlementsState.evaluate s.db).bounds = b := by
    rintro b rfl
    rw [hscanned.evaluated]
  have hreevaluated := h.reevaluated
  have hnext := nextDownload_of_ok h.next
  obtain ⟨db', state', excluded'⟩ := s'
  cases hreevaluated with
  | @excluded fromTime toTime newState state hrange hnew hmem hstate =>
      subst hrange
      obtain ⟨e, l, -, -, hmissed⟩ := ((evaluateWithReach_spec hnew).mem_iff toTime).mp hmem
      exact iff_of_true (h.progress_of_excluded hs rfl) (Or.inl hmissed.flagged)
  | kept hstate hfilled =>
      rw [progress_iff_offers h rfl]
      cases hnext with
      | latest hnone => exact offers_latest_iff (stored_nothing (hbounds _ hnone))
      | upperBound e l hsome _ _ =>
          exact offers_upperBound_iff (latest_eq_some.mp (bounds_eq_some (hbounds _ hsome)).2)
      | lowerBound e l reach hsome _ _ _ =>
          have hearliest := earliest_eq_some.mp (bounds_eq_some (hbounds _ hsome)).1
          have hvalid := allValid_iff.mp hs.valid e hearliest.1
          exact offers_lowerBound_iff hvalid hearliest h.downloaded.page_valid
      | missing fromTime toTime hlast =>
          refine ⟨Or.inr, ?_⟩
          rintro (⟨range, hrange, hwindow⟩ | hoffers)
          · by_contra hoffers
            exact hfilled fromTime toTime rfl (still_missing h hs (List.mem_of_getLast? hlast)
              hrange hwindow hoffers (evaluateWithReach_spec hstate))
          · exact hoffers

/-- A turn above the latest settlement goes on only when it finds one, unless the clock has
gone back since the scan. -/
theorem GoesOn.upperBound_advances {t fromTime : ℤ}
    (h : GoesOn config flagMissingRange api turn s s' (.upperBound fromTime))
    (hscanned : Scanned s.db config.fundingSettlementReach flagMissingRange
      s.excludeMissingAfter t s.state) (hclock : t ≤ turn.evaluatedNow) :
    ∃ s ∈ api.settlements, fromTime < s.time := by
  have hreevaluated := h.reevaluated
  have hmissing := h.hasMissing rfl
  cases nextDownload_of_ok h.next with
  | upperBound e l hbounds hnone hreach =>
      have hlatest : (FundingSettlementsState.evaluate s.db).bounds = some (e, fromTime) := by
        rw [← hscanned.evaluated]
        exact hbounds
      rw [← offers_upperBound_iff (latest_eq_some.mp (bounds_eq_some hlatest).2)]
      by_contra hoffers
      have hdb := h.downloaded.eq_of_not_offers hoffers
      obtain ⟨db', state', excluded'⟩ := s'
      obtain rfl : db' = s.db := hdb
      cases hreevaluated with
      | excluded hrange _ _ _ => cases hrange
      | kept hstate _ =>
          have hscanned' := evaluateWithReach_spec hstate
          have hbounds' : state'.bounds = some (e, fromTime) := by
            rw [hscanned'.evaluated]
            exact hlatest
          simp only [ScannedSettlementsState.hasMissing, hscanned'.reachTime, hbounds',
            Option.all_some, Except.ok.injEq, Bool.or_eq_true, Bool.not_eq_true',
            List.isEmpty_eq_false_iff, decide_eq_true_eq] at hmissing
          rcases hmissing with hmissing | hlt
          · obtain ⟨u, hu⟩ := List.exists_mem_of_ne_nil _ hmissing
            obtain ⟨e', l', hbounds'', hne, hmissed⟩ := (hscanned'.mem_iff u).mp hu
            obtain ⟨range, hrange, hwindow⟩ := hmissed.flagged
            have hold : u ∈ s.state.missing := (hscanned.mem_iff u).mpr
              ⟨e', l', hbounds.trans (hbounds'.symm.trans hbounds''), hne,
                ⟨range, hrange, (sub_le_sub_right hclock range).trans hwindow⟩,
                hmissed.earliest_le, hmissed.le_scanTo, hmissed.scheduled, hmissed.unstored⟩
            rw [hnone] at hold
            cases hold
          · exact absurd (hreach _ hscanned.reachTime) (not_le.mpr hlt)

/-! ### A time that stands still -/

/-- The state is what a scan of the table at that time gives. -/
structure Current (ε : Type) (config : SyncFundingSettlementsTaskConfig)
    (flagMissingRange : Option ℤ) (now : ℤ) (s : FundingBackfill) : Prop where
  valid : AllValid s.db
  evaluated : (ScannedSettlementsState.evaluateWithReach s.db config.fundingSettlementReach
    flagMissingRange s.excludeMissingAfter now : SyncFundingSettlementsResult ε _) = .ok s.state

theorem Current.known (h : Current ε config flagMissingRange now s) :
    Known config flagMissingRange s := ⟨h.valid, now, evaluateWithReach_spec h.evaluated⟩

theorem GoesOn.current
    (h : GoesOn config flagMissingRange api (api.turnAt now : FundingTurn ε) s s' range)
    (hs : Current ε config flagMissingRange now s) :
    Current ε config flagMissingRange now s' := by
  refine ⟨h.downloaded.allValid hs.valid, ?_⟩
  obtain ⟨db', state', excluded'⟩ := s'
  cases h.reevaluated with
  | kept hstate _ => exact hstate
  | excluded _ _ _ hstate => exact hstate

/-- A turn that does not advance changes nothing. -/
theorem GoesOn.still
    (h : GoesOn config flagMissingRange api (api.turnAt now : FundingTurn ε) s s' range)
    (hs : Current ε config flagMissingRange now s)
    (hnot : ¬ Advances api flagMissingRange (api.turnAt now : FundingTurn ε) s.db range) :
    s' = s := by
  rw [← h.progress_iff hs.known] at hnot
  have hs' := h.current hs
  have hreevaluated := h.reevaluated
  obtain ⟨db', state', excluded'⟩ := s'
  cases hreevaluated with
  | @excluded fromTime toTime newState state hrange hnew hmem hstate =>
      subst hrange
      exact absurd (h.progress_of_excluded hs.known rfl) hnot
  | kept hstate hfilled =>
      rw [progress_iff_offers h rfl] at hnot
      obtain rfl : db' = s.db := h.downloaded.eq_of_not_offers hnot
      obtain rfl : state' = s.state := Except.ok.inj (hs'.evaluated.symm.trans hs.evaluated)
      rfl

instance : DecidablePred (Stored db) := fun t =>
  inferInstanceAs (Decidable (∃ s ∈ db.fundingSettlements, s.time = t))

/-- The times of the history that are not stored. -/
def unstored (api : SettlementHistory) (db : Database) : Finset ℤ :=
  (api.settlements.map (·.time)).toFinset.filter fun t => ¬ Stored db t

/-- How far the scan may still go back. -/
def depth (flagMissingRange : Option ℤ) (now : ℤ) : Option ℤ → WithTop ℕ
  | none => ⊤
  | some t => WithTop.some (t - (now - flagMissingRange.getD 0)).toNat

def measure (api : SettlementHistory) (flagMissingRange : Option ℤ) (now : ℤ)
    (s : FundingBackfill) : Finset ℤ ×ₗ WithTop ℕ :=
  toLex (unstored api s.db, depth flagMissingRange now s.excludeMissingAfter)

theorem unstored_ssubset {db db' : Database} (h : db' = db.addSettlements (api.answer range))
    (hoffers : api.Offers db range) : unstored api db' < unstored api db := by
  obtain ⟨s, hs, hunstored⟩ := hoffers
  refine Finset.ssubset_iff_of_subset ?_ |>.mpr ⟨s.time, ?_, ?_⟩
  · refine Finset.monotone_filter_right _ ?_
    intro t _ hnot hstored
    exact hnot (stored_mono h hstored)
  · simp only [unstored, Finset.mem_filter, List.mem_toFinset]
    exact ⟨List.mem_map_of_mem (mem_of_mem_answer hs), hunstored⟩
  · simp only [unstored, Finset.mem_filter, not_and, not_not]
    intro _
    rw [h, stored_addSettlements]
    exact Or.inl ⟨s, hs, rfl⟩

theorem depth_lt {t range : ℤ} {excludeMissingAfter : Option ℤ}
    (hrange : flagMissingRange = some range) (hwindow : now - range ≤ t)
    (hlt : ∀ u, excludeMissingAfter = some u → t < u) :
    depth flagMissingRange now (some t) < depth flagMissingRange now excludeMissingAfter := by
  subst hrange
  cases excludeMissingAfter with
  | none => exact WithTop.coe_lt_top _
  | some u =>
      have h := hlt u rfl
      refine WithTop.coe_lt_coe.mpr ?_
      rw [Option.getD_some]
      omega

/-- A turn that advances lowers the measure. -/
theorem GoesOn.lowers
    (h : GoesOn config flagMissingRange api (api.turnAt now : FundingTurn ε) s s' range)
    (hs : Current ε config flagMissingRange now s)
    (hadvances : Advances api flagMissingRange (api.turnAt now : FundingTurn ε) s.db range) :
    measure api flagMissingRange now s' < measure api flagMissingRange now s := by
  rw [measure, measure, Prod.Lex.toLex_lt_toLex]
  by_cases hoffers : api.Offers s.db range
  · exact Or.inl (unstored_ssubset h.downloaded.stores hoffers)
  · have hdb := h.downloaded.eq_of_not_offers hoffers
    refine Or.inr ⟨by rw [hdb], ?_⟩
    have hprogress := (h.progress_iff hs.known).mpr hadvances
    have hreevaluated := h.reevaluated
    obtain ⟨db', state', excluded'⟩ := s'
    cases hreevaluated with
    | kept hstate _ => exact absurd ((progress_iff_offers h rfl).mp hprogress) hoffers
    | @excluded fromTime toTime newState state hrange hnew hmem hstate =>
        obtain ⟨e, l, -, -, hmissed⟩ := ((evaluateWithReach_spec hnew).mem_iff toTime).mp hmem
        obtain ⟨range, hflag, hwindow⟩ := hmissed.flagged
        rcases hprogress with ⟨t, hunstored, hstored⟩ | ⟨t, ht, hlt⟩
        · rw [hdb] at hstored
          exact absurd hstored hunstored
        · obtain rfl := Option.some.inj ht
          exact depth_lt hflag hwindow hlt

/-! ### The loop -/

/-- The turn as a step of a loop. -/
def loopTurn (config : SyncFundingSettlementsTaskConfig) (flagMissingRange : Option ℤ)
    (turn : FundingTurn ε) (s : FundingBackfill) :
    FundingBackfill ⊕ SyncFundingSettlementsResult ε (Database × Bool) :=
  match backfillTurn config flagMissingRange turn s with
  | .error e => .inr (.error e)
  | .ok (s', some synced) => .inr (.ok (s'.db, synced))
  | .ok (s', none) => .inl s'

theorem loopTurn_eq_inl : loopTurn config flagMissingRange turn s = .inl s' ↔
    backfillTurn config flagMissingRange turn s = .ok (s', none) := by
  unfold loopTurn
  cases hturn : backfillTurn config flagMissingRange turn s with
  | error e => simp
  | ok result =>
      obtain ⟨t, synced⟩ := result
      cases synced with
      | none => simp
      | some synced => simp

theorem backfillLoop_eq_run (fuel i : ℕ) (s : FundingBackfill) :
    backfillLoop config flagMissingRange (fun _ => turn) fuel i s =
      Loops.run (loopTurn config flagMissingRange turn) fuel s := by
  induction fuel generalizing i s with
  | zero => rfl
  | succ fuel ih =>
      rw [backfillLoop, Loops.run, loopTurn]
      cases hturn : backfillTurn config flagMissingRange turn s with
      | error e => rfl
      | ok result =>
          obtain ⟨t, synced⟩ := result
          cases synced with
          | none => exact ih (i + 1) t
          | some synced => rfl

theorem current_of_reaches {s₀ : FundingBackfill}
    (h : Loops.Reaches (loopTurn config flagMissingRange (api.turnAt now : FundingTurn ε)) s₀ s)
    (h₀ : Current ε config flagMissingRange now s₀) :
    Current ε config flagMissingRange now s := by
  induction h with
  | refl => exact h₀
  | next _ ht ih =>
      obtain ⟨range, hgoes⟩ := goesOn_of_ok (api.serves_turnAt now) (loopTurn_eq_inl.mp ht)
      exact hgoes.current ih

/-- Every turn that goes on from the state advances. -/
def TurnAdvances (api : SettlementHistory) (config : SyncFundingSettlementsTaskConfig)
    (flagMissingRange : Option ℤ) (turn : FundingTurn ε) (s : FundingBackfill) : Prop :=
  ∀ s' range, backfillTurn config flagMissingRange turn s = .ok (s', none) →
    (s.state.nextDownloadRange true : SyncFundingSettlementsResult ε _) = .ok range →
    Advances api flagMissingRange turn s.db range

theorem GoesOn.turnAdvances_iff (h : GoesOn config flagMissingRange api turn s s' range)
    (hturn : backfillTurn config flagMissingRange turn s = .ok (s', none)) :
    TurnAdvances api config flagMissingRange turn s ↔
      Advances api flagMissingRange turn s.db range := by
  constructor
  · intro hadvances
    exact hadvances s' range hturn h.next
  · intro hadvances _ range' _ hrange'
    obtain rfl := Except.ok.inj (h.next.symm.trans hrange')
    exact hadvances

/-- At a time that stands still the loop ends when its turns advance. -/
theorem loop_ends_iff {s₀ : FundingBackfill} (h₀ : Current ε config flagMissingRange now s₀) :
    Loops.Ends (loopTurn config flagMissingRange (api.turnAt now : FundingTurn ε)) s₀ ↔
      ∀ s, Loops.Reaches (loopTurn config flagMissingRange (api.turnAt now : FundingTurn ε)) s₀ s →
        TurnAdvances api config flagMissingRange (api.turnAt now : FundingTurn ε) s := by
  rw [Loops.ends_iff (measure api flagMissingRange now)
    (TurnAdvances api config flagMissingRange (api.turnAt now : FundingTurn ε))]
  · constructor
    · intro hadvances s hs s' range hturn
      exact hadvances s s' hs (loopTurn_eq_inl.mpr hturn) s' range hturn
    · intro hadvances s s' hs _
      exact hadvances s hs
  · intro s s' hs hinl hadvances
    have hturn := loopTurn_eq_inl.mp hinl
    obtain ⟨range, hgoes⟩ := goesOn_of_ok (api.serves_turnAt now) hturn
    exact hgoes.lowers (current_of_reaches hs h₀) (hadvances s' range hturn hgoes.next)
  · intro s s' hs hinl hnot
    have hturn := loopTurn_eq_inl.mp hinl
    obtain ⟨range, hgoes⟩ := goesOn_of_ok (api.serves_turnAt now) hturn
    rw [hgoes.turnAdvances_iff hturn] at hnot
    exact hgoes.still (current_of_reaches hs h₀) hnot

theorem backfill_eq_run (startNow : ℤ) (fuel : ℕ) (db : Database) :
    backfill config flagMissingRange startNow (fun _ => turn) fuel db =
      match (ScannedSettlementsState.evaluateWithReach db config.fundingSettlementReach
        flagMissingRange none startNow : SyncFundingSettlementsResult ε _) with
      | .error e => some (.error e)
      | .ok state => Loops.run (loopTurn config flagMissingRange turn) fuel ⟨db, state, none⟩ := by
  unfold backfill
  cases (ScannedSettlementsState.evaluateWithReach db config.fundingSettlementReach
      flagMissingRange none startNow : SyncFundingSettlementsResult ε _) with
  | error e => rfl
  | ok state => exact backfillLoop_eq_run fuel 0 _

/-- The turns of `backfill` that go on, from a table, at whatever times. -/
def backfilling (api : SettlementHistory) (config : SyncFundingSettlementsTaskConfig)
    (flagMissingRange : Option ℤ) (db : Database) :
    Runs.System FundingBackfill (FundingTurn ε) where
  start s := s.db = db ∧ s.excludeMissingAfter = none ∧ ∃ startNow,
    (ScannedSettlementsState.evaluateWithReach db config.fundingSettlementReach
      flagMissingRange none startNow : SyncFundingSettlementsResult ε _) = .ok s.state
  step s turn s' :=
    api.Serves turn ∧ backfillTurn config flagMissingRange turn s = .ok (s', none)

theorem known_of_run {turns : List (FundingTurn ε)} (hvalid : AllValid db)
    (h : (backfilling api config flagMissingRange db).Run turns s) :
    Known config flagMissingRange s := by
  apply h.invariant
  · rintro s ⟨rfl, hexclude, startNow, hstate⟩
    refine ⟨hvalid, startNow, ?_⟩
    rw [hexclude]
    exact evaluateWithReach_spec hstate
  · rintro s turn s' hs ⟨hserves, hturn⟩
    obtain ⟨range, hgoes⟩ := goesOn_of_ok hserves hturn
    exact hgoes.known hs

/-- Every turn of the backfill that goes on progresses exactly when the history has what it
asks for; and at a time that stands still, the backfill ends exactly when that holds of every
turn it comes to. -/
theorem backfill_progresses_iff (api : SettlementHistory)
    (config : SyncFundingSettlementsTaskConfig) (flagMissingRange : Option ℤ) (db : Database)
    (hvalid : AllValid db) :
    (∀ (turns : List (FundingTurn ε)) (s s' : FundingBackfill) (turn : FundingTurn ε)
      (range : FundingDownloadRange), (backfilling api config flagMissingRange db).Run turns s →
      api.Serves turn → backfillTurn config flagMissingRange turn s = .ok (s', none) →
      (s.state.nextDownloadRange true : SyncFundingSettlementsResult ε _) = .ok range →
      (Progress s s' ↔ Advances api flagMissingRange turn s.db range)) ∧
    ∀ now, (∃ fuel result, backfill config flagMissingRange now
        (fun _ => (api.turnAt now : FundingTurn ε)) fuel db = some result) ↔
      ∀ state s, (ScannedSettlementsState.evaluateWithReach db config.fundingSettlementReach
          flagMissingRange none now : SyncFundingSettlementsResult ε _) = .ok state →
        Loops.Reaches (loopTurn config flagMissingRange (api.turnAt now : FundingTurn ε))
          ⟨db, state, none⟩ s →
        TurnAdvances api config flagMissingRange (api.turnAt now : FundingTurn ε) s := by
  constructor
  · intro turns s s' turn range hrun hserves hturn hrange
    obtain ⟨range', hgoes⟩ := goesOn_of_ok hserves hturn
    obtain rfl := Except.ok.inj (hgoes.next.symm.trans hrange)
    exact hgoes.progress_iff (known_of_run hvalid hrun)
  · intro now
    simp only [backfill_eq_run]
    cases hstart : (ScannedSettlementsState.evaluateWithReach db config.fundingSettlementReach
        flagMissingRange none now : SyncFundingSettlementsResult ε _) with
    | error e =>
        refine iff_of_true ⟨0, .error e, rfl⟩ ?_
        intro state s hstate
        cases hstate
    | ok state =>
        have hcurrent : Current ε config flagMissingRange now ⟨db, state, none⟩ := ⟨hvalid, hstart⟩
        refine (loop_ends_iff hcurrent).trans ?_
        constructor
        · rintro hadvances _ s ⟨⟩ hs
          exact hadvances s hs
        · intro hadvances s hs
          exact hadvances state s rfl hs

def threeHistory : SettlementHistory where
  settlements := [⟨LNM_SETTLEMENT_C_START + Duration.hours 16, 1, 0⟩,
    ⟨LNM_SETTLEMENT_C_START + Duration.hours 8, 1, 0⟩, ⟨LNM_SETTLEMENT_C_START, 1, 0⟩]
  pageSize := 2
  newestFirst := by decide
  pageSize_pos := by decide

theorem noCandles_ascending :
    ([] : List CandleRecord).Pairwise (fun a b => a.row.time < b.row.time) := List.Pairwise.nil

theorem noCandles_minutes : ∀ c ∈ ([] : List CandleRecord), c.row.IsMinute :=
  List.forall_mem_nil _

/-- The table of one settlement. -/
def storing (row : FundingSettlementRow) : Database where
  ohlcCandles := []
  fundingSettlements := [row]
  candlesAscending := noCandles_ascending
  candlesMinutes := noCandles_minutes
  settlementsAscending := List.pairwise_singleton _ row

theorem allValid_storing {row : FundingSettlementRow}
    (h : isValidFundingSettlementTime row.time = true) : AllValid (storing row) := by
  intro s hs
  obtain rfl := List.mem_singleton.mp hs
  exact h

def lastStored : Database := storing ⟨LNM_SETTLEMENT_C_START + Duration.hours 16, 1, 0⟩

def startConfig : SyncFundingSettlementsTaskConfig where
  restApiErrorMaxTrials := 1
  fundingSettlementReach := LNM_SETTLEMENT_C_START
  trials_pos := Nat.zero_lt_one

theorem backfill_progresses_to_reach :
    (∃ fuel result, backfill startConfig none (LNM_SETTLEMENT_C_START + Duration.hours 16)
      (fun _ => (threeHistory.turnAt (LNM_SETTLEMENT_C_START + Duration.hours 16) :
        FundingTurn Unit)) fuel lastStored = some result) ∧
    ∀ state s, (ScannedSettlementsState.evaluateWithReach lastStored
        startConfig.fundingSettlementReach none none
        (LNM_SETTLEMENT_C_START + Duration.hours 16) : SyncFundingSettlementsResult Unit _) =
          .ok state →
      Loops.Reaches (loopTurn startConfig none
        (threeHistory.turnAt (LNM_SETTLEMENT_C_START + Duration.hours 16) : FundingTurn Unit))
        ⟨lastStored, state, none⟩ s →
      TurnAdvances threeHistory startConfig none
        (threeHistory.turnAt (LNM_SETTLEMENT_C_START + Duration.hours 16) : FundingTurn Unit)
        s := by
  have hvalid : AllValid lastStored := allValid_storing rfl
  have hends : ∃ fuel result, backfill startConfig none
      (LNM_SETTLEMENT_C_START + Duration.hours 16)
      (fun _ => (threeHistory.turnAt (LNM_SETTLEMENT_C_START + Duration.hours 16) :
        FundingTurn Unit)) fuel lastStored = some result := ⟨2, _, rfl⟩
  exact ⟨hends, ((backfill_progresses_iff threeHistory startConfig none lastStored hvalid).2
    _).mp hends⟩

/-! ### A history that starts where the table does -/

def oneConfig : SyncFundingSettlementsTaskConfig where
  restApiErrorMaxTrials := 1
  fundingSettlementReach := LNM_SETTLEMENT_C_START - Duration.hours 24
  trials_pos := Nat.zero_lt_one

def oneHistory : SettlementHistory where
  settlements := [⟨LNM_SETTLEMENT_C_START, 1, 0⟩]
  pageSize := 100
  newestFirst := List.pairwise_singleton _ _
  pageSize_pos := by decide

def oneStored : Database := storing ⟨LNM_SETTLEMENT_C_START, 1, 0⟩

def oneState : ScannedSettlementsState where
  reachTime := some (LNM_SETTLEMENT_C_START - Duration.hours 24)
  bounds := some (LNM_SETTLEMENT_C_START, LNM_SETTLEMENT_C_START)
  missing := []

/-- The table has the one settlement of the history, after the reach: its page is never empty
and never new. -/
theorem backfill_stuck_at_history_start :
    AllValid oneStored ∧
    (ScannedSettlementsState.evaluateWithReach oneStored oneConfig.fundingSettlementReach none
      none LNM_SETTLEMENT_C_START : SyncFundingSettlementsResult Unit _) = .ok oneState ∧
    backfillTurn oneConfig none (oneHistory.turnAt LNM_SETTLEMENT_C_START : FundingTurn Unit)
      ⟨oneStored, oneState, none⟩ = .ok (⟨oneStored, oneState, none⟩, none) ∧
    ¬ Progress ⟨oneStored, oneState, none⟩ ⟨oneStored, oneState, none⟩ ∧
    ∀ fuel, backfill oneConfig none LNM_SETTLEMENT_C_START
      (fun _ => (oneHistory.turnAt LNM_SETTLEMENT_C_START : FundingTurn Unit)) fuel
        oneStored = none := by
  have hvalid : AllValid oneStored := allValid_storing rfl
  have hturn : backfillTurn oneConfig none
      (oneHistory.turnAt LNM_SETTLEMENT_C_START : FundingTurn Unit)
      ⟨oneStored, oneState, none⟩ = .ok (⟨oneStored, oneState, none⟩, none) := rfl
  refine ⟨hvalid, rfl, hturn, ?_, ?_⟩
  · rintro (⟨t, hunstored, hstored⟩ | ⟨t, ht, -⟩)
    · exact hunstored hstored
    · cases ht
  · intro fuel
    rw [backfill_eq_run]
    exact Loops.run_of_still (loopTurn_eq_inl.mpr hturn) fuel

end Quantoxide.Settlements
