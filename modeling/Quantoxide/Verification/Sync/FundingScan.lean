import Quantoxide.Model.FundingSync
import Quantoxide.Verification.Settlements.Exactness
import Quantoxide.Verification.Settlements.Missing

/-! # Scans for missing settlements

A scan finds the scheduled times of its window that are not stored. The window starts at the
look-back or the earliest settlement, and ends at the latest one or before the excluded ones. -/

namespace Quantoxide.Settlements

open DateTime Result ScannedSettlementsState

variable {ε : Type} {db : Database} {t u now : ℤ}

/-! ### Rounding to the schedule -/

theorem valid_of_scheduled (h : Scheduled t) : isValidFundingSettlementTime t = true := by
  rcases h with ⟨-, hend, hon⟩ | ⟨hstart, hend, hon⟩ | ⟨hstart, hon⟩
  · have ha : Grid.On (Duration.hours 24) (Duration.hours 8) LNM_SETTLEMENT_A_START := by decide
    exact (valid_phaseA (hend.trans_lt (by decide))).mpr (ha.rebase.mp hon)
  · have hb : Grid.On (Duration.hours 8) (Duration.hours 4) LNM_SETTLEMENT_B_START := by decide
    exact (valid_phaseB hstart (hend.trans_lt (by decide))).mpr (hb.rebase.mp hon)
  · have hc : Grid.On (Duration.hours 8) (Duration.hours 0) LNM_SETTLEMENT_C_START := by decide
    exact (valid_phaseC hstart).mpr (hc.rebase.mp hon)

/-- Rounding up stays below the scheduled times that follow. -/
theorem ceil_le_iff (h : Scheduled t) : ceilFundingSettlementTime u ≤ t ↔ u ≤ t := by
  constructor
  · exact (le_ceil u).trans
  · intro hle
    by_cases hstray : InStrayZone u
    · rw [ceil_deadB hstray]
      rcases h with h | h | h
      · exact absurd (hstray.1.trans_le (hle.trans h.2.1)) (by decide)
      · exact absurd (hstray.1.trans_le (hle.trans h.2.1)) (lt_irrefl _)
      · exact h.1
    · exact (isLeast_ceil hstray).2 ⟨hle, valid_of_scheduled h⟩

theorem floor_le_self (t : ℤ) : floorFundingSettlementTime t ≤ t := by
  rcases le_total LNM_SETTLEMENT_A_START t with h | h
  · exact floor_le h
  · rw [floor_phaseA (h.trans (by decide))]
    exact Grid.floor_le _ t hours24_pos

theorem hourly_of_valid (h : isValidFundingSettlementTime t = true) :
    ∃ k, t = 3600000000000 * k := by
  rw [isValid_iff] at h
  simp only [Grid.On, Duration.hours] at h
  exact ⟨t / 3600000000000, by omega⟩

theorem le_of_le_second (ht : isValidFundingSettlementTime t = true)
    (hu : isValidFundingSettlementTime u = true) (h : t ≤ u + Duration.seconds 1) : t ≤ u := by
  obtain ⟨k, rfl⟩ := hourly_of_valid ht
  obtain ⟨l, rfl⟩ := hourly_of_valid hu
  simp only [Duration.seconds] at h
  omega

/-! ### The table -/

def AllValid (db : Database) : Prop :=
  ∀ s ∈ db.fundingSettlements, isValidFundingSettlementTime s.time = true

theorem ascending_settlements (db : Database) :
    Timeline.Ascending FundingSettlementRow.time db.fundingSettlements := db.settlementsAscending

theorem stored_insertSettlement (s : FundingSettlement) :
    Stored (db.insertSettlement s) t ↔ s.time = t ∨ Stored db t :=
  Timeline.exists_key_upsert fun _ h => h

theorem database_ext {db db' : Database} (hcandles : db.ohlcCandles = db'.ohlcCandles)
    (hsettlements : db.fundingSettlements = db'.fundingSettlements) : db = db' := by
  cases db
  cases db'
  cases hcandles
  cases hsettlements
  rfl

theorem insertSettlement_of_stored {s : FundingSettlement} (h : Stored db s.time) :
    db.insertSettlement s = db := by
  have hkey : ∃ r ∈ db.fundingSettlements, r.time =
      (⟨s.time, s.fixingPrice, s.fundingRate⟩ : FundingSettlementRow).time := h
  exact database_ext rfl ((ascending_settlements db).upsert_existing hkey)

theorem stored_addSettlements (settlements : List FundingSettlement) :
    Stored (db.addSettlements settlements) t ↔ (∃ s ∈ settlements, s.time = t) ∨ Stored db t := by
  induction settlements generalizing db with
  | nil => simp [Database.addSettlements]
  | cons s settlements ih =>
      have hfold : db.addSettlements (s :: settlements) =
          (db.insertSettlement s).addSettlements settlements := rfl
      rw [hfold, ih, stored_insertSettlement, List.exists_mem_cons_iff, or_assoc]
      exact or_left_comm

theorem addSettlements_of_stored {settlements : List FundingSettlement}
    (h : ∀ s ∈ settlements, Stored db s.time) : db.addSettlements settlements = db := by
  induction settlements with
  | nil => rfl
  | cons s settlements ih =>
      have hfold : db.addSettlements (s :: settlements) =
          (db.insertSettlement s).addSettlements settlements := rfl
      rw [hfold, insertSettlement_of_stored (h s List.mem_cons_self)]
      exact ih fun s' hs' => h s' (List.mem_cons_of_mem s hs')

theorem allValid_iff : AllValid db ↔ ∀ t, Stored db t → isValidFundingSettlementTime t = true := by
  constructor
  · rintro h t ⟨s, hs, rfl⟩
    exact h s hs
  · intro h s hs
    exact h s.time ⟨s, hs, rfl⟩

theorem earliest_eq_some {e : ℤ} : db.getEarliestSettlementTime = some e ↔
    Stored db e ∧ ∀ t, Stored db t → e ≤ t := by
  rw [Database.getEarliestSettlementTime, Option.map_eq_some_iff]
  simp only [(ascending_settlements db).head?_eq_some]
  constructor
  · rintro ⟨s, ⟨hs, hleast⟩, rfl⟩
    refine ⟨⟨s, hs, rfl⟩, ?_⟩
    rintro t ⟨s', hs', rfl⟩
    exact hleast s' hs'
  · rintro ⟨⟨s, hs, rfl⟩, hleast⟩
    exact ⟨s, ⟨hs, fun s' hs' => hleast s'.time ⟨s', hs', rfl⟩⟩, rfl⟩

theorem latest_eq_some {l : ℤ} : db.getLatestSettlementTime = some l ↔
    Stored db l ∧ ∀ t, Stored db t → t ≤ l := by
  rw [Database.getLatestSettlementTime, Option.map_eq_some_iff]
  simp only [(ascending_settlements db).getLast?_eq_some]
  constructor
  · rintro ⟨s, ⟨hs, hgreatest⟩, rfl⟩
    refine ⟨⟨s, hs, rfl⟩, ?_⟩
    rintro t ⟨s', hs', rfl⟩
    exact hgreatest s' hs'
  · rintro ⟨⟨s, hs, rfl⟩, hgreatest⟩
    exact ⟨s, ⟨hs, fun s' hs' => hgreatest s'.time ⟨s', hs', rfl⟩⟩, rfl⟩

/-! ### The scan -/

/-- Where a scan ends. -/
def scanTo (latestTime : ℤ) (excludeMissingAfter : Option ℤ) : ℤ :=
  (excludeMissingAfter.map fun t =>
    floorFundingSettlementTime (t - Duration.seconds 1)).getD latestTime

/-- The time is missing in the window of a scan. -/
structure Missed (db : Database) (earliestTime latestTime : ℤ)
    (flagMissingRange excludeMissingAfter : Option ℤ) (utcNow t : ℤ) : Prop where
  flagged : ∃ range, flagMissingRange = some range ∧ utcNow - range ≤ t
  earliest_le : earliestTime ≤ t
  le_scanTo : t ≤ scanTo latestTime excludeMissingAfter
  scheduled : Scheduled t
  unstored : ¬ Stored db t

theorem scan_spec {earliestTime latestTime : ℤ} {flagMissingRange excludeMissingAfter : Option ℤ}
    {missing : List ℤ} (h : (scan db earliestTime latestTime flagMissingRange excludeMissingAfter
      now : SyncFundingSettlementsResult ε (List ℤ)) = .ok missing) :
    missing.Pairwise (· < ·) ∧ ∀ t, t ∈ missing ↔
      Missed db earliestTime latestTime flagMissingRange excludeMissingAfter now t := by
  cases flagMissingRange with
  | none =>
      obtain rfl := Except.ok.inj h
      refine ⟨List.Pairwise.nil, fun t => ⟨by simp, ?_⟩⟩
      rintro ⟨⟨range, hrange, -⟩, -, -, -, -⟩
      cases hrange
  | some range =>
      have hwindow : ∀ t, Missed db earliestTime latestTime (some range) excludeMissingAfter now
          t ↔ Scheduled t ∧ ceilFundingSettlementTime (max (now - range) earliestTime) ≤ t ∧
            t ≤ scanTo latestTime excludeMissingAfter ∧ ¬ Stored db t := by
        intro t
        constructor
        · rintro ⟨⟨_, ⟨rfl⟩, hrange⟩, hearliest, hto, hsched, hunstored⟩
          exact ⟨hsched, (ceil_le_iff hsched).mpr (max_le hrange hearliest), hto, hunstored⟩
        · rintro ⟨hsched, hfrom, hto, hunstored⟩
          obtain ⟨hrange, hearliest⟩ := max_le_iff.mp ((ceil_le_iff hsched).mp hfrom)
          exact ⟨⟨range, rfl, hrange⟩, hearliest, hto, hsched, hunstored⟩
      simp only [scan] at h
      split_ifs at h with hempty
      · obtain rfl := Except.ok.inj h
        refine ⟨List.Pairwise.nil, fun t => ⟨by simp, ?_⟩⟩
        intro hmissed
        obtain ⟨-, hfrom, hto, -⟩ := (hwindow t).mp hmissed
        exact absurd (hfrom.trans hto) (not_le.mpr hempty)
      · rw [mapError_eq_ok] at h
        have hfrom : isValidFundingSettlementTime
            (ceilFundingSettlementTime (max (now - range) earliestTime)) = true := ceil_valid _
        by_cases hto : isValidFundingSettlementTime (scanTo latestTime excludeMissingAfter) = true
        · obtain ⟨missing', hmissing', hexact⟩ := missing_times_exact db _ _ hfrom hto
          obtain rfl : missing' = missing := Except.ok.inj (hmissing'.symm.trans h)
          exact ⟨hexact.ascending, fun t => (hexact.mem_iff t).trans (hwindow t).symm⟩
        · have hinvalid : db.getMissingSettlementTimes _ (scanTo latestTime excludeMissingAfter) =
              .ok missing := h
          simp [Database.getMissingSettlementTimes, hfrom, hto] at hinvalid

/-! ### The scanned state -/

/-- The state is of the table, as a scan at that time finds it. -/
structure Scanned (db : Database) (reach : ℤ) (flagMissingRange excludeMissingAfter : Option ℤ)
    (utcNow : ℤ) (state : ScannedSettlementsState) : Prop where
  reachTime : state.reachTime = some reach
  evaluated : state.toFundingSettlementsState = FundingSettlementsState.evaluate db
  ascending : state.missing.Pairwise (· < ·)
  mem_iff : ∀ t, t ∈ state.missing ↔ ∃ e l, state.bounds = some (e, l) ∧ e ≠ l ∧
    Missed db e l flagMissingRange excludeMissingAfter utcNow t

theorem evaluateWithReach_spec {reach : ℤ} {flagMissingRange excludeMissingAfter : Option ℤ}
    {state : ScannedSettlementsState} (h : (evaluateWithReach db reach flagMissingRange
      excludeMissingAfter now : SyncFundingSettlementsResult ε _) = .ok state) :
    Scanned db reach flagMissingRange excludeMissingAfter now state := by
  unfold evaluateWithReach ScannedSettlementsState.new at h
  cases hearliest : db.getEarliestSettlementTime with
  | none =>
      simp only [hearliest] at h
      obtain rfl := Except.ok.inj h
      refine ⟨rfl, ?_, List.Pairwise.nil, by simp⟩
      simp only [FundingSettlementsState.evaluate, hearliest]
  | some e =>
      cases hlatest : db.getLatestSettlementTime with
      | none =>
          simp only [hearliest, hlatest] at h
          obtain rfl := Except.ok.inj h
          refine ⟨rfl, ?_, List.Pairwise.nil, by simp⟩
          simp only [FundingSettlementsState.evaluate, hearliest, hlatest]
      | some l =>
          have hbounds : FundingSettlementsState.evaluate db = ⟨some (e, l)⟩ := by
            simp only [FundingSettlementsState.evaluate, hearliest, hlatest]
          simp only [hearliest, hlatest] at h
          by_cases hel : e = l
          · subst hel
            simp only [if_true, bind_eq_ok, pure_eq_ok] at h
            obtain ⟨-, -, rfl⟩ := h
            exact ⟨rfl, hbounds.symm, List.Pairwise.nil, by simp⟩
          · simp only [hel, if_false, bind_eq_ok, pure_eq_ok] at h
            obtain ⟨missing, hscan, -, -, rfl⟩ := h
            obtain ⟨hascending, hmem⟩ := scan_spec hscan
            refine ⟨rfl, hbounds.symm, hascending, fun t => ?_⟩
            rw [hmem]
            constructor
            · intro hmissed
              exact ⟨e, l, rfl, hel, hmissed⟩
            · rintro ⟨e', l', ⟨⟩, -, hmissed⟩
              exact hmissed

theorem bounds_eq_some {e l : ℤ} (h : (FundingSettlementsState.evaluate db).bounds = some (e, l)) :
    db.getEarliestSettlementTime = some e ∧ db.getLatestSettlementTime = some l := by
  unfold FundingSettlementsState.evaluate at h
  cases hearliest : db.getEarliestSettlementTime with
  | none => simp [hearliest] at h
  | some e' =>
      cases hlatest : db.getLatestSettlementTime with
      | none => simp [hearliest, hlatest] at h
      | some l' => simpa [hearliest, hlatest] using h

theorem stored_nothing (h : (FundingSettlementsState.evaluate db).bounds = none) (t : ℤ) :
    ¬ Stored db t := by
  rintro ⟨s, hs, -⟩
  obtain ⟨r, rest, hrows⟩ := List.exists_cons_of_ne_nil (List.ne_nil_of_mem hs)
  simp [FundingSettlementsState.evaluate, Database.getEarliestSettlementTime,
    Database.getLatestSettlementTime, hrows, List.getLast?_cons] at h

/-! ### The next download -/

variable {state : ScannedSettlementsState}

theorem lastGroupStart_lt {missing : List ℤ} (h : missing ≠ []) :
    lastGroupStart missing < missing.length := by
  have hpos := List.length_pos_iff.mpr h
  unfold lastGroupStart
  split <;> omega

/-- What the next download is for, by the state. -/
inductive NextDownload (state : ScannedSettlementsState) : FundingDownloadRange → Prop
  | latest (hbounds : state.bounds = none) : NextDownload state .latest
  | missing (fromTime toTime : ℤ) (hlast : state.missing.getLast? = some toTime) :
      NextDownload state (.missing fromTime toTime)
  | lowerBound (e l reach : ℤ) (hbounds : state.bounds = some (e, l)) (hnone : state.missing = [])
      (hreach : state.reachTime = some reach) (hlt : reach < e) :
      NextDownload state (.lowerBound e)
  | upperBound (e l : ℤ) (hbounds : state.bounds = some (e, l)) (hnone : state.missing = [])
      (hreach : ∀ reach, state.reachTime = some reach → e ≤ reach) :
      NextDownload state (.upperBound l)

theorem nextDownload_of_ok {range : FundingDownloadRange}
    (h : (state.nextDownloadRange true : SyncFundingSettlementsResult ε _) = .ok range) :
    NextDownload state range := by
  unfold nextDownloadRange at h
  cases hbounds : state.bounds with
  | none =>
      simp only [hbounds] at h
      obtain rfl := Except.ok.inj h
      exact .latest hbounds
  | some bounds =>
      obtain ⟨e, l⟩ := bounds
      simp only [hbounds, bind_eq_ok] at h
      obtain ⟨-, -, h⟩ := h
      by_cases hnone : state.missing = []
      · have hgroup : state.latestMissingGroup = none := by simp [latestMissingGroup, hnone]
        simp only [hgroup, Option.bind_none, Bool.true_and] at h
        cases hreach : state.reachTime with
        | none =>
            simp only [hreach, Option.any_none, Bool.false_eq_true, if_false, pure_eq_ok] at h
            subst h
            exact .upperBound e l hbounds hnone (by simp [hreach])
        | some reach =>
            simp only [hreach, Option.any_some, decide_eq_true_eq] at h
            by_cases hlt : e > reach
            · rw [if_pos hlt, pure_eq_ok] at h
              subst h
              exact .lowerBound e l reach hbounds hnone hreach hlt
            · rw [if_neg hlt, pure_eq_ok] at h
              subst h
              refine .upperBound e l hbounds hnone ?_
              intro reach' hreach'
              obtain rfl := Option.some.inj (hreach.symm.trans hreach')
              exact not_lt.mp hlt
      · have hlt := lastGroupStart_lt hnone
        obtain ⟨first, hfirst⟩ : ∃ first,
            (state.missing.drop (lastGroupStart state.missing)).head? = some first := by
          rw [List.head?_drop]
          exact ⟨_, List.getElem?_eq_getElem hlt⟩
        have hdropped : (state.missing.drop (lastGroupStart state.missing)).getLast? =
            state.missing.getLast? := by
          rw [List.getLast?_drop, if_neg (not_le.mpr hlt)]
        obtain ⟨last, hlast⟩ : ∃ last, state.missing.getLast? = some last :=
          ⟨_, List.getLast?_eq_some_getLast hnone⟩
        have hgroup : state.latestMissingGroup =
            some (state.missing.drop (lastGroupStart state.missing)) := by
          simp [latestMissingGroup, hnone]
        simp only [hgroup, Option.bind_some, hfirst, hdropped, hlast, Option.map_some, bind_eq_ok,
          pure_eq_ok] at h
        obtain ⟨-, -, rfl⟩ := h
        exact .missing first last hlast

end Quantoxide.Settlements
