import Quantoxide.Library.Loops
import Quantoxide.Library.Runs
import Quantoxide.Verification.Sync.FundingScan

/-! # Progress of the funding backfill

Against a fixed history of the API, a turn of the backfill that goes on stores a settlement or
excludes a time from the scan, unless it stands still. -/

namespace Quantoxide.Settlements

open DateTime Result SyncFundingSettlementsTask

variable {ε : Type} {db : Database} {t now : ℤ}

/-! ### The history of the API -/

/-- The settlements that the API has, and how many it returns at once. -/
structure SettlementHistory where
  settlements : List FundingSettlement
  pageSize : ℕ
  newestFirst : settlements.Pairwise fun a b => b.time < a.time
  pageSize_pos : 0 < pageSize

namespace SettlementHistory

variable (api : SettlementHistory)

/-- The newest page of a range whose ends are inclusive. -/
def page (fromTime toTime : Option ℤ) : List FundingSettlement :=
  (api.settlements.filter fun s =>
    fromTime.all (fun t => t ≤ s.time) && toTime.all fun t => s.time ≤ t).take api.pageSize

/-- The page that a download asks for. -/
def answer (range : FundingDownloadRange) : List FundingSettlement :=
  api.page range.fromTime? (range.toTime?.map (· + Duration.seconds 1))

/-- What the API answers, when it does, is a page of its history. -/
def Serves (turn : FundingTurn ε) : Prop :=
  ∀ trial fromTime toTime page, turn.getFundingSettlements trial fromTime toTime = .ok page →
    page = api.page fromTime toTime

/-- The turn in which the API always answers, at a time that stands still. -/
def turnAt (now : ℤ) : FundingTurn ε where
  getFundingSettlements _ fromTime toTime := .ok (api.page fromTime toTime)
  evaluatedNow := now
  excludedNow := now
  syncedNow := now

theorem serves_turnAt (now : ℤ) : api.Serves (api.turnAt now : FundingTurn ε) := by
  rintro trial fromTime toTime page ⟨⟩
  rfl

/-- The page has a settlement that is not stored. -/
def Offers (db : Database) (range : FundingDownloadRange) : Prop :=
  ∃ s ∈ api.answer range, ¬ Stored db s.time

variable {api} {range : FundingDownloadRange}

theorem mem_of_mem_answer {s : FundingSettlement} (h : s ∈ api.answer range) :
    s ∈ api.settlements := List.mem_of_mem_filter (List.mem_of_mem_take h)

theorem addSettlements_of_not_offers (h : ¬ api.Offers db range) :
    db.addSettlements (api.answer range) = db := by
  apply addSettlements_of_stored
  intro s hs
  by_contra hunstored
  exact h ⟨s, hs, hunstored⟩

theorem answer_latest : api.answer .latest = api.settlements.take api.pageSize := by
  simp [answer, page, FundingDownloadRange.fromTime?, FundingDownloadRange.toTime?]

theorem answer_latest_eq_nil : api.answer .latest = [] ↔ api.settlements = [] := by
  rw [answer_latest, List.take_eq_nil_iff]
  have hpos := api.pageSize_pos
  constructor
  · rintro (h | h)
    · omega
    · exact h
  · exact Or.inr

/-- The newest of a list, none after `e`, have one before it when the list has and there is
room for it next to one at `e`. -/
theorem exists_mem_take_lt {xs : List FundingSettlement} {n : ℕ} {e : ℤ}
    (hdesc : xs.Pairwise fun a b => b.time < a.time) (hpos : 0 < n)
    (hle : ∀ s ∈ xs.take n, s.time ≤ e) :
    (∃ s ∈ xs.take n, s.time < e) ↔
      (∃ s ∈ xs, s.time < e) ∧ (1 < n ∨ ∀ s ∈ xs, s.time ≠ e) := by
  obtain ⟨m, rfl⟩ := Nat.exists_eq_succ_of_ne_zero hpos.ne'
  cases xs with
  | nil => simp
  | cons a rest =>
      obtain ⟨ha, hrest⟩ := List.pairwise_cons.mp hdesc
      rw [List.take_succ_cons] at hle ⊢
      constructor
      · rintro ⟨s, hs, hlt⟩
        have hmem : s ∈ a :: rest :=
          List.mem_of_mem_take (i := m + 1) (by rwa [List.take_succ_cons])
        refine ⟨⟨s, hmem, hlt⟩, ?_⟩
        by_cases hm : m = 0
        · subst hm
          obtain rfl : s = a := by simpa using hs
          refine Or.inr ?_
          intro u hu
          rcases List.mem_cons.mp hu with rfl | hu
          · exact hlt.ne
          · exact ((ha u hu).trans hlt).ne
        · exact Or.inl (by omega)
      · rintro ⟨⟨s, hs, hlt⟩, hroom⟩
        by_cases hbefore : a.time < e
        · exact ⟨a, List.mem_cons_self, hbefore⟩
        · have heq : a.time = e :=
            le_antisymm (hle a List.mem_cons_self) (not_lt.mp hbefore)
          have hm : 1 < m.succ := hroom.elim id fun hne => absurd heq (hne a List.mem_cons_self)
          obtain ⟨k, rfl⟩ := Nat.exists_eq_succ_of_ne_zero (show m ≠ 0 by omega)
          rcases List.mem_cons.mp hs with rfl | hs
          · exact absurd hlt hbefore
          · cases rest with
            | nil => cases hs
            | cons b rest =>
                refine ⟨b, by simp, ?_⟩
                rw [← heq]
                exact ha b List.mem_cons_self

/-- A page below the earliest settlement offers one when the history has one before it, and
the page has room for it. -/
theorem offers_lowerBound_iff {e : ℤ} (hvalid : isValidFundingSettlementTime e = true)
    (hearliest : Stored db e ∧ ∀ t, Stored db t → e ≤ t)
    (hpage : ∀ s ∈ api.answer (.lowerBound e), isValidFundingSettlementTime s.time = true) :
    api.Offers db (.lowerBound e) ↔ (∃ s ∈ api.settlements, s.time < e) ∧
      (1 < api.pageSize ∨ ∀ s ∈ api.settlements, s.time ≠ e) := by
  have hle : ∀ s ∈ api.answer (.lowerBound e), s.time ≤ e := by
    intro s hs
    have hmem := List.mem_of_mem_take hs
    simp only [FundingDownloadRange.toTime?, Option.map_some, Option.all_some, List.mem_filter,
      Bool.and_eq_true, decide_eq_true_eq] at hmem
    exact le_of_le_second (hpage s hs) hvalid hmem.2.2
  have hoffers : api.Offers db (.lowerBound e) ↔ ∃ s ∈ api.answer (.lowerBound e), s.time < e := by
    refine exists_congr fun s => and_congr_right fun hs => ?_
    constructor
    · intro hunstored
      refine lt_of_le_of_ne (hle s hs) ?_
      rintro heq
      exact hunstored (heq ▸ hearliest.1)
    · intro hlt hstored
      exact absurd (hearliest.2 s.time hstored) (not_le.mpr hlt)
  rw [hoffers, answer, page, exists_mem_take_lt (api.newestFirst.filter _) api.pageSize_pos hle]
  have hmem : ∀ s : FundingSettlement, s.time ≤ e → (s ∈ api.settlements.filter (fun s =>
      (FundingDownloadRange.lowerBound e).fromTime?.all (fun t => decide (t ≤ s.time)) &&
        ((FundingDownloadRange.lowerBound e).toTime?.map (· + Duration.seconds 1)).all
          fun t => decide (s.time ≤ t)) ↔ s ∈ api.settlements) := by
    intro s hs
    have hsecond : s.time ≤ e + Duration.seconds 1 := hs.trans (by simp [Duration.seconds])
    simp [FundingDownloadRange.fromTime?, FundingDownloadRange.toTime?, hsecond]
  refine and_congr ?_ (or_congr_right ?_)
  · exact exists_congr fun s => and_congr_left fun hlt => hmem s hlt.le
  · constructor
    · intro h s hs heq
      exact h s ((hmem s heq.le).mpr hs) heq
    · intro h s hs heq
      exact h s ((hmem s heq.le).mp hs) heq

theorem exists_mem_take_ge {xs : List FundingSettlement} {n : ℕ} {s : FundingSettlement}
    (hdesc : xs.Pairwise fun a b => b.time < a.time) (hpos : 0 < n) (hs : s ∈ xs) :
    ∃ a ∈ xs.take n, s.time ≤ a.time := by
  obtain ⟨m, rfl⟩ := Nat.exists_eq_succ_of_ne_zero hpos.ne'
  cases xs with
  | nil => cases hs
  | cons a rest =>
      refine ⟨a, by simp, ?_⟩
      rcases List.mem_cons.mp hs with rfl | hs
      · rfl
      · exact ((List.pairwise_cons.mp hdesc).1 s hs).le

/-- A page above the latest settlement offers one when the history has one after it. -/
theorem offers_upperBound_iff {l : ℤ} (hlatest : Stored db l ∧ ∀ t, Stored db t → t ≤ l) :
    api.Offers db (.upperBound l) ↔ ∃ s ∈ api.settlements, l < s.time := by
  constructor
  · rintro ⟨s, hs, hunstored⟩
    have hmem := List.mem_of_mem_take hs
    simp only [FundingDownloadRange.fromTime?, Option.all_some, List.mem_filter,
      Bool.and_eq_true, decide_eq_true_eq] at hmem
    refine ⟨s, hmem.1, lt_of_le_of_ne hmem.2.1 ?_⟩
    intro heq
    exact hunstored (heq ▸ hlatest.1)
  · rintro ⟨s, hs, hlt⟩
    have hmem : s ∈ api.settlements.filter (fun s =>
        (FundingDownloadRange.upperBound l).fromTime?.all (fun t => decide (t ≤ s.time)) &&
          ((FundingDownloadRange.upperBound l).toTime?.map (· + Duration.seconds 1)).all
            fun t => decide (s.time ≤ t)) := by
      simp [FundingDownloadRange.fromTime?, FundingDownloadRange.toTime?, hs, hlt.le]
    obtain ⟨a, ha, hle⟩ :=
      exists_mem_take_ge (api.newestFirst.filter _) api.pageSize_pos hmem
    refine ⟨a, ha, ?_⟩
    intro hstored
    exact absurd (hlatest.2 a.time hstored) (not_le.mpr (hlt.trans_le hle))

/-- The latest page offers one to an empty table when there is one. -/
theorem offers_latest_iff (hempty : ∀ t, ¬ Stored db t) :
    api.Offers db .latest ↔ api.settlements ≠ [] := by
  rw [Ne, ← answer_latest_eq_nil]
  constructor
  · rintro ⟨s, hs, -⟩
    exact List.ne_nil_of_mem hs
  · intro hne
    obtain ⟨s, hs⟩ := List.exists_mem_of_ne_nil _ hne
    exact ⟨s, hs, hempty s.time⟩

theorem stored_mono {db' : Database} (h : db' = db.addSettlements (api.answer range))
    (hstored : Stored db t) : Stored db' t := by
  rw [h, stored_addSettlements]
  exact Or.inr hstored

/-- A download stores something new when the page has it. -/
theorem offers_iff_stores {db' : Database} (h : db' = db.addSettlements (api.answer range)) :
    api.Offers db range ↔ ∃ t, ¬ Stored db t ∧ Stored db' t := by
  subst h
  constructor
  · rintro ⟨s, hs, hunstored⟩
    exact ⟨s.time, hunstored, (stored_addSettlements _).mpr (Or.inl ⟨s, hs, rfl⟩)⟩
  · rintro ⟨t, hunstored, hstored⟩
    rcases (stored_addSettlements _).mp hstored with ⟨s, hs, rfl⟩ | hstored
    · exact ⟨s, hs, hunstored⟩
    · exact absurd hstored hunstored

end SettlementHistory

/-! ### One turn -/

section Turn

variable {config : SyncFundingSettlementsTaskConfig} {flagMissingRange : Option ℤ}
  {turn : FundingTurn ε} {range : FundingDownloadRange} {api : SettlementHistory}
  {s s' : FundingBackfill}

theorem fetchPage_eq_ok {getPage : ℕ → Except ε (List FundingSettlement)} {trial left : ℕ}
    {page : List FundingSettlement} (h : fetchPage getPage trial left = .ok page) :
    ∃ i, getPage i = .ok page := by
  induction left generalizing trial with
  | zero => exact ⟨trial, (mapError_eq_ok).mp h⟩
  | succ left ih =>
      cases hpage : getPage trial with
      | ok page' =>
          simp only [fetchPage, hpage] at h
          obtain rfl := Except.ok.inj h
          exact ⟨trial, hpage⟩
      | error e =>
          simp only [fetchPage, hpage] at h
          exact ih h

/-- The table after a download: the page is checked and stored, and is not empty before the
start of the history. -/
structure Downloaded (api : SettlementHistory) (range : FundingDownloadRange)
    (db db' : Database) : Prop where
  page_valid : ∀ s ∈ api.answer range, isValidFundingSettlementTime s.time = true
  page_nonempty : ∀ toTime, range = .lowerBound toTime → api.answer range ≠ []
  stores : db' = db.addSettlements (api.answer range)

theorem downloaded_of_ok (hserves : api.Serves turn) {db' : Database}
    (h : partialDownload config turn range db = .ok db') : Downloaded api range db db' := by
  simp only [partialDownload, bind_eq_ok] at h
  obtain ⟨page, hpage, h⟩ := h
  obtain ⟨trial, hpage⟩ := fetchPage_eq_ok hpage
  obtain rfl : page = api.answer range := hserves _ _ _ _ hpage
  cases hinvalid : (api.answer range).find? fun s => !isValidFundingSettlementTime s.time with
  | some settlement =>
      rw [hinvalid] at h
      cases h
  | none =>
      rw [hinvalid] at h
      have hvalid : ∀ s ∈ api.answer range, isValidFundingSettlementTime s.time = true := by
        simpa using List.find?_eq_none.mp hinvalid
      cases hanswer : api.answer range with
      | nil =>
          rw [hanswer] at h
          cases range with
          | lowerBound toTime => cases h
          | _ =>
              refine ⟨hvalid, by simp, ?_⟩
              rw [hanswer]
              exact (pure_eq_ok.mp h).symm
      | cons a rest =>
          rw [hanswer] at h
          refine ⟨hvalid, by simp [hanswer], ?_⟩
          rw [hanswer]
          exact (pure_eq_ok.mp h).symm

/-- The state after a download: either the scan goes on up to the same time, or the latest
missing time is still missing and is excluded. -/
inductive Reevaluated (config : SyncFundingSettlementsTaskConfig) (flagMissingRange : Option ℤ)
    (turn : FundingTurn ε) (range : FundingDownloadRange) (db : Database)
    (excludeMissingAfter : Option ℤ) : FundingBackfill → Prop
  | kept {state : ScannedSettlementsState}
      (h : (ScannedSettlementsState.evaluateWithReach db config.fundingSettlementReach
        flagMissingRange excludeMissingAfter turn.evaluatedNow :
          SyncFundingSettlementsResult ε _) = .ok state)
      (hfilled : ∀ fromTime toTime, range = .missing fromTime toTime → toTime ∉ state.missing) :
      Reevaluated config flagMissingRange turn range db excludeMissingAfter
        ⟨db, state, excludeMissingAfter⟩
  | excluded {fromTime toTime : ℤ} {newState state : ScannedSettlementsState}
      (hrange : range = .missing fromTime toTime)
      (hnew : (ScannedSettlementsState.evaluateWithReach db config.fundingSettlementReach
        flagMissingRange excludeMissingAfter turn.evaluatedNow :
          SyncFundingSettlementsResult ε _) = .ok newState)
      (hmem : toTime ∈ newState.missing)
      (h : (ScannedSettlementsState.evaluateWithReach db config.fundingSettlementReach
        flagMissingRange (some toTime) turn.excludedNow :
          SyncFundingSettlementsResult ε _) = .ok state) :
      Reevaluated config flagMissingRange turn range db excludeMissingAfter
        ⟨db, state, some toTime⟩

theorem reevaluated_of_ok {excludeMissingAfter : Option ℤ}
    (h : evaluateDownload config flagMissingRange turn range db excludeMissingAfter = .ok s') :
    Reevaluated config flagMissingRange turn range db excludeMissingAfter s' := by
  simp only [evaluateDownload, bind_eq_ok] at h
  obtain ⟨newState, hnew, h⟩ := h
  cases range with
  | missing fromTime toTime =>
      by_cases hmem : toTime ∈ newState.missing
      · simp only [List.contains_iff_mem, hmem, if_true, bind_eq_ok, pure_eq_ok] at h
        obtain ⟨state, hstate, rfl⟩ := h
        exact .excluded rfl hnew hmem hstate
      · simp only [List.contains_iff_mem, hmem, if_false, pure_eq_ok] at h
        subst h
        refine .kept hnew ?_
        rintro _ _ ⟨⟩
        exact hmem
  | _ =>
      obtain rfl := pure_eq_ok.mp h
      exact .kept hnew (by simp)

/-- What a turn that goes on has done. -/
structure GoesOn (config : SyncFundingSettlementsTaskConfig) (flagMissingRange : Option ℤ)
    (api : SettlementHistory) (turn : FundingTurn ε) (s s' : FundingBackfill)
    (range : FundingDownloadRange) : Prop where
  next : (s.state.nextDownloadRange true : SyncFundingSettlementsResult ε _) = .ok range
  downloaded : Downloaded api range s.db s'.db
  reevaluated : Reevaluated config flagMissingRange turn range s'.db s.excludeMissingAfter s'
  hasMissing : range.toTime? = none →
    (s'.state.hasMissing : SyncFundingSettlementsResult ε Bool) = .ok true

theorem goesOn_of_ok (hserves : api.Serves turn)
    (h : backfillTurn config flagMissingRange turn s = .ok (s', none)) :
    ∃ range, GoesOn config flagMissingRange api turn s s' range := by
  simp only [backfillTurn, bind_eq_ok] at h
  obtain ⟨range, hrange, db, hdb, t, ht, missing, hmissing, h⟩ := h
  have hreevaluated := reevaluated_of_ok ht
  have hdb' : t.db = db := by
    cases hreevaluated with
    | kept _ _ => rfl
    | excluded _ _ _ _ => rfl
  subst hdb'
  have hdownloaded := downloaded_of_ok hserves hdb
  cases missing with
  | true =>
      simp only [if_true, pure_eq_ok, Prod.mk.injEq, and_true] at h
      subst h
      exact ⟨range, hrange, hdownloaded, hreevaluated, fun _ => hmissing⟩
  | false =>
      simp only [Bool.false_eq_true, if_false] at h
      split_ifs at h with hdone
      · simp at h
      · simp only [pure_eq_ok, Prod.mk.injEq, and_true] at h
        subst h
        refine ⟨range, hrange, hdownloaded, hreevaluated, ?_⟩
        intro hto
        simp [hto] at hdone

end Turn

end Quantoxide.Settlements
