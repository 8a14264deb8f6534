import Quantoxide.Model.SettlementTable
import Quantoxide.Verification.Settlements.Correctness

/-! # Missing settlements are the schedule without the stored rows

A clipped series is its phase's part of the schedule, since every valid start lies on the
grid of the phase it lies in. -/

namespace Quantoxide.Settlements

open DateTime Database

variable {db : Database} {fromTime toTime t : ℤ}

/-! ### The schedule -/

/-- The phases of the settlement schedule: daily, then every eight hours from two starts. -/
def DailyPhase (t : ℤ) : Prop :=
  LNM_SETTLEMENT_A_START ≤ t ∧ t ≤ LNM_SETTLEMENT_A_END ∧
    Grid.On (Duration.hours 24) LNM_SETTLEMENT_A_START t

def PhaseB (t : ℤ) : Prop :=
  LNM_SETTLEMENT_B_START ≤ t ∧ t ≤ LNM_SETTLEMENT_B_END ∧
    Grid.On (Duration.hours 8) LNM_SETTLEMENT_B_START t

def PhaseC (t : ℤ) : Prop :=
  LNM_SETTLEMENT_C_START ≤ t ∧ Grid.On (Duration.hours 8) LNM_SETTLEMENT_C_START t

/-- A documented settlement time. -/
def Scheduled (t : ℤ) : Prop := DailyPhase t ∨ PhaseB t ∨ PhaseC t

/-- A settlement of that time is stored. -/
def Stored (db : Database) (t : ℤ) : Prop := ∃ s ∈ db.fundingSettlements, s.time = t

/-- The scheduled times of the range that are not stored, once each and in order. -/
structure MissingExactly (db : Database) (fromTime toTime : ℤ) (missing : List ℤ) : Prop where
  ascending : missing.Pairwise (· < ·)
  mem_iff : ∀ t, t ∈ missing ↔ Scheduled t ∧ fromTime ≤ t ∧ t ≤ toTime ∧ ¬ Stored db t

/-! ### One query -/

theorem series_unstored_ascending {step : ℤ} (hstep : 0 < step) (p : ℤ → Bool) :
    ((generateSeries fromTime toTime step).filter p).Pairwise (· < ·) :=
  (Grid.series_ascending hstep fromTime toTime).sublist List.filter_sublist

theorem query_eq {step : ℤ} (hstep : 0 < step) :
    db.queryMissingSettlementTimes step fromTime toTime =
      (generateSeries fromTime toTime step).filter fun time =>
        !db.fundingSettlements.any fun fs => fs.time == time := by
  apply List.mergeSort_of_pairwise
  apply (series_unstored_ascending hstep _).imp
  intro a b hlt
  simpa using hlt.le

theorem query_ascending {step : ℤ} (hstep : 0 < step) :
    (db.queryMissingSettlementTimes step fromTime toTime).Pairwise (· < ·) := by
  rw [query_eq hstep]
  exact series_unstored_ascending hstep _

theorem mem_query {step : ℤ} (hstep : 0 < step) :
    t ∈ db.queryMissingSettlementTimes step fromTime toTime ↔
      (fromTime ≤ t ∧ t ≤ toTime ∧ Grid.On step fromTime t) ∧ ¬ Stored db t := by
  rw [query_eq hstep, List.mem_filter, generateSeries, Grid.mem_series hstep]
  simp [Stored]

/-! ### Clipped queries -/

/-- A query that a phase asks for, clipped to the phase, finds its missing times: the clipped
start lies on the grid of the phase, and a query that is not asked for would find nothing. -/
theorem mem_clipped {step start stop : ℤ} {asked : Prop} [Decidable asked] (hstep : 0 < step)
    (hgrid : asked → start ≤ fromTime → Grid.On step start fromTime)
    (hasked : fromTime ≤ stop → start ≤ toTime → asked) :
    t ∈ (if asked then
        db.queryMissingSettlementTimes step (max fromTime start) (min toTime stop) else []) ↔
      (start ≤ t ∧ t ≤ stop ∧ Grid.On step start t) ∧ fromTime ≤ t ∧ t ≤ toTime ∧
        ¬ Stored db t := by
  by_cases h : asked
  · have hstart : Grid.On step start (max fromTime start) := by
      rcases le_total start fromTime with hle | hle
      · rw [max_eq_left hle]
        exact hgrid h hle
      · rw [max_eq_right hle]
        simp [Grid.On]
    rw [if_pos h, mem_query hstep, hstart.rebase, max_le_iff, le_min_iff]
    tauto
  · rw [if_neg h]
    constructor
    · intro hmem
      cases hmem
    · rintro ⟨⟨hs, he, -⟩, hf, ht, -⟩
      exact absurd (hasked (hf.trans he) (hs.trans ht)) h

theorem clipped_ascending {step start stop : ℤ} {asked : Prop} [Decidable asked]
    (hstep : 0 < step) : (if asked then
      db.queryMissingSettlementTimes step start stop else []).Pairwise (· < ·) := by
  split_ifs
  · exact query_ascending hstep
  · exact List.Pairwise.nil

/-! ### The three phases -/

theorem mem_phaseA (hf : isValidFundingSettlementTime fromTime = true) :
    t ∈ (if fromTime ≤ LNM_SETTLEMENT_A_END then
        db.queryMissingSettlementTimes24h (max fromTime LNM_SETTLEMENT_A_START)
          (min toTime LNM_SETTLEMENT_A_END) else []) ↔
      DailyPhase t ∧ fromTime ≤ t ∧ t ≤ toTime ∧ ¬ Stored db t := by
  apply mem_clipped (by decide)
  · intro hend _
    have hon := (valid_phaseA (hend.trans_lt (by decide))).mp hf
    have hstart : Grid.On (Duration.hours 24) (Duration.hours 8) LNM_SETTLEMENT_A_START := by decide
    exact hstart.rebase.mpr hon
  · intro hend _
    exact hend

theorem mem_phaseB (hf : isValidFundingSettlementTime fromTime = true) :
    t ∈ (if fromTime ≤ LNM_SETTLEMENT_B_END ∧ toTime ≥ LNM_SETTLEMENT_B_START then
        db.queryMissingSettlementTimes8h (max fromTime LNM_SETTLEMENT_B_START)
          (min toTime LNM_SETTLEMENT_B_END) else []) ↔
      PhaseB t ∧ fromTime ≤ t ∧ t ≤ toTime ∧ ¬ Stored db t := by
  apply mem_clipped (by decide)
  · intro hasked hstart
    have hon := (valid_phaseB hstart (hasked.1.trans_lt (by decide))).mp hf
    have hb : Grid.On (Duration.hours 8) (Duration.hours 4) LNM_SETTLEMENT_B_START := by decide
    exact hb.rebase.mpr hon
  · intro hend hstart
    exact ⟨hend, hstart⟩

theorem mem_phaseC (hf : isValidFundingSettlementTime fromTime = true) :
    t ∈ (if toTime ≥ LNM_SETTLEMENT_C_START then
        db.queryMissingSettlementTimes8h (max fromTime LNM_SETTLEMENT_C_START) toTime else []) ↔
      PhaseC t ∧ fromTime ≤ t ∧ t ≤ toTime ∧ ¬ Stored db t := by
  have hclip : t ∈ (if toTime ≥ LNM_SETTLEMENT_C_START then
        db.queryMissingSettlementTimes (Duration.hours 8) (max fromTime LNM_SETTLEMENT_C_START)
          (min toTime toTime) else []) ↔
      (LNM_SETTLEMENT_C_START ≤ t ∧ t ≤ toTime ∧
        Grid.On (Duration.hours 8) LNM_SETTLEMENT_C_START t) ∧
        fromTime ≤ t ∧ t ≤ toTime ∧ ¬ Stored db t := by
    apply mem_clipped (by decide)
    · intro _ hstart
      have hc : Grid.On (Duration.hours 8) (Duration.hours 0) LNM_SETTLEMENT_C_START := by decide
      exact hc.rebase.mpr ((valid_phaseC hstart).mp hf)
    · intro _ hstart
      exact hstart
  rw [min_self] at hclip
  rw [queryMissingSettlementTimes8h, hclip, PhaseC]
  tauto

/-- The missing settlement times of a range are its scheduled times that are not stored. -/
theorem missing_times_exact (db : Database) (fromTime toTime : ℤ)
    (hf : isValidFundingSettlementTime fromTime = true)
    (ht : isValidFundingSettlementTime toTime = true) :
    ∃ missing, db.getMissingSettlementTimes fromTime toTime = .ok missing ∧
      MissingExactly db fromTime toTime missing := by
  simp only [getMissingSettlementTimes, hf, ht, Bool.not_true, Bool.false_eq_true, if_false]
  refine ⟨_, rfl, ?_, ?_⟩
  · rw [List.pairwise_append, List.pairwise_append]
    refine ⟨⟨clipped_ascending (by decide), clipped_ascending (by decide), ?_⟩,
      clipped_ascending (by decide), ?_⟩
    · intro a ha b hb
      have hend := ((mem_phaseA hf).mp ha).1.2.1
      have hstart := ((mem_phaseB hf).mp hb).1.1
      exact hend.trans_lt (lt_of_lt_of_le (by decide) hstart)
    · intro a ha c hc
      have hstart := ((mem_phaseC hf).mp hc).1.1
      have hlt : a < LNM_SETTLEMENT_C_START := by
        rcases List.mem_append.mp ha with ha | ha
        · exact ((mem_phaseA hf).mp ha).1.2.1.trans_lt (by decide)
        · exact ((mem_phaseB hf).mp ha).1.2.1.trans_lt (by decide)
      exact hlt.trans_le hstart
  · intro t
    rw [List.mem_append, List.mem_append, mem_phaseA hf, mem_phaseB hf, mem_phaseC hf, Scheduled]
    tauto

/-! ### A table with one settlement -/

theorem Database.noRows :
    ([] : List CandleRecord).Pairwise (fun a b => a.row.time < b.row.time) := List.Pairwise.nil

theorem Database.noCandles : ∀ c ∈ ([] : List CandleRecord), c.row.IsMinute := by simp

/-- The first settlement of the exchange. -/
def firstSettlement : FundingSettlementRow :=
  ⟨LNM_SETTLEMENT_A_START, F64.clamp 35000, F64.clamp (1 / 10000)⟩

theorem firstSettlement_alone :
    [firstSettlement].Pairwise (fun a b => a.time < b.time) := List.pairwise_singleton _ _

def onceSettled : Database :=
  ⟨[], [firstSettlement], Database.noRows, Database.noCandles, firstSettlement_alone⟩

/-- From the first settlement to noon of 2025-04-11, which is valid and not scheduled. -/
theorem missing_times_exact_once :
    ∃ missing, onceSettled.getMissingSettlementTimes LNM_SETTLEMENT_A_START strayNoon =
        .ok missing ∧
      MissingExactly onceSettled LNM_SETTLEMENT_A_START strayNoon missing :=
  missing_times_exact onceSettled LNM_SETTLEMENT_A_START strayNoon (by decide) (by decide)

end Quantoxide.Settlements
