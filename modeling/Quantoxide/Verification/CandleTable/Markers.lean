import Quantoxide.Library.Runs
import Quantoxide.Verification.CandleTable.Marks

/-! # The gap markers along a run of `add_candles`

A contiguous batch is a run of minutes. Adding one keeps every stable row marked, and the
markers of a marked table cover its holes. -/

namespace Quantoxide.CandleTable

open DateTime GapMarkers Runs

variable {db db' : Database} {clock : Clock} {t : ℤ} {before : Option ℤ} {cs : List OhlcCandle}
  {first last : OhlcCandle}

/-! ### Batches -/

/-- Consecutive round minutes, the latest first. -/
structure MinuteRun (cs : List OhlcCandle) : Prop where
  round : ∀ c ∈ cs, isRoundMinute c.time = true
  contiguous : cs.IsChain (fun a b => a.time = b.time + minute)

theorem MinuteRun.tail {c : OhlcCandle} (h : MinuteRun (c :: cs)) : MinuteRun cs :=
  ⟨fun d hd => h.round d (List.mem_cons_of_mem c hd), h.contiguous.of_cons⟩

theorem MinuteRun.descending (h : MinuteRun cs) : cs.Pairwise (fun a b => b.time < a.time) := by
  have hchain : cs.IsChain (fun a b => b.time < a.time) :=
    h.contiguous.imp fun a b hab => by
      rw [hab, minute_eq]
      omega
  have htrans : ∀ a b c : OhlcCandle, b.time < a.time → c.time < b.time → c.time < a.time :=
    fun a b c hab hbc => hbc.trans hab
  have : IsTrans OhlcCandle (fun a b => b.time < a.time) := ⟨htrans⟩
  exact List.isChain_iff_pairwise.mp hchain

theorem seconds_of_round (h : isRoundMinute t = true) : ¬ (second t ≠ 0 ∨ nanosecond t ≠ 0) := by
  simp only [isRoundMinute, floorMinute, beq_iff_eq] at h
  simp only [second, nanosecond]
  omega

theorem MinuteRun.checks {ε : Type} (h : MinuteRun cs) (e : ε) (f : ℤ → ε) :
    checkMinutesDesc e f cs = .ok () := by
  induction cs with
  | nil => rfl
  | cons c cs ih =>
      have hc := seconds_of_round (h.round c List.mem_cons_self)
      cases cs with
      | nil => rw [checkMinutesDesc, if_neg hc]
      | cons d cs =>
          have hlt := (List.pairwise_cons.mp h.descending).1 d List.mem_cons_self
          rw [checkMinutesDesc, if_neg hc, if_neg (not_le.mpr hlt)]
          exact ih h.tail

/-- The times of a run are the minutes from its last candle to its first. -/
theorem MinuteRun.inRun (h : MinuteRun cs) (hfirst : cs.head? = some first)
    (hlast : cs.getLast? = some last) :
    InRun minute last.time first.time first.time ∧
      ∀ t, InRun minute last.time first.time t ↔ ∃ c ∈ cs, c.time = t := by
  induction cs generalizing first with
  | nil => cases hfirst
  | cons c cs ih =>
      obtain rfl : c = first := Option.some.inj hfirst
      cases cs with
      | nil =>
          obtain rfl : c = last := by simpa using hlast
          refine ⟨⟨le_rfl, le_rfl, by simp⟩, fun t => ?_⟩
          constructor
          · rintro ⟨h1, h2, -⟩
            exact ⟨c, List.mem_singleton_self c, le_antisymm h1 h2⟩
          · rintro ⟨d, hd, rfl⟩
            rw [List.mem_singleton.mp hd]
            exact ⟨le_rfl, le_rfl, by simp⟩
      | cons d cs =>
          rw [List.getLast?_cons_cons] at hlast
          obtain ⟨⟨h1, h2, h3⟩, hmem⟩ := ih h.tail rfl hlast
          have hstep : c.time = d.time + minute := (List.isChain_cons_cons.mp h.contiguous).1
          have hdvd : minute ∣ c.time - last.time := by
            rw [hstep, add_sub_right_comm]
            exact Int.dvd_add h3 (Int.dvd_refl minute)
          rw [minute_eq] at hstep
          refine ⟨⟨by omega, le_rfl, hdvd⟩, fun t => ?_⟩
          constructor
          · rintro ⟨hlo, hhi, ht⟩
            rcases le_or_gt t d.time with hle | hgt
            · obtain ⟨e, he, rfl⟩ := (hmem t).mp ⟨hlo, hle, ht⟩
              exact ⟨e, List.mem_cons_of_mem c he, rfl⟩
            · refine ⟨c, List.mem_cons_self, ?_⟩
              rw [minute_eq] at ht hdvd
              omega
          · rintro ⟨e, he, rfl⟩
            rcases List.mem_cons.mp he with rfl | he
            · exact ⟨by omega, le_rfl, hdvd⟩
            · obtain ⟨hlo, hhi, ht⟩ := (hmem e.time).mpr ⟨e, he, rfl⟩
              exact ⟨hlo, by omega, ht⟩

theorem zip_batchGaps (ds : List OhlcCandle) (last : OhlcCandle) (stableExists : Bool) :
    (ds ++ [last]).zip (Database.batchGaps (ds ++ [last]) stableExists) =
      ds.map (fun c => (c, false)) ++ [(last, !stableExists)] := by
  have hgaps : Database.batchGaps (ds ++ [last]) stableExists =
      List.replicate ds.length false ++ [!stableExists] := by
    simp [Database.batchGaps, List.replicate_succ']
  rw [hgaps, List.zip_append (by simp)]
  congr 1
  clear hgaps
  induction ds with
  | nil => rfl
  | cons d ds ih =>
      rw [List.length_cons, List.replicate_succ, List.zip_cons_cons, List.map_cons, ih]

/-! ### One call -/

/-- The table after the flag of `before` has been taken off. -/
def cleared (db : Database) (clock : Clock) (before : Option ℤ) : Database :=
  match before with
  | some time => db.removeGapFlag clock time
  | none => db

theorem marks_cleared (t : ℤ) : marks (cleared db clock before) t =
    if before = some t then (marks db t).map (fun k => { k with gap := false })
    else marks db t := by
  cases before with
  | none => simp [cleared]
  | some b =>
      have h : marks (db.removeGapFlag clock b) t =
          if decide (t = b) then (marks db t).map (assign (.gap false)) else marks db t :=
        marks_updateWhere (.gap false) (fun time => decide (time = b)) t
      rw [cleared, h]
      simp only [decide_eq_true_eq, Option.some.injEq, @eq_comm _ b t]
      rfl

theorem stable_cleared : Stable (marks (cleared db clock before)) t ↔ Stable (marks db) t := by
  unfold Stable
  rw [marks_cleared]
  split_ifs
  · simp
  · rfl

theorem stableExists_iff : db.stableExists t = true ↔ Stable (marks db) t := by
  rw [stable_iff, Database.stableExists, List.any_eq_true, Database.candleRows]
  simp only [List.mem_map, Bool.and_eq_true, decide_eq_true_eq]
  constructor
  · rintro ⟨_, ⟨r, hr, rfl⟩, ht, hs⟩
    exact ⟨r, hr, ht, hs⟩
  · rintro ⟨r, hr, ht, hs⟩
    exact ⟨_, ⟨r, hr, rfl⟩, ht, hs⟩

/-- The age from which on a candle is stable. -/
def stableCutoff (now : ℤ) : ℤ := now - CANDLE_STABLE_AGE

/-- A contiguous batch is accepted, and writes the run of its minutes. -/
theorem addCandles_writes (db : Database) (clock : Clock) (before : Option ℤ)
    (h : MinuteRun cs) (hfirst : cs.head? = some first) (hlast : cs.getLast? = some last) :
    ∃ db', db.addCandles clock before cs = .ok db' ∧
      Writes minute (stableCutoff clock.utcNow) last.time first.time before
        (marks db) (marks db') := by
  obtain ⟨ds, rfl⟩ := List.getLast?_eq_some_iff.mp hlast
  obtain ⟨hend, hmem⟩ := h.inRun hfirst hlast
  have hcheck : checkMinutesDesc DbError.newDbCandlesTimesNotRoundedToMinute
      DbError.newDbCandlesNotOrderedByTimeDesc (ds ++ [last]) = .ok () := h.checks _ _
  set batch := (ds ++ [last]).zip (Database.batchGaps (ds ++ [last])
    ((cleared db clock before).stableExists (last.time - minute))) with hbatch
  have hround : ∀ e ∈ batch, isRoundMinute e.1.time = true := fun e he =>
    h.round e.1 (List.of_mem_zip he).1
  refine ⟨Database.insertCandles clock (stableCutoff clock.utcNow) (cleared db clock before)
    batch hround, ?_, hend, ?_, ?_⟩
  · unfold Database.addCandles
    rw [hlast]
    simp only
    split
    · rename_i e he
      rw [hcheck] at he
      cases he
    · cases before <;> rfl
  · intro t ht
    obtain ⟨c, hc, rfl⟩ := (hmem t).mp ht
    rw [zip_batchGaps] at hbatch
    have hdesc : batch.Pairwise (fun a b => b.1.time < a.1.time) := by
      have hd := h.descending
      rw [hbatch]
      rw [List.pairwise_append] at hd ⊢
      refine ⟨List.pairwise_map.mpr hd.1, List.pairwise_singleton _ _, ?_⟩
      intro e he f hf
      obtain ⟨d, hd', rfl⟩ := List.mem_map.mp he
      rw [List.mem_singleton.mp hf]
      exact hd.2.2 d hd' last (List.mem_singleton_self last)
    rcases List.mem_append.mp hc with hc' | hc'
    · have he : (c, false) ∈ batch := by
        rw [hbatch]
        exact List.mem_append_left _ (List.mem_map.mpr ⟨c, hc', rfl⟩)
      have hne : c.time ≠ last.time :=
        ((List.pairwise_append.mp h.descending).2.2 c hc' last (List.mem_singleton_self last)).ne'
      exact ⟨_, marks_insertCandles_of_mem hround hdesc he, by simp, by simp [hne]⟩
    · obtain rfl := List.mem_singleton.mp hc'
      have he : (c, !(cleared db clock before).stableExists (c.time - minute)) ∈ batch := by
        rw [hbatch]
        exact List.mem_append_right _ (List.mem_singleton_self _)
      refine ⟨_, marks_insertCandles_of_mem hround hdesc he, by simp, ?_⟩
      rw [Bool.not_eq_true', ← Bool.not_eq_true, stableExists_iff, stable_cleared]
      exact (and_iff_right rfl).symm
  · intro t ht
    rw [marks_insertCandles_of_notMem, marks_cleared]
    intro e he heq
    exact ht ((hmem t).mpr ⟨e.1, (List.of_mem_zip he).1, heq⟩)

/-! ### Runs -/

/-- A contiguous batch that is the newest data, or ends right before the bound given. -/
structure Places (db : Database) (before : Option ℤ) (cs : List OhlcCandle) : Prop where
  minutes : MinuteRun cs
  place : ∀ first, cs.head? = some first →
    (before = none ∧ ∀ c ∈ db.candleRows, c.time ≤ first.time) ∨
      before = some (first.time + minute)

/-- Every stable row was old enough at some reading of the clock up to `now`. -/
def Aged (db : Database) (now : ℤ) : Prop := ∀ t, Stable (marks db) t → t ≤ stableCutoff now

theorem Aged.mono {now now' : ℤ} (h : Aged db now) (hle : now ≤ now') : Aged db now' := by
  intro t ht
  have hold := h t ht
  unfold stableCutoff at hold ⊢
  omega

theorem addCandles_ok (clock : Clock) (h : Places db before cs) :
    ∃ db', db.addCandles clock before cs = .ok db' := by
  cases hlast : cs.getLast? with
  | none =>
      rw [List.getLast?_eq_none_iff.mp hlast]
      exact ⟨db, rfl⟩
  | some last =>
      have hne : cs ≠ [] := by
        rintro rfl
        cases hlast
      obtain ⟨db', hok, -⟩ := addCandles_writes db clock before h.minutes
        (List.head?_eq_some_head hne) hlast
      exact ⟨db', hok⟩

/-- One call keeps the table marked and its stable rows aged. -/
theorem addCandles_marked (hmarked : Marked minute (marks db)) (haged : Aged db clock.utcNow)
    (h : Places db before cs) (hok : db.addCandles clock before cs = .ok db') :
    Marked minute (marks db') ∧ Aged db' clock.utcNow := by
  cases hlast : cs.getLast? with
  | none =>
      rw [List.getLast?_eq_none_iff.mp hlast] at hok
      obtain rfl := Except.ok.inj hok
      exact ⟨hmarked, haged⟩
  | some last =>
      have hne : cs ≠ [] := by
        rintro rfl
        cases hlast
      have hfirst := List.head?_eq_some_head hne
      obtain ⟨_, hok', hwrites⟩ := addCandles_writes db clock before h.minutes hfirst hlast
      obtain rfl := Except.ok.inj (hok.symm.trans hok')
      refine ⟨hwrites.marked (by decide) haged ?_ hmarked, fun t => hwrites.aged haged⟩
      intro b hb
      rcases h.place _ hfirst with ⟨hnone, -⟩ | hsome
      · rw [hnone] at hb
        cases hb
      · exact Option.some.inj (hsome.symm.trans hb)

structure AddCall where
  clock : Clock
  before : Option ℤ
  batch : List OhlcCandle

/-- Successive calls, with the clock's last reading; the clock does not go back. -/
def additions : System (Database × ℤ) AddCall where
  start s := s.1.ohlcCandles = []
  step s call s' := s.2 ≤ call.clock.utcNow ∧ Places s.1 call.before call.batch ∧
    s.1.addCandles call.clock call.before call.batch = .ok s'.1 ∧ s'.2 = call.clock.utcNow

theorem marked_of_empty (db : Database) (now : ℤ) (h : db.ohlcCandles = []) :
    Marked minute (marks db) ∧ Aged db now := by
  have hnone : ∀ t, ¬ Stable (marks db) t := by
    intro t ht
    obtain ⟨r, hr, -⟩ := stable_iff.mp ht
    rw [h] at hr
    cases hr
  exact ⟨fun t ht => absurd ht (hnone t), fun t ht => absurd ht (hnone t)⟩

/-- The markers of a marked table cover what is missing or unstable between stable rows. -/
theorem Marked.getGaps_cover (hmarked : Marked minute (marks db)) {m : ℤ}
    (hround : isRoundMinute m = true) (hm : ¬ Stable (marks db) m)
    (hlo : ∃ t, Stable (marks db) t ∧ t < m) (hhi : ∃ t, Stable (marks db) t ∧ m < t) :
    ∃ g ∈ db.getGaps, g.1 < m ∧ m < g.2 := by
  refine covered_iff.mp (covered_of_marked (fun t _ => hmarked t) ?_ (by decide) hm hlo hhi)
  intro t ht hlt
  exact minute_le_of_lt hround (round_of_stored ht.stored) hlt

def Kept (s : Database × ℤ) : Prop := Marked minute (marks s.1) ∧ Aged s.1 s.2

/-- From a marked table, the empty one among them, every run of calls keeps it marked. -/
theorem markers_kept {db₀ : Database} {now₀ now : ℤ} {calls : List AddCall}
    (hmarked : Marked minute (marks db₀)) (haged : Aged db₀ now₀)
    (hrun : (additions.startedIn (db₀, now₀)).Run calls (db, now)) :
    Marked minute (marks db) ∧
      (∀ call : AddCall, Places db call.before call.batch →
        ∃ db', db.addCandles call.clock call.before call.batch = .ok db') ∧
      ∀ m, isRoundMinute m = true → ¬ Stable (marks db) m →
        (∃ t, Stable (marks db) t ∧ t < m) → (∃ t, Stable (marks db) t ∧ m < t) →
        ∃ g ∈ db.getGaps, g.1 < m ∧ m < g.2 := by
  have hkept : Kept (db, now) := by
    refine hrun.invariant ?_ ?_
    · rintro s rfl
      exact ⟨hmarked, haged⟩
    · rintro s call s' ⟨hm, ha⟩ ⟨hclock, hplace, hok, hnow⟩
      obtain ⟨hm', ha'⟩ := addCandles_marked hm (ha.mono hclock) hplace hok
      exact ⟨hm', hnow ▸ ha'⟩
  refine ⟨hkept.1, fun call hplace => addCandles_ok call.clock hplace, ?_⟩
  intro m hround hm hlo hhi
  exact Marked.getGaps_cover hkept.1 hround hm hlo hhi

/-! ### Two small tables -/

/-- The `n`-th minute as the API gives it. -/
def apiMinute (n : ℕ) (h : n ≤ 100000000) : OhlcCandle where
  time := Duration.minutes n
  openPrice := ⟨1⟩
  high := ⟨1⟩
  low := ⟨1⟩
  close := ⟨1⟩
  volume := 1
  epoch_le := by
    unfold Duration.minutes
    omega
  time_le := by
    have hmax : (100000000 : ℤ) * 60000000000 ≤ maxUtc := by decide
    unfold Duration.minutes
    omega

/-- A clock whose transactions are stamped at the epoch. -/
def wallClock (now : ℤ) : Clock := ⟨now, 0, by decide, by decide⟩

def clockAt (n : ℕ) : Clock := wallClock (Duration.minutes n)

def emptyTable : Database := ⟨[], [], List.Pairwise.nil, by simp, Database.noSettlements⟩

theorem places_below (db : Database) (bound : ℤ) (hrun : MinuteRun cs)
    (hfirst : ∀ c, cs.head? = some c → c.time + minute = bound) : Places db (some bound) cs :=
  ⟨hrun, fun c hc => Or.inr (congrArg some (hfirst c hc).symm)⟩

def firstMinute : OhlcCandle := apiMinute 0 (by decide)

/-- Three minutes. -/
def firstBatch : AddCall :=
  ⟨clockAt 1440, some (Duration.minutes 3), [apiMinute 2 (by decide), apiMinute 1 (by decide),
    firstMinute]⟩

/-- A day later, two that end before the eleventh. -/
def secondBatch : AddCall :=
  ⟨clockAt 2880, some (Duration.minutes 11), [apiMinute 10 (by decide),
    apiMinute 9 (by decide)]⟩

theorem twoBatches_run : ∃ db, (additions.startedIn (emptyTable, 0)).Run [firstBatch, secondBatch]
    (db, Duration.minutes 2880) := by
  have hplace₁ : Places emptyTable firstBatch.before firstBatch.batch :=
    places_below emptyTable _ ⟨by decide, by decide⟩ (by rintro c ⟨⟩; rfl)
  obtain ⟨db₁, hok₁⟩ := addCandles_ok firstBatch.clock hplace₁
  have hplace₂ : Places db₁ secondBatch.before secondBatch.batch :=
    places_below db₁ _ ⟨by decide, by decide⟩ (by rintro c ⟨⟩; rfl)
  obtain ⟨db₂, hok₂⟩ := addCandles_ok secondBatch.clock hplace₂
  have hrun₁ : (additions.startedIn (emptyTable, 0)).Run ([] ++ [firstBatch])
      (db₁, Duration.minutes 1440) :=
    System.Run.step (System.Run.start rfl) ⟨by decide, hplace₁, hok₁, rfl⟩
  have hclock : Duration.minutes 1440 ≤ secondBatch.clock.utcNow := by decide
  exact ⟨db₂, System.Run.step hrun₁ ⟨hclock, hplace₂, hok₂, rfl⟩⟩

theorem markers_kept_twoBatches :
    ∃ db, Marked minute (marks db) ∧
      (∀ call : AddCall, Places db call.before call.batch →
        ∃ db', db.addCandles call.clock call.before call.batch = .ok db') ∧
      ∀ m, isRoundMinute m = true → ¬ Stable (marks db) m →
        (∃ t, Stable (marks db) t ∧ t < m) → (∃ t, Stable (marks db) t ∧ m < t) →
        ∃ g ∈ db.getGaps, g.1 < m ∧ m < g.2 := by
  obtain ⟨db, hrun⟩ := twoBatches_run
  obtain ⟨hmarked, haged⟩ := marked_of_empty emptyTable 0 rfl
  exact ⟨db, markers_kept hmarked haged hrun⟩

/-! ### The earliest stable row -/

/-- Marked, but for the earliest stable row. -/
def MarkedBeyondFirst (db : Database) : Prop :=
  ∀ t, Stable (marks db) t → (∃ s, Stable (marks db) s ∧ s < t) →
    Stable (marks db) (t - minute) ∨ Flagged (marks db) t

def storedMinute (n : ℕ) (stable gap : Bool) : CandleRecord :=
  .ofCandle (clockAt 0) (apiMinute (min n 100000000) (min_le_right _ _)) gap stable

/-- An unstable row and a stable one after it, neither flagged. -/
def lateHead : Database where
  ohlcCandles := [storedMinute 10 false false, storedMinute 11 true false]
  fundingSettlements := []
  candlesAscending := by decide
  candlesMinutes := by
    intro c hc
    simp only [List.mem_cons, List.not_mem_nil, or_false] at hc
    rcases hc with rfl | rfl <;> exact CandleRecord.ofCandle_isMinute (by decide)
  settlementsAscending := List.Pairwise.nil

theorem lateHead_stable : Stable (marks lateHead) t ↔ t = Duration.minutes 11 := by
  rw [stable_iff]
  constructor
  · rintro ⟨r, hr, rfl, hs⟩
    simp only [lateHead, List.mem_cons, List.not_mem_nil, or_false] at hr
    rcases hr with rfl | rfl
    · cases hs
    · rfl
  · rintro rfl
    exact ⟨storedMinute 11 true false, by simp [lateHead], rfl, rfl⟩

/-- A batch right before the unstable row leaves the stable one neither first nor marked. -/
theorem first_stable_row_unmarked :
    ¬ ∀ db clock before cs db', MarkedBeyondFirst db → Aged db clock.utcNow →
      Places db before cs → db.addCandles clock before cs = .ok db' → MarkedBeyondFirst db' := by
  intro hclaim
  have hplace : Places lateHead (some (Duration.minutes 10)) [apiMinute 9 (by decide)] :=
    places_below lateHead _ ⟨by decide, by decide⟩ (by rintro c ⟨⟩; rfl)
  obtain ⟨db', hok, hwrites⟩ := addCandles_writes lateHead (clockAt 1440)
    (some (Duration.minutes 10)) hplace.minutes rfl rfl
  have hmarked : MarkedBeyondFirst lateHead := by
    rintro t ht ⟨s, hs, hlt⟩
    rw [lateHead_stable] at ht hs
    rw [ht, hs] at hlt
    exact absurd hlt (lt_irrefl _)
  have haged : Aged lateHead (clockAt 1440).utcNow := by
    intro t ht
    rw [lateHead_stable.mp ht]
    decide
  have hrun : ∀ t, InRun minute (Duration.minutes 9) (Duration.minutes 9) t →
      t = Duration.minutes 9 := fun t ht => le_antisymm ht.2.1 ht.1
  have hout : ∀ n : ℤ, n ≠ Duration.minutes 9 →
      ¬ InRun minute (Duration.minutes 9) (Duration.minutes 9) n := fun n hn ht => hn (hrun n ht)
  have hnine : Stable (marks db') (Duration.minutes 9) :=
    (hwrites.stable_inside ⟨le_rfl, le_rfl, by simp⟩).mpr (by decide)
  have heleven : Stable (marks db') (Duration.minutes 11) :=
    (hwrites.stable_outside (hout _ (by decide))).mpr (lateHead_stable.mpr rfl)
  rcases hclaim lateHead (clockAt 1440) _ _ db' hmarked haged hplace hok _ heleven
    ⟨_, hnine, by decide⟩ with hten | hflag
  · have hten' : Stable (marks lateHead) (Duration.minutes 10) :=
      (hwrites.stable_outside (hout _ (by decide))).mp hten
    exact absurd (lateHead_stable.mp hten') (by decide)
  · obtain ⟨k, hk, hgap⟩ := hflag
    have hold : marks db' (Duration.minutes 11) = marks lateHead (Duration.minutes 11) := by
      rw [hwrites.outside _ (hout _ (by decide)), if_neg (by decide)]
    rw [hold] at hk
    obtain ⟨r, hr, htime, rfl⟩ := marks_eq_some.mp hk
    simp only [lateHead, List.mem_cons, List.not_mem_nil, or_false] at hr
    rcases hr with rfl | rfl <;> cases hgap

end Quantoxide.CandleTable
