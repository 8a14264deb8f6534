import Quantoxide.Library.Brackets
import Quantoxide.Model.LiveEvaluation
import Quantoxide.Verification.Executor.Trigger
import Quantoxide.Verification.Live.Renewal

/-! # The live price trigger

The trigger of a session is the bracket of the trigger bounds of its running trades. While the
ends of a price range stay inside it, no trade can have been closed on the range and no
trailing stoploss moves. -/

namespace Quantoxide

open Brackets Result

variable {ε : Type} {sdk : LnmSdk ε} {step : PercentageCapped}

/-! ### One trade -/

namespace SimulatedTradeRunning

variable {t : SimulatedTradeRunning} {tsl : Option TradeTrailingStoploss} {lower upper : Price}
  {rangeMin rangeMax : F64}

/-- The stoploss, when it is set, is not beyond the liquidation. -/
def StopsFirst (t : SimulatedTradeRunning) : Prop :=
  ∀ p ∈ t.stoploss, t.side.NotBeyond t.liquidation p

instance (t : SimulatedTradeRunning) : Decidable t.StopsFirst :=
  inferInstanceAs (Decidable (∀ p ∈ t.stoploss, t.side.NotBeyond t.liquidation p))

/-- The stoploss and the liquidation of a long trade lie at its exit bound or below. -/
theorem StopsFirst.le_exitBound (h : t.StopsFirst) (hside : t.side = .buy) :
    (∀ p ∈ t.stoploss, p ≤ t.exitBound) ∧ t.liquidation ≤ t.exitBound := by
  unfold StopsFirst at h
  rw [hside] at h
  cases hstoploss : t.stoploss with
  | none => simp [exitBound, hstoploss]
  | some p =>
      have hle : t.liquidation ≤ p := h p hstoploss
      simp [exitBound, hstoploss, hle]

theorem StopsFirst.exitBound_le (h : t.StopsFirst) (hside : t.side = .sell) :
    (∀ p ∈ t.stoploss, t.exitBound ≤ p) ∧ t.exitBound ≤ t.liquidation := by
  unfold StopsFirst at h
  rw [hside] at h
  cases hstoploss : t.stoploss with
  | none => simp [exitBound, hstoploss]
  | some p =>
      have hle : p ≤ t.liquidation := h p hstoploss
      simp [exitBound, hstoploss, hle]

/-- A range inside the trade's bounds has not closed it. -/
theorem not_closed_inside (hstops : t.StopsFirst)
    (hbounds : t.evalTriggerBounds sdk step tsl = .ok (lower, upper))
    (hmin : lower.asF64 < rangeMin) (hmax : rangeMax < upper.asF64) :
    t.wasClosedOnRange rangeMin rangeMax = false := by
  cases hside : t.side with
  | buy =>
      obtain ⟨rfl, htake, -⟩ := bounds_buy hside hbounds
      obtain ⟨hstoploss, hliquidation⟩ := hstops.le_exitBound hside
      have hliquidation' : t.liquidation.asF64 < rangeMin := lt_of_le_of_lt hliquidation hmin
      simp only [wasClosedOnRange, hside, Bool.or_eq_false_iff, Option.any_eq_false,
        decide_eq_false_iff_not, ge_iff_le, not_le]
      refine ⟨⟨?_, hliquidation'⟩, ?_⟩
      · intro p hp
        exact lt_of_le_of_lt (hstoploss p hp) hmin
      · intro p hp
        exact lt_of_lt_of_le hmax (htake p hp)
  | sell =>
      obtain ⟨rfl, htake, -⟩ := bounds_sell hside hbounds
      obtain ⟨hstoploss, hliquidation⟩ := hstops.exitBound_le hside
      have hliquidation' : rangeMax < t.liquidation.asF64 := lt_of_lt_of_le hmax hliquidation
      simp only [wasClosedOnRange, hside, Bool.or_eq_false_iff, Option.any_eq_false,
        decide_eq_false_iff_not, ge_iff_le, not_le]
      refine ⟨⟨?_, hliquidation'⟩, ?_⟩
      · intro p hp
        exact lt_of_lt_of_le hmax (hstoploss p hp)
      · intro p hp
        exact lt_of_le_of_lt (htake p hp) hmin

/-- A range inside the trade's bounds does not move its trailing stoploss. -/
theorem stoploss_kept_inside
    (hbounds : t.evalTriggerBounds sdk step tsl = .ok (lower, upper))
    (hmin : lower.asF64 < rangeMin) (hmax : rangeMax < upper.asF64)
    {trailing : TradeTrailingStoploss} (htsl : trailing ∈ tsl) :
    t.evalNewStoplossOnRange sdk step trailing rangeMin rangeMax = .ok none := by
  simp only [evalNewStoplossOnRange, bind_eq_ok]
  cases hside : t.side with
  | buy =>
      obtain ⟨n, hn, hle⟩ := (bounds_buy hside hbounds).2.2 trailing htsl
      have hunmet : ¬ rangeMax ≥ n.asF64 := not_le.mpr (lt_of_lt_of_le hmax hle)
      refine ⟨n, hn, ?_⟩
      simp [stoplossOnRange, hside, hunmet, pure, Except.pure]
  | sell =>
      obtain ⟨n, hn, hle⟩ := (bounds_sell hside hbounds).2.2 trailing htsl
      have hunmet : ¬ rangeMin ≤ n.asF64 := not_le.mpr (lt_of_le_of_lt hle hmin)
      refine ⟨n, hn, ?_⟩
      simp [stoplossOnRange, hside, hunmet, pure, Except.pure]

end SimulatedTradeRunning

/-! ### The trigger as a bracket -/

namespace PriceTrigger

variable {trigger : PriceTrigger}

def bracket : PriceTrigger → Option (Price × Price)
  | notSet => none
  | set min max => some (min, max)

theorem bracket_inj {trigger' : PriceTrigger} (h : trigger.bracket = trigger'.bracket) :
    trigger = trigger' := by
  cases trigger with
  | notSet =>
      cases trigger' with
      | notSet => rfl
      | set min max => cases h
  | set min max =>
      cases trigger' with
      | notSet => cases h
      | set min' max' =>
          cases h
          rfl

theorem wasReached_eq_false {p : F64} :
    trigger.wasReached p = false ↔ (⟨p⟩ : Price) ∈ inside trigger.bracket := by
  cases trigger with
  | notSet => simp [wasReached, bracket, inside]
  | set min max => simp [wasReached, bracket, inside, Price.lt_iff]

/-- The trigger narrowed by the bounds of one more trade. -/
def narrowed (trigger : PriceTrigger) (bounds : Price × Price) : PriceTrigger :=
  match trigger with
  | notSet => set bounds.1 bounds.2
  | set min max => set (Max.max bounds.1 min) (Min.min bounds.2 max)

theorem bracket_narrowed (bounds : Price × Price) :
    (trigger.narrowed bounds).bracket = narrow trigger.bracket bounds := by
  cases trigger with
  | notSet => rfl
  | set min max => rfl

theorem bracket_foldl (bs : List (Price × Price)) :
    (bs.foldl narrowed trigger).bracket = bs.foldl narrow trigger.bracket := by
  induction bs generalizing trigger with
  | nil => rfl
  | cons b bs ih => rw [List.foldl_cons, ih, bracket_narrowed, List.foldl_cons]

theorem update_eq_map (t : SimulatedTradeRunning) (tsl : Option TradeTrailingStoploss) :
    trigger.update sdk step t tsl = (t.evalTriggerBounds sdk step tsl).map trigger.narrowed := by
  unfold update
  cases t.evalTriggerBounds sdk step tsl with
  | error e => rfl
  | ok bounds => cases trigger <;> rfl

/-- The trigger updated with each of the trades, from none. -/
def ofEntries (sdk : LnmSdk ε) (step : PercentageCapped) (entries : List TradeEntry) :
    Except (TradeCoreError ε) PriceTrigger :=
  entries.foldlM (fun trigger entry => trigger.update sdk step entry.1.asRunning entry.2) notSet

/-- The trigger of trades is the bracket that their bounds leave. -/
theorem ofEntries_eq_ok {entries : List TradeEntry} :
    ofEntries sdk step entries = .ok trigger ↔
      ∃ bs, entries.mapM (fun entry => entry.1.evalTriggerBounds sdk step entry.2) = .ok bs ∧
        trigger.bracket = bs.foldl narrow none := by
  unfold ofEntries
  rw [foldlM_eq_ok_iff (g := fun entry => entry.1.evalTriggerBounds sdk step entry.2)
    fun trigger entry => update_eq_map entry.1.asRunning entry.2]
  refine exists_congr fun bs => and_congr_right fun _ => ?_
  constructor
  · rintro rfl
    exact bracket_foldl bs
  · intro h
    exact bracket_inj ((bracket_foldl bs).trans h.symm)

theorem ofEntries_perm {entries entries' : List TradeEntry} (hperm : entries.Perm entries')
    (h : ofEntries sdk step entries = .ok trigger) :
    ofEntries sdk step entries' = .ok trigger := by
  obtain ⟨bs, hbs, hbracket⟩ := ofEntries_eq_ok.mp h
  obtain ⟨bs', hbs', hperm'⟩ := mapM_perm hperm hbs
  refine ofEntries_eq_ok.mpr ⟨bs', hbs', ?_⟩
  rw [hbracket]
  exact foldl_perm hperm' none

end PriceTrigger

namespace Live

open LiveTradingSession PriceTrigger

variable {trigger : PriceTrigger} {entries : List TradeEntry} {p rangeMin rangeMax : F64}

/-- The price reaches one of the trade's own trigger bounds. -/
def ReachesBounds (sdk : LnmSdk ε) (step : PercentageCapped) (p : F64) (entry : TradeEntry) :
    Prop :=
  ∃ lower upper, entry.1.evalTriggerBounds sdk step entry.2 = .ok (lower, upper) ∧
    (p ≤ lower.asF64 ∨ upper.asF64 ≤ p)

/-- A price stays inside the trigger when it stays inside the bounds of every trade. -/
theorem not_reached_iff (h : ofEntries sdk step entries = .ok trigger) :
    trigger.wasReached p = false ↔ ∀ entry ∈ entries, ∃ lower upper,
      entry.1.evalTriggerBounds sdk step entry.2 = .ok (lower, upper) ∧
        lower.asF64 < p ∧ p < upper.asF64 := by
  obtain ⟨bs, hbs, hbracket⟩ := ofEntries_eq_ok.mp h
  rw [wasReached_eq_false, hbracket, mem_inside_foldl_iff]
  constructor
  · rintro ⟨-, hinside⟩ entry hentry
    obtain ⟨bounds, hbounds⟩ := mapM_isOk.mp ⟨bs, hbs⟩ entry hentry
    have hmem := hinside bounds ((mem_of_mapM hbs).mpr ⟨entry, hentry, hbounds⟩)
    exact ⟨bounds.1, bounds.2, hbounds, hmem.1, hmem.2⟩
  · intro hinside
    refine ⟨trivial, ?_⟩
    intro bounds hbounds
    obtain ⟨entry, hentry, heq⟩ := (mem_of_mapM hbs).mp hbounds
    obtain ⟨lower, upper, heq', hlower, hupper⟩ := hinside entry hentry
    obtain rfl := Except.ok.inj (heq.symm.trans heq')
    exact ⟨hlower, hupper⟩

theorem reached_iff (h : ofEntries sdk step entries = .ok trigger) :
    trigger.wasReached p = true ↔ ∃ entry ∈ entries, ReachesBounds sdk step p entry := by
  rw [← Bool.not_eq_false, not_reached_iff h]
  obtain ⟨bs, hbs, -⟩ := ofEntries_eq_ok.mp h
  constructor
  · intro hnot
    by_contra hnone
    apply hnot
    intro entry hentry
    obtain ⟨bounds, hbounds⟩ := mapM_isOk.mp ⟨bs, hbs⟩ entry hentry
    refine ⟨bounds.1, bounds.2, hbounds, ?_, ?_⟩
    · exact not_le.mp fun hle => hnone ⟨entry, hentry, _, _, hbounds, Or.inl hle⟩
    · exact not_le.mp fun hle => hnone ⟨entry, hentry, _, _, hbounds, Or.inr hle⟩
  · rintro ⟨entry, hentry, lower, upper, hbounds, hreaches⟩ hinside
    obtain ⟨lower', upper', hbounds', hlower, hupper⟩ := hinside entry hentry
    obtain ⟨rfl, rfl⟩ := Prod.mk.inj (Except.ok.inj (hbounds.symm.trans hbounds'))
    rcases hreaches with hle | hle
    · exact absurd hlower (not_lt.mpr hle)
    · exact absurd hupper (not_lt.mpr hle)

/-- A range whose ends do not reach the trigger asks for no closure and no update. -/
theorem unreached_entry (h : ofEntries sdk step entries = .ok trigger)
    (hmin : trigger.wasReached rangeMin = false) (hmax : trigger.wasReached rangeMax = false)
    {entry : TradeEntry} (hentry : entry ∈ entries) (hstops : entry.1.asRunning.StopsFirst) :
    entry.1.wasClosedOnRange rangeMin rangeMax = false ∧ ∀ tsl ∈ entry.2,
      entry.1.evalNewStoplossOnRange sdk step tsl rangeMin rangeMax = .ok none := by
  obtain ⟨lower, upper, hbounds, hlower, -⟩ := (not_reached_iff h).mp hmin entry hentry
  obtain ⟨lower', upper', hbounds', -, hupper⟩ := (not_reached_iff h).mp hmax entry hentry
  obtain ⟨rfl, rfl⟩ := Prod.mk.inj (Except.ok.inj (hbounds.symm.trans hbounds'))
  constructor
  · exact SimulatedTradeRunning.not_closed_inside hstops hbounds hlower hupper
  · intro tsl htsl
    exact SimulatedTradeRunning.stoploss_kept_inside hbounds hlower hupper htsl

/-- The loop of `reevaluate` over the running trades finds nothing to do on such a range. -/
theorem checks_unreached {session : LiveTradingSession}
    (h : ofEntries sdk session.tslStepSize entries = .ok trigger)
    (hstops : ∀ entry ∈ entries, entry.1.asRunning.StopsFirst)
    (hmin : trigger.wasReached rangeMin = false) (hmax : trigger.wasReached rangeMax = false)
    (acc : RangeChecks) :
    entries.foldlM (session.checkOnRange sdk rangeMin rangeMax) acc = .ok acc := by
  have hstep : ∀ entry ∈ entries, session.checkOnRange sdk rangeMin rangeMax acc entry =
      .ok acc := by
    intro entry hentry
    obtain ⟨hopen, hkept⟩ := unreached_entry h hmin hmax hentry (hstops entry hentry)
    obtain ⟨trade, tsl⟩ := entry
    cases tsl with
    | none => simp [checkOnRange, hopen]
    | some tsl => simp [checkOnRange, hopen, hkept tsl rfl, pure, Except.pure, bind, Except.bind]
  clear h hstops
  induction entries with
  | nil => rfl
  | cons entry entries ih =>
      rw [List.foldlM_cons, hstep entry List.mem_cons_self]
      exact ih fun e he => hstep e (List.mem_cons_of_mem _ he)

/-- The trigger of trades does not depend on their order. It is reached exactly by the prices
that reach the bounds of one of them, and a range whose ends do not reach it closes none and
moves no trailing stoploss. -/
theorem trigger_summarises_trades (hstops : ∀ entry ∈ entries, entry.1.asRunning.StopsFirst)
    (h : ofEntries sdk step entries = .ok trigger) :
    (∀ entries', entries.Perm entries' → ofEntries sdk step entries' = .ok trigger) ∧
    (∀ p, trigger.wasReached p = true ↔ ∃ entry ∈ entries, ReachesBounds sdk step p entry) ∧
    ∀ rangeMin rangeMax, trigger.wasReached rangeMin = false →
      trigger.wasReached rangeMax = false → ∀ entry ∈ entries,
        entry.1.wasClosedOnRange rangeMin rangeMax = false ∧ ∀ tsl ∈ entry.2,
          entry.1.evalNewStoplossOnRange sdk step tsl rangeMin rangeMax = .ok none := by
  refine ⟨?_, ?_, ?_⟩
  · intro entries' hperm
    exact ofEntries_perm hperm h
  · intro p
    exact reached_iff h
  · intro rangeMin rangeMax hmin hmax entry hentry
    exact unreached_entry h hmin hmax hentry (hstops entry hentry)

/-- A short with a takeprofit, next to the trailing long. -/
def heldShort : Trade :=
  { heldTrade with
    id := ⟨2⟩
    side := .sell
    liquidation := ReferenceSdk.price 111111
    stoploss := none
    takeprofit := some (ReferenceSdk.price 92000) }

def heldEntries : List TradeEntry := [(heldTrade, heldTsl), (heldShort, none)]

theorem trigger_summarises_long_and_short :
    ofEntries referenceSdk ReferenceSdk.tenthPercent heldEntries.reverse =
      .ok (.set (ReferenceSdk.price 95000) (ReferenceSdk.price 100100)) ∧
    heldTrade.wasClosedOnRange (F64.clamp 96000) (F64.clamp 100000) = false := by
  have hstops : ∀ entry ∈ heldEntries, entry.1.asRunning.StopsFirst := by decide +kernel
  have htrigger : ofEntries referenceSdk ReferenceSdk.tenthPercent heldEntries =
      .ok (.set (ReferenceSdk.price 95000) (ReferenceSdk.price 100100)) := by decide +kernel
  obtain ⟨hperm, -, hinside⟩ := trigger_summarises_trades hstops htrigger
  refine ⟨hperm _ (List.reverse_perm heldEntries).symm, ?_⟩
  exact (hinside _ _ (by decide +kernel) (by decide +kernel) _ List.mem_cons_self).1

end Live

end Quantoxide
