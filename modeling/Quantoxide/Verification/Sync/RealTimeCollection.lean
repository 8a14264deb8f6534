import Mathlib.Data.Int.ConditionallyCompleteOrder
import Quantoxide.Library.Runs
import Quantoxide.Model.RealTimeCollection
import Quantoxide.Verification.CandleTable.Markers

/-! # No streamed tick is lost

Updates arrive, insertions finish or fail and older ticks are removed in any order with the
turns of the collection task. -/

namespace Quantoxide.RealTimeCollection

open PriceTables RealTimeCollectionTask Runs Timeline

variable {tables : PriceTables} {pruned : WithBot ℤ} {ticks processed : List LastPrice}
  {inserted : List PriceTickRow} {row : PriceTickRow} {clock : Clock}

/-! ### The table -/

/-- The row has the price of the first tick at its time. -/
def FirstAt (ticks : List LastPrice) (row : PriceTickRow) : Prop :=
  ∃ tick, ticks.find? (fun t => t.time = row.time) = some tick ∧
    tick.lastPrice.asF64 = row.lastPrice

theorem FirstAt.append (h : FirstAt ticks row) (more : List LastPrice) :
    FirstAt (ticks ++ more) row := by
  obtain ⟨tick, hfind, hprice⟩ := h
  exact ⟨tick, by rw [List.find?_append, hfind, Option.some_or], hprice⟩

/-- What was inserted for the processed ticks, up to the last time that was pruned. -/
structure Kept (tables : PriceTables) (pruned : WithBot ℤ) (processed : List LastPrice)
    (inserted : List PriceTickRow) : Prop where
  stored : ∀ tick ∈ processed, (tick.time : WithBot ℤ) ≤ pruned ∨
    ∃ row ∈ tables.priceTicks, row.time = tick.time
  rows : ∀ row ∈ inserted, (row.time : WithBot ℤ) ≤ pruned ∨
    row ∈ tables.priceTicks ∧ FirstAt processed row
  once : ((inserted.filter fun row => pruned < (row.time : WithBot ℤ)).map (·.time)).Nodup

theorem mem_insertTick (h : ∀ r ∈ tables.priceTicks, r.time ≠ row.time) {r : PriceTickRow} :
    r ∈ (tables.insertTick row).priceTicks ↔ r = row ∨ r ∈ tables.priceTicks :=
  mem_upsert_of_new h

theorem Kept.addTick {acc : PriceTables × List PriceTickRow} (tick : LastPrice)
    (h : Kept acc.1 pruned processed (inserted ++ acc.2)) :
    Kept (addTick clock acc tick).1 pruned (processed ++ [tick])
      (inserted ++ (addTick clock acc tick).2) := by
  unfold PriceTables.addTick
  simp only
  split_ifs with hany
  · obtain ⟨r, hr, htime⟩ := List.any_eq_true.mp hany
    refine ⟨?_, fun row hrow => (h.rows row hrow).imp_right fun hkept =>
      ⟨hkept.1, hkept.2.append _⟩, h.once⟩
    intro t ht
    rcases List.mem_append.mp ht with ht | ht
    · exact h.stored t ht
    · rw [List.mem_singleton.mp ht]
      exact Or.inr ⟨r, hr, by simpa using htime⟩
  · generalize hnew : PriceTickRow.mk tick.time tick.lastPrice.asF64 clock.transactionNow = new
    have htime : new.time = tick.time := by rw [← hnew]
    have hfresh : ∀ r ∈ acc.1.priceTicks, r.time ≠ new.time := by
      intro r hr heq
      exact hany (List.any_eq_true.mpr ⟨r, hr, by simpa [← htime] using heq⟩)
    have hmem {r : PriceTickRow} := mem_insertTick (r := r) hfresh
    refine ⟨?_, ?_, ?_⟩
    · intro t ht
      rcases List.mem_append.mp ht with ht | ht
      · refine (h.stored t ht).imp_right ?_
        rintro ⟨r, hr, heq⟩
        exact ⟨r, hmem.mpr (Or.inr hr), heq⟩
      · rw [List.mem_singleton.mp ht]
        exact Or.inr ⟨new, hmem.mpr (Or.inl rfl), htime⟩
    · intro r hr
      rw [← List.append_assoc] at hr
      rcases List.mem_append.mp hr with hr | hr
      · exact (h.rows r hr).imp_right fun hkept =>
          ⟨hmem.mpr (Or.inr hkept.1), hkept.2.append _⟩
      · obtain rfl := List.mem_singleton.mp hr
        refine or_iff_not_imp_left.mpr fun hkept => ⟨hmem.mpr (Or.inl rfl), tick, ?_, ?_⟩
        · -- An earlier tick at this time would have its row.
          have hnone : processed.find? (fun t => t.time = r.time) = none := by
            rw [List.find?_eq_none]
            intro t ht heq
            have heq : t.time = r.time := by simpa using heq
            rcases h.stored t ht with hle | ⟨r', hr', heq'⟩
            · exact hkept (heq ▸ hle)
            · exact hfresh r' hr' (heq'.trans heq)
          rw [List.find?_append, hnone, Option.none_or, List.find?_cons_of_pos (by simp [htime])]
        · rw [← hnew]
    · rw [← List.append_assoc, List.filter_append, List.map_append]
      refine h.once.append ?_ ?_
      · by_cases hlt : pruned < (new.time : WithBot ℤ) <;> simp [hlt]
      · intro t ht ht'
        obtain ⟨r, hr, rfl⟩ := List.mem_map.mp ht
        obtain ⟨r', hr', heq⟩ := List.mem_map.mp ht'
        obtain rfl := List.mem_singleton.mp (List.mem_filter.mp hr').1
        obtain ⟨hr, hlt⟩ := List.mem_filter.mp hr
        have hlt : pruned < (r.time : WithBot ℤ) := by simpa using hlt
        rcases h.rows r hr with hle | ⟨hr, -⟩
        · exact hle.not_gt hlt
        · exact hfresh r hr heq.symm

theorem Kept.addTicks (clock : Clock) (ticks : List LastPrice)
    (h : Kept tables pruned processed inserted) :
    Kept (tables.addTicks clock ticks).1 pruned (processed ++ ticks)
      (inserted ++ (tables.addTicks clock ticks).2) := by
  suffices hfold : ∀ acc : PriceTables × List PriceTickRow,
      Kept acc.1 pruned processed (inserted ++ acc.2) →
        Kept (ticks.foldl (PriceTables.addTick clock) acc).1 pruned (processed ++ ticks)
          (inserted ++ (ticks.foldl (PriceTables.addTick clock) acc).2) from
    hfold (tables, []) (by simpa using h)
  clear h
  induction ticks generalizing processed with
  | nil =>
      intro acc h
      simpa using h
  | cons tick ticks ih =>
      intro acc h
      rw [List.append_cons]
      exact ih _ (h.addTick tick)

/-- Rows that are in the table stay there when others insert. -/
theorem Kept.others (clock : Clock) (ticks : List LastPrice)
    (h : Kept tables pruned processed inserted) :
    Kept (tables.addTicks clock ticks).1 pruned processed inserted := by
  have hkeeps : ∀ r ∈ tables.priceTicks, r ∈ (tables.addTicks clock ticks).1.priceTicks := by
    suffices hfold : ∀ acc : PriceTables × List PriceTickRow, ∀ r ∈ acc.1.priceTicks,
        r ∈ (ticks.foldl (PriceTables.addTick clock) acc).1.priceTicks from hfold (tables, [])
    induction ticks with
    | nil => exact fun _ _ hr => hr
    | cons tick ticks ih =>
        intro acc r hr
        refine ih _ r ?_
        unfold PriceTables.addTick
        simp only
        split_ifs with hany
        · exact hr
        · refine (mem_insertTick ?_).mpr (Or.inr hr)
          intro r' hr' heq
          exact hany (List.any_eq_true.mpr ⟨r', hr', by simpa using heq⟩)
  refine ⟨?_, fun r hr => (h.rows r hr).imp_right fun hr => ⟨hkeeps r hr.1, hr.2⟩, h.once⟩
  intro t ht
  refine (h.stored t ht).imp_right ?_
  rintro ⟨r, hr, heq⟩
  exact ⟨r, hkeeps r hr, heq⟩

theorem Kept.prune (before : ℤ) (h : Kept tables pruned processed inserted) :
    Kept (tables.removeTicks before) (pruned ⊔ before) processed inserted := by
  have hkeeps : ∀ r ∈ tables.priceTicks, (r.time : WithBot ℤ) ≤ pruned ⊔ before ∨
      r ∈ (tables.removeTicks before).priceTicks := by
    intro r hr
    by_cases hle : r.time ≤ before
    · exact Or.inl (le_sup_of_le_right (WithBot.coe_le_coe.mpr hle))
    · exact Or.inr (List.mem_filter.mpr ⟨hr, by simpa using hle⟩)
  refine ⟨?_, ?_, ?_⟩
  · intro t ht
    rcases h.stored t ht with hle | ⟨r, hr, heq⟩
    · exact Or.inl (le_sup_of_le_left hle)
    · rw [← heq]
      exact (hkeeps r hr).imp_right fun hr => ⟨r, hr, rfl⟩
  · intro r hr
    rcases h.rows r hr with hle | ⟨hr, hfirst⟩
    · exact Or.inl (le_sup_of_le_left hle)
    · exact (hkeeps r hr).imp_right fun hr => ⟨hr, hfirst⟩
  · refine h.once.sublist (List.Sublist.map _ (List.monotone_filter_right inserted ?_))
    intro r hr
    have hlt : pruned ⊔ before < (r.time : WithBot ℤ) := by simpa using hr
    simpa using (le_sup_left.trans_lt hlt : pruned < (r.time : WithBot ℤ))

/-! ### The task -/

/-- The tick of an update, if it is one. -/
def tick? : StreamUpdate → Option LastPrice
  | .futuresInverseBtcUsdLastPrice tick => some tick
  | _ => none

/-- The ticks of the insertion in flight. -/
@[simp] def inFlight : Option DbOp → List LastPrice
  | some (.inserting ticks) => ticks
  | _ => []

/-- The rows of an insertion that the task has not taken yet. -/
@[simp] def untaken : Option DbOp → List PriceTickRow
  | some (.finished (.ok rows)) => rows
  | _ => []

/-- The insertion has failed, as far as the task will know. -/
def Failed (dbOp : Option DbOp) : Prop := ∃ e, dbOp = some (.finished (.error e))

/-- Where the streamed ticks are, phase by phase, and what was sent of the inserted rows. -/
structure Flow (task : RealTimeCollectionTask) (streamed processed : List LastPrice)
    (inserted : List PriceTickRow) : Prop where
  inOrder : processed ++ inFlight task.dbOp <+: streamed
  collecting : task.phase = .collecting → task.streamRx.skipped = 0 → ¬ Failed task.dbOp →
    processed ++ inFlight task.dbOp ++ task.pendingTicks ++ task.streamRx.updates.filterMap tick? =
      streamed
  awaiting : task.phase = .awaitingDbOp → ¬ Failed task.dbOp →
    processed ++ inFlight task.dbOp ++ task.pendingTicks = streamed
  flushing : task.phase = .flushing → ¬ Failed task.dbOp →
    processed ++ inFlight task.dbOp = streamed
  returned : task.phase = .returned (.ok ()) →
    task.dbOp = none ∧ processed = streamed ∧ task.priceTickTx = inserted
  sent : task.priceTickTx ++ untaken task.dbOp <+: inserted
  sentBefore : ∀ ticks, task.dbOp = some (.inserting ticks) → task.priceTickTx = inserted
  sentAll : ¬ Failed task.dbOp → (∀ r, task.phase ≠ .returned r) → task.phase ≠ .aborted →
    task.priceTickTx ++ untaken task.dbOp = inserted

variable {task task' : RealTimeCollectionTask} {streamed : List LastPrice}

theorem not_failed_none : ¬ Failed none := by
  rintro ⟨e, h⟩
  cases h

namespace Flow

theorem ends {e : RealTimeCollectionError} (h : Flow task streamed processed inserted)
    (hphase : task'.phase = .returned (.error e))
    (hdbOp : task'.dbOp = task.dbOp ∨ task'.dbOp = none)
    (hsent : task'.priceTickTx = task.priceTickTx) : Flow task' streamed processed inserted := by
  refine ⟨?_, ?_, ?_, ?_, ?_, ?_, ?_, fun _ hlive => absurd hphase (hlive _)⟩
  · rcases hdbOp with hdbOp | hdbOp
    · rw [hdbOp]
      exact h.inOrder
    · rw [hdbOp]
      exact (List.prefix_append_right_inj _).mpr (List.nil_prefix) |>.trans h.inOrder
  · simp [hphase]
  · simp [hphase]
  · simp [hphase]
  · simp [hphase]
  · rw [hsent]
    rcases hdbOp with hdbOp | hdbOp
    · rw [hdbOp]
      exact h.sent
    · rw [hdbOp]
      exact (List.prefix_append_right_inj _).mpr (List.nil_prefix) |>.trans h.sent
  · intro ticks hticks
    rw [hsent]
    rcases hdbOp with hdbOp | hdbOp
    · exact h.sentBefore ticks (hdbOp.symm.trans hticks)
    · rw [hdbOp] at hticks
      cases hticks

/-- The pending ticks become those in flight, behind the same processed ones. -/
theorem startDbOp (h : Flow task streamed processed inserted) (hphase : task.phase = .collecting)
    (hskipped : task.streamRx.skipped = 0) :
    Flow task.startDbOp streamed processed inserted := by
  unfold RealTimeCollectionTask.startDbOp
  split_ifs with hstart
  · obtain ⟨hnone, -⟩ := hstart
    have hdbOp : task.dbOp = none := Option.isNone_iff_eq_none.mp hnone
    have hok : ¬ Failed task.dbOp := hdbOp ▸ not_failed_none
    have hwhole := h.collecting hphase hskipped hok
    have hall := h.sentAll hok (by simp [hphase]) (by simp [hphase])
    simp only [hdbOp, inFlight, untaken, List.append_nil] at hwhole hall
    refine ⟨⟨_, hwhole⟩, fun _ _ _ => ?_, ?_, ?_, ?_, ?_, fun _ _ => hall, fun _ _ _ => ?_⟩
    · simpa using hwhole
    · simp [hphase]
    · simp [hphase]
    · simp [hphase]
    · simp [hall]
    · simpa using hall
  · exact h

/-- The rows of a finished insertion are sent. -/
theorem takes {rows : List PriceTickRow} (h : Flow task streamed processed inserted)
    (hdbOp : task.dbOp = some (.finished (.ok rows))) :
    Flow { task with dbOp := none, priceTickTx := task.priceTickTx ++ rows } streamed processed
      inserted := by
  have hok : ¬ Failed task.dbOp := by
    rintro ⟨e, he⟩
    rw [hdbOp] at he
    cases he
  refine ⟨?_, ?_, ?_, ?_, ?_, ?_, nofun, ?_⟩
  · simpa [hdbOp, inFlight] using h.inOrder
  · intro hphase hskipped _
    simpa [hdbOp, inFlight] using h.collecting hphase hskipped hok
  · intro hphase _
    simpa [hdbOp, inFlight] using h.awaiting hphase hok
  · intro hphase _
    simpa [hdbOp, inFlight] using h.flushing hphase hok
  · intro hphase
    have hnone := (h.returned hphase).1
    rw [hdbOp] at hnone
    cases hnone
  · simpa [hdbOp, untaken] using h.sent
  · intro _ hlive hrunning
    simpa [hdbOp, untaken] using h.sentAll hok hlive hrunning

theorem returnsOk (h : Flow task streamed processed inserted) (hdbOp : task.dbOp = none)
    (hwhole : processed = streamed) (hall : task.priceTickTx = inserted) :
    Flow (task.returns (.ok ())) streamed processed inserted :=
  ⟨h.inOrder, nofun, nofun, nofun, fun _ => ⟨hdbOp, hwhole, hall⟩, h.sent, h.sentBefore,
    fun _ hlive => absurd rfl (hlive _)⟩

theorem finishes (h : Flow task streamed processed inserted) (hphase : task.phase = .flushing)
    (hdbOp : task.dbOp = none) : Flow (task.returns (.ok ())) streamed processed inserted := by
  have hok : ¬ Failed task.dbOp := hdbOp ▸ not_failed_none
  have hwhole := h.flushing hphase hok
  have hall := h.sentAll hok (by simp [hphase]) (by simp [hphase])
  simp only [hdbOp, inFlight, untaken, List.append_nil] at hwhole hall
  exact h.returnsOk hdbOp hwhole hall

theorem flush (h : Flow task streamed processed inserted) (hphase : task.phase = .awaitingDbOp)
    (hdbOp : task.dbOp = none) : Flow task.flush streamed processed inserted := by
  have hok : ¬ Failed task.dbOp := hdbOp ▸ not_failed_none
  have hwhole := h.awaiting hphase hok
  have hall := h.sentAll hok (by simp [hphase]) (by simp [hphase])
  simp only [hdbOp, inFlight, untaken, List.append_nil] at hwhole hall
  unfold RealTimeCollectionTask.flush
  split_ifs with hpending
  · refine ⟨?_, nofun, nofun, fun _ _ => hwhole, nofun, ?_, fun _ _ => hall, fun _ _ _ => ?_⟩
    · simp [hwhole]
    · simp [hall]
    · simpa using hall
  · rw [not_not] at hpending
    rw [hpending, List.append_nil] at hwhole
    exact h.returnsOk hdbOp hwhole hall

theorem takeDbOp {result : Except DbError (List PriceTickRow)}
    {next : RealTimeCollectionTask → RealTimeCollectionTask}
    (h : Flow task streamed processed inserted) (hdbOp : task.dbOp = some (.finished result))
    (hnext : ∀ rows, result = .ok rows →
      Flow { task with dbOp := none, priceTickTx := task.priceTickTx ++ rows } streamed processed
        inserted →
      Flow (next { task with dbOp := none, priceTickTx := task.priceTickTx ++ rows }) streamed
        processed inserted) :
    Flow (task.takeDbOp result next) streamed processed inserted := by
  cases result with
  | error e => exact h.ends rfl (Or.inr rfl) rfl
  | ok rows => exact hnext rows rfl (h.takes hdbOp)

end Flow

theorem recv_eq_ok {rx rx' : StreamReceiver} {update : StreamUpdate}
    (h : rx.recv = some (.ok update, rx')) :
    rx.skipped = 0 ∧ rx.updates = update :: rx'.updates ∧ rx'.skipped = 0 := by
  unfold StreamReceiver.recv at h
  cases hupdates : rx.updates with
  | nil =>
      simp only [hupdates] at h
      split_ifs at h <;> cases h
  | cons u rest =>
      simp only [hupdates] at h
      split_ifs at h with hskipped
      · cases h
      · obtain ⟨hupdate, rfl⟩ := Prod.mk.inj (Option.some.inj h)
        obtain rfl := Except.ok.inj hupdate
        exact ⟨not_not.mp hskipped, rfl, not_not.mp hskipped⟩

theorem recv_eq_none {rx : StreamReceiver} (h : rx.recv = none) :
    rx.skipped = 0 ∧ rx.updates = [] := by
  unfold StreamReceiver.recv at h
  cases hupdates : rx.updates with
  | nil =>
      simp only [hupdates] at h
      split_ifs at h with hskipped
      exact ⟨not_not.mp hskipped, rfl⟩
  | cons u rest =>
      simp only [hupdates] at h
      split_ifs at h

theorem Flow.onUpdate {update : StreamUpdate} {rx : StreamReceiver}
    (h : Flow task streamed processed inserted) (hphase : task.phase = .collecting)
    (hrecv : task.streamRx.recv = some (.ok update, rx)) :
    Flow ({ task with streamRx := rx }.onUpdate update) streamed processed inserted := by
  obtain ⟨hskipped, hupdates, hskipped'⟩ := recv_eq_ok hrecv
  have hwhole := h.collecting hphase hskipped
  rw [hupdates] at hwhole
  have hreceives : ∀ pending, task.pendingTicks ++ (tick? update).toList = pending →
      Flow { task with streamRx := rx, pendingTicks := pending } streamed processed inserted := by
    rintro pending rfl
    refine ⟨h.inOrder, fun _ _ hok => ?_, ?_, ?_, ?_, h.sent, h.sentBefore, h.sentAll⟩
    · rw [← hwhole hok]
      cases htick : tick? update <;> simp [htick]
    · simp [hphase]
    · simp [hphase]
    · simp [hphase]
  cases update with
  | futuresInverseBtcUsdLastPrice tick => exact (hreceives _ rfl).startDbOp hphase hskipped'
  | connectionStatus isConnected =>
      cases isConnected with
      | true => exact (hreceives task.pendingTicks (List.append_nil _)).startDbOp hphase hskipped'
      | false => exact h.ends rfl (Or.inl rfl) rfl
  | other => exact (hreceives task.pendingTicks (List.append_nil _)).startDbOp hphase hskipped'

/-- What a turn needs and leaves. -/
inductive Turns (task : RealTimeCollectionTask) : RealTimeCollectionTask → Prop
  | receives {update : StreamUpdate} {rx : StreamReceiver} (hphase : task.phase = .collecting)
      (hrecv : task.streamRx.recv = some (.ok update, rx)) :
      Turns task ({ task with streamRx := rx }.onUpdate update)
  | fails {rx : StreamReceiver} (e : RealTimeCollectionError) :
      Turns task ({ task with streamRx := rx }.returns (.error e))
  | stops (hphase : task.phase = .collecting) (hrecv : task.streamRx.recv = none) :
      Turns task { task with phase := .awaitingDbOp }
  | takes {result : Except DbError (List PriceTickRow)} (hphase : task.phase = .collecting)
      (hrecv : task.streamRx.recv = none) (hdbOp : task.dbOp = some (.finished result)) :
      Turns task (task.takeDbOp result startDbOp)
  | awaits {result : Except DbError (List PriceTickRow)} (hphase : task.phase = .awaitingDbOp)
      (hdbOp : task.dbOp = some (.finished result)) : Turns task (task.takeDbOp result flush)
  | flushes (hphase : task.phase = .awaitingDbOp) (hdbOp : task.dbOp = none) :
      Turns task task.flush
  | finishes {result : Except DbError (List PriceTickRow)} (hphase : task.phase = .flushing)
      (hdbOp : task.dbOp = some (.finished result)) :
      Turns task (task.takeDbOp result fun task => task.returns (.ok ()))

theorem turns_of_turn (h : task.turn = some task') : Turns task task' := by
  unfold RealTimeCollectionTask.turn at h
  split at h
  case h_1 hphase =>
    split at h
    case h_1 update rx hrecv =>
      obtain rfl := Option.some.inj h
      exact .receives hphase hrecv
    case h_2 e rx hrecv =>
      obtain rfl := Option.some.inj h
      exact .fails e
    case h_3 hrecv =>
      split at h
      case h_1 =>
        obtain rfl := Option.some.inj h
        exact @Turns.fails task task.streamRx _
      case h_2 =>
        obtain rfl := Option.some.inj h
        exact .stops hphase hrecv
      case h_3 =>
        split at h
        case h_1 result hdbOp =>
          obtain rfl := Option.some.inj h
          exact .takes hphase hrecv hdbOp
        case h_2 => cases h
  case h_2 hphase =>
    split at h
    case h_1 result hdbOp =>
      obtain rfl := Option.some.inj h
      exact .awaits hphase hdbOp
    case h_2 => cases h
    case h_3 hdbOp =>
      obtain rfl := Option.some.inj h
      exact .flushes hphase hdbOp
  case h_3 hphase =>
    split at h
    case h_1 result hdbOp =>
      obtain rfl := Option.some.inj h
      exact .finishes hphase hdbOp
    case h_2 => cases h
  case h_4 => cases h
  case h_5 => cases h

theorem Flow.turn (h : Flow task streamed processed inserted) (hturn : task.turn = some task') :
    Flow task' streamed processed inserted := by
  cases turns_of_turn hturn with
  | receives hphase hrecv => exact h.onUpdate hphase hrecv
  | fails e => exact h.ends rfl (Or.inl rfl) rfl
  | stops hphase hrecv =>
      obtain ⟨hskipped, hupdates⟩ := recv_eq_none hrecv
      refine ⟨h.inOrder, nofun, fun _ hok => ?_, nofun, nofun, h.sent, h.sentBefore,
        fun hok _ _ => ?_⟩
      · simpa [hupdates] using h.collecting hphase hskipped hok
      · exact h.sentAll hok (by simp [hphase]) (by simp [hphase])
  | takes hphase hrecv hdbOp =>
      exact h.takeDbOp hdbOp fun _ _ htakes => htakes.startDbOp hphase (recv_eq_none hrecv).1
  | awaits hphase hdbOp => exact h.takeDbOp hdbOp fun _ _ htakes => htakes.flush hphase rfl
  | flushes hphase hdbOp => exact h.flush hphase hdbOp
  | finishes hphase hdbOp => exact h.takeDbOp hdbOp fun _ _ htakes => htakes.finishes hphase rfl

/-- Ticks wait for an insertion that is in flight, and for nothing else. -/
def Prompt (task : RealTimeCollectionTask) : Prop :=
  task.phase = .collecting → task.dbOp = none → task.pendingTicks = []

theorem prompt_startDbOp (task : RealTimeCollectionTask) : Prompt task.startDbOp := by
  intro _ hdbOp
  unfold startDbOp at hdbOp ⊢
  split_ifs at hdbOp ⊢ with hstart
  by_contra hpending
  exact hstart ⟨by simp [hdbOp], hpending⟩

theorem prompt_takeDbOp {result : Except DbError (List PriceTickRow)}
    {next : RealTimeCollectionTask → RealTimeCollectionTask} (hnext : ∀ t, Prompt (next t)) :
    Prompt (task.takeDbOp result next) := by
  cases result with
  | error e => exact nofun
  | ok rows => exact hnext _

theorem prompt_of_turn (hturn : task.turn = some task') : Prompt task' := by
  have hflush : ∀ t : RealTimeCollectionTask, Prompt t.flush := by
    intro t hphase
    unfold RealTimeCollectionTask.flush at hphase
    split_ifs at hphase
    cases hphase
  cases turns_of_turn hturn with
  | @receives update rx _ _ =>
      cases update with
      | futuresInverseBtcUsdLastPrice tick => exact prompt_startDbOp _
      | connectionStatus isConnected =>
          cases isConnected with
          | true => exact prompt_startDbOp _
          | false => exact nofun
      | other => exact prompt_startDbOp _
  | fails e => exact nofun
  | stops => exact nofun
  | takes => exact prompt_takeDbOp prompt_startDbOp
  | awaits => exact prompt_takeDbOp hflush
  | flushes => exact hflush task
  | finishes => exact prompt_takeDbOp fun _ => nofun

/-! ### Runs -/

/-- The task and the tables, with the ticks streamed while the task listens, those that the
database has processed for it, and the rows inserted for them. -/
structure CollectionWorld where
  tables : PriceTables
  task : RealTimeCollectionTask
  streamed : List LastPrice
  processed : List LastPrice
  inserted : List PriceTickRow
  /-- The last time that ticks were removed up to. -/
  pruned : WithBot ℤ

def launched (tables : PriceTables) : CollectionWorld := ⟨tables, .start, [], [], [], ⊥⟩

inductive CollectionActor
  | exchange
  | process
  | task
  | database
  | backfill

inductive CollectionStep (w : CollectionWorld) : CollectionActor → CollectionWorld → Prop
  | update (update : StreamUpdate) (hphase : w.task.phase = .collecting) :
      CollectionStep w .exchange { w with
        task := { w.task with streamRx := { w.task.streamRx with
          updates := w.task.streamRx.updates ++ [update] } }
        streamed := w.streamed ++ (tick? update).toList }
  /-- The task has stopped listening. -/
  | unheard (rx : StreamReceiver) (hphase : w.task.phase ≠ .collecting) :
      CollectionStep w .exchange { w with task := { w.task with streamRx := rx } }
  | overwritten : CollectionStep w .exchange { w with
      task := { w.task with streamRx := { w.task.streamRx with
        skipped := w.task.streamRx.skipped + 1, updates := w.task.streamRx.updates.tail } } }
  | streamClosed : CollectionStep w .exchange { w with
      task := { w.task with streamRx := { w.task.streamRx with closed := true } } }
  | shutdown (signal : Except Unit Unit) :
      CollectionStep w .process { w with task := { w.task with shutdownRx := some signal } }
  | aborted (hphase : ∀ result, w.task.phase ≠ .returned result) :
      CollectionStep w .process { w with task := { w.task with phase := .aborted } }
  | turn {task' : RealTimeCollectionTask} (hturn : w.task.turn = some task') :
      CollectionStep w .task { w with task := task' }
  /-- The answer can get lost on its way. -/
  | inserted {ticks : List LastPrice} (clock : Clock) (answer : Except DbError Unit)
      (hdbOp : w.task.dbOp = some (.inserting ticks)) :
      CollectionStep w .database { w with
        tables := (w.tables.addTicks clock ticks).1
        task := { w.task with dbOp := some (.finished
          (answer.map fun _ => (w.tables.addTicks clock ticks).2)) }
        processed := w.processed ++ ticks
        inserted := w.inserted ++ (w.tables.addTicks clock ticks).2 }
  | insertFails {ticks : List LastPrice} (e : DbError)
      (hdbOp : w.task.dbOp = some (.inserting ticks)) :
      CollectionStep w .database { w with
        task := { w.task with dbOp := some (.finished (.error e)) } }
  /-- The insertion of a task that was aborted earlier. -/
  | otherTask (clock : Clock) (ticks : List LastPrice) :
      CollectionStep w .database { w with tables := (w.tables.addTicks clock ticks).1 }
  | pruned (before : ℤ) : CollectionStep w .backfill { w with
      tables := w.tables.removeTicks before, pruned := w.pruned ⊔ before }

def collectionSystem : System CollectionWorld CollectionActor where
  start w := ∃ tables, w = launched tables
  step := CollectionStep

/-- What holds of a world in every run. -/
structure Collects (w : CollectionWorld) : Prop where
  kept : Kept w.tables w.pruned w.processed w.inserted
  flow : Flow w.task w.streamed w.processed w.inserted
  prompt : Prompt w.task

theorem collects_launched (tables : PriceTables) : Collects (launched tables) := by
  refine ⟨⟨nofun, nofun, List.nodup_nil⟩, ⟨List.nil_prefix, ?_, nofun, nofun, nofun, ?_, nofun, ?_⟩,
    ?_⟩
  · exact fun _ _ _ => rfl
  · exact List.nil_prefix
  · exact fun _ _ _ => rfl
  · exact fun _ _ => rfl

namespace Collects

variable {w w' : CollectionWorld}

theorem update (h : Collects w) (u : StreamUpdate) (hphase : w.task.phase = .collecting) :
    Collects { w with
      task := { w.task with streamRx := { w.task.streamRx with
        updates := w.task.streamRx.updates ++ [u] } }
      streamed := w.streamed ++ (tick? u).toList } := by
  refine ⟨h.kept, ⟨h.flow.inOrder.trans (List.prefix_append _ _), ?_, ?_, ?_, ?_, h.flow.sent,
    h.flow.sentBefore, h.flow.sentAll⟩, h.prompt⟩
  · intro _ hskipped hok
    rw [← h.flow.collecting hphase hskipped hok]
    cases htick : tick? u <;> simp [htick]
  · simp [hphase]
  · simp [hphase]
  · simp [hphase]

theorem inserts (h : Collects w) (clock : Clock) (answer : Except DbError Unit)
    (hdbOp : w.task.dbOp = some (.inserting ticks)) :
    Collects { w with
      tables := (w.tables.addTicks clock ticks).1
      task := { w.task with dbOp := some (.finished
        (answer.map fun _ => (w.tables.addTicks clock ticks).2)) }
      processed := w.processed ++ ticks
      inserted := w.inserted ++ (w.tables.addTicks clock ticks).2 } := by
  have hok : ¬ Failed w.task.dbOp := by
    rintro ⟨e, he⟩
    rw [hdbOp] at he
    cases he
  have hflow := h.flow
  have hsent := hflow.sentBefore ticks hdbOp
  have hreturned : ∀ r, w.task.phase = .returned r → r ≠ .ok () := by
    rintro r hphase rfl
    have hnone := (hflow.returned hphase).1
    rw [hdbOp] at hnone
    cases hnone
  have hinOrder : w.processed ++ ticks <+: w.streamed := by simpa [hdbOp] using hflow.inOrder
  refine ⟨h.kept.addTicks clock ticks, ?_, nofun⟩
  cases answer with
  | error e =>
      have hfailed : Failed (some (DbOp.finished (Except.error e))) := ⟨e, rfl⟩
      refine ⟨?_, fun _ _ hok' => absurd hfailed hok', fun _ hok' => absurd hfailed hok',
        fun _ hok' => absurd hfailed hok', fun hphase => absurd rfl (hreturned _ hphase), ?_, nofun,
        fun hok' => absurd hfailed hok'⟩
      · simpa using hinOrder
      · simp [Except.map, hsent]
  | ok _ =>
      refine ⟨?_, ?_, ?_, ?_, fun hphase => absurd rfl (hreturned _ hphase), ?_, nofun, ?_⟩
      · simpa using hinOrder
      · intro hphase hskipped _
        simpa [hdbOp] using hflow.collecting hphase hskipped hok
      · intro hphase _
        simpa [hdbOp] using hflow.awaiting hphase hok
      · intro hphase _
        simpa [hdbOp] using hflow.flushing hphase hok
      · simp [Except.map, hsent]
      · simp [Except.map, hsent]

theorem insertFails (h : Collects w) (e : DbError)
    (hdbOp : w.task.dbOp = some (.inserting ticks)) :
    Collects { w with task := { w.task with dbOp := some (.finished (.error e)) } } := by
  have hfailed : Failed (some (DbOp.finished (Except.error e))) := ⟨e, rfl⟩
  refine ⟨h.kept, ⟨?_, fun _ _ hok => absurd hfailed hok, fun _ hok => absurd hfailed hok,
    fun _ hok => absurd hfailed hok, ?_, ?_, nofun, fun hok => absurd hfailed hok⟩, nofun⟩
  · simpa using (List.prefix_append _ _).trans h.flow.inOrder
  · intro hphase
    have hnone := (h.flow.returned hphase).1
    rw [hdbOp] at hnone
    cases hnone
  · simpa using (List.prefix_append _ _).trans h.flow.sent

theorem step {actor : CollectionActor} (h : Collects w) (hstep : CollectionStep w actor w') :
    Collects w' := by
  have hflow := h.flow
  cases hstep with
  | update u hphase => exact h.update u hphase
  | unheard rx hphase =>
      exact ⟨h.kept, ⟨hflow.inOrder, fun hcollecting => absurd hcollecting hphase, hflow.awaiting,
        hflow.flushing, hflow.returned, hflow.sent, hflow.sentBefore, hflow.sentAll⟩, h.prompt⟩
  | overwritten =>
      exact ⟨h.kept, ⟨hflow.inOrder, fun _ hskipped => absurd hskipped (Nat.succ_ne_zero _),
        hflow.awaiting, hflow.flushing, hflow.returned, hflow.sent, hflow.sentBefore,
        hflow.sentAll⟩, h.prompt⟩
  | streamClosed =>
      exact ⟨h.kept, ⟨hflow.inOrder, hflow.collecting, hflow.awaiting, hflow.flushing,
        hflow.returned, hflow.sent, hflow.sentBefore, hflow.sentAll⟩, h.prompt⟩
  | shutdown signal =>
      exact ⟨h.kept, ⟨hflow.inOrder, hflow.collecting, hflow.awaiting, hflow.flushing,
        hflow.returned, hflow.sent, hflow.sentBefore, hflow.sentAll⟩, h.prompt⟩
  | aborted =>
      exact ⟨h.kept, ⟨hflow.inOrder, nofun, nofun, nofun, nofun, hflow.sent, hflow.sentBefore,
        fun _ _ hrunning => absurd rfl hrunning⟩, nofun⟩
  | turn hturn => exact ⟨h.kept, hflow.turn hturn, prompt_of_turn hturn⟩
  | inserted clock answer hdbOp => exact h.inserts clock answer hdbOp
  | insertFails e hdbOp => exact h.insertFails e hdbOp
  | otherTask clock ticks => exact ⟨h.kept.others clock ticks, hflow, h.prompt⟩
  | pruned before => exact ⟨h.kept.prune before, hflow, h.prompt⟩

end Collects

theorem collects_of_run {actors : List CollectionActor} {w : CollectionWorld}
    (h : collectionSystem.Run actors w) : Collects w := by
  refine h.invariant ?_ fun _ _ _ h hstep => h.step hstep
  rintro w ⟨tables, rfl⟩
  exact collects_launched tables

/-- In every run, whatever is sent as inserted is stored, once, with the price of the first tick
streamed at its time; ticks wait for an insertion in flight only; and when the task returns after
a shutdown, every tick streamed while it listened is stored and every inserted row was sent. Rows
up to the last removal are exempt. -/
theorem no_streamed_tick_lost {actors : List CollectionActor} {w : CollectionWorld}
    (h : collectionSystem.Run actors w) :
    (∀ row ∈ w.task.priceTickTx, (row.time : WithBot ℤ) ≤ w.pruned ∨
      row ∈ w.tables.priceTicks ∧ FirstAt w.streamed row) ∧
    ((w.task.priceTickTx.filter fun row => w.pruned < (row.time : WithBot ℤ)).map
      (·.time)).Nodup ∧
    (w.task.phase = .collecting → w.task.dbOp = none → w.task.pendingTicks = []) ∧
    (w.task.phase = .returned (.ok ()) →
      (∀ tick ∈ w.streamed, (tick.time : WithBot ℤ) ≤ w.pruned ∨
        ∃ row ∈ w.tables.priceTicks, row.time = tick.time) ∧
      w.task.priceTickTx = w.inserted) := by
  obtain ⟨hkept, hflow, hprompt⟩ := collects_of_run h
  have hsent : w.task.priceTickTx <+: w.inserted := (List.prefix_append _ _).trans hflow.sent
  obtain ⟨rest, hstreamed⟩ := (List.prefix_append _ _).trans hflow.inOrder
  refine ⟨?_, ?_, hprompt, ?_⟩
  · intro row hrow
    refine (hkept.rows row (hsent.subset hrow)).imp_right fun hrow => ⟨hrow.1, ?_⟩
    rw [← hstreamed]
    exact hrow.2.append rest
  · exact hkept.once.sublist ((hsent.sublist.filter _).map _)
  · intro hphase
    obtain ⟨-, hwhole, hall⟩ := hflow.returned hphase
    rw [← hwhole]
    exact ⟨hkept.stored, hall⟩

/-! ### A shutdown with ticks that wait -/

def streamedTick (time price : ℤ) : LastPrice := ⟨time, ⟨F64.clamp price⟩⟩

def emptyTables : PriceTables := ⟨CandleTable.emptyTable, [], List.Pairwise.nil⟩

/-- The first tick is being inserted when the second one, of the same instant, and a third one
arrive; the shutdown comes before the insertion has ended. -/
theorem no_streamed_tick_lost_shutdown : ∃ w, collectionSystem.Run
      [.exchange, .task, .exchange, .exchange, .task, .task, .process, .task, .database, .task,
        .database, .task] w ∧
    (∀ tick ∈ [streamedTick 0 100, streamedTick 0 101, streamedTick 1 102],
      ∃ row ∈ w.tables.priceTicks, row.time = tick.time) ∧
    w.task.priceTickTx.map (·.time) = [0, 1] := by
  have hstart : collectionSystem.start (launched emptyTables) := ⟨emptyTables, rfl⟩
  have harrives := ((System.Run.start hstart).step
    (.update (.futuresInverseBtcUsdLastPrice (streamedTick 0 100)) rfl)).step (.turn rfl)
  have hwaits := ((((harrives.step
    (.update (.futuresInverseBtcUsdLastPrice (streamedTick 0 101)) rfl)).step
    (.update (.futuresInverseBtcUsdLastPrice (streamedTick 1 102)) rfl)).step
    (.turn rfl)).step (.turn rfl)).step (.shutdown (.ok ()))
  have hflushes := ((hwaits.step (.turn rfl)).step
    (.inserted (CandleTable.clockAt 1) (.ok ()) rfl)).step (.turn rfl)
  have hreturns := (hflushes.step
    (.inserted (CandleTable.clockAt 1) (.ok ()) rfl)).step (.turn rfl)
  refine ⟨_, hreturns, fun tick htick => ?_, by decide +kernel⟩
  exact (((no_streamed_tick_lost hreturns).2.2.2 rfl).1 tick htick).resolve_left
    (WithBot.not_coe_le_bot tick.time)

end Quantoxide.RealTimeCollection
