import Quantoxide.Verification.Consolidator.Warmup
import Quantoxide.Verification.Engine.Lookbacks

/-! # The replay follows the stored candles

The candle under the cursor is a stored one, the next is the next stored one, and the
consolidators have read exactly the stored candles from the start of the first buffer up to
it. Refetching the buffer does not show. -/

namespace Quantoxide.Engine

open DateTime Result Timeline Consolidator

variable {ε : Type} {db : Database} {resolutionMap : OrdMap OhlcResolution Period}
  {fresh : Bool} {bufFrom : ℤ} {m c : OhlcCandleRow} {r r' : Replay}

/-! ### Stored candles -/

theorem candleRows_feed (db : Database) : Feed db.candleRows where
  ascending := List.pairwise_map.mpr db.candlesAscending
  minutes := by
    intro c hc
    obtain ⟨record, hrecord, rfl⟩ := List.mem_map.mp hc
    exact db.candlesMinutes record hrecord

theorem candleRows_ascending (db : Database) :
    Ascending (fun c : OhlcCandleRow => c.time) db.candleRows := (candleRows_feed db).ascending

theorem getCandles_feed (db : Database) (lo hi : ℤ) : Feed (db.getCandles lo hi) :=
  (candleRows_feed db).sublist between_sublist

theorem mem_getCandles {lo hi : ℤ} :
    c ∈ db.getCandles lo hi ↔ c ∈ db.candleRows ∧ lo ≤ c.time ∧ c.time ≤ hi := mem_between

/-- The next stored candle. -/
abbrev IsNextCandle (db : Database) (time : ℤ) (c : OhlcCandleRow) : Prop :=
  IsNext (fun c : OhlcCandleRow => c.time) db.candleRows time c

theorem isNextCandle_unique {time : ℤ} (h : IsNextCandle db time m) (h' : IsNextCandle db time c) :
    m = c :=
  (candleRows_ascending db).eq_of_key_eq h.mem h'.mem
    (le_antisymm (h.least c h'.mem h'.lt) (h'.least m h.mem h.lt))

/-- Two stored minutes are at least a minute apart. -/
theorem minute_le (hm : m.IsMinute) (hc : c.IsMinute) (h : m.time < c.time) :
    m.time + Duration.seconds 60 ≤ c.time := by
  have h1 := hm.round
  have h2 := hc.round
  simp only [isRoundMinute, floorMinute, beq_iff_eq] at h1 h2
  unfold Duration.seconds
  omega

theorem asDuration_pos (l : Lookback) : 0 < l.asDuration := by
  have h1 : 1 ≤ l.period.asInt := l.period.min_le
  have h2 := l.resolution.asMinutes_pos
  have h3 : 0 < l.period.asInt * l.resolution.asMinutes := Int.mul_pos (by omega) h2
  unfold Lookback.asDuration Period.asDuration Duration.minutes
  omega

theorem bufferFrom_le (maxLookback : Option Lookback) (startTime : ℤ) :
    bufferFrom maxLookback startTime ≤ startTime := by
  cases maxLookback with
  | none => simp [bufferFrom]
  | some l =>
      have h := asDuration_pos l
      simp only [bufferFrom, Option.map_some, Option.getD_some]
      omega

/-! ### The consolidators -/

/-- The consolidators of a resolution map once they have read `rows`. -/
structure Consolidated (resolutionMap : OrdMap OhlcResolution Period)
    (rows : List OhlcCandleRow) (fresh : Bool) (multi : MultiResolutionConsolidator) : Prop where
  held : ∀ r s, multi.consolidators.get r = some s →
    ∃ l : Lookback, l.resolution = r ∧ resolutionMap.get r = some l.period ∧ Holds l rows fresh s
  present : ∀ r p, resolutionMap.get r = some p → ∃ s, multi.consolidators.get r = some s

/-- Each entry of the map is a lookback. -/
def ValidMap (resolutionMap : OrdMap OhlcResolution Period) : Prop :=
  ∀ r p, resolutionMap.get r = some p → ∃ l : Lookback, l.resolution = r ∧ l.period = p

theorem Covers.validMap {asked : List Lookback} {noted : Lookbacks} (h : Covers asked noted) :
    ValidMap noted.resolutionToMaxPeriod := by
  intro r p hp
  obtain ⟨l, -, hr, hp⟩ := h.source r p hp
  exact ⟨l, hr, hp⟩

theorem newConsolidator_eq (l : Lookback) (rows : List OhlcCandleRow) (timeCursor : ℤ) :
    (MultiResolutionConsolidator.newConsolidator rows timeCursor l.resolution l.period :
        Except (BacktestError ε) RuntimeConsolidator) =
      (RuntimeConsolidator.new l rows timeCursor).mapError
        MultiResolutionConsolidator.outOfOrder := by
  rw [MultiResolutionConsolidator.newConsolidator, Lookback.new_self]

variable (ε) in
theorem new_consolidated {rows : List OhlcCandleRow} {timeCursor : ℤ}
    (hv : ValidMap resolutionMap) (hf : Feed (rows ++ [c]))
    (hcur : ∀ d ∈ rows ++ [c], d.time < timeCursor) :
    ∃ multi, (MultiResolutionConsolidator.new resolutionMap (rows ++ [c]) timeCursor :
        Except (BacktestError ε) _) = .ok multi ∧
      Consolidated resolutionMap (rows ++ [c]) true multi := by
  have hnew : ∀ r p, resolutionMap.get r = some p → ∃ (l : Lookback) (s : RuntimeConsolidator),
      l.resolution = r ∧ l.period = p ∧ Holds l (rows ++ [c]) true s ∧
      (MultiResolutionConsolidator.newConsolidator (rows ++ [c]) timeCursor r p :
        Except (BacktestError ε) _) = .ok s := by
    intro r p hp
    obtain ⟨l, rfl, rfl⟩ := hv r p hp
    obtain ⟨s, hs, hh⟩ := new_holds l hf hcur
    refine ⟨l, s, rfl, rfl, hh, ?_⟩
    rw [newConsolidator_eq, hs]
    rfl
  have htraverse : ∃ m', (resolutionMap.traverse
      (MultiResolutionConsolidator.newConsolidator (rows ++ [c]) timeCursor) :
        Except (BacktestError ε) _) = .ok m' := by
    apply OrdMap.traverse_isOk
    intro e he
    obtain ⟨l, s, -, -, -, hs⟩ := hnew e.1 e.2 (OrdMap.get_eq_some.mpr he)
    exact ⟨s, hs⟩
  obtain ⟨m', hm'⟩ := htraverse
  refine ⟨⟨m'⟩, by rw [MultiResolutionConsolidator.new, hm']; rfl, ?_, ?_⟩
  · intro r s hs
    obtain ⟨p, hp, hs⟩ := (OrdMap.get_traverse hm').mp hs
    obtain ⟨l, s', rfl, rfl, hh, hs'⟩ := hnew r p hp
    obtain rfl : s = s' := Except.ok.inj (hs.symm.trans hs')
    exact ⟨l, rfl, hp, hh⟩
  · intro r p hp
    obtain ⟨l, s, -, -, -, hs⟩ := hnew r p hp
    exact ⟨s, (OrdMap.get_traverse hm').mpr ⟨p, hp, hs⟩⟩

variable (ε) in
theorem Consolidated.push {rows : List OhlcCandleRow} {multi : MultiResolutionConsolidator}
    (h : Consolidated resolutionMap rows fresh multi) (hf : Feed (rows ++ [c])) :
    ∃ multi', (multi.push c : Except (BacktestError ε) _) = .ok multi' ∧
      Consolidated resolutionMap (rows ++ [c]) false multi' := by
  have hpush : ∀ r s, multi.consolidators.get r = some s → ∃ (l : Lookback)
      (s' : RuntimeConsolidator), l.resolution = r ∧ resolutionMap.get r = some l.period ∧
      Holds l (rows ++ [c]) false s' ∧
      (MultiResolutionConsolidator.pushTo c r s : Except (BacktestError ε) _) = .ok s' := by
    intro r s hs
    obtain ⟨l, hr, hp, hh⟩ := h.held r s hs
    obtain ⟨s', hs', hh'⟩ := hh.push hf
    exact ⟨l, s', hr, hp, hh', by rw [MultiResolutionConsolidator.pushTo, hs']⟩
  have htraverse : ∃ m', (multi.consolidators.traverse (MultiResolutionConsolidator.pushTo c) :
      Except (BacktestError ε) _) = .ok m' := by
    apply OrdMap.traverse_isOk
    intro e he
    obtain ⟨l, s', -, -, -, hs'⟩ := hpush e.1 e.2 (OrdMap.get_eq_some.mpr he)
    exact ⟨s', hs'⟩
  obtain ⟨m', hm'⟩ := htraverse
  refine ⟨⟨m'⟩, by rw [MultiResolutionConsolidator.push, hm']; rfl, ?_, ?_⟩
  · intro r s' hs'
    obtain ⟨s, hs, hs'⟩ := (OrdMap.get_traverse hm').mp hs'
    obtain ⟨l, s'', hr, hp, hh, hs''⟩ := hpush r s hs
    obtain rfl : s' = s'' := Except.ok.inj (hs'.symm.trans hs'')
    exact ⟨l, hr, hp, hh⟩
  · intro r p hp
    obtain ⟨s, hs⟩ := h.present r p hp
    obtain ⟨l, s', -, -, -, hs'⟩ := hpush r s hs
    exact ⟨s', (OrdMap.get_traverse hm').mpr ⟨s, hs, hs'⟩⟩

/-! ### The replay -/

/-- `m` is the candle under the cursor; the consolidators have read the stored candles from
`bufFrom` to it. -/
structure Follows (db : Database) (resolutionMap : OrdMap OhlcResolution Period) (bufFrom : ℤ)
    (fresh : Bool) (m : OhlcCandleRow) (r : Replay) : Prop where
  segment : ∃ lo hi, r.minuteBuffer = db.getCandles lo hi
  current : r.minuteBuffer[r.minuteCursorIdx]? = some m
  cursor : r.timeCursor = m.time + Duration.seconds 59
  from_le : bufFrom ≤ m.time
  unneeded : r.consolidator = none → ∀ res, resolutionMap.get res = none
  consolidated : ∀ multi, r.consolidator = some multi →
    Consolidated resolutionMap (db.getCandles bufFrom m.time) fresh multi

namespace Follows

theorem mem (h : Follows db resolutionMap bufFrom fresh m r) : m ∈ db.candleRows := by
  obtain ⟨lo, hi, hseg⟩ := h.segment
  have hm := List.mem_of_getElem? h.current
  rw [hseg] at hm
  exact (mem_getCandles.mp hm).1

theorem isMinute (h : Follows db resolutionMap bufFrom fresh m r) : m.IsMinute :=
  (candleRows_feed db).minutes m h.mem

theorem afterReport (h : Follows db resolutionMap bufFrom fresh m r) :
    Follows db resolutionMap bufFrom fresh m r.afterReport := by
  unfold Replay.afterReport
  split_ifs
  · exact ⟨h.segment, h.current, h.cursor, h.from_le, h.unneeded, h.consolidated⟩
  · exact h

/-- The stored candles after the current one start at the next minute. -/
theorem cursor_le (h : Follows db resolutionMap bufFrom fresh m r) (hc : c ∈ db.candleRows)
    (hlt : m.time < c.time) : r.timeCursor < c.time := by
  have hle := minute_le h.isMinute ((candleRows_feed db).minutes c hc) hlt
  rw [h.cursor]
  unfold Duration.seconds at hle ⊢
  omega

end Follows

/-- What `advance` leaves: the cursor on `c`, nothing else changed. -/
structure Advanced (db : Database) (r : Replay) (c : OhlcCandleRow) (r' : Replay) : Prop where
  segment : ∃ lo hi, r'.minuteBuffer = db.getCandles lo hi
  current : r'.minuteBuffer[r'.minuteCursorIdx]? = some c
  cursor : r'.timeCursor = c.time + Duration.seconds 59
  consolidator : r'.consolidator = r.consolidator
  settlements : r'.settlements = r.settlements
  sendNextUpdateAt : r'.sendNextUpdateAt = r.sendNextUpdateAt

/-- The buffer holds the next stored candle at the next index, or is refetched to start
with it. -/
theorem nextCandle_spec (h : Follows db resolutionMap bufFrom fresh m r) {bufferSize : ℕ}
    {endTime : ℤ} (hr : (r.nextCandle db bufferSize endTime : Except (BacktestError ε) _) = .ok r')
    (hc : r'.minuteBuffer[r'.minuteCursorIdx]? = some c) :
    IsNextCandle db m.time c ∧
      Advanced db r c { r' with timeCursor := c.time + Duration.seconds 59 } := by
  unfold Replay.nextCandle at hr
  simp only at hr
  obtain ⟨lo, hi, hseg⟩ := h.segment
  split_ifs at hr with hlen hempty
  · obtain rfl := Except.ok.inj hr
    refine ⟨?_, ⟨_, _, rfl⟩, hc, rfl, rfl, rfl, rfl⟩
    have hmem := mem_getCandles.mp (List.mem_of_getElem? hc)
    have hlt : m.time < c.time := by
      have := h.cursor
      unfold Duration.seconds at this
      omega
    exact isNext_head (candleRows_ascending db) hc hlt fun a ha hma => (h.cursor_le ha hma).le
  · obtain rfl := Except.ok.inj hr
    refine ⟨?_, ⟨lo, hi, hseg⟩, hc, rfl, rfl, rfl, rfl⟩
    have hm := h.current
    simp only [hseg] at hm hc
    exact isNext_getElem (candleRows_ascending db) hm hc

theorem advance_spec (h : Follows db resolutionMap bufFrom fresh m r) {bufferSize : ℕ}
    {endTime : ℤ}
    (hr : (r.advance db bufferSize endTime : Except (BacktestError ε) _) = .ok (c, r')) :
    IsNextCandle db m.time c ∧ Advanced db r c r' := by
  simp only [Replay.advance, bind_eq_ok, candleAt, okOr_eq_ok, pure_eq_ok, Prod.mk.injEq] at hr
  obtain ⟨r₁, hr₁, c', hc, rfl, rfl⟩ := hr
  exact nextCandle_spec h hr₁ hc

variable (ε) in
/-- A next stored candle within reach of a refetch is reached. -/
theorem advance_isOk (h : Follows db resolutionMap bufFrom fresh m r) {bufferSize : ℕ}
    {endTime : ℤ} (hc : IsNextCandle db m.time c)
    (hbuf : c.time ≤ r.timeCursor + Duration.minutes bufferSize) (hend : c.time ≤ endTime) :
    ∃ r', (r.advance db bufferSize endTime : Except (BacktestError ε) _) = .ok (c, r') ∧
      Advanced db r c r' := by
  have hfound : ∃ r₁ d, (r.nextCandle db bufferSize endTime : Except (BacktestError ε) _) = .ok r₁ ∧
      r₁.minuteBuffer[r₁.minuteCursorIdx]? = some d := by
    unfold Replay.nextCandle
    simp only
    split_ifs with hlen hempty
    · exfalso
      rw [List.isEmpty_iff] at hempty
      have hmem : c ∈ db.getCandles r.timeCursor (min (r.timeCursor + Duration.minutes bufferSize)
          endTime) :=
        mem_getCandles.mpr ⟨hc.mem, (h.cursor_le hc.mem hc.lt).le, le_min hbuf hend⟩
      rw [hempty] at hmem
      cases hmem
    · cases hfetch : db.getCandles r.timeCursor (min (r.timeCursor + Duration.minutes bufferSize)
          endTime) with
      | nil => exact absurd hfetch (by simpa using hempty)
      | cons d ds => exact ⟨_, d, rfl, by simp⟩
    · exact ⟨_, _, rfl, List.getElem?_eq_getElem (not_le.mp hlen)⟩
  obtain ⟨r₁, d, hr₁, hd⟩ := hfound
  obtain ⟨hnext, hadv⟩ := nextCandle_spec h hr₁ hd
  obtain rfl := isNextCandle_unique hnext hc
  refine ⟨_, ?_, hadv⟩
  simp [Replay.advance, hr₁, candleAt, hd, okOr, bind, Except.bind, pure, Except.pure]

variable (ε) in
/-- Consolidating the candle under the cursor succeeds. -/
theorem push_follows (h : Follows db resolutionMap bufFrom fresh m r)
    (hc : IsNextCandle db m.time c) (hadv : Advanced db r c r') :
    ∃ r'', (r'.push c : Except (BacktestError ε) _) = .ok r'' ∧
      Follows db resolutionMap bufFrom false c r'' ∧
      r''.settlements = r'.settlements.dropWhile (fun s => s.time ≤ r'.timeCursor) ∧
      r''.sendNextUpdateAt = r'.sendNextUpdateAt := by
  have hfrom : bufFrom ≤ c.time := h.from_le.trans hc.lt.le
  have hrows : db.getCandles bufFrom c.time = db.getCandles bufFrom m.time ++ [c] :=
    between_next (candleRows_ascending db) hc hfrom
  cases hcons : r.consolidator with
  | none =>
      refine ⟨{ r' with
        settlements := r'.settlements.dropWhile (fun s => s.time ≤ r'.timeCursor)
        consolidator := none }, ?_, ?_, rfl, rfl⟩
      · simp [Replay.push, hadv.consolidator, hcons]
      · exact ⟨hadv.segment, hadv.current, hadv.cursor, hfrom, fun _ => h.unneeded hcons, by simp⟩
  | some multi =>
      have hfeed := getCandles_feed db bufFrom c.time
      rw [hrows] at hfeed
      obtain ⟨multi', hmulti, hh⟩ := (h.consolidated multi hcons).push ε hfeed
      refine ⟨{ r' with
        settlements := r'.settlements.dropWhile (fun s => s.time ≤ r'.timeCursor)
        consolidator := some multi' }, ?_, ?_, rfl, rfl⟩
      · simp [Replay.push, hadv.consolidator, hcons, hmulti]
      · refine ⟨hadv.segment, hadv.current, hadv.cursor, hfrom, by simp, ?_⟩
        rintro _ ⟨⟩
        rwa [hrows]

/-! ### The start -/

/-- The first buffer and the first stored candle from the start time on. -/
structure StartsAt (db : Database) (bufferSize : ℕ) (maxLookback : Option Lookback)
    (startTime : ℤ) (first : FirstBuffer) : Prop where
  minuteBuffer : first.minuteBuffer = db.getCandles (bufferFrom maxLookback startTime)
    (bufferFrom maxLookback startTime + Duration.minutes bufferSize)
  startCandle : first.minuteBuffer[first.startCandleIdx]? = some first.startCandle
  start_le : startTime ≤ first.startCandle.time
  least : ∀ c ∈ db.candleRows, startTime ≤ c.time → first.startCandle.time ≤ c.time

theorem StartsAt.mem_buffer {bufferSize : ℕ} {maxLookback : Option Lookback} {startTime : ℤ}
    {first : FirstBuffer} (h : StartsAt db bufferSize maxLookback startTime first) :
    first.startCandle ∈ db.getCandles (bufferFrom maxLookback startTime)
      (bufferFrom maxLookback startTime + Duration.minutes bufferSize) :=
  h.minuteBuffer ▸ List.mem_of_getElem? h.startCandle

theorem StartsAt.mem {bufferSize : ℕ} {maxLookback : Option Lookback} {startTime : ℤ}
    {first : FirstBuffer} (h : StartsAt db bufferSize maxLookback startTime first) :
    first.startCandle ∈ db.candleRows := (mem_getCandles.mp h.mem_buffer).1

theorem firstBuffer_spec {bufferSize : ℕ} {maxLookback : Option Lookback} {startTime : ℤ}
    {first : FirstBuffer}
    (h : (firstBuffer db bufferSize maxLookback startTime : Except (BacktestError ε) _) =
      .ok first) : StartsAt db bufferSize maxLookback startTime first := by
  simp only [firstBuffer, candleAt, bind_eq_ok, okOr_eq_ok, pure_eq_ok] at h
  obtain ⟨idx, hidx, c, hc, rfl⟩ := h
  obtain ⟨hlt, hp, hbefore⟩ := List.findIdx?_eq_some_iff_getElem.mp hidx
  have hcget := hc
  rw [List.getElem?_eq_getElem hlt, Option.some.injEq] at hcget
  rw [hcget, decide_eq_true_eq] at hp
  refine ⟨rfl, hc, hp, ?_⟩
  intro d hd hsd
  by_contra hn
  have hmc := mem_getCandles.mp (List.mem_of_getElem? hc)
  have hmd : d ∈ db.getCandles (bufferFrom maxLookback startTime)
      (bufferFrom maxLookback startTime + Duration.minutes bufferSize) :=
    mem_getCandles.mpr ⟨hd, (bufferFrom_le maxLookback startTime).trans hsd,
      (not_le.mp hn).le.trans hmc.2.2⟩
  obtain ⟨j, hj⟩ := List.mem_iff_getElem?.mp hmd
  have hasc : Ascending (fun c : OhlcCandleRow => c.time) (db.getCandles
      (bufferFrom maxLookback startTime)
      (bufferFrom maxLookback startTime + Duration.minutes bufferSize)) :=
    (candleRows_ascending db).between _ _
  have hji := (hasc.getElem_lt hj hc).mpr (not_le.mp hn)
  obtain ⟨hjl, rfl⟩ := List.getElem?_eq_some_iff.mp hj
  exact hbefore j hji (by simpa using hsd)

variable (ε) in
theorem firstBuffer_isOk {bufferSize : ℕ} {maxLookback : Option Lookback} {startTime : ℤ}
    (hc : c ∈ db.candleRows) (hstart : startTime ≤ c.time)
    (hbuf : c.time ≤ bufferFrom maxLookback startTime + Duration.minutes bufferSize) :
    ∃ first, (firstBuffer db bufferSize maxLookback startTime : Except (BacktestError ε) _) =
      .ok first := by
  have hmem : c ∈ db.getCandles (bufferFrom maxLookback startTime)
      (bufferFrom maxLookback startTime + Duration.minutes bufferSize) :=
    mem_getCandles.mpr ⟨hc, (bufferFrom_le maxLookback startTime).trans hstart, hbuf⟩
  have hfind : ((db.getCandles (bufferFrom maxLookback startTime)
      (bufferFrom maxLookback startTime + Duration.minutes bufferSize)).findIdx?
        fun c => c.time ≥ startTime).isSome := by
    rw [List.findIdx?_isSome, List.any_eq_true]
    exact ⟨c, hmem, by simpa using hstart⟩
  obtain ⟨idx, hidx⟩ := Option.isSome_iff_exists.mp hfind
  obtain ⟨hlt, -, -⟩ := List.findIdx?_eq_some_iff_getElem.mp hidx
  have hget := List.getElem?_eq_getElem hlt
  generalize (db.getCandles (bufferFrom maxLookback startTime)
    (bufferFrom maxLookback startTime + Duration.minutes bufferSize))[idx] = d at hget
  refine ⟨⟨db.getCandles (bufferFrom maxLookback startTime)
    (bufferFrom maxLookback startTime + Duration.minutes bufferSize), idx, d⟩, ?_⟩
  simp only [firstBuffer, candleAt, hidx, okOr, bind, Except.bind, hget, pure, Except.pure]

/-- The replay as `run` starts it. -/
structure Started (db : Database) (startTime endTime : ℤ) (r : Replay) : Prop where
  settlements : r.settlements = db.getSettlements (ceilFundingSettlementTime startTime)
    (floorFundingSettlementTime endTime)
  sendNextUpdateAt : r.sendNextUpdateAt = startTime + Duration.days 1 - Duration.seconds 1

theorem getCandles_last {lo : ℤ} (hm : m ∈ db.candleRows) (hlo : lo ≤ m.time) :
    ∃ rows, db.getCandles lo m.time = rows ++ [m] := by
  have hmem : m ∈ db.getCandles lo m.time := mem_getCandles.mpr ⟨hm, hlo, le_rfl⟩
  rcases List.eq_nil_or_concat (db.getCandles lo m.time) with he | ⟨rows, c, he⟩
  · rw [he] at hmem
    cases hmem
  · rw [List.concat_eq_append] at he
    have hfeed := getCandles_feed db lo m.time
    have hc : c ∈ db.getCandles lo m.time := by simp [he]
    rw [he] at hmem hfeed
    refine ⟨rows, ?_⟩
    rcases List.mem_append.mp hmem with hr | hr
    · exact absurd (hfeed.lt_last hr) (not_lt.mpr (mem_getCandles.mp hc).2.2)
    · rw [he, List.mem_singleton.mp hr]

/-- The candles consolidated before the loop are those up to the start candle. -/
theorem StartsAt.initialCandles {bufferSize : ℕ} {maxLookback : Option Lookback} {startTime : ℤ}
    {first : FirstBuffer} (h : StartsAt db bufferSize maxLookback startTime first) :
    first.minuteBuffer.take (first.startCandleIdx + 1) =
      db.getCandles (bufferFrom maxLookback startTime) first.startCandle.time := by
  have hget := h.startCandle
  rw [h.minuteBuffer] at hget ⊢
  exact take_succ_between (candleRows_ascending db) hget

variable (ε) in
theorem firstConsolidator_spec {bufferSize : ℕ} {maxLookback : Option Lookback} {startTime : ℤ}
    {first : FirstBuffer} (hv : ValidMap resolutionMap)
    (h : StartsAt db bufferSize maxLookback startTime first) :
    ∃ cons, (Replay.firstConsolidator first resolutionMap
        (first.startCandle.time + Duration.seconds 59) : Except (BacktestError ε) _) = .ok cons ∧
      (cons = none → ∀ res, resolutionMap.get res = none) ∧
      ∀ multi, cons = some multi → Consolidated resolutionMap
        (db.getCandles (bufferFrom maxLookback startTime) first.startCandle.time) true multi := by
  by_cases hempty : resolutionMap.isEmpty = true
  · refine ⟨none, by simp [Replay.firstConsolidator, hempty], ?_, by simp⟩
    intro _ res
    rw [OrdMap.get, OrdMap.isEmpty_iff.mp hempty]
    rfl
  · have hm := mem_getCandles.mp h.mem_buffer
    have htake := h.initialCandles
    obtain ⟨rows, hrows⟩ := getCandles_last hm.1 hm.2.1
    have hfeed := getCandles_feed db (bufferFrom maxLookback startTime) first.startCandle.time
    have hcur : ∀ d ∈ rows ++ [first.startCandle],
        d.time < first.startCandle.time + Duration.seconds 59 := by
      intro d hd
      rw [← hrows] at hd
      have hle := (mem_getCandles.mp hd).2.2
      unfold Duration.seconds
      omega
    rw [hrows] at hfeed
    obtain ⟨multi, hmulti, hh⟩ := new_consolidated ε hv hfeed hcur
    refine ⟨some multi, ?_, by simp, ?_⟩
    · simp [Replay.firstConsolidator, hempty, htake, hrows, hmulti, Except.map]
    · rintro _ ⟨⟩
      rwa [hrows]

variable (ε) in
/-- The replay that `run` starts follows the stored candles. -/
theorem new_follows {bufferSize : ℕ} {maxLookback : Option Lookback} {startTime endTime : ℤ}
    {first : FirstBuffer} (hv : ValidMap resolutionMap)
    (h : StartsAt db bufferSize maxLookback startTime first) :
    ∃ r, (Replay.new db first resolutionMap startTime endTime : Except (BacktestError ε) _) =
        .ok r ∧
      Follows db resolutionMap (bufferFrom maxLookback startTime) true first.startCandle r ∧
      Started db startTime endTime r := by
  obtain ⟨cons, hcons, hnone, hsome⟩ := firstConsolidator_spec ε hv h
  have hm := mem_getCandles.mp h.mem_buffer
  refine ⟨⟨first.minuteBuffer, first.startCandleIdx,
    first.startCandle.time + Duration.seconds 59, db.getSettlements
      (ceilFundingSettlementTime startTime) (floorFundingSettlementTime endTime), cons,
    startTime + Duration.days 1 - Duration.seconds 1⟩, ?_, ?_, rfl, rfl⟩
  · simp [Replay.new, hcons, bind, Except.bind, pure, Except.pure]
  · exact ⟨⟨_, _, h.minuteBuffer⟩, h.startCandle, rfl, hm.2.1, hnone, hsome⟩

end Quantoxide.Engine
