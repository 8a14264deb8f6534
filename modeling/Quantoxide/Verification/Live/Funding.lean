import Quantoxide.Library.Telescope
import Quantoxide.Verification.Live.System

/-! # Funding accounting of the live session

The exchange reports what a trade has paid in total. The ledger beside the session keeps, for
each trade ever tracked, the last total that a registration, a renewal or a closure realized,
and a baseline: zero for a trade that the session opened, the total at discovery for a trade
that it found running. -/

namespace Quantoxide.Live

open Result LiveTradingSession

variable {ε : Type} {sdk : LnmSdk ε} {session s' : LiveTradingSession} {trades : List Trade}
  {id : Uuid} {t : Trade}

abbrev FundingLedger := Telescope Uuid ℤ

/-- The totals that a list of trades reports, by id. -/
def feesById (trades : List Trade) (id : Uuid) : Option ℤ :=
  ((tradesById trades).get id).map (·.sumFundingFees)

def feeReports (trades : List Trade) : List (Uuid × ℤ) :=
  trades.map fun t => (t.id, t.sumFundingFees)

/-- The trades that the exchange reports as running. -/
def reportedRunning (sources : SessionSources ε) : List Trade :=
  match sources.tradesRunning with
  | .ok trades => trades
  | .error _ => []

/-- The ledger after a step that succeeds. -/
def book (ledger : FundingLedger) (session : LiveTradingSession) : SessionOp ε → FundingLedger
  | .registerRunningTrade trade _ _ => ledger.track trade.id 0 trade.sumFundingFees
  | .closeTrades closedTrades => ledger.read (feesById closedTrades)
  | .renew _ _ sources =>
    let runningTrades := reportedRunning sources
    let closures := missedClosures sources session runningTrades
    (ledger.read (feesById (closures ++ runningTrades))).discoverAll (feeReports runningTrades)
  | _ => ledger

/-- What the exchange promises of its ids: a new trade has a new one, a page lists a closed
trade once, and a closed trade does not run again. The renewals recover their trades. -/
def KeepsIds (session : LiveTradingSession) (ledger : FundingLedger) : SessionOp ε → Prop
  | .registerRunningTrade trade _ _ => trade.id ∉ ledger.tracked
  | .renew recover _ sources =>
    recover = true ∧ ((closedPage sources session).map (·.id)).Nodup ∧
    ∀ t ∈ reportedRunning sources, t.id ∈ ledger.tracked → t.id ∈ session.runningMap.ids
  | _ => True

instance (ledger : FundingLedger) : ∀ op : SessionOp ε, Decidable (KeepsIds session ledger op)
  | .registerRunningTrade trade _ _ => inferInstanceAs (Decidable (trade.id ∉ ledger.tracked))
  | .renew _ _ _ => inferInstanceAs (Decidable (_ ∧ _ ∧ ∀ t ∈ _, _ → _))
  | .updateRunningTrades _ | .closeTrades _ | .evaluated _ _ | .replaceCrossPosition _
  | .applyCrossDeposit _ _ | .applyCrossWithdraw _ _ | .registerCrossOrder _ _ =>
    inferInstanceAs (Decidable True)

/-- A session with its ledger after a step. -/
def bookNext (sdk : LnmSdk ε) (p : LiveTradingSession × FundingLedger) (op : SessionOp ε) :
    LiveTradingSession × FundingLedger :=
  match op.perform sdk p.1 with
  | .ok s' => (s', book p.2 p.1 op)
  | .error _ => p

/-- The runs of a session with its ledger. -/
def fundingSystem (sdk : LnmSdk ε) :
    Runs.System (LiveTradingSession × FundingLedger) (SessionOp ε) where
  start p := ∃ tslStepSize sources,
    LiveTradingSession.new sdk true tslStepSize sources none = .ok p.1 ∧
    p.2 = Telescope.empty.discoverAll (feeReports (reportedRunning sources))
  step p op p' := KeepsIds p.1 p.2 op ∧ bookNext sdk p op = p'

/-! ### Reports by id -/

theorem feesById_eq_none : feesById trades id = none ↔ id ∉ trades.map (·.id) := by
  rw [feesById, Option.map_eq_none_iff, get_tradesById_eq_none]

theorem feesById_of_nodup (h : (trades.map (·.id)).Nodup) (ht : t ∈ trades) :
    feesById trades t.id = some t.sumFundingFees := by
  cases hget : (tradesById trades).get t.id with
  | none => exact absurd (List.mem_map_of_mem ht) (get_tradesById_eq_none.mp hget)
  | some t' =>
      obtain ⟨hmem, hid⟩ := mem_of_get_tradesById hget
      rw [feesById, hget, List.inj_on_of_nodup_map h hmem ht hid]
      rfl

/-! ### What the session and the ledger agree on -/

/-- The session's fees are the ledger's net, and its snapshot holds the last totals of the
running trades. -/
structure Booked (sdk : LnmSdk ε) (session : LiveTradingSession) (ledger : FundingLedger) :
    Prop where
  sound : session.Sound sdk
  fees : session.fundingFees = ledger.net
  tracked : ∀ id ∈ session.runningMap.ids, id ∈ ledger.tracked
  snapshot : ∀ id v, session.fundingSnapshot.get id = some v ↔
    id ∈ session.runningMap.ids ∧ ledger.reading id = v

namespace Booked

variable {ledger : FundingLedger} {tsl : Option TradeTrailingStoploss}

theorem get_of_mem (h : Booked sdk session ledger) (hid : id ∈ session.runningMap.ids) :
    session.fundingSnapshot.get id = some (ledger.reading id) :=
  (h.snapshot id _).mpr ⟨hid, rfl⟩

theorem get_of_notMem (h : Booked sdk session ledger) (hid : id ∉ session.runningMap.ids) :
    session.fundingSnapshot.get id = none := by
  cases hget : session.fundingSnapshot.get id with
  | none => rfl
  | some v => exact absurd ((h.snapshot id v).mp hget).1 hid

theorem same (h : Booked sdk session ledger) (hsame : SameTrades session s') :
    Booked sdk s' ledger := by
  refine ⟨hsame.sound h.sound, ?_, ?_, ?_⟩
  · rw [hsame.fundingFees]
    exact h.fees
  · rw [hsame.runningMap]
    exact h.tracked
  · rw [hsame.runningMap, hsame.fundingSnapshot]
    exact h.snapshot

theorem register (h : Booked sdk session ledger) (hnew : t.id ∉ ledger.tracked)
    (hregisters : session.Registers sdk t tsl s') :
    Booked sdk s' (ledger.track t.id 0 t.sumFundingFees) := by
  have hids : ∀ id, id ∈ s'.runningMap.ids ↔ id ∈ session.runningMap.ids ∨ id = t.id :=
    fun id => hregisters.mem_ids h.sound.consistent
  refine ⟨hregisters.sound h.sound, ?_, ?_, ?_⟩
  · rw [hregisters.fundingFees, h.fees, Telescope.net_track hnew, sub_zero]
  · intro id hid
    rcases (hids id).mp hid with hold | rfl
    · exact Finset.mem_insert_of_mem (h.tracked id hold)
    · exact Finset.mem_insert_self _ _
  · intro id v
    rw [hregisters.fundingSnapshot, hids]
    by_cases hid : id = t.id
    · subst hid
      simp [OrdMap.get_insert_self, Telescope.track]
    · rw [OrdMap.get_insert_of_ne hid, h.snapshot]
      simp [Telescope.track, hid]

theorem update (h : Booked sdk session ledger) {updated : OrdMap Uuid Trade}
    (hkeyed : Keyed updated) (hupdates : session.Updates updated s') (hs' : s'.Sound sdk) :
    Booked sdk s' ledger := by
  refine ⟨hs', ?_, ?_, ?_⟩
  · rw [hupdates.fundingFees]
    exact h.fees
  · intro id hid
    exact h.tracked id ((hupdates.mem_ids hkeyed).mp hid)
  · intro id v
    rw [hupdates.fundingSnapshot, h.snapshot, hupdates.mem_ids hkeyed]

/-- What a closure realizes for a running trade is the gain of its reading. -/
theorem realizedFor_eq (h : Booked sdk session ledger) (hid : id ∈ session.runningMap.ids) :
    realizedFor (tradesById trades) session.fundingSnapshot id =
      if id ∈ ledger.tracked then ((feesById trades id).map (· - ledger.reading id)).getD 0
      else 0 := by
  rw [if_pos (h.tracked id hid), realizedFor, h.get_of_mem hid, feesById]
  cases (tradesById trades).get id <;> rfl

theorem close (h : Booked sdk session ledger) (hcloses : session.Closes trades s')
    (hs' : s'.Sound sdk) : Booked sdk s' (ledger.read (feesById trades)) := by
  refine ⟨hs', ?_, ?_, ?_⟩
  · rw [hcloses.fundingFees, h.fees, Telescope.net_read_of_nodup h.sound.consistent.nodup]
    · congr 2
      exact List.map_congr_left fun id hid => h.realizedFor_eq hid
    · intro id _ hnot
      rw [feesById_eq_none, List.mem_map]
      intro ⟨t, ht, hid⟩
      exact hnot (hid ▸ hcloses.registered t ht)
  · intro id hid
    exact h.tracked id (hcloses.mem_ids.mp hid).1
  · intro id v
    rw [hcloses.fundingSnapshot, hcloses.mem_ids]
    by_cases hclosed : id ∈ trades.map (·.id)
    · simp [hclosed]
    · have hsilent := feesById_eq_none.mpr hclosed
      simp [hclosed, h.snapshot, Telescope.read, hsilent]

end Booked

/-! ### Renewals -/

variable {ledger : FundingLedger} {runningTrades closures : List Trade}
  {snapshot : OrdMap Uuid ℤ} {rows : OrdMap Uuid (Option TradeTrailingStoploss)}
  {sources : SessionSources ε}

theorem mem_ids_of_recovers (h : Recovers sdk snapshot rows session runningTrades s') :
    id ∈ s'.runningMap.ids ↔ id ∈ runningTrades.map (·.id) := by
  simp only [DynRunningTradesMap.mem_ids, h.mem_iff, List.mem_map]
  constructor
  · intro ⟨e, ⟨t, ht, heq⟩, hid⟩
    exact ⟨t, ht, by rw [← hid, heq]⟩
  · intro ⟨t, ht, hid⟩
    exact ⟨_, ⟨t, ht, rfl⟩, hid⟩

theorem booked_of_recovers (h : Recovers sdk snapshot rows session runningTrades s')
    (hfees : s'.fundingFees = ledger.net)
    (hreading : ∀ t ∈ runningTrades,
      (ledger.discoverAll (feeReports runningTrades)).reading t.id = t.sumFundingFees) :
    Booked sdk s' (ledger.discoverAll (feeReports runningTrades)) := by
  refine ⟨h.sound, by rw [Telescope.net_discoverAll, hfees], ?_, ?_⟩
  · intro id hid
    rw [Telescope.mem_tracked_discoverAll, feeReports, List.map_map]
    exact Or.inr ((mem_ids_of_recovers h).mp hid)
  · intro id v
    rw [h.fundingSnapshot, mem_ids_of_recovers h, List.mem_map]
    constructor
    · intro ⟨t, ht, hid, hv⟩
      exact ⟨⟨t, ht, hid⟩, by rw [← hid, hreading t ht, hv]⟩
    · intro ⟨⟨t, ht, hid⟩, hv⟩
      exact ⟨t, ht, hid, by rw [← hreading t ht, hid, hv]⟩

theorem missedClosures_id_mem (ht : t ∈ missedClosures sources session runningTrades) :
    t.id ∈ session.runningMap.ids ∧ t.id ∉ runningTrades.map (·.id) := by
  have hmissed := (List.mem_filter.mp ht).2
  rw [List.contains_iff_mem, missedIds, List.mem_filter] at hmissed
  exact ⟨hmissed.1, by simpa using hmissed.2⟩

/-- A renewal books for the closures and the running trades what their readings gain. -/
theorem net_read_renewal (h : Booked sdk session ledger)
    (hnodup : ((closures ++ runningTrades).map (·.id)).Nodup)
    (hclosures : ∀ t ∈ closures, t.id ∈ session.runningMap.ids)
    (hrunning : ∀ t ∈ runningTrades, t.id ∈ ledger.tracked → t.id ∈ session.runningMap.ids) :
    (ledger.read (feesById (closures ++ runningTrades))).net =
      ledger.net + (closures.map session.missedFunding).sum +
        (runningTrades.map (recoveredFunding session.fundingSnapshot)).sum := by
  have hsilent : ∀ id ∈ ledger.tracked, id ∉ (closures ++ runningTrades).map (·.id) →
      feesById (closures ++ runningTrades) id = none := fun id _ hnot => feesById_eq_none.mpr hnot
  rw [Telescope.net_read_of_nodup hnodup hsilent, add_assoc, List.map_map, List.map_append,
    List.sum_append]
  congr 3
  · apply List.map_congr_left
    intro t ht
    have hid := hclosures t ht
    simp [feesById_of_nodup hnodup (List.mem_append_left _ ht), h.tracked _ hid, missedFunding,
      h.get_of_mem hid]
  · apply List.map_congr_left
    intro t ht
    have hfees := feesById_of_nodup hnodup (List.mem_append_right _ ht)
    by_cases htracked : t.id ∈ ledger.tracked
    · simp [hfees, htracked, recoveredFunding, h.get_of_mem (hrunning t ht htracked)]
    · have hid : t.id ∉ session.runningMap.ids := fun hmem => htracked (h.tracked _ hmem)
      simp [htracked, recoveredFunding, h.get_of_notMem hid]

theorem Booked.renew {tslStepSize : PercentageCapped} (h : Booked sdk session ledger)
    (hpage : ((closedPage sources session).map (·.id)).Nodup)
    (hids : ∀ t ∈ reportedRunning sources, t.id ∈ ledger.tracked → t.id ∈ session.runningMap.ids)
    (hnew : LiveTradingSession.new sdk true tslStepSize sources (some session) = .ok s') :
    Booked sdk s' (book ledger session (.renew true tslStepSize sources)) := by
  obtain ⟨runningTrades, rows, hrenews⟩ := renews_of_ok hnew
  obtain ⟨base, reconciled, hbase, hreconciles, hrecovers⟩ := hrenews.built
  have hreported : reportedRunning sources = runningTrades := by
    rw [reportedRunning, hrenews.running]
  simp only [book, hreported] at hids ⊢
  have hnodup : ((missedClosures sources session runningTrades ++ runningTrades).map
      (·.id)).Nodup := by
    rw [List.map_append, List.nodup_append]
    refine ⟨?_, hrecovers.nodup, ?_⟩
    · exact hpage.sublist (List.filter_sublist.map _)
    · intro id hid id' hid' heq
      obtain ⟨t, ht, rfl⟩ := List.mem_map.mp hid
      exact (missedClosures_id_mem ht).2 (heq ▸ hid')
  refine booked_of_recovers hrecovers ?_ ?_
  · rw [net_read_renewal h hnodup (fun t ht => (missedClosures_id_mem ht).1) hids,
      hrecovers.fundingFees, hreconciles.fundingFees, hbase.fundingFees, ← h.fees]
    rfl
  · intro t ht
    have hread : ∀ t ∈ runningTrades, (ledger.read (feesById (missedClosures sources session
        runningTrades ++ runningTrades))).reading t.id = t.sumFundingFees := by
      intro t ht
      simp [Telescope.read, feesById_of_nodup hnodup (List.mem_append_right _ ht)]
    rw [Telescope.reading_discoverAll, hread t ht]
    intro item hitem hid
    obtain ⟨t', ht', rfl⟩ := List.mem_map.mp hitem
    rw [← hid, hread t' ht']

theorem booked_start {tslStepSize : PercentageCapped}
    (hnew : LiveTradingSession.new sdk true tslStepSize sources none = .ok s') :
    Booked sdk s' (Telescope.empty.discoverAll (feeReports (reportedRunning sources))) := by
  obtain ⟨runningTrades, rows, hrenews⟩ := renews_of_ok hnew
  obtain ⟨base, reconciled, hbase, rfl, hrecovers⟩ := hrenews.built
  have hreported : reportedRunning sources = runningTrades := by
    rw [reportedRunning, hrenews.running]
  rw [hreported]
  refine booked_of_recovers hrecovers ?_ ?_
  · have hzero : recoveredFunding OrdMap.empty = fun _ => 0 := by
      funext t
      simp [recoveredFunding, OrdMap.get, OrdMap.empty]
    simp [hrecovers.fundingFees, hbase.fundingFees, hzero]
  · intro t ht
    refine Telescope.reading_discoverAll_new ?_ (List.mem_map_of_mem ht) (Finset.notMem_empty _)
    show ((feeReports runningTrades).map (·.1)).Nodup
    rw [feeReports, List.map_map]
    exact hrecovers.nodup

/-! ### Runs -/

theorem booked_step {op : SessionOp ε} (h : Booked sdk session ledger)
    (hids : KeepsIds session ledger op) (hop : op.perform sdk session = .ok s') :
    Booked sdk s' (book ledger session op) := by
  cases op with
  | renew recover tslStepSize sources =>
      obtain ⟨rfl, hpage, hrunning⟩ := hids
      exact h.renew hpage hrunning hop
  | registerRunningTrade trade tsl updateBalance => exact h.register hids (registers_of_ok hop)
  | updateRunningTrades updatedTrades =>
      have hkeyed := keyed_tradesById updatedTrades
      obtain ⟨hupdates, hs'⟩ := updates_of_ok h.sound hkeyed hop
      exact h.update hkeyed hupdates hs'
  | closeTrades closedTrades =>
      obtain ⟨hcloses, hs', -⟩ := closes_of_ok h.sound hop
      exact h.close hcloses hs'
  | evaluated time price =>
      obtain rfl := Except.ok.inj hop
      exact h.same ⟨rfl, rfl, rfl, rfl⟩
  | replaceCrossPosition raw => exact h.same (sameTrades_replaceCrossPosition hop)
  | applyCrossDeposit amount raw => exact h.same (sameTrades_applyCrossDeposit hop)
  | applyCrossWithdraw amount raw => exact h.same (sameTrades_applyCrossWithdraw hop)
  | registerCrossOrder raw order => exact h.same (sameTrades_registerCrossOrder hop)

def BookedPair (sdk : LnmSdk ε) (p : LiveTradingSession × FundingLedger) : Prop :=
  Booked sdk p.1 p.2

theorem booked_of_run {ops : List (SessionOp ε)} {p : LiveTradingSession × FundingLedger}
    (h : (fundingSystem sdk).Run ops p) : BookedPair sdk p := by
  refine h.invariant ?_ ?_
  · intro p hstart
    obtain ⟨tslStepSize, sources, hnew, hledger⟩ := hstart
    rw [BookedPair, hledger]
    exact booked_start hnew
  · intro p op p' hp hstep
    obtain ⟨hids, rfl⟩ := hstep
    unfold bookNext
    cases hop : op.perform sdk p.1 with
    | error e => exact hp
    | ok s' => exact booked_step hp hids hop

/-- The session's funding fees telescope to the ledger's: over all trades ever tracked, the
total last realized minus the baseline. What is realized next starts from those totals. -/
theorem funding_telescopes {ops : List (SessionOp ε)}
    (h : (fundingSystem sdk).Run ops (session, ledger)) :
    session.fundingFees = ∑ id ∈ ledger.tracked, (ledger.reading id - ledger.baseline id) ∧
      ∀ id v, session.fundingSnapshot.get id = some v ↔
        id ∈ session.runningMap.ids ∧ ledger.reading id = v :=
  ⟨(booked_of_run h).fees, (booked_of_run h).snapshot⟩

/-! ### A session that finds one trade and opens another -/

def foundTrade : Trade := { heldTrade with id := ⟨2⟩, sumFundingFees := 7 }

def findSession : ActionResult Refusal LiveTradingSession :=
  LiveTradingSession.new referenceSdk true ReferenceSdk.tenthPercent
    (accountSources 0 [foundTrade] .empty) none

theorem findSession_isOk : findSession.isOk = true := by decide +kernel

/-- The found trade pays 2 more until the renewal, the opened one 12 until its closure. -/
def tradedOps : List (SessionOp Refusal) :=
  [.registerRunningTrade { heldTrade with sumFundingFees := 3 } heldTsl true,
    .renew true ReferenceSdk.tenthPercent (accountSources (Duration.hours 2)
      [{ heldTrade with sumFundingFees := 10 }, { foundTrade with sumFundingFees := 9 }] .empty),
    .closeTrades [{ heldTrade with
      sumFundingFees := 12
      exitPrice := some (ReferenceSdk.price 95000)
      closedAt := some (Duration.hours 3)
      running := false
      closed := true }]]

def foundPair : LiveTradingSession × FundingLedger :=
  (get _ findSession_isOk, Telescope.empty.discoverAll (feeReports [foundTrade]))

def tradedPair : LiveTradingSession × FundingLedger :=
  tradedOps.foldl (bookNext referenceSdk) foundPair

theorem tradedPair_run : (fundingSystem referenceSdk).Run tradedOps tradedPair := by
  have hstart : (fundingSystem referenceSdk).Run [] foundPair :=
    .start ⟨_, accountSources 0 [foundTrade] .empty, eq_ok_get findSession_isOk, rfl⟩
  have hids : Runs.System.Along (bookNext referenceSdk) (fun p op => KeepsIds p.1 p.2 op)
      foundPair tradedOps := by decide +kernel
  refine hstart.foldl ?_ hids
  exact fun p op h => ⟨h, rfl⟩

theorem funding_telescopes_traded :
    tradedPair.1.fundingFees =
        ∑ id ∈ tradedPair.2.tracked, (tradedPair.2.reading id - tradedPair.2.baseline id) ∧
      tradedPair.1.fundingFees = 14 :=
  ⟨(funding_telescopes tradedPair_run).1, by decide +kernel⟩

end Quantoxide.Live
