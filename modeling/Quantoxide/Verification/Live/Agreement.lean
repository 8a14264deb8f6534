import Quantoxide.Model.LiveExecutor
import Quantoxide.Verification.Live.System

/-! # Agreement of the session with the exchange

An operation on isolated trades asks the exchange first and stores the session last. When
something between the two fails, the session keeps its trades and the exchange has moved on. -/

namespace Quantoxide.Live

open Result LiveTradingSession LiveTradeExecutor

variable {ε α : Type} {sdk : LnmSdk ε} {session s' : LiveTradingSession}

/-! ### The operations -/

/-- A call on isolated trades, with what the API and the database answer. -/
inductive TradeCall (ε : Type)
  | isolatedOrder (answers : OrderAnswers ε) (side : TradeSide) (size : TradeSize)
      (leverage : Leverage) (stoploss : Option Stoploss) (takeprofit : Option Price)
  | isolatedOrderClose (answers : CloseAnswers ε) (tradeId : Uuid)
  | closeTrades (answers : CloseAnswers ε) (side : TradeSide)
  | isolatedOrderCloseAll (answers : CloseAnswers ε)

def LiveOutcome.void (out : LiveOutcome ε α) : LiveOutcome ε Unit :=
  ⟨out.session, out.result.map fun _ => (), out.opened, out.closed⟩

def TradeCall.perform (sdk : LnmSdk ε) (config : LiveTradeExecutorConfig)
    (session : LiveTradingSession) : TradeCall ε → LiveOutcome ε Unit
  | isolatedOrder answers side size leverage stoploss takeprofit =>
    LiveOutcome.void (executeIsolatedOrder sdk config session answers side size leverage stoploss
      takeprofit)
  | isolatedOrderClose answers tradeId =>
    LiveOutcome.void (LiveTradeExecutor.isolatedOrderClose sdk session answers tradeId)
  | closeTrades answers side =>
    LiveOutcome.void (LiveTradeExecutor.closeTrades sdk session answers side)
  | isolatedOrderCloseAll answers =>
    LiveOutcome.void (LiveTradeExecutor.isolatedOrderCloseAll sdk session answers)

/-- The session's trades are those before, with what the exchange opened and without what it
closed. -/
def InAgreement (session : LiveTradingSession) (out : LiveOutcome ε α) : Prop :=
  ∀ id, id ∈ out.session.runningMap.ids ↔
    (id ∈ session.runningMap.ids ∨ id ∈ out.opened) ∧ id ∉ out.closed

/-! ### When an operation books what the exchange confirmed -/

/-- A trade that the exchange opened is registered, or was. -/
def OrderBooked (sdk : LnmSdk ε) (config : LiveTradeExecutorConfig)
    (session : LiveTradingSession) (answers : OrderAnswers ε) (side : TradeSide)
    (size : TradeSize) (leverage : Leverage) (stoploss : Option Stoploss)
    (takeprofit : Option Price) : Prop :=
  match checkOrder sdk config session answers side size leverage stoploss takeprofit with
  | .error _ => True
  | .ok (stoplossPrice, tradeTsl) =>
    match answers.newTrade side size leverage stoplossPrice takeprofit with
    | .error _ => True
    | .ok trade => session.runningMap.contains trade.id = true ∨
      (answers.addRunningTrade trade.id tradeTsl).isOk = true ∧ trade.running = true ∧
        TradeEntry.HasBounds sdk session.tslStepSize (trade, tradeTsl)

/-- A trade that the exchange closed is booked, or is none of the session's. -/
def CloseBooked (session : LiveTradingSession) (answers : CloseAnswers ε) (tradeId : Uuid) :
    Prop :=
  session.runningMap.contains tradeId = true →
    match answers.closeTrade tradeId with
    | .error _ => True
    | .ok closedTrade => session.runningMap.contains closedTrade.id = false ∨
      (answers.removeRunningTrades 0 [closedTrade.id]).isOk = true ∧
        session.Closable [closedTrade]

/-- Every batch is closed, can be booked after those before it, and is removed. -/
def ChunksBooked (session : LiveTradingSession) (answers : CloseAnswers ε) :
    ℕ → List Uuid → List (List Uuid) → Prop
  | _, _, [] => True
  | call, gone, chunk :: rest =>
    match chunk.mapM answers.closeTrade with
    | .error _ => False
    | .ok closedTrades =>
      session.Closable closedTrades ∧ (∀ t ∈ closedTrades, t.id ∉ gone) ∧
        (answers.removeRunningTrades call (closedTrades.map (·.id))).isOk = true ∧
        ChunksBooked session answers (call + 1) (gone ++ closedTrades.map (·.id)) rest

/-- Every batch is booked, or the first is not and confirms none of the session's trades. -/
def SideBooked (session : LiveTradingSession) (answers : CloseAnswers ε) (side : TradeSide) :
    Prop :=
  ChunksBooked session answers 0 [] (chunksOfThree (toClose session side)) ∨
    ∀ id ∈ confirmedIn answers ((chunksOfThree (toClose session side)).headD []),
      session.runningMap.contains id = false

/-- All closures are answered and can be booked and the cancellation succeeds, or none of the
closures answered until then is one of the session's. -/
def AllBooked (session : LiveTradingSession) (answers : CloseAnswers ε) : Prop :=
  match answers.runningTrades with
  | .error _ => True
  | .ok runningTrades =>
    let (confirmed, r) := closeInTurn answers (reachedByCloseAll answers runningTrades)
    r.isOk = true ∧ answers.cancelAllTrades.isOk = true ∧ session.Closable confirmed ∨
      ∀ t ∈ confirmed, session.runningMap.contains t.id = false

def TradeCall.Booked (sdk : LnmSdk ε) (config : LiveTradeExecutorConfig)
    (session : LiveTradingSession) : TradeCall ε → Prop
  | isolatedOrder answers side size leverage stoploss takeprofit =>
    OrderBooked sdk config session answers side size leverage stoploss takeprofit
  | isolatedOrderClose answers tradeId => CloseBooked session answers tradeId
  | closeTrades answers side => SideBooked session answers side
  | isolatedOrderCloseAll answers => AllBooked session answers

/-! ### Operations that store nothing -/

theorem inAgreement_rejected (session : LiveTradingSession) (e : ExecutorActionError ε) :
    InAgreement session (LiveOutcome.rejected session e : LiveOutcome ε α) := by
  intro id
  simp [LiveOutcome.rejected]

/-- Without a new session, the closures that the exchange confirmed have to be none of the
session's. -/
theorem inAgreement_unstored_closes {closed : List Uuid} {e : ExecutorActionError ε} :
    InAgreement session (⟨session, .error e, [], closed⟩ : LiveOutcome ε α) ↔
      ∀ id ∈ closed, id ∉ session.runningMap.ids := by
  simp only [InAgreement, List.not_mem_nil, or_false, iff_self_and]
  exact ⟨fun h id hclosed hid => h id hid hclosed, fun h id hid hclosed => h id hclosed hid⟩

theorem inAgreement_unstored_open {id : Uuid} {e : ExecutorActionError ε} :
    InAgreement session (⟨session, .error e, [id], []⟩ : LiveOutcome ε α) ↔
      id ∈ session.runningMap.ids := by
  simp [InAgreement]

/-! ### Orders -/

theorem order_inAgreement_iff {config : LiveTradeExecutorConfig} {answers : OrderAnswers ε}
    {side : TradeSide} {size : TradeSize} {leverage : Leverage} {stoploss : Option Stoploss}
    {takeprofit : Option Price} (hs : session.Sound sdk) :
    InAgreement session (executeIsolatedOrder sdk config session answers side size leverage
        stoploss takeprofit) ↔
      OrderBooked sdk config session answers side size leverage stoploss takeprofit := by
  unfold executeIsolatedOrder OrderBooked
  cases checkOrder sdk config session answers side size leverage stoploss takeprofit with
  | error e => exact iff_of_true (inAgreement_rejected session e) trivial
  | ok params =>
      obtain ⟨stoplossPrice, tradeTsl⟩ := params
      simp only
      cases answers.newTrade side size leverage stoplossPrice takeprofit with
      | error e => exact iff_of_true (inAgreement_rejected session _) trivial
      | ok trade =>
          simp only
          cases hadd : answers.addRunningTrade trade.id tradeTsl with
          | error e =>
              simp only [mapError_error, bind, Except.bind, LiveOutcome.store,
                inAgreement_unstored_open, hs.consistent.contains_iff, Except.isOk,
                Except.toBool, Bool.false_eq_true, false_and, or_false]
          | ok _ =>
              simp only [mapError_ok, bind, Except.bind]
              cases hregister : session.registerRunningTrade sdk trade tradeTsl true with
              | error e =>
                  simp only [LiveOutcome.store, inAgreement_unstored_open,
                    hs.consistent.contains_iff, Except.isOk, Except.toBool, true_and]
                  refine ⟨Or.inl, ?_⟩
                  intro h
                  rcases h with hknown | ⟨hrunning, hbounds⟩
                  · exact hknown
                  · by_contra hunknown
                    have hisOk : ∃ s', session.registerRunningTrade sdk trade tradeTsl true =
                        .ok s' := registerRunningTrade_isOk hrunning
                      (hs.consistent.contains_eq_false.mpr hunknown) hbounds
                    simp [hregister] at hisOk
              | ok s' =>
                  have hregisters := registers_of_ok hregister
                  refine iff_of_true ?_ (Or.inr ⟨rfl, hregisters.running, hregisters.bounds⟩)
                  intro id
                  simp [LiveOutcome.store, pure, Except.pure, hregisters.mem_ids hs.consistent]

/-! ### Single closures -/

theorem inAgreement_closes {closed : List Trade} {a : α} (hcloses : session.Closes closed s') :
    InAgreement session (⟨s', .ok a, [], closed.map (·.id)⟩ : LiveOutcome ε α) := by
  intro id
  simp only [List.not_mem_nil, or_false]
  exact hcloses.mem_ids

/-- A closure that the session refuses is not booked. -/
theorem not_closable_of_error {closed : List Trade} {e : ExecutorActionError ε}
    (hs : session.Sound sdk) (h : session.closeTrades sdk closed = .error e) :
    ¬ session.Closable closed := by
  rw [← closeTrades_isOk_iff hs]
  simp [h]

theorem close_inAgreement_iff {answers : CloseAnswers ε} {tradeId : Uuid}
    (hs : session.Sound sdk) :
    InAgreement session (LiveTradeExecutor.isolatedOrderClose sdk session answers tradeId) ↔
      CloseBooked session answers tradeId := by
  unfold LiveTradeExecutor.isolatedOrderClose CloseBooked
  cases hknown : session.runningMap.contains tradeId with
  | false => exact iff_of_true (inAgreement_rejected session _) (by simp)
  | true =>
      simp only [Bool.not_true, Bool.false_eq_true, if_false, forall_const]
      cases answers.closeTrade tradeId with
      | error e => exact iff_of_true (inAgreement_rejected session _) trivial
      | ok t =>
          simp only
          cases hremove : answers.removeRunningTrades 0 [t.id] with
          | error e =>
              simp only [mapError_error, bind, Except.bind, LiveOutcome.store,
                inAgreement_unstored_closes, List.mem_singleton, forall_eq,
                hs.consistent.contains_eq_false, Except.isOk, Except.toBool, Bool.false_eq_true,
                false_and, or_false]
          | ok _ =>
              simp only [mapError_ok, bind, Except.bind]
              cases hclose : session.closeTrades sdk [t] with
              | error e =>
                  have hnot := not_closable_of_error hs hclose
                  simp only [LiveOutcome.store, inAgreement_unstored_closes, List.mem_singleton,
                    forall_eq, hs.consistent.contains_eq_false, hnot, and_false, or_false]
              | ok s' =>
                  obtain ⟨hcloses, -, hclosable⟩ := closes_of_ok hs hclose
                  exact iff_of_true (inAgreement_closes hcloses) (Or.inr ⟨rfl, hclosable⟩)

/-! ### Batches -/

theorem chunksOfThree_ne_nil {ids chunk : List Uuid} (h : chunk ∈ chunksOfThree ids) :
    chunk ≠ [] := by
  induction ids using chunksOfThree.induct with
  | case1 => simp [chunksOfThree] at h
  | case2 a => simp_all [chunksOfThree]
  | case3 a b => simp_all [chunksOfThree]
  | case4 a b c rest ih =>
      rcases List.mem_cons.mp h with rfl | hrest
      · simp
      · exact ih hrest

/-- When every closure of a batch is answered, these are the confirmed ones. -/
theorem confirmedIn_of_mapM {answers : CloseAnswers ε} {chunk : List Uuid} {closed : List Trade}
    (h : chunk.mapM answers.closeTrade = .ok closed) :
    confirmedIn answers chunk = closed.map (·.id) := by
  have hanswered := forall₂_of_mapM h
  clear h
  induction hanswered with
  | nil => rfl
  | @cons id t chunk closed ht hanswered ih =>
      have hsome : (answers.closeTrade id).toOption = some t := by rw [ht]; rfl
      rw [confirmedIn, List.filterMap_cons, hsome, List.map_cons, List.map_cons, ← ih]
      rfl

/-- The session after some batches: it runs what was running and is not gone. -/
structure After (sdk : LnmSdk ε) (session : LiveTradingSession) (gone : List Uuid)
    (s : LiveTradingSession) : Prop where
  sound : s.Sound sdk
  mem_ids : ∀ id, id ∈ s.runningMap.ids ↔ id ∈ session.runningMap.ids ∧ id ∉ gone

variable {gone : List Uuid} {s : LiveTradingSession}

theorem After.closable_iff (h : After sdk session gone s) (hs : session.Sound sdk)
    {closed : List Trade} :
    s.Closable closed ↔ session.Closable closed ∧ ∀ t ∈ closed, t.id ∉ gone := by
  simp only [Closable, h.sound.consistent.contains_iff, hs.consistent.contains_iff, h.mem_ids]
  rw [← forall₂_and]
  refine forall₂_congr ?_
  intro t _
  constructor
  · intro h
    exact ⟨⟨h.1, h.2.1.1, h.2.2⟩, h.2.1.2⟩
  · intro h
    exact ⟨h.1.1, ⟨h.1.2.1, h.2⟩, h.1.2.2⟩

theorem After.closes (h : After sdk session gone s) {closed : List Trade}
    (hcloses : s.Closes closed s') (hs' : s'.Sound sdk) :
    After sdk session (gone ++ closed.map (·.id)) s' := by
  refine ⟨hs', ?_⟩
  intro id
  rw [hcloses.mem_ids, h.mem_ids, List.mem_append, not_or, and_assoc]

/-- A batch is booked just when it succeeds. -/
theorem closeChunk_isOk_iff (answers : CloseAnswers ε) (call : ℕ) (chunk : List Uuid)
    (h : After sdk session gone s) (hs : session.Sound sdk) :
    (∃ r, closeChunk sdk answers call s chunk = .ok r) ↔
      ∃ closed, chunk.mapM answers.closeTrade = .ok closed ∧ session.Closable closed ∧
        (∀ t ∈ closed, t.id ∉ gone) ∧
        (answers.removeRunningTrades call (closed.map (·.id))).isOk = true := by
  simp only [closeChunk, bind_eq_ok, mapError_eq_ok, pure_eq_ok, Prod.exists]
  constructor
  · rintro ⟨_, _, closed, hclosed, s', hs', _, hremove, _⟩
    have hclosable := (h.closable_iff hs).mp (closes_of_ok h.sound hs').2.2
    exact ⟨closed, hclosed, hclosable.1, hclosable.2, by rw [hremove]; rfl⟩
  · rintro ⟨closed, hclosed, hclosable, hgone, hremove⟩
    obtain ⟨s', hs'⟩ := (closeTrades_isOk_iff h.sound).mpr ((h.closable_iff hs).mpr
      ⟨hclosable, hgone⟩)
    exact ⟨_, _, closed, hclosed, s', hs', (), eq_ok_get hremove, rfl⟩

theorem closeChunk_eq_ok {answers : CloseAnswers ε} {call : ℕ} {chunk : List Uuid}
    {r : LiveTradingSession × List Uuid} (h : After sdk session gone s)
    (hclose : closeChunk sdk answers call s chunk = .ok r) :
    r.2 = confirmedIn answers chunk ∧ After sdk session (gone ++ r.2) r.1 ∧
      ∀ id ∈ r.2, id ∈ s.runningMap.ids := by
  simp only [closeChunk, bind_eq_ok, mapError_eq_ok, pure_eq_ok] at hclose
  obtain ⟨closed, hclosed, s', hs', _, -, rfl⟩ := hclose
  obtain ⟨hcloses, hsound, -⟩ := closes_of_ok h.sound hs'
  refine ⟨(confirmedIn_of_mapM hclosed).symm, h.closes hcloses hsound, ?_⟩
  intro id hid
  obtain ⟨t, ht, rfl⟩ := List.mem_map.mp hid
  exact hcloses.registered t ht

theorem closeChunk_ne_nil {answers : CloseAnswers ε} {call : ℕ} {chunk : List Uuid}
    {r : LiveTradingSession × List Uuid} (hne : chunk ≠ [])
    (hclose : closeChunk sdk answers call s chunk = .ok r) : r.2 ≠ [] := by
  simp only [closeChunk, bind_eq_ok, mapError_eq_ok, pure_eq_ok] at hclose
  obtain ⟨closed, hclosed, _, -, _, -, rfl⟩ := hclose
  intro hnil
  have hanswered := forall₂_of_mapM hclosed
  rw [List.map_eq_nil_iff.mp hnil, List.forall₂_nil_right_iff] at hanswered
  exact hne hanswered

theorem chunksBooked_cons {answers : CloseAnswers ε} {call : ℕ} {chunk : List Uuid}
    {rest : List (List Uuid)} :
    ChunksBooked session answers call gone (chunk :: rest) ↔
      (∃ closed, chunk.mapM answers.closeTrade = .ok closed ∧ session.Closable closed ∧
        (∀ t ∈ closed, t.id ∉ gone) ∧
        (answers.removeRunningTrades call (closed.map (·.id))).isOk = true) ∧
      ChunksBooked session answers (call + 1) (gone ++ confirmedIn answers chunk) rest := by
  cases hclosed : chunk.mapM answers.closeTrade with
  | error e => simp [ChunksBooked, hclosed]
  | ok closed =>
      rw [confirmedIn_of_mapM hclosed]
      simp only [ChunksBooked, hclosed, Except.ok.injEq, exists_eq_left', and_assoc]

/-- The batches succeed just when they are booked, and then what they confirmed is gone. -/
theorem closeChunks_spec (answers : CloseAnswers ε) (hs : session.Sound sdk)
    (chunks : List (List Uuid)) (call : ℕ) (h : After sdk session gone s) :
    match closeChunks sdk answers call s chunks with
    | (confirmed, .ok (s', _)) => ChunksBooked session answers call gone chunks ∧
        After sdk session (gone ++ confirmed) s'
    | (_, .error _) => ¬ ChunksBooked session answers call gone chunks := by
  induction chunks generalizing call gone s with
  | nil => simpa [closeChunks, ChunksBooked] using h
  | cons chunk rest ih =>
      have hisOk := closeChunk_isOk_iff answers call chunk h hs
      unfold closeChunks
      cases hclose : closeChunk sdk answers call s chunk with
      | error e =>
          simp only
          rw [chunksBooked_cons, ← hisOk]
          simp [hclose]
      | ok r =>
          obtain ⟨s₁, closedIds⟩ := r
          obtain ⟨hconfirmed, hafter, -⟩ := closeChunk_eq_ok h hclose
          have hrest := ih (call + 1) hafter
          rw [hconfirmed] at hrest
          simp only [chunksBooked_cons, and_iff_right (hisOk.mp ⟨_, hclose⟩)]
          generalize closeChunks sdk answers (call + 1) s₁ rest = outcome at hrest
          obtain ⟨confirmed, result⟩ := outcome
          cases result with
          | error e => exact hrest
          | ok last =>
              refine ⟨hrest.1, ?_⟩
              rw [← List.append_assoc]
              exact hrest.2

/-- When the batches fail, the first one failed too, or it took trades out of the session. -/
theorem closeChunks_error {answers : CloseAnswers ε} {chunks : List (List Uuid)} {call : ℕ}
    {confirmed : List Uuid} {e : ExecutorActionError ε} (hs : session.Sound sdk)
    (hne : ∀ chunk ∈ chunks, chunk ≠ [])
    (h : closeChunks sdk answers call session chunks = (confirmed, .error e)) :
    (∀ id ∈ confirmed, id ∉ session.runningMap.ids) ↔
      ∀ id ∈ confirmedIn answers (chunks.headD []), id ∉ session.runningMap.ids := by
  cases chunks with
  | nil => simp [closeChunks] at h
  | cons chunk rest =>
      simp only [List.headD_cons]
      cases hclose : closeChunk sdk answers call session chunk with
      | error e' =>
          simp only [closeChunks, hclose, Prod.mk.injEq] at h
          rw [h.1]
      | ok r =>
          have hstart : After sdk session [] session := ⟨hs, by simp⟩
          obtain ⟨hconfirmed, -, hknown⟩ := closeChunk_eq_ok hstart hclose
          simp only [closeChunks, hclose, Prod.mk.injEq] at h
          have hnonempty : r.2 ≠ [] := closeChunk_ne_nil (hne chunk (by simp)) hclose
          obtain ⟨id, hid⟩ := List.exists_mem_of_ne_nil _ hnonempty
          refine iff_of_false ?_ ?_
          · intro hnone
            refine hnone id ?_ (hknown id hid)
            rw [← h.1, ← hconfirmed]
            exact List.mem_append_left _ hid
          · intro hnone
            exact hnone id (hconfirmed ▸ hid) (hknown id hid)

theorem side_inAgreement_iff {answers : CloseAnswers ε} {side : TradeSide}
    (hs : session.Sound sdk) :
    InAgreement session (LiveTradeExecutor.closeTrades sdk session answers side) ↔
      SideBooked session answers side := by
  have hstart : After sdk session [] session := ⟨hs, by simp⟩
  have hspec := closeChunks_spec answers hs (chunksOfThree (toClose session side)) 0 hstart
  have herror : ∀ confirmed e, closeChunks sdk answers 0 session
      (chunksOfThree (toClose session side)) = (confirmed, .error e) → _ := fun _ _ =>
    closeChunks_error hs fun _ => chunksOfThree_ne_nil
  unfold LiveTradeExecutor.closeTrades SideBooked
  simp only [hs.consistent.contains_eq_false]
  generalize closeChunks sdk answers 0 session (chunksOfThree (toClose session side)) = outcome
    at hspec herror
  obtain ⟨confirmed, result⟩ := outcome
  cases result with
  | error e =>
      rw [or_iff_right hspec, ← herror _ _ rfl]
      exact inAgreement_unstored_closes
  | ok last =>
      refine iff_of_true ?_ (Or.inl hspec.1)
      intro id
      simp only [LiveOutcome.store, List.not_mem_nil, or_false]
      rw [hspec.2.mem_ids, List.nil_append]

/-! ### The closure of all trades -/

theorem confirmed_of_closeInTurn {answers : CloseAnswers ε} {ids : List Uuid}
    {confirmed closed : List Trade} (h : closeInTurn answers ids = (confirmed, .ok closed)) :
    confirmed = closed := by
  induction ids generalizing confirmed closed with
  | nil =>
      simp only [closeInTurn, Prod.mk.injEq, Except.ok.injEq] at h
      rw [← h.1, ← h.2]
  | cons id rest ih =>
      unfold closeInTurn at h
      cases hclose : answers.closeTrade id with
      | error e => simp [hclose] at h
      | ok t =>
          cases hrest : closeInTurn answers rest with
          | mk confirmed' r =>
              cases r with
              | error e => simp [hclose, hrest, Except.map] at h
              | ok closed' =>
                  simp only [hclose, hrest, Except.map, Prod.mk.injEq, Except.ok.injEq] at h
                  rw [← h.1, ← h.2, ih hrest]

theorem all_inAgreement_iff {answers : CloseAnswers ε} (hs : session.Sound sdk) :
    InAgreement session (LiveTradeExecutor.isolatedOrderCloseAll sdk session answers) ↔
      AllBooked session answers := by
  unfold LiveTradeExecutor.isolatedOrderCloseAll AllBooked
  cases answers.runningTrades with
  | error e => exact iff_of_true (inAgreement_rejected session _) trivial
  | ok runningTrades =>
      have hconfirmed : ∀ confirmed closed, closeInTurn answers
          (reachedByCloseAll answers runningTrades) = (confirmed, .ok closed) →
          confirmed = closed := fun _ _ => confirmed_of_closeInTurn
      simp only [hs.consistent.contains_eq_false]
      generalize closeInTurn answers (reachedByCloseAll answers runningTrades) = outcome
        at hconfirmed
      obtain ⟨confirmed, r⟩ := outcome
      cases r with
      | error e =>
          simp only [mapError_error, bind, Except.bind, LiveOutcome.store,
            inAgreement_unstored_closes, List.forall_mem_map, Except.isOk, Except.toBool,
            Bool.false_eq_true, false_and, false_or]
      | ok closed =>
          obtain rfl := hconfirmed _ _ rfl
          cases answers.cancelAllTrades with
          | error e =>
              simp only [mapError_ok, mapError_error, bind, Except.bind, LiveOutcome.store,
                inAgreement_unstored_closes, List.forall_mem_map, Except.isOk, Except.toBool,
                Bool.false_eq_true, false_and, and_false, false_or]
          | ok cancelled =>
              simp only [mapError_ok, bind, Except.bind]
              cases hclose : session.closeTrades sdk confirmed with
              | error e =>
                  have hnot := not_closable_of_error hs hclose
                  simp only [LiveOutcome.store, inAgreement_unstored_closes,
                    List.forall_mem_map, hnot, and_false, false_or]
              | ok s' =>
                  obtain ⟨hcloses, -, hclosable⟩ := closes_of_ok hs hclose
                  exact iff_of_true (inAgreement_closes hcloses)
                    (Or.inl ⟨rfl, rfl, hclosable⟩)

/-! ### The calls are steps of the session system -/

/-- What a call stores comes from a run of session steps, so that the next call starts from a
session that the system reaches. -/
theorem stored_run {ops : List (SessionOp ε)} (hrun : (sessionSystem sdk).Run ops session)
    {opened closed : List Uuid} {r : ActionResult ε (LiveTradingSession × α)}
    (h : ∀ s' a, r = .ok (s', a) → ∃ ops', (sessionSystem sdk).Run ops' s') :
    ∃ ops', (sessionSystem sdk).Run ops' (LiveOutcome.store session opened closed r).session := by
  cases r with
  | error e => exact ⟨ops, hrun⟩
  | ok p => exact h p.1 p.2 rfl

theorem run_perform {ops : List (SessionOp ε)} {op : SessionOp ε}
    (hrun : (sessionSystem sdk).Run ops session) (h : op.perform sdk session = .ok s') :
    (sessionSystem sdk).Run (ops ++ [op]) s' := by
  refine hrun.step ?_
  simp [sessionSystem, SessionOp.next, h]

theorem closeChunks_run {answers : CloseAnswers ε} {chunks : List (List Uuid)} {call : ℕ}
    {ops : List (SessionOp ε)} (hrun : (sessionSystem sdk).Run ops session) {ids : List Uuid}
    (h : (closeChunks sdk answers call session chunks).2 = .ok (s', ids)) :
    ∃ ops', (sessionSystem sdk).Run ops' s' := by
  induction chunks generalizing call session ops ids with
  | nil =>
      simp only [closeChunks, Except.ok.injEq, Prod.mk.injEq] at h
      exact ⟨ops, h.1 ▸ hrun⟩
  | cons chunk rest ih =>
      cases hclose : closeChunk sdk answers call session chunk with
      | error e => simp [closeChunks, hclose] at h
      | ok r =>
          obtain ⟨s₁, closedIds⟩ := r
          have hfirst := hclose
          simp only [closeChunk, bind_eq_ok, mapError_eq_ok, pure_eq_ok, Prod.mk.injEq] at hfirst
          obtain ⟨closed, -, s₂, hs₂, _, -, rfl, -⟩ := hfirst
          simp only [closeChunks, hclose] at h
          cases hrest : (closeChunks sdk answers (call + 1) s₂ rest).2 with
          | error e => simp [hrest, Except.map] at h
          | ok last =>
              simp only [hrest, Except.map, Except.ok.injEq, Prod.mk.injEq] at h
              obtain rfl := h.1
              have hop : (SessionOp.closeTrades closed).perform sdk session = .ok s₂ := hs₂
              exact ih (run_perform hrun hop) hrest

/-- The session that a call leaves is again one that an executor comes to hold. -/
theorem perform_run {ops : List (SessionOp ε)} (hrun : (sessionSystem sdk).Run ops session)
    (config : LiveTradeExecutorConfig) (call : TradeCall ε) :
    ∃ ops', (sessionSystem sdk).Run ops' (call.perform sdk config session).session := by
  cases call with
  | isolatedOrder answers side size leverage stoploss takeprofit =>
      simp only [TradeCall.perform, LiveOutcome.void, executeIsolatedOrder]
      split
      · exact ⟨ops, hrun⟩
      · split
        · exact ⟨ops, hrun⟩
        · refine stored_run hrun ?_
          intro s' a hr
          simp only [bind_eq_ok, pure_eq_ok, Prod.mk.injEq] at hr
          obtain ⟨_, -, s₁, hregister, rfl, -⟩ := hr
          have hop : (SessionOp.registerRunningTrade _ _ true).perform sdk session = .ok s₁ :=
            hregister
          exact ⟨_, run_perform hrun hop⟩
  | isolatedOrderClose answers tradeId =>
      simp only [TradeCall.perform, LiveOutcome.void, LiveTradeExecutor.isolatedOrderClose]
      split
      · exact ⟨ops, hrun⟩
      · split
        · exact ⟨ops, hrun⟩
        · refine stored_run hrun ?_
          intro s' a hr
          simp only [bind_eq_ok, pure_eq_ok, Prod.mk.injEq] at hr
          obtain ⟨_, -, s₁, hclose, rfl, -⟩ := hr
          have hop : (SessionOp.closeTrades [_]).perform sdk session = .ok s₁ := hclose
          exact ⟨_, run_perform hrun hop⟩
  | closeTrades answers side =>
      simp only [TradeCall.perform, LiveOutcome.void, LiveTradeExecutor.closeTrades]
      exact stored_run hrun fun s' a hr => closeChunks_run hrun hr
  | isolatedOrderCloseAll answers =>
      simp only [TradeCall.perform, LiveOutcome.void, LiveTradeExecutor.isolatedOrderCloseAll]
      split
      · exact ⟨ops, hrun⟩
      · refine stored_run hrun ?_
        intro s' a hr
        simp only [bind_eq_ok, pure_eq_ok, Prod.mk.injEq] at hr
        obtain ⟨_, -, _, -, s₁, hclose, rfl, -⟩ := hr
        have hop : (SessionOp.closeTrades _).perform sdk session = .ok s₁ := hclose
        exact ⟨_, run_perform hrun hop⟩

/-! ### Every operation -/

/-- In any session an executor comes to hold, a call on isolated trades leaves the session in
agreement with the exchange exactly when what the exchange confirmed is booked. -/
theorem agreement_iff {ops : List (SessionOp ε)} (hrun : (sessionSystem sdk).Run ops session)
    (config : LiveTradeExecutorConfig) (call : TradeCall ε) :
    InAgreement session (call.perform sdk config session) ↔ call.Booked sdk config session := by
  have hs := sound_of_run hrun
  cases call with
  | isolatedOrder answers side size leverage stoploss takeprofit => exact order_inAgreement_iff hs
  | isolatedOrderClose answers tradeId => exact close_inAgreement_iff hs
  | closeTrades answers side => exact side_inAgreement_iff hs
  | isolatedOrderCloseAll answers => exact all_inAgreement_iff hs

/-! ### A close that the database does not record -/

theorem heldSession_run : (sessionSystem referenceSdk).Run
    [.registerRunningTrade heldTrade heldTsl true] (heldSession true) := by
  have hopen : openSession true = .ok (heldSession true) := eq_ok_get _
  simp only [openSession, bind_eq_ok] at hopen
  obtain ⟨session, hnew, hregister⟩ := hopen
  have hstart : (sessionSystem referenceSdk).Run [] session := .start ⟨_, _, _, hnew⟩
  have hop : (SessionOp.registerRunningTrade heldTrade heldTsl true).perform referenceSdk session =
      .ok (heldSession true) := hregister
  exact run_perform hstart hop

/-- The close of the held trade: the exchange confirms it, and the database answers. -/
def heldClose (removed : Except DbError Unit) : TradeCall Refusal :=
  .isolatedOrderClose
    { closeTrade id := .ok { heldTrade with
        id
        exitPrice := some (ReferenceSdk.price 95000)
        closedAt := some (Duration.hours 3)
        running := false
        closed := true }
      removeRunningTrades _ _ := removed
      cancelAllTrades := .ok []
      runningTrades := .ok [heldTrade]
      answeredBeforeCancelFails := 0 } heldTrade.id

def heldConfig : LiveTradeExecutorConfig :=
  ⟨ReferenceSdk.tenthPercent, ReferenceSdk.tenthPercent, 50⟩

theorem closed_trade_stays_running :
    (sessionSystem referenceSdk).Run [.registerRunningTrade heldTrade heldTsl true]
        (heldSession true) ∧
      ¬ InAgreement (heldSession true)
        ((heldClose (.error .query)).perform referenceSdk heldConfig (heldSession true)) := by
  refine ⟨heldSession_run, ?_⟩
  intro h
  have hclosed := ((h heldTrade.id).mp (by decide +kernel)).2
  exact hclosed (by decide +kernel)

theorem agreement_held : InAgreement (heldSession true)
    ((heldClose (.ok ())).perform referenceSdk heldConfig (heldSession true)) :=
  (agreement_iff heldSession_run heldConfig (heldClose (.ok ()))).mpr fun _ =>
    Or.inr ⟨rfl, by decide +kernel⟩

end Quantoxide.Live
