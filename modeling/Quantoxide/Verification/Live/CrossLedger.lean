import Mathlib.Data.PNat.Basic
import Mathlib.Tactic.Linarith.Frontend
import Quantoxide.Library.Runs
import Quantoxide.Model.LiveExecutor
import Quantoxide.Verification.Live.Renewal

/-! # The live cross ledger

The exchange keeps the cross account: transfers, realized P/L, trading fees and funding fees
are all that moves its margin. The session only sees snapshots of it, and has to tell what
happened between two of them. -/

namespace Quantoxide.Live

open Result LiveTradingSession LiveTradeExecutor

variable {ε : Type} {sdk : LnmSdk ε}

/-! ### The account at the exchange -/

structure CrossAccount where
  margin : ℤ
  netTransfers : ℤ
  realizedPl : ℤ
  tradingFees : ℕ
  fundingFees : ℤ
deriving DecidableEq

/-- What the exchange settles on the account at once: a fill, a funding, a liquidation. -/
structure Settlement where
  realizedPl : ℤ
  tradingFee : ℕ
  fundingFee : ℤ

namespace CrossAccount

def settle (account : CrossAccount) (s : Settlement) : CrossAccount where
  margin := account.margin + s.realizedPl - s.tradingFee - s.fundingFee
  netTransfers := account.netTransfers
  realizedPl := account.realizedPl + s.realizedPl
  tradingFees := account.tradingFees + s.tradingFee
  fundingFees := account.fundingFees + s.fundingFee

def transfer (account : CrossAccount) (amount : ℤ) : CrossAccount :=
  { account with
    margin := account.margin + amount
    netTransfers := account.netTransfers + amount }

/-- The snapshot shows the account. -/
def Shows (account : CrossAccount) (raw : CrossPosition ε) : Prop :=
  (raw.margin : ℤ) = account.margin ∧ raw.tradingFees = account.tradingFees ∧
    raw.fundingFees = account.fundingFees

instance (account : CrossAccount) (raw : CrossPosition ε) : Decidable (account.Shows raw) :=
  inferInstanceAs (Decidable (_ ∧ _ ∧ _))

/-- The API answers with a snapshot of the account, or not at all. -/
def ShownBy (account : CrossAccount) (answer : Except ε (CrossPosition ε)) : Prop :=
  match answer with
  | .ok raw => account.Shows raw
  | .error _ => True

instance (account : CrossAccount) : ∀ answer : Except ε (CrossPosition ε),
    Decidable (account.ShownBy answer)
  | .ok raw => inferInstanceAs (Decidable (account.Shows raw))
  | .error _ => inferInstanceAs (Decidable True)

end CrossAccount

/-! ### What the session holds -/

/-- The quantity of the ledger, for given net transfers. -/
def heldBy (pos : LiveCrossPosition) (netTransfers : ℤ) : ℤ :=
  pos.margin - netTransfers - pos.realizedPl + pos.tradingFees + pos.sessionFundingFees

/-- What moved the account since the position's snapshot besides the fees that the account
shows: transfers and realized P/L that the position does not know of. -/
def unbooked (pos : LiveCrossPosition) (account : CrossAccount) : ℤ :=
  account.margin + account.tradingFees + account.fundingFees -
    (pos.margin + pos.currTradingFees + pos.currFundingFees)

variable {pos pos' : LiveCrossPosition} {raw : CrossPosition ε} {account : CrossAccount}

theorem heldBy_eq (pos : LiveCrossPosition) (netTransfers : ℤ) :
    heldBy pos netTransfers = pos.margin + pos.currTradingFees + pos.currFundingFees -
      pos.realizedPl - pos.startTradingFees - pos.startFundingFees - netTransfers := by
  rw [heldBy, LiveCrossPosition.tradingFees, LiveCrossPosition.sessionFundingFees,
    Nat.cast_sub pos.fees_le]
  ring

/-- A snapshot outside of an order books nothing: what it shows beyond the fees is added. -/
theorem heldBy_updateFromRaw (h : pos.updateFromRaw raw = .ok pos') (hshows : account.Shows raw)
    (netTransfers : ℤ) :
    heldBy pos' netTransfers = heldBy pos netTransfers + unbooked pos account := by
  obtain ⟨hmargin, htrading, hfunding⟩ := hshows
  simp only [LiveCrossPosition.updateFromRaw, bind_eq_ok, mapError_eq_ok] at h
  obtain ⟨exposure, -, h⟩ := h
  split_ifs at h
  simp only [pure_eq_ok] at h
  subst h
  rw [heldBy_eq, heldBy_eq, unbooked]
  simp only [hmargin, htrading, hfunding]
  ring

/-- A snapshot after an order books all that it shows beyond the fees as realized P/L. -/
theorem heldBy_updateAfterOrder (h : pos.updateAfterOrder raw = .ok pos') (netTransfers : ℤ) :
    heldBy pos' netTransfers = heldBy pos netTransfers := by
  simp only [LiveCrossPosition.updateAfterOrder, bind_eq_ok, okOr_eq_ok] at h
  obtain ⟨newMargin, hnew, prevMargin, hprev, marginDelta, hmargin, h⟩ := h
  split_ifs at h with hfees
  simp only [bind_eq_ok, okOr_eq_ok, mapError_eq_ok, pure_eq_ok, Option.bind_eq_some_iff] at h
  obtain ⟨feeDelta, hfee, fundingDelta, hfunding, realizedDelta, ⟨delta, hdelta, hrealized⟩,
    realizedPl, hpl, exposure, -, rfl⟩ := h
  rw [heldBy_eq, heldBy_eq]
  have hfeeDelta := I64.eq_of_tryFrom hfee
  rw [Nat.cast_sub (not_lt.mp hfees)] at hfeeDelta
  have hpl := I64.eq_of_checkedAdd hpl
  have hrealized := I64.eq_of_checkedAdd hrealized
  have hdelta := I64.eq_of_checkedAdd hdelta
  have hfunding : fundingDelta = raw.fundingFees - pos.currFundingFees :=
    (I64.checked_eq_some.mp hfunding).2.symm
  have hmargin : marginDelta = newMargin - prevMargin := (I64.checked_eq_some.mp hmargin).2.symm
  have hnew := I64.eq_of_tryFrom hnew
  have hprev := I64.eq_of_tryFrom hprev
  simp only
  linarith

theorem updateFromRaw_isOk_iff (hknown : pos.currTradingFees ≤ account.tradingFees)
    (hshows : account.Shows raw) :
    (∃ pos', (pos.updateFromRaw raw : ActionResult ε _) = .ok pos') ↔
      raw.exposure.isOk = true := by
  have hfees : ¬ raw.tradingFees < pos.currTradingFees := by
    rw [hshows.2.1]
    exact not_lt.mpr hknown
  cases hexposure : raw.exposure with
  | error e => simp [LiveCrossPosition.updateFromRaw, hexposure, Except.isOk, Except.toBool]
  | ok exposure =>
      simp [LiveCrossPosition.updateFromRaw, hexposure, hfees, Except.isOk, Except.toBool]

theorem currTradingFees_updateFromRaw (h : pos.updateFromRaw raw = .ok pos') :
    pos'.currTradingFees = raw.tradingFees := by
  simp only [LiveCrossPosition.updateFromRaw, bind_eq_ok, mapError_eq_ok] at h
  obtain ⟨exposure, -, h⟩ := h
  split_ifs at h
  simp only [pure_eq_ok] at h
  rw [← h]

theorem currTradingFees_updateAfterOrder (h : pos.updateAfterOrder raw = .ok pos') :
    pos'.currTradingFees = raw.tradingFees := by
  simp only [LiveCrossPosition.updateAfterOrder, bind_eq_ok, okOr_eq_ok] at h
  obtain ⟨newMargin, -, prevMargin, -, marginDelta, -, h⟩ := h
  split_ifs at h
  simp only [bind_eq_ok, okOr_eq_ok, mapError_eq_ok, pure_eq_ok] at h
  obtain ⟨_, -, _, -, _, -, _, -, exposure, -, rfl⟩ := h
  rfl

/-! ### Steps -/

/-- A session step with what the API answers to it. An order's fill is what the exchange
settles between taking the order and showing the position. -/
inductive CrossStep (ε : Type)
  | settle (s : Settlement)
  | deposit (amount : ℕ+) (answer : Except ε (CrossPosition ε))
  | withdraw (amount : ℕ+) (answer : Except ε (CrossPosition ε))
  | setLeverage (leverage : CrossLeverage) (answer : CrossLeverage → Except ε (CrossPosition ε))
  | order (request : CrossOrderRequest) (fill : Settlement)
      (orderAnswer : TradeSide → Quantity → Except ε CrossOrder)
      (answer : Except ε (CrossPosition ε))
  | closePosition (latest : Except ε (CrossPosition ε)) (fill : Settlement)
      (orderAnswer : Except ε CrossOrder) (answer : Except ε (CrossPosition ε))
  | refresh (answer : Except ε (CrossPosition ε))
  | renew (recoverTradesOnStartup : Bool) (tslStepSize : PercentageCapped)
      (sources : SessionSources ε)

/-- The value of a call, or what was there before when it fails. -/
def orKeep {α : Type} (old : α) (r : ActionResult ε α) : α :=
  match r with
  | .ok a => a
  | .error _ => old

namespace CrossStep

def perform (sdk : LnmSdk ε) (session : LiveTradingSession) : CrossStep ε → LiveTradingSession
  | settle _ => session
  | deposit amount answer => (crossDeposit session amount answer).session
  | withdraw amount answer => (crossWithdraw session amount answer).session
  | setLeverage leverage answer => (crossSetLeverage session leverage answer).session
  | order request _ orderAnswer answer => (crossOrder session request orderAnswer answer).session
  | closePosition latest _ orderAnswer answer =>
    (crossOrderClosePosition session latest orderAnswer answer).session
  | refresh answer => orKeep session (LiveTradeExecutor.refreshCrossPosition session answer)
  | renew recover tslStepSize sources =>
    orKeep session (LiveTradingSession.new sdk recover tslStepSize sources (some session))

/-- Closing sends an order when the fresh snapshot is accepted and shows a running position. -/
def sendsOrder (session : LiveTradingSession) (latest : Except ε (CrossPosition ε)) : Bool :=
  match LiveTradeExecutor.refreshCrossPosition session latest with
  | .ok newSession => newSession.crossPosition.isRunning
  | .error _ => false

/-- The account after the step: an answered transfer was made, an order that was sent filled. -/
def accountAfter (session : LiveTradingSession) (account : CrossAccount) :
    CrossStep ε → CrossAccount
  | settle s => account.settle s
  | deposit amount answer =>
    if amount ≤ session.balance ∧ answer.isOk = true then account.transfer amount else account
  | withdraw amount answer => if answer.isOk = true then account.transfer (-amount) else account
  | order _ fill _ _ => account.settle fill
  | closePosition latest fill _ _ =>
    if sendsOrder session latest = true then account.settle fill else account
  | setLeverage _ _ | refresh _ | renew _ _ _ => account

end CrossStep

/-- The session and the exchange's account after a step. -/
def crossNext (sdk : LnmSdk ε) (p : LiveTradingSession × CrossAccount) (step : CrossStep ε) :
    LiveTradingSession × CrossAccount :=
  (step.perform sdk p.1, step.accountAfter p.1 p.2)

/-- Every snapshot in the answers shows the account as it is at that moment. -/
def Shown (p : LiveTradingSession × CrossAccount) : CrossStep ε → Prop
  | .settle _ => True
  | .deposit amount answer => (amount : ℕ) ≤ p.1.balance → (p.2.transfer amount).ShownBy answer
  | .withdraw amount answer => (p.2.transfer (-amount)).ShownBy answer
  | .setLeverage leverage answer => p.2.ShownBy (answer leverage)
  | .order _ fill _ answer => (p.2.settle fill).ShownBy answer
  | .closePosition latest fill _ answer => p.2.ShownBy latest ∧ (p.2.settle fill).ShownBy answer
  | .refresh answer => p.2.ShownBy answer
  | .renew _ _ sources => p.2.ShownBy sources.crossPosition

/-- The exchange realized nothing that the session has not booked. -/
def UpToDate (p : LiveTradingSession × CrossAccount) : Prop := unbooked p.1.crossPosition p.2 = 0

/-- A snapshot that is answered and accepted. -/
def Accepts (answer : Except ε (CrossPosition ε)) : Prop :=
  match answer with
  | .ok raw => raw.exposure.isOk = true
  | .error _ => False

/-- The order is answered as filled, and the position can book the snapshot after it. -/
def Fills (pos : LiveCrossPosition) (orderAnswer : Except ε CrossOrder)
    (answer : Except ε (CrossPosition ε)) : Prop :=
  match orderAnswer, answer with
  | .ok order, .ok raw =>
    order.filled = true ∧ (pos.updateAfterOrder raw : ActionResult ε _).isOk = true
  | _, _ => False

/-- The first snapshot of a close is accepted, and shows no position or one that is closed. -/
def ClosesPosition (pos : LiveCrossPosition) (latest : Except ε (CrossPosition ε))
    (orderAnswer : Except ε CrossOrder) (answer : Except ε (CrossPosition ε)) : Prop :=
  match latest with
  | .ok raw =>
    match (pos.updateFromRaw raw : ActionResult ε _) with
    | .ok fresh => fresh.isRunning = false ∨ Fills fresh orderAnswer answer
    | .error _ => False
  | .error _ => False

/-- The session has booked what a snapshot outside of an order can show, and it takes over
every transfer that the exchange made. -/
def Books (sdk : LnmSdk ε) (p : LiveTradingSession × CrossAccount) : CrossStep ε → Prop
  | .settle _ | .order _ _ _ _ => True
  | .deposit amount answer =>
    (amount : ℕ) ≤ p.1.balance → answer.isOk = true → Accepts answer ∧ UpToDate p
  | .withdraw amount answer =>
    answer.isOk = true → Accepts answer ∧ p.1.balance + amount < 2 ^ 64 ∧ UpToDate p
  | .setLeverage leverage answer => Accepts (answer leverage) → UpToDate p
  | .closePosition latest _ orderAnswer answer =>
    ClosesPosition p.1.crossPosition latest orderAnswer answer → UpToDate p
  | .refresh answer => Accepts answer → UpToDate p
  | .renew recover tslStepSize sources =>
    (LiveTradingSession.new sdk recover tslStepSize sources (some p.1)).isOk = true → UpToDate p

instance (p : LiveTradingSession × CrossAccount) : Decidable (UpToDate p) :=
  inferInstanceAs (Decidable (_ = _))

instance : ∀ answer : Except ε (CrossPosition ε), Decidable (Accepts answer)
  | .ok raw => inferInstanceAs (Decidable (raw.exposure.isOk = true))
  | .error _ => inferInstanceAs (Decidable False)

instance (pos : LiveCrossPosition) : ∀ (orderAnswer : Except ε CrossOrder)
    (answer : Except ε (CrossPosition ε)), Decidable (Fills pos orderAnswer answer)
  | .ok _, .ok _ => inferInstanceAs (Decidable (_ = true ∧ _ = true))
  | .ok _, .error _ | .error _, _ => inferInstanceAs (Decidable False)

instance (pos : LiveCrossPosition) (latest : Except ε (CrossPosition ε))
    (orderAnswer : Except ε CrossOrder) (answer : Except ε (CrossPosition ε)) :
    Decidable (ClosesPosition pos latest orderAnswer answer) :=
  match latest with
  | .ok raw =>
    match h : (pos.updateFromRaw raw : ActionResult ε _) with
    | .ok fresh => decidable_of_iff (fresh.isRunning = false ∨ Fills fresh orderAnswer answer)
        (by simp [ClosesPosition, h])
    | .error _ => isFalse (by simp [ClosesPosition, h])
  | .error _ => isFalse id

instance (p : LiveTradingSession × CrossAccount) : ∀ step : CrossStep ε, Decidable (Shown p step)
  | .settle _ => inferInstanceAs (Decidable True)
  | .deposit _ _ => inferInstanceAs (Decidable (_ ≤ _ → CrossAccount.ShownBy _ _))
  | .withdraw _ _ => inferInstanceAs (Decidable (CrossAccount.ShownBy _ _))
  | .setLeverage _ _ => inferInstanceAs (Decidable (CrossAccount.ShownBy _ _))
  | .order _ _ _ _ => inferInstanceAs (Decidable (CrossAccount.ShownBy _ _))
  | .closePosition _ _ _ _ => inferInstanceAs (Decidable (_ ∧ _))
  | .refresh _ => inferInstanceAs (Decidable (CrossAccount.ShownBy _ _))
  | .renew _ _ _ => inferInstanceAs (Decidable (CrossAccount.ShownBy _ _))

instance (p : LiveTradingSession × CrossAccount) :
    ∀ step : CrossStep ε, Decidable (Books sdk p step)
  | .settle _ | .order _ _ _ _ => inferInstanceAs (Decidable True)
  | .deposit _ _ => inferInstanceAs (Decidable (_ ≤ _ → _ = true → _ ∧ _))
  | .withdraw _ _ => inferInstanceAs (Decidable (_ = true → _ ∧ _ ∧ _))
  | .setLeverage _ _ => inferInstanceAs (Decidable (Accepts _ → UpToDate p))
  | .closePosition _ _ _ _ => inferInstanceAs (Decidable (ClosesPosition _ _ _ _ → UpToDate p))
  | .refresh _ => inferInstanceAs (Decidable (Accepts _ → UpToDate p))
  | .renew _ _ _ => inferInstanceAs (Decidable (_ = true → UpToDate p))

def held (p : LiveTradingSession × CrossAccount) : ℤ :=
  heldBy p.1.crossPosition p.2.netTransfers

/-- The account's trading fees are at least those of the session's snapshot. -/
def Known (p : LiveTradingSession × CrossAccount) : Prop :=
  p.1.crossPosition.currTradingFees ≤ p.2.tradingFees

/-! ### What an answered snapshot does -/

/-- The position after a snapshot, when one is answered and accepted. -/
def seen (pos : LiveCrossPosition) (answer : Except ε (CrossPosition ε)) : LiveCrossPosition :=
  match answer with
  | .ok raw => orKeep pos (pos.updateFromRaw raw)
  | .error _ => pos

variable {answer : Except ε (CrossPosition ε)}

theorem seen_of_not_accepts (h : ¬ Accepts answer) : seen pos answer = pos := by
  cases answer with
  | error e => rfl
  | ok raw =>
      cases hexposure : raw.exposure with
      | error e => simp [seen, orKeep, LiveCrossPosition.updateFromRaw, hexposure,
          bind, Except.bind]
      | ok exposure => simp [Accepts, hexposure, Except.isOk, Except.toBool] at h

theorem not_accepts_of_unanswered (h : answer.isOk = false) : ¬ Accepts answer := by
  cases answer with
  | error e => exact id
  | ok raw => simp [Except.isOk, Except.toBool] at h

theorem heldBy_seen (hknown : pos.currTradingFees ≤ account.tradingFees)
    (hshown : account.ShownBy answer) (h : Accepts answer) (netTransfers : ℤ) :
    heldBy (seen pos answer) netTransfers = heldBy pos netTransfers + unbooked pos account := by
  cases answer with
  | error e => exact h.elim
  | ok raw =>
      obtain ⟨pos', hpos'⟩ := (updateFromRaw_isOk_iff hknown hshown).mpr h
      rw [← heldBy_updateFromRaw hpos' hshown, seen, hpos', orKeep]

theorem currTradingFees_seen (hknown : pos.currTradingFees ≤ account.tradingFees)
    (hshown : account.ShownBy answer) :
    (seen pos answer).currTradingFees ≤ account.tradingFees := by
  cases answer with
  | error e => exact hknown
  | ok raw =>
      cases hupdate : pos.updateFromRaw raw with
      | error e => simpa [seen, hupdate, orKeep] using hknown
      | ok pos' =>
          rw [seen, hupdate, orKeep, currTradingFees_updateFromRaw hupdate, hshown.2.1]

/-- A snapshot outside of an order keeps the quantity when there was nothing to book. -/
theorem heldBy_seen_iff (hknown : pos.currTradingFees ≤ account.tradingFees)
    (hshown : account.ShownBy answer) (netTransfers : ℤ) :
    heldBy (seen pos answer) netTransfers = heldBy pos netTransfers ↔
      (Accepts answer → unbooked pos account = 0) := by
  by_cases h : Accepts answer
  · rw [heldBy_seen hknown hshown h, add_eq_left, forall_prop_of_true h]
  · rw [seen_of_not_accepts h]
    exact iff_of_true rfl fun haccepts => absurd haccepts h

/-! ### The position that each operation leaves -/

variable {session : LiveTradingSession}

theorem replaceCrossPosition_eq (session : LiveTradingSession) (raw : CrossPosition ε) :
    session.replaceCrossPosition raw =
      (session.crossPosition.updateFromRaw raw).map fun pos =>
        { session with crossPosition := pos } := by
  unfold LiveTradingSession.replaceCrossPosition
  cases session.crossPosition.updateFromRaw raw <;> rfl

theorem session_store {α : Type} (session : LiveTradingSession) (opened closed : List Uuid)
    (r : ActionResult ε (LiveTradingSession × α)) :
    (LiveOutcome.store session opened closed r).session = orKeep session (r.map (·.1)) := by
  cases r <;> rfl

theorem session_withCrossPosition (session : LiveTradingSession)
    (r : ActionResult ε LiveTradingSession) :
    (LiveOutcome.store session [] [] (withCrossPosition r)).session = orKeep session r := by
  cases r <;> rfl

theorem crossPosition_refresh (session : LiveTradingSession)
    (answer : Except ε (CrossPosition ε)) :
    (orKeep session (LiveTradeExecutor.refreshCrossPosition session answer)).crossPosition =
      seen session.crossPosition answer := by
  cases answer with
  | error e => rfl
  | ok raw =>
      show (orKeep session (session.replaceCrossPosition raw)).crossPosition = _
      rw [replaceCrossPosition_eq, seen]
      cases session.crossPosition.updateFromRaw raw <;> rfl

theorem crossPosition_setLeverage (leverage : CrossLeverage)
    (answer : CrossLeverage → Except ε (CrossPosition ε)) :
    (crossSetLeverage session leverage answer).session.crossPosition =
      seen session.crossPosition (answer leverage) := by
  rw [crossSetLeverage, session_withCrossPosition]
  exact crossPosition_refresh session (answer leverage)

theorem crossPosition_deposit (session : LiveTradingSession) (amount : ℕ)
    (answer : Except ε (CrossPosition ε)) :
    (crossDeposit session amount answer).session.crossPosition =
      if amount ≤ session.balance then seen session.crossPosition answer
      else session.crossPosition := by
  rw [crossDeposit, session_withCrossPosition]
  by_cases hlow : amount ≤ session.balance
  · rw [if_neg (not_lt.mpr hlow), if_pos hlow]
    cases answer with
    | error e => rfl
    | ok raw =>
        show (orKeep session (session.applyCrossDeposit amount raw)).crossPosition = _
        rw [LiveTradingSession.applyCrossDeposit, if_neg (not_lt.mpr hlow),
          replaceCrossPosition_eq, seen]
        cases session.crossPosition.updateFromRaw raw <;> rfl
  · rw [if_pos (not_le.mp hlow), if_neg hlow]
    rfl

theorem crossPosition_withdraw (session : LiveTradingSession) (amount : ℕ)
    (answer : Except ε (CrossPosition ε)) :
    (crossWithdraw session amount answer).session.crossPosition =
      if session.balance + amount < 2 ^ 64 then seen session.crossPosition answer
      else session.crossPosition := by
  rw [crossWithdraw, session_withCrossPosition]
  cases answer with
  | error e => split <;> rfl
  | ok raw =>
      show (orKeep session (session.applyCrossWithdraw amount raw)).crossPosition = _
      rw [LiveTradingSession.applyCrossWithdraw, replaceCrossPosition_eq, seen, U64.checkedAdd]
      by_cases hfits : session.balance + amount < 2 ^ 64
      · rw [if_pos hfits, if_pos hfits]
        cases session.crossPosition.updateFromRaw raw <;> rfl
      · rw [if_neg hfits, if_neg hfits]
        rfl

/-- An order leaves the position as it was or books all that the snapshot shows. -/
theorem afterCrossOrder_cases {orderAnswer : Except ε CrossOrder}
    {newSession : LiveTradingSession} {orderId : Uuid}
    (h : afterCrossOrder session orderAnswer answer = .ok (newSession, orderId)) :
    ∃ raw, answer = .ok raw ∧ (session.crossPosition.updateAfterOrder raw : ActionResult ε _) =
      .ok newSession.crossPosition := by
  simp only [afterCrossOrder, bind_eq_ok, mapError_eq_ok] at h
  obtain ⟨order, -, h⟩ := h
  split_ifs at h
  simp only [bind_eq_ok, mapError_eq_ok, pure_eq_ok, Prod.mk.injEq,
    LiveTradingSession.registerCrossOrder] at h
  obtain ⟨raw, hraw, _, ⟨cross, hcross, rfl⟩, rfl, -⟩ := h
  exact ⟨raw, hraw, hcross⟩

theorem afterCrossOrder_isOk_iff {orderAnswer : Except ε CrossOrder} :
    (∃ r, afterCrossOrder session orderAnswer answer = .ok r) ↔
      Fills session.crossPosition orderAnswer answer := by
  cases orderAnswer with
  | error e => simp [afterCrossOrder, Fills, bind, Except.bind]
  | ok order =>
      cases hfilled : order.filled with
      | false => cases answer <;> simp [afterCrossOrder, Fills, hfilled, bind, Except.bind]
      | true =>
          cases answer with
          | error e => simp [afterCrossOrder, Fills, hfilled, bind, Except.bind]
          | ok raw =>
              cases hupdate : (session.crossPosition.updateAfterOrder raw :
                ActionResult ε _) with
              | error e => simp [afterCrossOrder, Fills, hfilled, hupdate,
                  LiveTradingSession.registerCrossOrder, bind, Except.bind, Except.isOk,
                  Except.toBool]
              | ok pos => simp [afterCrossOrder, Fills, hfilled, hupdate,
                  LiveTradingSession.registerCrossOrder, bind, Except.bind, pure, Except.pure,
                  Except.isOk, Except.toBool]

/-! ### Steps keep the quantity when they book -/

theorem heldBy_add (pos : LiveCrossPosition) (n amount : ℤ) :
    heldBy pos (n + amount) = heldBy pos n - amount := by
  rw [heldBy, heldBy]
  ring

theorem unbooked_transfer (pos : LiveCrossPosition) (account : CrossAccount) (amount : ℤ) :
    unbooked pos (account.transfer amount) = unbooked pos account + amount := by
  simp only [unbooked, CrossAccount.transfer]
  ring

variable {p : LiveTradingSession × CrossAccount}

/-- The trading fees stay known, and the quantity stays the same just when the step books
what there is to book. -/
structure StepSpec (sdk : LnmSdk ε) (p : LiveTradingSession × CrossAccount)
    (step : CrossStep ε) : Prop where
  known : Known (crossNext sdk p step)
  held_iff : held (crossNext sdk p step) = held p ↔ Books sdk p step

/-- A step that takes over a snapshot and moves nothing else. -/
theorem StepSpec.of_seen {step : CrossStep ε} (hknown : Known p) (hshown : p.2.ShownBy answer)
    (hpos : (step.perform sdk p.1).crossPosition = seen p.1.crossPosition answer)
    (haccount : step.accountAfter p.1 p.2 = p.2)
    (hbooks : Books sdk p step ↔ (Accepts answer → UpToDate p)) : StepSpec sdk p step := by
  constructor
  · rw [Known, crossNext, hpos, haccount]
    exact currTradingFees_seen hknown hshown
  · rw [held, crossNext, hpos, haccount, hbooks]
    exact heldBy_seen_iff hknown hshown _

/-- A step that moves neither the position nor the account's transfers. -/
theorem StepSpec.of_same {step : CrossStep ε} (hknown : Known p)
    (hpos : (step.perform sdk p.1).crossPosition = p.1.crossPosition)
    (htransfers : (step.accountAfter p.1 p.2).netTransfers = p.2.netTransfers)
    (hfees : p.2.tradingFees ≤ (step.accountAfter p.1 p.2).tradingFees)
    (hbooks : Books sdk p step) : StepSpec sdk p step := by
  constructor
  · rw [Known, crossNext, hpos]
    exact le_trans hknown hfees
  · rw [held, crossNext, hpos, htransfers]
    exact iff_of_true rfl hbooks

/-- A transfer that the exchange made, with the answer that shows it. -/
theorem StepSpec.of_transfer {step : CrossStep ε} {amount : ℤ} (hamount : amount ≠ 0)
    (hknown : Known p) (hshown : (p.2.transfer amount).ShownBy answer) {applies : Prop}
    [Decidable applies] (hpos : (step.perform sdk p.1).crossPosition =
      if applies then seen p.1.crossPosition answer else p.1.crossPosition)
    (haccount : step.accountAfter p.1 p.2 = p.2.transfer amount)
    (hbooks : Books sdk p step ↔ Accepts answer ∧ applies ∧ UpToDate p) :
    StepSpec sdk p step := by
  have hknown' : p.1.crossPosition.currTradingFees ≤ (p.2.transfer amount).tradingFees := hknown
  have hnot : heldBy p.1.crossPosition (p.2.netTransfers + amount) ≠
      heldBy p.1.crossPosition p.2.netTransfers := by
    rw [heldBy_add]
    omega
  constructor
  · rw [Known, crossNext, hpos, haccount]
    by_cases happlies : applies
    · rw [if_pos happlies]
      exact currTradingFees_seen hknown' hshown
    · rw [if_neg happlies]
      exact hknown'
  · rw [held, crossNext, hpos, haccount, hbooks, held]
    show heldBy _ (p.2.netTransfers + amount) = _ ↔ _
    by_cases happlies : applies
    · rw [if_pos happlies]
      by_cases haccepts : Accepts answer
      · rw [heldBy_seen hknown' hshown haccepts, heldBy_add, unbooked_transfer, UpToDate]
        constructor
        · intro h
          exact ⟨haccepts, happlies, by omega⟩
        · intro h
          have hbooked := h.2.2
          omega
      · rw [seen_of_not_accepts haccepts]
        exact iff_of_false hnot fun h => haccepts h.1
    · rw [if_neg happlies]
      exact iff_of_false hnot fun h => happlies h.2.1

theorem stepSpec_deposit {amount : ℕ+} (hknown : Known p)
    (hshown : Shown p (.deposit amount answer)) : StepSpec sdk p (.deposit amount answer) := by
  have hpos := crossPosition_deposit p.1 amount answer
  by_cases hlow : (amount : ℕ) ≤ p.1.balance
  · cases hanswer : answer.isOk with
    | false =>
        have hrefuses := not_accepts_of_unanswered hanswer
        refine StepSpec.of_same hknown ?_ ?_ ?_ ?_
        · rw [CrossStep.perform, hpos, if_pos hlow, seen_of_not_accepts hrefuses]
        · simp [CrossStep.accountAfter, hanswer]
        · simp [CrossStep.accountAfter, hanswer]
        · exact fun _ hok => absurd hok (by simp [hanswer])
    | true =>
        refine StepSpec.of_transfer (by simp) hknown (hshown hlow) hpos ?_ ?_
        · rw [CrossStep.accountAfter, if_pos ⟨hlow, hanswer⟩]
        · simp [Books, hlow, hanswer]
  · refine StepSpec.of_same hknown ?_ ?_ ?_ ?_
    · rw [CrossStep.perform, hpos, if_neg hlow]
    · simp [CrossStep.accountAfter, hlow]
    · simp [CrossStep.accountAfter, hlow]
    · exact fun h => absurd h hlow

theorem stepSpec_withdraw {amount : ℕ+} (hknown : Known p)
    (hshown : Shown p (.withdraw amount answer)) : StepSpec sdk p (.withdraw amount answer) := by
  have hpos := crossPosition_withdraw p.1 amount answer
  cases hanswer : answer.isOk with
  | false =>
      have hrefuses := not_accepts_of_unanswered hanswer
      refine StepSpec.of_same hknown ?_ ?_ ?_ ?_
      · rw [CrossStep.perform, hpos, seen_of_not_accepts hrefuses, ite_self]
      · simp [CrossStep.accountAfter, hanswer]
      · simp [CrossStep.accountAfter, hanswer]
      · exact fun hok => absurd hok (by simp [hanswer])
  | true =>
      refine StepSpec.of_transfer (by simp) hknown hshown hpos ?_ ?_
      · rw [CrossStep.accountAfter, if_pos hanswer]
      · simp [Books, hanswer]

theorem stepSpec_order {request : CrossOrderRequest} {fill : Settlement}
    {orderAnswer : TradeSide → Quantity → Except ε CrossOrder} (hknown : Known p)
    (hshown : Shown p (.order request fill orderAnswer answer)) :
    StepSpec sdk p (.order request fill orderAnswer answer) := by
  have hpos : ((crossOrder p.1 request orderAnswer answer).session.crossPosition =
        p.1.crossPosition) ∨ ∃ raw, answer = .ok raw ∧
      (p.1.crossPosition.updateAfterOrder raw : ActionResult ε _) =
        .ok (crossOrder p.1 request orderAnswer answer).session.crossPosition := by
    rw [crossOrder, session_store]
    cases h : afterCrossOrder p.1 (orderAnswer request.side request.quantity) answer with
    | error e => exact Or.inl rfl
    | ok new => exact Or.inr (afterCrossOrder_cases h)
  rcases hpos with hsame | ⟨raw, rfl, hupdate⟩
  · exact StepSpec.of_same hknown hsame rfl (Nat.le_add_right _ _) trivial
  · constructor
    · show (crossOrder p.1 request orderAnswer (.ok raw)).session.crossPosition.currTradingFees ≤ _
      rw [currTradingFees_updateAfterOrder hupdate]
      exact hshown.2.1.le
    · exact iff_of_true (heldBy_updateAfterOrder hupdate _) trivial

theorem accepts_of_update {raw : CrossPosition ε}
    (h : (pos.updateFromRaw raw : ActionResult ε _) = .ok pos') : Accepts (.ok raw) := by
  cases hexposure : raw.exposure with
  | error e => simp [LiveCrossPosition.updateFromRaw, hexposure, bind,
      Except.bind] at h
  | ok exposure => simp [Accepts, hexposure, Except.isOk, Except.toBool]

theorem closesPosition_iff {raw : CrossPosition ε} {orderAnswer : Except ε CrossOrder}
    (h : (pos.updateFromRaw raw : ActionResult ε _) = .ok pos') :
    ClosesPosition pos (.ok raw) orderAnswer answer ↔
      pos'.isRunning = false ∨ Fills pos' orderAnswer answer := by
  simp [ClosesPosition, h]

theorem not_closesPosition_of_refused {latest : Except ε (CrossPosition ε)}
    {orderAnswer : Except ε CrossOrder} {e : ExecutorActionError ε}
    (h : LiveTradeExecutor.refreshCrossPosition session latest = .error e) :
    ¬ ClosesPosition session.crossPosition latest orderAnswer answer := by
  cases latest with
  | error e' => exact id
  | ok raw =>
      cases hupdate : (session.crossPosition.updateFromRaw raw : ActionResult ε _) with
      | error e' => simp [ClosesPosition, hupdate]
      | ok pos =>
          have hreplace : session.replaceCrossPosition raw = .error e := h
          rw [replaceCrossPosition_eq, hupdate] at hreplace
          cases hreplace

/-- A close whose fresh snapshot is not accepted ends before anything happened. -/
theorem stepSpec_closePosition_refused {latest : Except ε (CrossPosition ε)} {fill : Settlement}
    {orderAnswer : Except ε CrossOrder} {e : ExecutorActionError ε} (hknown : Known p)
    (hrefresh : LiveTradeExecutor.refreshCrossPosition p.1 latest = .error e) :
    StepSpec sdk p (.closePosition latest fill orderAnswer answer) := by
  have hclose : crossOrderClosePosition p.1 latest orderAnswer answer =
      ⟨p.1, .error e, [], []⟩ := by
    cases latest with
    | error e' =>
        obtain rfl : .restApi e' = e := Except.error.inj hrefresh
        rfl
    | ok raw =>
        have hreplace : p.1.replaceCrossPosition raw = .error e := hrefresh
        simp [crossOrderClosePosition, hreplace, LiveOutcome.store, bind,
          Except.bind]
  have hsends : CrossStep.sendsOrder p.1 latest = false := by
    rw [CrossStep.sendsOrder, hrefresh]
  refine StepSpec.of_same hknown ?_ ?_ ?_ ?_
  · rw [CrossStep.perform, hclose]
  · simp [CrossStep.accountAfter, hsends]
  · simp [CrossStep.accountAfter, hsends]
  · exact fun hcloses => absurd hcloses (not_closesPosition_of_refused hrefresh)

theorem stepSpec_closePosition {latest : Except ε (CrossPosition ε)} {fill : Settlement}
    {orderAnswer : Except ε CrossOrder} (hknown : Known p)
    (hshown : Shown p (.closePosition latest fill orderAnswer answer)) :
    StepSpec sdk p (.closePosition latest fill orderAnswer answer) := by
  cases hrefresh : LiveTradeExecutor.refreshCrossPosition p.1 latest with
  | error e => exact stepSpec_closePosition_refused hknown hrefresh
  | ok fresh =>
      have hraw : ∃ raw, latest = .ok raw ∧ p.1.replaceCrossPosition raw = .ok fresh := by
        simpa [LiveTradeExecutor.refreshCrossPosition] using hrefresh
      obtain ⟨raw, rfl, hreplace⟩ := hraw
      have hupdate : (p.1.crossPosition.updateFromRaw raw : ActionResult ε _) =
          .ok fresh.crossPosition := by
        rw [replaceCrossPosition_eq, exceptMap_eq_ok] at hreplace
        obtain ⟨pos', hpos', rfl⟩ := hreplace
        exact hpos'
      have haccepts := accepts_of_update hupdate
      have hclose : crossOrderClosePosition p.1 (.ok raw) orderAnswer answer =
          .store p.1 [] [] (if !fresh.crossPosition.isRunning then pure (fresh, none) else do
            let ordered ← afterCrossOrder fresh orderAnswer answer
            pure (ordered.1, some ordered.2)) := by
        simp [crossOrderClosePosition, hreplace, bind, Except.bind]
      have hsends : CrossStep.sendsOrder p.1 (.ok raw) = fresh.crossPosition.isRunning := by
        rw [CrossStep.sendsOrder, hrefresh]
      cases hrunning : fresh.crossPosition.isRunning with
      | false =>
          rw [hrunning] at hclose hsends
          refine StepSpec.of_seen hknown hshown.1 ?_ ?_ ?_
          · rw [CrossStep.perform, hclose, seen, hupdate]
            rfl
          · simp [CrossStep.accountAfter, hsends]
          · simp only [Books, closesPosition_iff hupdate, hrunning, true_or, haccepts, forall_const]
      | true =>
          rw [hrunning] at hclose hsends
          simp only [Bool.not_true, Bool.false_eq_true, if_false] at hclose
          have haccount : (CrossStep.closePosition (.ok raw) fill orderAnswer answer).accountAfter
              p.1 p.2 = p.2.settle fill := by simp [CrossStep.accountAfter, hsends]
          cases horder : afterCrossOrder fresh orderAnswer answer with
          | error e =>
              rw [horder] at hclose
              refine StepSpec.of_same hknown ?_ ?_ ?_ ?_
              · rw [CrossStep.perform, hclose]
                rfl
              · rw [haccount]
                rfl
              · rw [haccount]
                exact Nat.le_add_right _ _
              · intro hcloses
                rw [closesPosition_iff hupdate, hrunning, ← afterCrossOrder_isOk_iff,
                  horder] at hcloses
                simp at hcloses
          | ok new =>
              obtain ⟨raw', rfl, hbooked⟩ := afterCrossOrder_cases horder
              rw [horder] at hclose
              constructor
              · rw [Known, crossNext, haccount, CrossStep.perform, hclose]
                show new.1.crossPosition.currTradingFees ≤ _
                rw [currTradingFees_updateAfterOrder hbooked]
                exact hshown.2.2.1.le
              · rw [held, crossNext, haccount, CrossStep.perform, hclose]
                show heldBy new.1.crossPosition p.2.netTransfers = _ ↔ _
                rw [heldBy_updateAfterOrder hbooked, heldBy_updateFromRaw hupdate hshown.1, held,
                  add_eq_left]
                have hcloses : ClosesPosition p.1.crossPosition (.ok raw) orderAnswer (.ok raw') :=
                  (closesPosition_iff hupdate).mpr
                    (Or.inr (afterCrossOrder_isOk_iff.mp ⟨_, horder⟩))
                simp only [Books, hcloses, forall_const]
                rfl

theorem stepSpec_renew {recover : Bool} {tslStepSize : PercentageCapped}
    {sources : SessionSources ε} (hknown : Known p)
    (hshown : Shown p (.renew recover tslStepSize sources)) :
    StepSpec sdk p (.renew recover tslStepSize sources) := by
  cases hnew : LiveTradingSession.new sdk recover tslStepSize sources (some p.1) with
  | error e =>
      refine StepSpec.of_same hknown ?_ rfl le_rfl ?_
      · rw [CrossStep.perform, hnew]
        rfl
      · intro hok
        simp [hnew, Except.isOk, Except.toBool] at hok
  | ok s' =>
      obtain ⟨raw, hraw, hupdate⟩ := crossPosition_of_new hnew
      refine StepSpec.of_seen hknown hshown ?_ rfl ?_
      · rw [CrossStep.perform, hnew, hraw, seen]
        simp only [TakesSnapshot] at hupdate
        rw [hupdate]
        rfl
      · have haccepts := accepts_of_update hupdate
        rw [hraw]
        simp [Books, hnew, haccepts, Except.isOk, Except.toBool]

theorem stepSpec {step : CrossStep ε} (hknown : Known p) (hshown : Shown p step) :
    StepSpec sdk p step := by
  cases step with
  | settle s =>
      exact StepSpec.of_same hknown rfl rfl (Nat.le_add_right _ _) trivial
  | deposit amount answer => exact stepSpec_deposit hknown hshown
  | withdraw amount answer => exact stepSpec_withdraw hknown hshown
  | setLeverage leverage answer =>
      exact StepSpec.of_seen hknown hshown (crossPosition_setLeverage leverage answer) rfl Iff.rfl
  | order request fill orderAnswer answer => exact stepSpec_order hknown hshown
  | closePosition latest fill orderAnswer answer => exact stepSpec_closePosition hknown hshown
  | refresh answer =>
      exact StepSpec.of_seen hknown hshown (crossPosition_refresh p.1 answer) rfl Iff.rfl
  | renew recover tslStepSize sources => exact stepSpec_renew hknown hshown

/-! ### Runs -/

/-- A first session, and the account that its snapshot shows. -/
def Starts (sdk : LnmSdk ε) (p : LiveTradingSession × CrossAccount) : Prop :=
  ∃ recover tslStepSize sources,
    LiveTradingSession.new sdk recover tslStepSize sources none = .ok p.1 ∧
    p.2.ShownBy sources.crossPosition

theorem known_of_starts (h : Starts sdk p) : Known p := by
  obtain ⟨recover, tslStepSize, sources, hnew, hshown⟩ := h
  obtain ⟨raw, hraw, hpos⟩ := crossPosition_of_new hnew
  rw [hraw] at hshown
  simp only [TakesSnapshot, LiveCrossPosition.fromRaw, bind_eq_ok, pure_eq_ok] at hpos
  obtain ⟨exposure, -, hpos⟩ := hpos
  rw [Known, ← hpos]
  exact hshown.2.1.le

theorem held_constant_iff {steps : List (CrossStep ε)} (hknown : Known p)
    (hshown : Runs.System.Along (crossNext sdk) Shown p steps) :
    (∀ done, done <+: steps → held (done.foldl (crossNext sdk) p) = held p) ↔
      Runs.System.Along (crossNext sdk) (Books sdk) p steps := by
  induction steps generalizing p with
  | nil => simp [Runs.System.Along]
  | cons step rest ih =>
      obtain ⟨hstep, hrest⟩ := hshown
      have hspec : StepSpec sdk _ _ := stepSpec hknown hstep
      have ih := ih hspec.known hrest
      rw [Runs.System.Along, ← ih, ← hspec.held_iff]
      constructor
      · intro h
        have hfirst := h [step] (by simp)
        refine ⟨hfirst, ?_⟩
        intro done hdone
        rw [List.foldl_cons, List.foldl_nil] at hfirst
        have hall := h (step :: done) (by simpa using hdone)
        rw [List.foldl_cons] at hall
        rw [hall, hfirst]
      · intro ⟨hfirst, h⟩ done hdone
        cases done with
        | nil => rfl
        | cons first done =>
            have hcons := List.cons_prefix_cons.mp hdone
            obtain rfl := hcons.1
            rw [List.foldl_cons, h done hcons.2, hfirst]

/-- The quantity of the cross ledger is the same after every step of a run exactly when every
step finds the session up to date with what the exchange realized, as far as its snapshots are
not taken after an order, and takes over the transfers that the exchange made. -/
theorem cross_ledger_constant_iff {steps : List (CrossStep ε)} (hstart : Starts sdk p)
    (hshown : Runs.System.Along (crossNext sdk) Shown p steps) :
    (∀ done, done <+: steps → held (done.foldl (crossNext sdk) p) = held p) ↔
      Runs.System.Along (crossNext sdk) (Books sdk) p steps :=
  held_constant_iff (known_of_starts hstart) hshown

/-! ### A liquidation that a refresh finds -/

def longExposure : CrossExposure :=
  .running ⟨.buy, ⟨1000⟩, ReferenceSdk.price 100000, ReferenceSdk.price 50000,
    ReferenceSdk.margin 100000, ReferenceSdk.margin 2000⟩

/-- What the API shows of an account of one id and leverage. -/
def crossSnapshot (margin : ℕ) (exposure : CrossExposure) (fundingFees : ℤ) (tradingFees : ℕ) :
    Except Refusal (CrossPosition Refusal) :=
  .ok ⟨⟨0⟩, margin, ⟨1⟩, .ok exposure, fundingFees, tradingFees⟩

/-- A session that starts on a running long. -/
def longSession : ActionResult Refusal LiveTradingSession :=
  LiveTradingSession.new referenceSdk true ReferenceSdk.tenthPercent
    { accountSources 0 [] .empty with crossPosition := crossSnapshot 500000 longExposure 0 0 } none

theorem longSession_isOk : longSession.isOk = true := by decide +kernel

def longStart : LiveTradingSession × CrossAccount :=
  (get _ longSession_isOk, ⟨500000, 0, 0, 0, 0⟩)

theorem longStart_starts : Starts referenceSdk longStart :=
  ⟨_, _, _, eq_ok_get longSession_isOk, rfl, rfl, rfl⟩

/-- The exchange liquidates the long, and the session refreshes. -/
def liquidatedSteps : List (CrossStep Refusal) :=
  [.settle ⟨-499000, 1000, 0⟩, .refresh (crossSnapshot 0 .neutral 0 1000)]

theorem refresh_misses_liquidation :
    Starts referenceSdk longStart ∧
      Runs.System.Along (crossNext referenceSdk) Shown longStart liquidatedSteps ∧
      held longStart = 500000 ∧
      held (liquidatedSteps.foldl (crossNext referenceSdk) longStart) = 1000 :=
  ⟨longStart_starts, by decide +kernel, by decide +kernel, by decide +kernel⟩

/-- A deposit, a funding and a close with a loss, all of them booked. -/
def closedSteps : List (CrossStep Refusal) :=
  [.deposit ⟨100000, by decide⟩ (crossSnapshot 600000 longExposure 0 0),
    .settle ⟨0, 0, 50⟩,
    .closePosition (crossSnapshot 599950 longExposure 50 0) ⟨-2000, 100, 0⟩
      (.ok ⟨⟨1⟩, true, some (Duration.minutes 1), Duration.minutes 1⟩)
      (crossSnapshot 597850 .neutral 50 100)]

theorem cross_ledger_constant_closed :
    held longStart = 500000 ∧
      held (closedSteps.foldl (crossNext referenceSdk) longStart) = held longStart :=
  ⟨by decide +kernel,
    (cross_ledger_constant_iff longStart_starts (by decide +kernel)).mpr (by decide +kernel)
      closedSteps List.prefix_rfl⟩

end Quantoxide.Live
