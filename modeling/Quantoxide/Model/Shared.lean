import Quantoxide.Model.Time

/-! # Resolutions, periods and lookbacks

Validated values carry their bounds, so an out-of-range period or an over-long lookback
cannot be built. -/

namespace Quantoxide

inductive OhlcResolution
  | oneMinute
  | threeMinutes
  | fiveMinutes
  | tenMinutes
  | fifteenMinutes
  | thirtyMinutes
  | fortyFiveMinutes
  | oneHour
  | twoHours
  | threeHours
  | fourHours
  | oneDay
deriving DecidableEq, Repr

namespace OhlcResolution

def asMinutes : OhlcResolution → ℤ
  | oneMinute => 1
  | threeMinutes => 3
  | fiveMinutes => 5
  | tenMinutes => 10
  | fifteenMinutes => 15
  | thirtyMinutes => 30
  | fortyFiveMinutes => 45
  | oneHour => 60
  | twoHours => 120
  | threeHours => 180
  | fourHours => 240
  | oneDay => 1440

def asSeconds (r : OhlcResolution) : ℤ := r.asMinutes * 60

theorem asMinutes_pos (r : OhlcResolution) : 0 < r.asMinutes := by
  cases r <;> decide

theorem asMinutes_injective : Function.Injective asMinutes := by
  intro r s h
  cases r <;> cases s <;> first | rfl | simp [asMinutes] at h

instance : LinearOrder OhlcResolution := LinearOrder.lift' asMinutes asMinutes_injective

theorem asSeconds_pos (r : OhlcResolution) : 0 < r.asSeconds :=
  Int.mul_pos r.asMinutes_pos (by decide)

end OhlcResolution

/-- `Lookback::MAX`: 500 days. -/
def Lookback.MAX : ℤ := Duration.days 500

inductive PeriodValidationError
  | tooShort (value : ℤ)
  | tooLong (value : ℤ)
deriving DecidableEq, Repr

def Period.MIN : ℤ := 1

/-- `Lookback::MAX` at one-minute resolution. -/
def Period.MAX : ℤ := Lookback.MAX.tdiv 60000000000

structure Period where
  asInt : ℤ
  min_le : Period.MIN ≤ asInt
  le_max : asInt ≤ Period.MAX
deriving DecidableEq

namespace Period

/-- `TryFrom` of the integer types. -/
def tryFrom (value : ℤ) : Except PeriodValidationError Period :=
  if h : value < Period.MIN then .error (.tooShort value)
  else if h' : value > Period.MAX then .error (.tooLong value)
  else .ok ⟨value, not_lt.mp h, not_lt.mp h'⟩

def asDuration (p : Period) (r : OhlcResolution) : ℤ :=
  Duration.minutes (p.asInt * r.asMinutes)

def asUsize (p : Period) : ℕ := p.asInt.toNat

instance : LE Period := ⟨fun p q => p.asInt ≤ q.asInt⟩

instance : LT Period := ⟨fun p q => p.asInt < q.asInt⟩

instance (p q : Period) : Decidable (p < q) := inferInstanceAs (Decidable (p.asInt < q.asInt))

instance : Max Period := ⟨fun p q => if p.asInt ≤ q.asInt then q else p⟩

theorem asUsize_pos (p : Period) : 0 < p.asUsize := by
  have h : 1 ≤ p.asInt := p.min_le
  unfold asUsize
  omega

theorem asUsize_cast (p : Period) : (p.asUsize : ℤ) = p.asInt := by
  have h : 1 ≤ p.asInt := p.min_le
  unfold asUsize
  omega

end Period

inductive LookbackValidationError
  | period (e : PeriodValidationError)
  | exceedsMaxLookback (duration : ℤ)
deriving DecidableEq, Repr

structure Lookback where
  resolution : OhlcResolution
  period : Period
  le_max : period.asDuration resolution ≤ Lookback.MAX
deriving DecidableEq

namespace Lookback

def new (resolution : OhlcResolution) (period : Period) :
    Except LookbackValidationError Lookback :=
  let duration := period.asDuration resolution
  if h : duration > Lookback.MAX then .error (.exceedsMaxLookback duration)
  else .ok ⟨resolution, period, not_lt.mp h⟩

def tryNew (resolution : OhlcResolution) (value : ℤ) :
    Except LookbackValidationError Lookback :=
  match Period.tryFrom value with
  | .error e => .error (.period e)
  | .ok period => new resolution period

def asDuration (l : Lookback) : ℤ := l.period.asDuration l.resolution

theorem new_self (l : Lookback) : new l.resolution l.period = .ok l := by
  have h : ¬ l.period.asDuration l.resolution > Lookback.MAX := not_lt.mpr l.le_max
  simp [new, h]

end Lookback

inductive MinIterationIntervalValidationError
  | tooShort (value : ℤ)
  | tooLong (value : ℤ)
deriving DecidableEq, Repr

def MinIterationInterval.MIN : ℤ := Duration.seconds 5

def MinIterationInterval.MAX : ℤ := Duration.hours 1

structure MinIterationInterval where
  asDuration : ℤ
  min_le : MinIterationInterval.MIN ≤ asDuration
  le_max : asDuration ≤ MinIterationInterval.MAX
deriving DecidableEq

def MinIterationInterval.tryFrom (value : ℤ) :
    Except MinIterationIntervalValidationError MinIterationInterval :=
  if h : value < MIN then .error (.tooShort value)
  else if h' : value > MAX then .error (.tooLong value)
  else .ok ⟨value, not_lt.mp h, not_lt.mp h'⟩

namespace DateTime

/-- Rust's `/` on `i64` truncates towards zero. -/
def floorToResolution (t : ℤ) (resolution : OhlcResolution) : ℤ :=
  fromTimestamp ((timestamp t).tdiv resolution.asSeconds * resolution.asSeconds)

def stepBackCandles (t : ℤ) (resolution : OhlcResolution) (candles : ℤ) : ℤ :=
  floorToResolution t resolution - Duration.minutes (resolution.asMinutes * candles)

end DateTime

end Quantoxide
