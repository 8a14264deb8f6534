import Mathlib.Algebra.Order.Group.Int

/-! # Instants

A `DateTime<Utc>` is its integer count of nanoseconds from the Unix epoch, a `Duration`
a signed count of nanoseconds. Calendar accessors read the count in UTC. -/

namespace Quantoxide

namespace Duration

def seconds (n : ℤ) : ℤ := n * 1000000000

def minutes (n : ℤ) : ℤ := n * 60000000000

def hours (n : ℤ) : ℤ := n * 3600000000000

def days (n : ℤ) : ℤ := n * 86400000000000

def numMinutes (d : ℤ) : ℤ := d.tdiv 60000000000

def numHours (d : ℤ) : ℤ := d.tdiv 3600000000000

end Duration

namespace DateTime

def hour (t : ℤ) : ℤ := t % 86400000000000 / 3600000000000

def minute (t : ℤ) : ℤ := t % 3600000000000 / 60000000000

def second (t : ℤ) : ℤ := t % 60000000000 / 1000000000

def nanosecond (t : ℤ) : ℤ := t % 1000000000

/-- Whole seconds since the epoch, rounded down. -/
def timestamp (t : ℤ) : ℤ := t / 1000000000

def fromTimestamp (secs : ℤ) : ℤ := secs * 1000000000

/-- `date_naive().and_hms_opt(h, 0, 0)`: the given hour of the UTC day of `t`. -/
def atHour (t : ℤ) (h : ℤ) : ℤ :=
  t / 86400000000000 * 86400000000000 + Duration.hours h

/-- Days from the epoch to a proleptic Gregorian date. -/
def daysFromCivil (year month day : ℤ) : ℤ :=
  let y := if month ≤ 2 then year - 1 else year
  let era := y / 400
  let yoe := y % 400
  let doy := (153 * (if month > 2 then month - 3 else month + 9) + 2) / 5 + day - 1
  era * 146097 + (yoe * 365 + yoe / 4 - yoe / 100 + doy) - 719468

/-- `NaiveDate::from_ymd_opt(y, m, d).and_hms_opt(h, 0, 0).and_utc()`. -/
def ofDateHour (year month day hour : ℤ) : ℤ :=
  Duration.days (daysFromCivil year month day) + Duration.hours hour

/-- The ends of the range `chrono` represents. -/
def maxUtc : ℤ := ofDateHour 262143 1 1 0 - 1

def minUtc : ℤ := ofDateHour (-262143) 1 1 0

def floorMinute (t : ℤ) : ℤ := t - t % 60000000000

def ceilSec (t : ℤ) : ℤ :=
  if nanosecond t = 0 then t else t - nanosecond t + Duration.seconds 1

def isRoundMinute (t : ℤ) : Bool := t == floorMinute t

end DateTime

end Quantoxide
