import FieldWages.Clock.Basic
import FieldWages.Decimal.Quotient

/-!
# Night work

The night lasts from 22:00 to 06:00. The night minutes of a shift are those of
its minutes that lie in it; a shift that does not end after it begins runs
past midnight. At most a whole night counts.

* `nightMinutes`: the night minutes of a shift;
* `nightHours`: its night hours, never more than the hours that are paid.
-/

namespace FieldWages

/-- The minute of the day the night begins. -/
def nightStartMinute : Nat := 1320

/-- The minute of the day the night ends. -/
def nightEndMinute : Nat := 360

/-- The minutes of a night. -/
def maxNightMinutes : Nat := 480

/-- The minutes of a day. -/
def minutesPerDay : Nat := 1440

/-- How many of the minutes from `start` to `stop` lie between the other two. -/
def overlap (start stop windowStart windowStop : Nat) : Nat :=
  min stop windowStop - max start windowStart

/-- The night minutes between two minutes of one day. -/
def nightMinutesOfDay (start stop : Nat) : Nat :=
  overlap start stop 0 nightEndMinute + overlap start stop nightStartMinute minutesPerDay

/-- The night minutes from one minute of the day to another, on the next day if
    that is not later. -/
def nightMinutesBetween (start stop : Nat) : Nat :=
  min maxNightMinutes <|
    if stop ≤ start then nightMinutesOfDay start minutesPerDay + nightMinutesOfDay 0 stop
    else nightMinutesOfDay start stop

/-- The night minutes of a shift. -/
def nightMinutes (start stop : TimeOfDay) : Nat := nightMinutesBetween start.minute stop.minute

/-- The night hours of a shift, to the hundredth, up to the hours that are paid. -/
def nightHours (start stop : TimeOfDay) (paidHours : Decimal) : Except Fault Decimal := do
  let hours ← (Decimal.ofUInt32 (.ofNat (nightMinutes start stop))).div .sixty
  pure (hours.toHundredths.min (paidHours.max .zero))

end FieldWages
