import FieldWages.Count
import FieldWages.Decimal.Quotient
import FieldWages.WorkCalendar

/-!
# Basic pay

A day is paid at the daily rate of the monthly salary, a Sunday or a holiday
twice, a holiday on a Sunday three times. The amounts of the days are exact;
their sum is rounded to the hundredth.
-/

namespace FieldWages

/-- The pay of one day. -/
structure DayPay where
  date : Date
  multiplier : UInt32
  amount : Decimal
deriving DecidableEq

/-- The pay of the days worked. -/
structure BasicPay where
  dailyRate : Decimal
  days : List DayPay
  amount : Decimal
deriving DecidableEq

/-- The days a month is reckoned at, unless another number is agreed. -/
def defaultMonthDays : UInt32 := 30

/-- The pay of a day, to the ten-thousandth; zero for a month without days. -/
def dailyRate (monthlySalary : Decimal) (monthDays : UInt32) : Except Fault Decimal :=
  if monthDays = 0 then .ok .zero
  else do
    let rate ← monthlySalary.div (.ofUInt32 monthDays)
    pure rate.toTenThousandths

/-- How many times the daily rate a day is paid. -/
def dayMultiplier (isSunday isHoliday : Bool) : UInt32 :=
  match isSunday, isHoliday with
  | true, true => 3
  | true, false | false, true => 2
  | false, false => 1

namespace BasicPay

/-- The pay of one date worked. -/
def payDay (rate : Decimal) (c : WorkCalendar) (d : Date) : Except Fault DayPay := do
  let multiplier := dayMultiplier d.isSunday (c.isHoliday d)
  let amount ← rate.mul (.ofUInt32 multiplier)
  pure ⟨d, multiplier, amount⟩

/-- The pay of the dates worked. -/
def ofDates (dates : List Date) (rate : Decimal) (c : WorkCalendar) : Except Fault BasicPay := do
  let days ← dates.mapM (payDay rate c)
  let amount ← Decimal.sum (days.map (·.amount))
  pure ⟨rate, days, amount.toHundredths⟩

/-- How many times the daily rate is paid in all. -/
def units (pay : BasicPay) : Except Fault UInt32 :=
  Count.word32 (Count.total (·.multiplier.toNat) pay.days)

end BasicPay

end FieldWages
