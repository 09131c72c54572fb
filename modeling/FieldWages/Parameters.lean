import FieldWages.Decimal.Basic
import FieldWages.Period

/-!
# Parameters

What a calculation depends on beside the employee, the attendance and the
calendar: the period, the working days it has of its month, the overtime rates
and the measures of a day and a month. Surcharges are in percent.
-/

namespace FieldWages

/-- How overtime, holiday and night hours are paid. -/
structure OvertimeRates where
  /-- The overtime hours of a day that belong to the first tier. -/
  tier1Hours : Decimal
  tier1Surcharge : Decimal
  tier2Surcharge : Decimal
  holidaySurcharge : Decimal
  nightSurcharge : Decimal
deriving DecidableEq

/-- The rates that hold unless others are agreed. -/
def OvertimeRates.standard : OvertimeRates where
  tier1Hours := .ofUInt32 2
  tier1Surcharge := .ofUInt32 25
  tier2Surcharge := .ofUInt32 35
  holidaySurcharge := .ofUInt32 100
  nightSurcharge := .ofUInt32 35

/-- What all calculations of a period share. -/
structure Parameters where
  period : Period
  /-- The working days of the period. -/
  workingDays : UInt32
  /-- The working days of the month the period belongs to. -/
  totalWorkingDays : UInt32
  overtime : OvertimeRates
  /-- The hours of a day that are paid without surcharge. -/
  dailyNormalHours : Decimal
  /-- The days a month is reckoned at. -/
  monthDays : UInt32
deriving DecidableEq

end FieldWages
