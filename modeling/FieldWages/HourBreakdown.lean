import FieldWages.DailyHours
import FieldWages.WorkCalendar

/-!
# Hour breakdown

The hours of an ordinary day fill three tiers one after the other: normal hours
up to the daily limit, then overtime of the first tier up to its limit, then
overtime of the second. The hours of a Sunday or holiday are kept apart as a
whole, and those above the daily limit are counted once more as extra. Sums
over days are rounded to the hundredth at the end, and the total is the sum of
the rounded parts.
-/

namespace FieldWages

/-- The hours of a period by the way they are paid. -/
structure HourBreakdown where
  normal : Decimal
  overtimeTier1 : Decimal
  overtimeTier2 : Decimal
  holidaySunday : Decimal
  /-- The part of the Sunday and holiday hours above the daily limit. -/
  holidaySundayExtra : Decimal
  night : Decimal
  total : Decimal
deriving DecidableEq

/-- Sums of hours over days, not rounded yet. -/
structure HourSums where
  normal : Decimal
  tier1 : Decimal
  tier2 : Decimal
  special : Decimal
  specialExtra : Decimal
  night : Decimal
deriving DecidableEq

namespace HourSums

/-- The sums over no day. -/
def none : HourSums := ⟨.zero, .zero, .zero, .zero, .zero, .zero⟩

/-- The sums with the hours of one more Sunday or holiday. -/
def addSpecial (s : HourSums) (hours normalLimit : Decimal) : Except Fault HourSums := do
  let special ← s.special.add hours
  let extra ← hours.sub normalLimit
  let specialExtra ← s.specialExtra.add (extra.max .zero)
  pure { s with special, specialExtra }

/-- The sums with the hours of one more ordinary day. -/
def addOrdinary (s : HourSums) (hours normalLimit tier1Limit : Decimal) :
    Except Fault HourSums := do
  let dayNormal := hours.min normalLimit
  let above ← hours.sub dayNormal
  let extra := above.max .zero
  let dayTier1 := extra.min tier1Limit
  let normal ← s.normal.add dayNormal
  let tier1 ← s.tier1.add dayTier1
  let dayTier2 ← extra.sub dayTier1
  let tier2 ← s.tier2.add dayTier2
  pure { s with normal, tier1, tier2 }

/-- The sums with the hours of one more day. -/
def addDay (normalLimit tier1Limit : Decimal) (c : WorkCalendar) (s : HourSums)
    (day : Date × DailyHours) : Except Fault HourSums := do
  let night ← s.night.add day.2.night
  let s := { s with night }
  if c.isSundayOrHoliday day.1 then s.addSpecial day.2.total normalLimit
  else s.addOrdinary day.2.total normalLimit tier1Limit

/-- The breakdown the sums round to. -/
def breakdown (s : HourSums) : Except Fault HourBreakdown := do
  let normal := s.normal.toHundredths
  let overtimeTier1 := s.tier1.toHundredths
  let overtimeTier2 := s.tier2.toHundredths
  let holidaySunday := s.special.toHundredths
  let total ← normal.add overtimeTier1
  let total ← total.add overtimeTier2
  let total ← total.add holidaySunday
  pure
    { normal
      overtimeTier1
      overtimeTier2
      holidaySunday
      holidaySundayExtra := s.specialExtra.toHundredths
      night := s.night.toHundredths
      total }

end HourSums

namespace HourBreakdown

/-- The hours of the first overtime tier, unless another number is agreed. -/
def defaultTier1Limit : Decimal := .ofUInt32 2

/-- No hours at all. -/
def none : HourBreakdown := ⟨.zero, .zero, .zero, .zero, .zero, .zero, .zero⟩

/-- The breakdown of daily hours. -/
def ofDaily (daily : DailyHoursMap) (normalLimit tier1Limit : Decimal) (c : WorkCalendar) :
    Except Fault HourBreakdown := do
  let sums ← daily.entries.foldlM (HourSums.addDay normalLimit tier1Limit c) .none
  sums.breakdown

end HourBreakdown

end FieldWages
