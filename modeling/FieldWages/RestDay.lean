import FieldWages.Decimal.Arithmetic
import FieldWages.Period
import FieldWages.WorkCalendar

/-!
# Rest days

The weekly rest day is paid for a complete week: one with at least one working
day from Monday to Saturday, all of them worked. Every week of a period is
evaluated, and each complete one earns the daily rate.
-/

namespace FieldWages

/-- How a week was attended. -/
structure RestDayWeek where
  monday : Date
  /-- The working days of the week. -/
  requiredDays : UInt32
  /-- Those of them that were worked. -/
  attendedDays : UInt32
  /-- Those that were not, in order. -/
  missingDays : List Date
  complete : Bool
deriving DecidableEq

/-- How the weeks of a period were attended, and what is paid for it. -/
structure RestDaySummary where
  weeks : List RestDayWeek
  completeWeeks : UInt32
  bonus : Decimal
deriving DecidableEq

/-- How a week was attended, given the dates that were worked. -/
def RestDayWeek.ofWeek (w : Week) (worked : List Date) (c : WorkCalendar) : RestDayWeek :=
  let required := w.days.filter c.isWorkingDay
  let missing := required.filter fun d => !worked.contains d
  { monday := w.monday
    requiredDays := .ofNat required.length
    attendedDays := .ofNat required.length - .ofNat missing.length
    missingDays := missing
    complete := !required.isEmpty && missing.isEmpty }

namespace RestDaySummary

/-- No weeks, and nothing paid. -/
def none : RestDaySummary := ⟨[], 0, .zero⟩

/-- The weeks of a period, given the dates that were worked. -/
def ofPeriod (p : Period) (worked : List Date) (c : WorkCalendar) (dailyRate : Decimal) :
    Except Fault RestDaySummary := do
  let weeks := (← p.weeks).map fun w => RestDayWeek.ofWeek w worked c
  let completeWeeks := .ofNat (weeks.countP (·.complete))
  let bonus ← dailyRate.mul (.ofUInt32 completeWeeks)
  pure ⟨weeks, completeWeeks, bonus.toHundredths⟩

end RestDaySummary

end FieldWages
