import FieldWages.Attendance
import FieldWages.NightWork
import FieldWages.Period
import FieldWages.SortedMap

/-!
# Daily hours

The hours of a day are the sum of the paid hours of its entries; the night
hours of a day are the sum of those of its shifts. A date of the period has
hours if some entry of it is paid, be it for no hours at all: these are the
dates worked.
-/

namespace FieldWages

/-- The hours of one day. -/
structure DailyHours where
  total : Decimal
  night : Decimal
deriving DecidableEq

/-- The hours of each day worked. -/
abbrev DailyHoursMap := SortedMap Date DailyHours

namespace DailyHours

/-- A day without hours. -/
def none : DailyHours := ⟨.zero, .zero⟩

/-- The day with the paid hours of one more entry. -/
def addEntry (day : DailyHours) (paidHours : Decimal) (shift : Option (TimeOfDay × TimeOfDay)) :
    Except Fault DailyHours := do
  let total ← day.total.add paidHours
  match shift with
  | .none => pure ⟨total, day.night⟩
  | some (start, stop) =>
    let hours ← nightHours start stop paidHours
    let night ← day.night.add hours
    pure ⟨total, night⟩

end DailyHours

namespace DailyHoursMap

/-- The map with one more entry, if it is in the period and paid. -/
def addEntry (p : Period) (daily : DailyHoursMap) (e : AttendanceEntry) :
    Except Fault DailyHoursMap :=
  match p.contains e.workDate, e.paidHours with
  | true, some paidHours => do
    let day ← ((daily.get? e.workDate).getD .none).addEntry paidHours e.shift?
    pure (daily.insert e.workDate day)
  | _, _ => pure daily

/-- The daily hours of a list of attendance in a period. -/
def ofAttendance (entries : List AttendanceEntry) (p : Period) : Except Fault DailyHoursMap :=
  entries.foldlM (addEntry p) .empty

end DailyHoursMap

end FieldWages
