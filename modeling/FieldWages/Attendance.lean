import FieldWages.Clock.Basic
import FieldWages.Decimal.Basic

/-!
# Attendance

An *entry* of the attendance says what one employee did on one day: hours to
be paid, the times of a shift, units of a labor counted. All of it is
optional; a day is worked if some entry of it has hours to be paid.
-/

namespace FieldWages

/-- One record of attendance. -/
structure AttendanceEntry where
  id : String
  employeeId : String
  /-- The date is the day that was worked. -/
  createdAt : DateTime
  startTime : Option TimeOfDay
  endTime : Option TimeOfDay
  paidHours : Option Decimal
  /-- Units done, if the labor is counted. -/
  productivityCount : Option UInt32
  laborId : Option String
deriving DecidableEq

namespace AttendanceEntry

/-- The day an entry is about. -/
def workDate (e : AttendanceEntry) : Date := e.createdAt.date

/-- Begin and end of the shift, if both are recorded. -/
def shift? (e : AttendanceEntry) : Option (TimeOfDay × TimeOfDay) := do
  pure (← e.startTime, ← e.endTime)

end AttendanceEntry

end FieldWages
