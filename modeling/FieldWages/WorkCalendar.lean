import FieldWages.Date.Basic
import FieldWages.SortedMap

/-!
# Work calendar

The calendar says of some dates whether they are working days and holidays. A
date it does not mention is no holiday, and a working day unless it is a
Sunday.
-/

namespace FieldWages

/-- What the calendar says of a date. -/
structure CalendarDay where
  date : Date
  isWorkingDay : Bool
  isHoliday : Bool
deriving DecidableEq, Repr

/-- The days a calendar mentions. -/
structure WorkCalendar where
  days : SortedMap Date CalendarDay
deriving DecidableEq

namespace WorkCalendar

/-- The calendar of a list of days; of several for one date the last counts. -/
def ofDays (days : List CalendarDay) : WorkCalendar :=
  ⟨.ofList (days.map fun d => (d.date, d))⟩

/-- What the calendar says of a date, if it mentions it. -/
def day? (c : WorkCalendar) (d : Date) : Option CalendarDay := c.days.get? d

/-- Whether a date is a holiday. -/
def isHoliday (c : WorkCalendar) (d : Date) : Bool := (c.day? d).any (·.isHoliday)

/-- Whether a date is a working day. -/
def isWorkingDay (c : WorkCalendar) (d : Date) : Bool :=
  match c.day? d with
  | some day => day.isWorkingDay
  | none => !d.isSunday

/-- Whether work on a date is paid as Sunday or holiday work. -/
def isSundayOrHoliday (c : WorkCalendar) (d : Date) : Bool := d.isSunday || c.isHoliday d

end WorkCalendar

end FieldWages
