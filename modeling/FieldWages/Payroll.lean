import FieldWages.ConceptRun
import FieldWages.Refusal

/-!
# Payroll

The pay of one employee: the input is checked, hours, basic pay, rest days and
piecework are found, and the concepts are run over them. Attendance counts for
hours and pay if it is in the period, and for the weekly rest days also in the
days before that belong to the first week.

* `Payroll.refusal?`: the first reason to refuse an input;
* `Payroll.compute`: the payroll detail of an employee.
-/

namespace FieldWages

/-- What the calculations of a run share. -/
structure PayrollInputs where
  parameters : Parameters
  calendar : WorkCalendar
  labors : LaborCatalog
  concepts : List Concept

namespace Payroll

/-- Why an entry of attendance is refused for an employee, if it is. -/
def entryRefusal? (employee : Employee) (e : AttendanceEntry) : Option Refusal :=
  if e.employeeId ≠ employee.id then
    some (.invalidAttendance employee.id
      ("entry '" ++ e.id ++ "' belongs to employee '" ++ e.employeeId ++ "'"))
  else if e.paidHours.any (· < .zero) then
    some (.invalidAttendance employee.id ("entry '" ++ e.id ++ "' has negative paid hours"))
  else none

/-- The first reason to refuse an input, if there is one. -/
def refusal? (employee : Employee) (attendance : List AttendanceEntry) (p : Parameters) :
    Option Refusal :=
  if p.period.stop < p.period.start then some (.invalidPeriod p.period.start p.period.stop)
  else if p.monthDays = 0 then some ConfigProblem.noMonthDays.refusal
  else if p.dailyNormalHours ≤ .zero then some ConfigProblem.dailyHoursNotPositive.refusal
  else if employee.monthlySalary.any (· < .zero) then
    some (.invalidEmployee "monthly_salary" "cannot be negative")
  else attendance.findSome? (entryRefusal? employee)

/-- What is known of the dates of a period. -/
def flagsOf (p : Period) (c : WorkCalendar) : SortedMap Date DayFlags :=
  .tabulate p.days Date.pairwise_through fun d =>
    { isHoliday := c.isHoliday d, isSunday := d.isSunday, isWorkingDay := c.isWorkingDay d }

/-- The remarks on dates worked that the calendar does not mention. -/
def calendarGaps (workedDates : List Date) (c : WorkCalendar) : List Diagnostic :=
  (workedDates.filter fun d => (c.day? d).isNone).map fun d =>
    ⟨Diagnostic.calendarDataMissing, "no calendar data; treated as non-holiday", some d⟩

/-- The dates with paid attendance from `first` to `last`. -/
def attendedDates (attendance : List AttendanceEntry) (first last : Date) : List Date :=
  ((attendance.filter (·.paidHours.isSome)).map (·.workDate)).filter fun d => first ≤ d && d ≤ last

/-- The context of an input that is accepted, before the first concept. -/
def context (employee : Employee) (attendance : List AttendanceEntry) (inputs : PayrollInputs) :
    Except Fault PayContext := do
  let p := inputs.parameters
  let c := inputs.calendar
  let dailyHours ← DailyHoursMap.ofAttendance attendance p.period
  let workedDates := dailyHours.keys
  let hours ← HourBreakdown.ofDaily dailyHours p.dailyNormalHours p.overtime.tier1Hours c
  let piecework ← PieceworkSummary.ofAttendance attendance inputs.labors p.period
  let rate ← dailyRate employee.salaryOrZero p.monthDays
  let hourly ← rate.div p.dailyNormalHours
  let basicPay ← BasicPay.ofDates workedDates rate c
  let first ← p.period.windowStart
  let attended := attendedDates attendance first p.period.stop
  let restDays ← RestDaySummary.ofPeriod p.period attended c rate
  pure
    { employee
      parameters := p
      workedDates
      calendar := flagsOf p.period c
      dailyHours
      hours
      piecework := { piecework with diagnostics := [] }
      basicPay
      restDays
      dailyRate := rate
      hourlyRate := hourly.toTenThousandths
      concepts := inputs.concepts
      totalIncome := .zero
      totalDeductions := .zero
      totalEmployerContributions := .zero
      diagnostics := calendarGaps workedDates c ++ piecework.diagnostics }

/-- The payroll detail of an employee, computed from an input that is accepted. -/
def computeAccepted (employee : Employee) (attendance : List AttendanceEntry)
    (inputs : PayrollInputs) (registry : Registry) : Except Fault PayrollDetail := do
  let ctx ← context employee attendance inputs
  let run ← ConceptRun.ofContext ctx registry
  PayrollDetail.assemble run.context run.lines run.steps

/-- The payroll detail of an employee. -/
def compute (employee : Employee) (attendance : List AttendanceEntry) (inputs : PayrollInputs)
    (registry : Registry) : Except Failure PayrollDetail :=
  match refusal? employee attendance inputs.parameters with
  | some r => .error (.refused r)
  | none => Failure.lift (computeAccepted employee attendance inputs registry)

end Payroll

end FieldWages
