import FieldWages.Clock.Basic
import FieldWages.HourBreakdown
import FieldWages.Json.Basic
import FieldWages.PayContext
import FieldWages.Uuid

/-!
# Payslips

The *detail* is what is calculated for an employee in a period: the lines of
the pay concepts, the hours, the totals, the days worked, and an audit trail
of the steps and diagnostics behind them. A detail that is *issued* bears an
identifier, a time stamp and the time the calculation took; they say nothing
about the pay.
-/

namespace FieldWages

/-- The line of a pay concept. -/
structure ConceptLine where
  code : String
  category : Category
  configuredValue : Option Decimal
  amount : Decimal
deriving DecidableEq

/-- How a line came about: what the step read, what it wrote, and why. -/
structure AuditStep where
  number : UInt32
  conceptCode : String
  category : Category
  input : Json
  output : Json
  reasoning : String

/-- A day worked, as it is shown. -/
structure DayDetail where
  date : Date
  weekday : Weekday
  hours : Decimal
  nightHours : Decimal
  productivityPercent : Option Decimal
  isHoliday : Bool
  isSunday : Bool
deriving DecidableEq

/-- What is calculated for an employee in a period. -/
structure PayrollDetail where
  engineVersion : String
  employeeId : String
  period : Period
  concepts : List ConceptLine
  hours : HourBreakdown
  daysWorked : UInt32
  /-- How many weekly rest days are paid. -/
  restDayWeeks : UInt32
  productivityScore : Option Decimal
  totalIncome : Decimal
  totalDeductions : Decimal
  totalEmployerContributions : Decimal
  netPay : Decimal
  dayDetails : List DayDetail
  steps : List AuditStep
  diagnostics : List Diagnostic

/-- A detail with what it is filed under. -/
structure IssuedDetail where
  id : Uuid
  timestamp : Timestamp
  detail : PayrollDetail
  /-- How long the calculation took. -/
  durationMicros : UInt64

/-- The version written into every detail. -/
def currentVersion : String := "0.1.0"

namespace PayrollDetail

/-- The amount of the first line of a code, spelled exactly so. -/
def amountOf? (d : PayrollDetail) (code : String) : Option Decimal :=
  (d.concepts.find? fun l => l.code = code).map (·.amount)

/-- A date worked, as the context knows it. -/
def dayOf (ctx : PayContext) (d : Date) : DayDetail :=
  let hours := (ctx.dailyHours.get? d).getD .none
  let flags := (ctx.dayFlags? d).getD .unknown
  { date := d
    weekday := d.weekday
    hours := hours.total
    nightHours := hours.night
    productivityPercent := (ctx.piecework.days.get? d).map (·.percent)
    isHoliday := flags.isHoliday
    isSunday := flags.isSunday }

/-- The detail of a context whose concepts have been calculated. -/
def assemble (ctx : PayContext) (lines : List ConceptLine) (steps : List AuditStep) :
    Except Fault PayrollDetail := do
  let netPay ← ctx.netPay
  pure
    { engineVersion := currentVersion
      employeeId := ctx.employee.id
      period := ctx.parameters.period
      concepts := lines
      hours := ctx.hours
      daysWorked := ctx.daysWorked
      restDayWeeks := ctx.restDays.completeWeeks
      productivityScore := ctx.piecework.score
      totalIncome := ctx.totalIncome
      totalDeductions := ctx.totalDeductions
      totalEmployerContributions := ctx.totalEmployerContributions
      netPay
      dayDetails := ctx.workedDates.map (dayOf ctx)
      steps
      diagnostics := ctx.diagnostics }

end PayrollDetail

end FieldWages
