import FieldWages.BasicPay
import FieldWages.Concept
import FieldWages.Diagnostic
import FieldWages.Employee
import FieldWages.HourBreakdown
import FieldWages.Parameters
import FieldWages.Piecework
import FieldWages.RestDay

/-!
# Pay context

The context is what a concept is calculated in: the results of the stages
before (hours, basic pay, rest days, piecework), which stay fixed, and a ledger
of three totals and a list of diagnostics, which grows concept by concept.
-/

namespace FieldWages

/-- What is known of a date of the period. -/
structure DayFlags where
  isHoliday : Bool
  isSunday : Bool
  isWorkingDay : Bool
deriving DecidableEq, Repr

/-- An ordinary day that is not worked: assumed of a date nothing is known of. -/
def DayFlags.unknown : DayFlags := ⟨false, false, false⟩

/-- What the concepts of an employee are calculated in. -/
structure PayContext where
  employee : Employee
  parameters : Parameters
  workedDates : List Date
  calendar : SortedMap Date DayFlags
  dailyHours : DailyHoursMap
  hours : HourBreakdown
  piecework : PieceworkSummary
  basicPay : BasicPay
  restDays : RestDaySummary
  dailyRate : Decimal
  hourlyRate : Decimal
  concepts : List Concept
  totalIncome : Decimal
  totalDeductions : Decimal
  totalEmployerContributions : Decimal
  diagnostics : List Diagnostic
deriving DecidableEq

namespace PayContext

/-- The context with an amount added to the total of its category. -/
def accumulate (ctx : PayContext) (category : Category) (amount : Decimal) :
    Except Fault PayContext :=
  match category with
  | .income => do
    let total ← ctx.totalIncome.add amount
    pure { ctx with totalIncome := total }
  | .employerContribution => do
    let total ← ctx.totalEmployerContributions.add amount
    pure { ctx with totalEmployerContributions := total }
  | .deduction | .retirement | .employeeContribution => do
    let total ← ctx.totalDeductions.add amount
    pure { ctx with totalDeductions := total }

/-- The context with one more diagnostic. -/
def note (ctx : PayContext) (d : Diagnostic) : PayContext :=
  { ctx with diagnostics := ctx.diagnostics ++ [d] }

/-- What is known of a date. -/
def dayFlags? (ctx : PayContext) (d : Date) : Option DayFlags := ctx.calendar.get? d

/-- How many dates were worked. -/
def daysWorked (ctx : PayContext) : UInt32 := .ofNat ctx.workedDates.length

/-- What is paid out: income less deductions. -/
def netPay (ctx : PayContext) : Except Fault Decimal := ctx.totalIncome.sub ctx.totalDeductions

end PayContext

end FieldWages
