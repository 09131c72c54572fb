import FieldWages.Payslip
import FieldWages.Record.Input
import FieldWages.Record.Stage

/-!
# Records of a payslip

The forms of a payroll detail and its parts. A detail that has not been issued
is written without identifier, time stamp and duration, and is not read back; an
issued one is written and read as a whole.

* `DayDetail.listText`: the days worked as one line of text.
-/

namespace FieldWages

open Record

instance : JsonForm ConceptLine where
  toJson l := .obj
    [("code", toJson l.code),
     ("category", toJson l.category),
     ("configured_value", toJson l.configuredValue),
     ("amount", toJson l.amount)]
  ofJson? := Record.ofJson? do
    let code ← field "code"
    let category ← field "category"
    let configuredValue ← field? "configured_value"
    let amount ← field "amount"
    pure { code, category, configuredValue, amount }

instance : JsonForm AuditStep where
  toJson s := .obj
    [("step_number", toJson s.number),
     ("concept_code", toJson s.conceptCode),
     ("category", toJson s.category),
     ("input", s.input),
     ("output", s.output),
     ("reasoning", toJson s.reasoning)]
  ofJson? := Record.ofJson? do
    let number ← field "step_number"
    let conceptCode ← field "concept_code"
    let category ← field "category"
    let input ← field "input"
    let output ← field "output"
    let reasoning ← field "reasoning"
    pure { number, conceptCode, category, input, output, reasoning }

instance : JsonForm DayDetail where
  toJson d := .obj
    [("date", toJson d.date),
     ("day_of_week", toJson d.weekday),
     ("hours", toJson d.hours),
     ("night_hours", toJson d.nightHours),
     ("productivity_percent", toJson d.productivityPercent),
     ("is_holiday", toJson d.isHoliday),
     ("is_sunday", toJson d.isSunday)]
  ofJson? := Record.ofJson? do
    let date ← field "date"
    let weekday ← field "day_of_week"
    let hours ← field "hours"
    let nightHours ← field "night_hours"
    let productivityPercent ← field? "productivity_percent"
    let isHoliday ← field "is_holiday"
    let isSunday ← field "is_sunday"
    pure { date, weekday, hours, nightHours, productivityPercent, isHoliday, isSunday }

/-- Days worked as one line of text. -/
def DayDetail.listText (days : List DayDetail) : String := (toJson days).toText

/-- The audit trail of an issued detail. -/
structure AuditTrace where
  steps : List AuditStep
  diagnostics : List Diagnostic
  durationMicros : UInt64

instance : JsonForm AuditTrace where
  toJson t := .obj
    [("steps", toJson t.steps),
     ("diagnostics", toJson t.diagnostics),
     ("duration_us", toJson t.durationMicros)]
  ofJson? := Record.ofJson? do
    let steps ← field "steps"
    let diagnostics ← field "diagnostics"
    let durationMicros ← field "duration_us"
    pure { steps, diagnostics, durationMicros }

instance : JsonForm Uuid := ⟨fun u => .str u.toText, JsonForm.textOf? Uuid.ofText?⟩

instance : JsonForm Timestamp :=
  ⟨fun t => .str t.toText, JsonForm.textOf? Timestamp.ofText?⟩

namespace PayrollDetail

/-- The members of a detail in front of its audit trail. -/
def members (d : PayrollDetail) : List (String × Json) :=
  [("engine_version", toJson d.engineVersion),
   ("employee_id", toJson d.employeeId),
   ("period", toJson d.period),
   ("concepts", toJson d.concepts),
   ("hours", toJson d.hours),
   ("days_worked", toJson d.daysWorked),
   ("dominical_weeks", toJson d.restDayWeeks),
   ("productivity_score", toJson d.productivityScore),
   ("total_income", toJson d.totalIncome),
   ("total_deductions", toJson d.totalDeductions),
   ("total_employer_contributions", toJson d.totalEmployerContributions),
   ("net_pay", toJson d.netPay),
   ("day_details", toJson d.dayDetails)]

/-- A detail that has not been issued. -/
def toJson (d : PayrollDetail) : Json :=
  .obj (d.members ++
    [("audit_trace", .obj
      [("steps", JsonForm.toJson d.steps), ("diagnostics", JsonForm.toJson d.diagnostics)])])

end PayrollDetail

instance : JsonForm IssuedDetail where
  toJson i :=
    let trace : AuditTrace := ⟨i.detail.steps, i.detail.diagnostics, i.durationMicros⟩
    .obj
      (("calculation_id", toJson i.id) :: ("timestamp", toJson i.timestamp) ::
        i.detail.members ++ [("audit_trace", toJson trace)])
  ofJson? := Record.ofJson? do
    let id ← field "calculation_id"
    let timestamp ← field "timestamp"
    let engineVersion ← field "engine_version"
    let employeeId ← field "employee_id"
    let period ← field "period"
    let concepts ← field "concepts"
    let hours ← field "hours"
    let daysWorked ← field "days_worked"
    let restDayWeeks ← field "dominical_weeks"
    let productivityScore ← field? "productivity_score"
    let totalIncome ← field "total_income"
    let totalDeductions ← field "total_deductions"
    let totalEmployerContributions ← field "total_employer_contributions"
    let netPay ← field "net_pay"
    let dayDetails ← field "day_details"
    let trace : AuditTrace ← field "audit_trace"
    pure
      { id
        timestamp
        detail :=
          { engineVersion
            employeeId
            period
            concepts
            hours
            daysWorked
            restDayWeeks
            productivityScore
            totalIncome
            totalDeductions
            totalEmployerContributions
            netPay
            dayDetails
            steps := trace.steps
            diagnostics := trace.diagnostics }
        durationMicros := trace.durationMicros }

instance : JsonForm EmployeeFailure where
  toJson f := .obj [("employee_id", toJson f.employeeId), ("message", toJson f.message)]
  ofJson? := Record.ofJson? do
    let employeeId ← field "employee_id"
    let message ← field "message"
    pure { employeeId, message }

end FieldWages
