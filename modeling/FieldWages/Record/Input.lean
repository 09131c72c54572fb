import FieldWages.Attendance
import FieldWages.Configuration
import FieldWages.Labor
import FieldWages.PayRun
import FieldWages.Record.Form

/-!
# Records of the input

The forms of what a calculation is given: employees, attendance, labors,
concepts, periods, calendar days, settings and parameters.
-/

namespace FieldWages

open Record

instance : JsonForm Employee where
  toJson e := .obj
    [("id", toJson e.id),
     ("full_name", toJson e.fullName),
     ("monthly_salary", toJson e.monthlySalary),
     ("retirement_scheme", toJson e.retirementScheme),
     ("health_scheme", toJson e.healthScheme),
     ("dependents", toJson e.dependents)]
  ofJson? := Record.ofJson? do
    let id ← field "id"
    let fullName ← fieldOr "full_name" ""
    let monthlySalary ← fieldOr "monthly_salary" none
    let retirementScheme ← fieldOr "retirement_scheme" none
    let healthScheme ← fieldOr "health_scheme" none
    let dependents ← fieldOr "dependents" 0
    pure { id, fullName, monthlySalary, retirementScheme, healthScheme, dependents }

instance : JsonForm AttendanceEntry where
  toJson e := .obj
    [("id", toJson e.id),
     ("employee_id", toJson e.employeeId),
     ("created_at", toJson e.createdAt),
     ("start_time", toJson e.startTime),
     ("end_time", toJson e.endTime),
     ("paid_hours", toJson e.paidHours),
     ("productivity_count", toJson e.productivityCount),
     ("labor_id", toJson e.laborId)]
  ofJson? := Record.ofJson? do
    let id ← field "id"
    let employeeId ← field "employee_id"
    let createdAt ← field "created_at"
    let startTime ← fieldOr "start_time" none
    let endTime ← fieldOr "end_time" none
    let paidHours ← fieldOr "paid_hours" none
    let productivityCount ← fieldOr "productivity_count" none
    let laborId ← fieldOr "labor_id" none
    pure
      { id, employeeId, createdAt, startTime, endTime, paidHours, productivityCount, laborId }

instance : JsonForm EmployeeInput where
  toJson i := .obj [("employee", toJson i.employee), ("attendance", toJson i.attendance)]
  ofJson? := Record.ofJson? do
    let employee ← field "employee"
    let attendance ← field "attendance"
    pure { employee, attendance }

instance : JsonForm Labor where
  toJson l := .obj
    [("id", toJson l.id),
     ("name", toJson l.name),
     ("is_piecework", toJson l.isPiecework),
     ("min_task_requirement", toJson l.minTaskRequirement),
     ("base_price", toJson l.basePrice)]
  ofJson? := Record.ofJson? do
    let id ← field "id"
    let name ← field "name"
    let isPiecework ← fieldOr "is_piecework" false
    let minTaskRequirement ← fieldOr "min_task_requirement" none
    let basePrice ← fieldOr "base_price" none
    pure { id, name, isPiecework, minTaskRequirement, basePrice }

/-- Labors by the ids that attendance refers to, as an object. -/
def LaborCatalog.ofJson? : Json → Option LaborCatalog
  | .obj ms => ms.mapM fun m => do pure (m.1, ← JsonForm.ofJson? m.2)
  | _ => none

/-- Reads a concept. -/
def Concept.reader {ν : Type} [ReadFrom ν String] [ReadFrom ν Category]
    [ReadFrom ν (Option Decimal)] [ReadFrom ν (Option String)] : FieldReader ν Concept := do
  let code ← field "code"
  let category ← field "category"
  let value ← fieldOr "value" none
  let description ← fieldOr "description" none
  pure { code, category, value, description }

instance : JsonForm Concept where
  toJson c := .obj
    [("code", toJson c.code),
     ("category", toJson c.category),
     ("value", toJson c.value),
     ("description", toJson c.description)]
  ofJson? := Record.ofJson? Concept.reader

instance : JsonForm Period where
  toJson p := .obj [("start_date", toJson p.start), ("end_date", toJson p.stop)]
  ofJson? := Record.ofJson? do
    let start ← field "start_date"
    let stop ← field "end_date"
    pure { start, stop }

instance : JsonForm CalendarDay where
  toJson d := .obj
    [("date", toJson d.date),
     ("is_working_day", toJson d.isWorkingDay),
     ("is_holiday", toJson d.isHoliday)]
  ofJson? := Record.ofJson? do
    let date ← field "date"
    let isWorkingDay ← field "is_working_day"
    let isHoliday ← field "is_holiday"
    pure { date, isWorkingDay, isHoliday }

/-- Reads overtime rates; a rate that is not given is the standard one. -/
def OvertimeRates.reader {ν : Type} [ReadFrom ν Decimal] : FieldReader ν OvertimeRates := do
  let d := OvertimeRates.standard
  let tier1Hours ← fieldOr "tier1_hours" d.tier1Hours
  let tier1Surcharge ← fieldOr "tier1_surcharge" d.tier1Surcharge
  let tier2Surcharge ← fieldOr "tier2_surcharge" d.tier2Surcharge
  let holidaySurcharge ← fieldOr "holiday_surcharge" d.holidaySurcharge
  let nightSurcharge ← fieldOr "night_surcharge" d.nightSurcharge
  pure { tier1Hours, tier1Surcharge, tier2Surcharge, holidaySurcharge, nightSurcharge }

instance : JsonForm OvertimeRates where
  toJson r := .obj
    [("tier1_hours", toJson r.tier1Hours),
     ("tier1_surcharge", toJson r.tier1Surcharge),
     ("tier2_surcharge", toJson r.tier2Surcharge),
     ("holiday_surcharge", toJson r.holidaySurcharge),
     ("night_surcharge", toJson r.nightSurcharge)]
  ofJson? := Record.ofJson? OvertimeRates.reader

/-- Reads settings; what is not set is as in the standard settings. -/
def Settings.reader {ν : Type} [ReadFrom ν Decimal] [ReadFrom ν UInt32] [ReadFrom ν UInt64]
    [ReadFrom ν OvertimeRates] : FieldReader ν Settings := do
  let d := Settings.standard
  let dailyNormalHours ← fieldOr "daily_normal_hours" d.dailyNormalHours
  let monthDays ← fieldOr "month_calculation_days" d.monthDays
  let overtime ← fieldOr "overtime" d.overtime
  let concurrencyLimit ← fieldOr "concurrency_limit" d.concurrencyLimit
  pure { dailyNormalHours, monthDays, overtime, concurrencyLimit }

instance : JsonForm Settings where
  toJson s := .obj
    [("daily_normal_hours", toJson s.dailyNormalHours),
     ("month_calculation_days", toJson s.monthDays),
     ("overtime", toJson s.overtime),
     ("concurrency_limit", toJson s.concurrencyLimit)]
  ofJson? := Record.ofJson? Settings.reader

instance : JsonForm Parameters where
  toJson p := .obj
    [("period", toJson p.period),
     ("working_days", toJson p.workingDays),
     ("total_working_days", toJson p.totalWorkingDays),
     ("overtime", toJson p.overtime),
     ("daily_normal_hours", toJson p.dailyNormalHours),
     ("month_calculation_days", toJson p.monthDays)]
  ofJson? := Record.ofJson? do
    let period ← field "period"
    let workingDays ← field "working_days"
    let totalWorkingDays ← field "total_working_days"
    let overtime ← field "overtime"
    let dailyNormalHours ← field "daily_normal_hours"
    let monthDays ← field "month_calculation_days"
    pure { period, workingDays, totalWorkingDays, overtime, dailyNormalHours, monthDays }

end FieldWages
