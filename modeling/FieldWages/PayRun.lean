import FieldWages.Payroll

/-!
# Pay runs

A run calculates many employees at a time and reports on each of them: a
detail, or the reason there is none. No employee's failure touches another.
Results come in as the calculations complete, in any order; the net pay of the
details is added up in that order.

* `PayRun.report`: the report of results in the order they came in;
* `PayRun.run`: the report of a run.
-/

namespace FieldWages

/-- An employee with the attendance to be paid. -/
structure EmployeeInput where
  employee : Employee
  attendance : List AttendanceEntry
deriving DecidableEq

/-- Why there is no detail of an employee. -/
structure EmployeeFailure where
  employeeId : String
  message : String
deriving DecidableEq

/-- The id in a failure that cannot be laid to an employee. -/
def unknownEmployee : String := "<unknown>"

/-- What a run has found. -/
structure PayRunReport where
  details : List PayrollDetail
  failures : List EmployeeFailure
  totalNetPay : Decimal

namespace PayRunReport

/-- A report on nobody. -/
def none : PayRunReport := ⟨[], [], .zero⟩

/-- The first detail of an employee. -/
def detailFor? (r : PayRunReport) (employeeId : String) : Option PayrollDetail :=
  r.details.find? fun d => d.employeeId = employeeId

end PayRunReport

namespace PayRun

/-- The text of a failure in a report. -/
def failureMessage : Failure → String
  | .refused r => r.message
  | .faulted f => "calculation panicked: " ++ f.message

/-- The result of one employee. -/
def settle (shared : PayrollInputs) (registry : Registry) (i : EmployeeInput) :
    Except EmployeeFailure PayrollDetail :=
  match Payroll.compute i.employee i.attendance shared registry with
  | .ok d => .ok d
  | .error f => .error ⟨i.employee.id, failureMessage f⟩

/-- The report with one more result. -/
def addResult (r : PayRunReport) : Except EmployeeFailure PayrollDetail → Except Fault PayRunReport
  | .ok d => do
    let total ← r.totalNetPay.add d.netPay
    pure { r with details := r.details ++ [d], totalNetPay := total }
  | .error f => .ok { r with failures := r.failures ++ [f] }

/-- The report of results in the order they came in. -/
def report (results : List (Except EmployeeFailure PayrollDetail)) : Except Fault PayRunReport :=
  results.foldlM addResult .none

/-- The report of a run with at most `limit` calculations at a time, where
    `completed` lists the employees in the order their calculations complete. -/
def run (shared : PayrollInputs) (registry : Registry) (limit : UInt64)
    (completed : List EmployeeInput) : Except Failure PayRunReport :=
  if limit = 0 then .error (.refused ConfigProblem.noWorkers.refusal)
  else if maxWorkers < limit.toNat then .error (.faulted .tooManyWorkers)
  else Failure.lift (report (completed.map (settle shared registry)))

end PayRun

end FieldWages
