import FieldWages.Date.Text
import FieldWages.Fault

/-!
# Refusals

A *refusal* says why an input is not accepted: a configuration that is missing,
unreadable or unsound, a period, an employee or attendance that makes no sense.
It is found before anything is calculated. A calculation fails by a refusal or
by a fault (`Failure`).

* `Refusal.message`: the text of a refusal.
-/

namespace FieldWages

/-- Why an input is refused. -/
inductive Refusal where
  /-- There is no readable file at the path. -/
  | configNotFound (path : String)
  /-- The file at the path does not hold a configuration. -/
  | configMalformed (path : String) (message : String)
  /-- The configuration contradicts itself. -/
  | invalidConfig (message : String)
  /-- The period ends before it starts. -/
  | invalidPeriod (start stop : Date)
  /-- The attendance of an employee is not acceptable. -/
  | invalidAttendance (employeeId : String) (message : String)
  /-- A field of an employee is not acceptable. -/
  | invalidEmployee (field : String) (message : String)
  /-- A result could not be produced. -/
  | calculation (message : String)
deriving DecidableEq

/-- The text of a refusal. -/
def Refusal.message : Refusal → String
  | configNotFound path => "Configuration file not found: " ++ path
  | configMalformed path message =>
    "Failed to parse configuration file '" ++ path ++ "': " ++ message
  | invalidConfig message => "Invalid configuration: " ++ message
  | invalidPeriod start stop =>
    "Invalid period: end " ++ stop.toText ++ " is before start " ++ start.toText
  | invalidAttendance employeeId message =>
    "Invalid attendance for employee '" ++ employeeId ++ "': " ++ message
  | invalidEmployee field message => "Invalid employee field '" ++ field ++ "': " ++ message
  | calculation message => "Calculation error: " ++ message

/-- Why a configuration is unsound. -/
inductive ConfigProblem where
  | noConcepts
  /-- The code repeats an earlier one, but for the case of its letters. -/
  | repeatedConcept (code : String)
  | dailyHoursNotPositive
  | noMonthDays
  | noWorkers
deriving DecidableEq

/-- The text of a problem. -/
def ConfigProblem.message : ConfigProblem → String
  | noConcepts => "no concepts configured"
  | repeatedConcept code => "concept '" ++ code ++ "' is configured twice"
  | dailyHoursNotPositive => "daily_normal_hours must be positive"
  | noMonthDays => "month_calculation_days must be greater than zero"
  | noWorkers => "concurrency_limit must be greater than zero"

/-- The refusal of an unsound configuration. -/
def ConfigProblem.refusal (p : ConfigProblem) : Refusal := .invalidConfig p.message

/-- Why a calculation has no result. -/
inductive Failure where
  | refused (r : Refusal)
  | faulted (f : Fault)
deriving DecidableEq

/-- A step that can fault, as part of one that can fail. -/
def Failure.lift {α : Type} : Except Fault α → Except Failure α
  | .ok a => .ok a
  | .error f => .error (.faulted f)

end FieldWages
