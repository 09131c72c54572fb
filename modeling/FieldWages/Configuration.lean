import FieldWages.Payroll

/-!
# Configuration

A *configuration* is a plan of concepts with the settings of the engine. It is
sound: there are concepts, no code is configured twice, a day has normal hours,
a month has days, and a run has workers.

* `Configuration.ofParts`: the configuration of settings and concepts, or the
  first problem they have.
-/

namespace FieldWages

/-- The settings of the engine. -/
structure Settings where
  dailyNormalHours : Decimal
  monthDays : UInt32
  overtime : OvertimeRates
  /-- How many employees a run calculates at a time. -/
  concurrencyLimit : UInt64
deriving DecidableEq

/-- The settings that hold unless others are made. -/
def Settings.standard : Settings where
  dailyNormalHours := .ofUInt32 8
  monthDays := defaultMonthDays
  overtime := .standard
  concurrencyLimit := 4

/-- The first code that repeats one of the folded codes `seen` or an earlier one. -/
def repeatedCode? (seen : List String) : List Concept → Option String
  | [] => none
  | c :: cs =>
    if foldCode c.code ∈ seen then some c.code else repeatedCode? (foldCode c.code :: seen) cs

/-- The first problem of settings and concepts. -/
def configProblem? (settings : Settings) (concepts : List Concept) : Option ConfigProblem :=
  if concepts.isEmpty then some .noConcepts
  else
    match repeatedCode? [] concepts with
    | some code => some (.repeatedConcept code)
    | none =>
      if settings.dailyNormalHours ≤ .zero then some .dailyHoursNotPositive
      else if settings.monthDays = 0 then some .noMonthDays
      else if settings.concurrencyLimit = 0 then some .noWorkers
      else none

/-- Settings and concepts without a problem. -/
structure Configuration where
  settings : Settings
  concepts : List Concept
  sound : configProblem? settings concepts = none

namespace Configuration

/-- The configuration of settings and concepts, or the first problem they have. -/
def ofParts (settings : Settings) (concepts : List Concept) : Except Refusal Configuration :=
  match h : configProblem? settings concepts with
  | some p => .error p.refusal
  | none => .ok ⟨settings, concepts, h⟩

/-- The parameters of a period, unless it ends before it starts. -/
def parameters (c : Configuration) (start stop : Date) (workingDays totalWorkingDays : UInt32) :
    Except Refusal Parameters :=
  if stop < start then .error (.invalidPeriod start stop)
  else
    .ok
      { period := ⟨start, stop⟩
        workingDays
        totalWorkingDays
        overtime := c.settings.overtime
        dailyNormalHours := c.settings.dailyNormalHours
        monthDays := c.settings.monthDays }

/-- What the calculations of a run share under a configuration. -/
def payrollInputs (c : Configuration) (parameters : Parameters) (calendar : WorkCalendar)
    (labors : LaborCatalog) : PayrollInputs :=
  ⟨parameters, calendar, labors, c.concepts⟩

/-! ## The standard plan -/

/-- A concept with a description. -/
def planned (code : String) (category : Category) (value : Option Decimal)
    (description : String) : Concept :=
  ⟨code, category, value, some description⟩

/-- A value of the plan in hundredths; its trailing zeros are not written. -/
def percent (hundredths : Int) : Option Decimal :=
  (Decimal.ofParts? hundredths 2).map Decimal.normalize

/-- The concepts of the standard plan. -/
def standardConcepts : List Concept :=
  [planned "BASIC_SALARY" .income none "Basic salary",
   planned "DOMINICAL" .income none "Weekly rest day",
   planned "OVERTIME_25" .income (percent 2500) "Overtime (first two hours)",
   planned "OVERTIME_35" .income (percent 3500) "Overtime (beyond two hours)",
   planned "HOLIDAY_OVERTIME" .income (percent 10000) "Sunday and holiday extra hours",
   planned "NIGHT_SURCHARGE" .income (percent 3500) "Night work surcharge",
   planned "PIECEWORK_EXCESS" .income none "Harvest units above minimum",
   planned "PRODUCTIVITY_BONUS" .income (percent 5000) "Full productivity bonus",
   planned "FAMILY_ALLOWANCE" .income (percent 11300) "Family allowance",
   planned "ONP" .retirement (percent 1300) "National pension system",
   planned "AFP_INTEGRA" .retirement (percent 1137) "AFP Integra",
   planned "AFP_PRIMA" .retirement (percent 1137) "AFP Prima",
   planned "AFP_PROFUTURO" .retirement (percent 1149) "AFP Profuturo",
   planned "AFP_HABITAT" .retirement (percent 1138) "AFP Habitat",
   planned "HEALTH_PLAN" .employeeContribution (percent 225) "Private health plan",
   planned "ESSALUD" .employerContribution (percent 900) "Public health insurance"]

/-- The standard plan under standard settings. -/
def standard : Configuration := ⟨.standard, standardConcepts, by decide +kernel⟩

end Configuration

end FieldWages
