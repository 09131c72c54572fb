import FieldWages.Date.Basic

/-!
# Diagnostics

A *diagnostic* records what a calculation had to do without: it goes on, and
says so. Each kind of diagnostic has a code.
-/

namespace FieldWages

/-- A remark on a calculation, on a date if it concerns one. -/
structure Diagnostic where
  code : String
  message : String
  date : Option Date
deriving DecidableEq

namespace Diagnostic

/-- A date on which work was done is not in the calendar. -/
def calendarDataMissing : String := "CALENDAR_DATA_MISSING"

/-- Attendance refers to a labor that is not in the catalogue. -/
def laborNotFound : String := "LABOR_NOT_FOUND"

/-- A piecework labor has no positive minimum and price. -/
def pieceworkTermsMissing : String := "PIECEWORK_TERMS_MISSING"

/-- A concept needs a salary and there is none. -/
def missingSalary : String := "MISSING_SALARY"

/-- A concept needs worked dates and there are none. -/
def noWorkedDates : String := "NO_WORKED_DATES"

/-- A concept needs a configured value and there is none. -/
def missingConceptValue : String := "MISSING_CONCEPT_VALUE"

/-- A concept needs dates of piecework and there are none. -/
def noPiecework : String := "NO_PIECEWORK"

/-- The employee is in no health plan. -/
def noHealthScheme : String := "NO_HEALTH_SCHEME"

/-- The employee is in no retirement scheme. -/
def noRetirementScheme : String := "NO_RETIREMENT_SCHEME"

/-- No calculator is registered for a concept. -/
def unknownConcept : String := "UNKNOWN_CONCEPT"

end Diagnostic

end FieldWages
