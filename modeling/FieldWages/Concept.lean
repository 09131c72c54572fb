import FieldWages.Decimal.Basic

/-!
# Pay concepts

A *concept* is a line of the pay plan: something that is earned, withheld or
contributed, with a code, a category and, for many concepts, a configured
value. The category decides which total the amount of the concept goes to.
-/

namespace FieldWages

/-- What a concept is to the ledger. -/
inductive Category where
  /-- Earned by the employee. -/
  | income
  /-- Withheld for a reason of its own: an advance, a court order. -/
  | deduction
  /-- Withheld for the retirement scheme of the employee. -/
  | retirement
  /-- Withheld as a contribution of the employee. -/
  | employeeContribution
  /-- Paid by the employer on top. -/
  | employerContribution
deriving DecidableEq, Repr

namespace Category

/-- Whether amounts of the category are taken off what is earned. -/
def isDeduction : Category → Bool
  | deduction | retirement | employeeContribution => true
  | income | employerContribution => false

/-- The written name of a category. -/
def name : Category → String
  | income => "INCOME"
  | deduction => "DEDUCTION"
  | retirement => "RETIREMENT"
  | employeeContribution => "EMPLOYEE_CONTRIBUTION"
  | employerContribution => "EMPLOYER_CONTRIBUTION"

/-- All categories. -/
def all : List Category :=
  [income, deduction, retirement, employeeContribution, employerContribution]

/-- The category with the given name. -/
def ofName? (name : String) : Option Category := all.find? fun c => c.name = name

theorem ofName?_name (c : Category) : ofName? c.name = some c := by
  cases c <;> decide

end Category

/-- A line of the pay plan. -/
structure Concept where
  /-- Names the calculator and the line of the payslip. -/
  code : String
  category : Category
  /-- A percentage or an amount, as the calculator takes it. -/
  value : Option Decimal
  description : Option String
deriving DecidableEq

/-- A concept without description. -/
def Concept.plain (code : String) (category : Category) (value : Option Decimal) : Concept :=
  ⟨code, category, value, none⟩

end FieldWages
