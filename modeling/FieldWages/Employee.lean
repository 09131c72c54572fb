import FieldWages.Decimal.Basic
import FieldWages.Text.Fold

/-!
# Employees
-/

namespace FieldWages

/-- Who is paid, and what the pay depends on beside the attendance. -/
structure Employee where
  id : String
  fullName : String
  monthlySalary : Option Decimal
  /-- The code of the retirement concept the employee pays into. -/
  retirementScheme : Option String
  healthScheme : Option String
  dependents : UInt32
deriving DecidableEq

namespace Employee

/-- The monthly salary, zero if none is agreed. -/
def salaryOrZero (e : Employee) : Decimal := e.monthlySalary.getD .zero

/-- Whether the employee has declared dependents. -/
def hasDependents (e : Employee) : Bool := 0 < e.dependents

/-- Whether the employee pays into the retirement concept of the given code. -/
def contributesTo (e : Employee) (code : String) : Bool :=
  e.retirementScheme.any (sameCode · code)

end Employee

end FieldWages
