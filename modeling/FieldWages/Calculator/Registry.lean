import FieldWages.Calculator.Income
import FieldWages.Calculator.Share

/-!
# Registry

The registry holds the calculators by the folded form of their codes. A
calculator is registered under a code, in place of an earlier one, or known by
a second code from then on: an alias takes the calculator that the existing
code has at the time.

* `Registry.get?_register`: what is found after a registration.
-/

namespace FieldWages

/-- Calculators by folded codes, each code once. -/
structure Registry where
  calculators : SortedMap String Calculator

namespace Registry

/-- The registry without calculators. -/
def empty : Registry := ⟨.empty⟩

/-- The calculator of a code. -/
def get? (r : Registry) (code : String) : Option Calculator := r.calculators.get? (foldCode code)

/-- The registry with a calculator under a code. -/
def register (r : Registry) (code : String) (calculator : Calculator) : Registry :=
  ⟨r.calculators.insert (foldCode code) calculator⟩

/-- The registry with the calculator of an existing code under one more code, if
    the existing code has one. -/
def alias? (r : Registry) (code existing : String) : Option Registry :=
  (r.get? existing).map (r.register code)

/-- Whether a code has a calculator. -/
def contains (r : Registry) (code : String) : Bool := (r.get? code).isSome

/-- How many codes have a calculator. -/
def size (r : Registry) : Nat := r.calculators.size

theorem get?_register {r : Registry} {code code' : String} {calculator : Calculator} :
    (r.register code calculator).get? code' =
      if foldCode code = foldCode code' then some calculator else r.get? code' :=
  SortedMap.get?_insert

/-- The codes of the standard registry with their calculators. -/
def standardEntries : List (String × Calculator) :=
  [("BASIC_SALARY", Calculator.basicSalary),
   ("DOMINICAL", Calculator.restDay),
   ("OVERTIME_25", Calculator.overtimeTier1),
   ("OVERTIME_35", Calculator.overtimeTier2),
   ("HOLIDAY_OVERTIME", Calculator.holidayOvertime),
   ("NIGHT_SURCHARGE", Calculator.nightSurcharge),
   ("PIECEWORK_EXCESS", Calculator.pieceworkExcess),
   ("PRODUCTIVITY_BONUS", Calculator.productivityBonus),
   ("FAMILY_ALLOWANCE", Calculator.familyAllowance),
   ("FIXED_INCOME", Calculator.fixedAmount),
   ("ONP", Calculator.percentageOfIncome),
   ("AFP_INTEGRA", Calculator.percentageOfIncome),
   ("AFP_PRIMA", Calculator.percentageOfIncome),
   ("AFP_PROFUTURO", Calculator.percentageOfIncome),
   ("AFP_HABITAT", Calculator.percentageOfIncome),
   ("INCOME_TAX", Calculator.percentageOfIncome),
   ("ESSALUD", Calculator.percentageOfIncome),
   ("HEALTH_PLAN", Calculator.healthPlan),
   ("ADVANCE", Calculator.fixedAmount),
   ("JUDICIAL_RETENTION", Calculator.fixedAmount)]

/-- The calculators that are there unless others are registered. -/
def standard : Registry :=
  standardEntries.foldl (fun r e => r.register e.1 e.2) .empty

end Registry

end FieldWages
