/-!
# Faults

A *fault* is the abnormal end of a calculation: an amount, a count or a date leaves
the range that can be represented, a run is asked for more workers than it can
grant, or a calculator of the registry gives up. A fault is not a refusal of
the input (see `FieldWages.Refusal`): it is found while calculating.

* `Fault.message`: the text under which a fault is reported.
-/

namespace FieldWages

/-- What stops a calculation. -/
inductive Fault where
  /-- A sum has no decimal close enough to it. -/
  | additionOverflow
  /-- A difference has no decimal close enough to it. -/
  | subtractionOverflow
  /-- A product has no decimal close enough to it. -/
  | multiplicationOverflow
  /-- A quotient has no decimal close enough to it. -/
  | divisionOverflow
  /-- A quotient by zero. -/
  | divisionByZero
  /-- A sum of counts has no room in its word. -/
  | countOverflow
  /-- A step forward passes the last date. -/
  | afterLastDate
  /-- A step back passes the first date. -/
  | beforeFirstDate
  /-- A run is asked for more concurrent workers than can be granted. -/
  | tooManyWorkers
  /-- A calculator gives up with a text of its own. -/
  | calculator (text : String)
deriving DecidableEq, Repr

/-- The greatest number of workers a run can be granted: `2 ^ 61 - 1`. -/
def maxWorkers : Nat := 2305843009213693951

/-- The text under which a fault is reported. -/
def Fault.message : Fault → String
  | .additionOverflow => "Addition overflowed"
  | .subtractionOverflow => "Subtraction overflowed"
  | .multiplicationOverflow => "Multiplication overflowed"
  | .divisionOverflow => "Division overflowed"
  | .divisionByZero => "Division by zero"
  | .countOverflow => "attempt to add with overflow"
  | .afterLastDate => "`NaiveDate + TimeDelta` overflowed"
  | .beforeFirstDate => "`NaiveDate - TimeDelta` overflowed"
  | .tooManyWorkers =>
    "a semaphore may not have more than MAX_PERMITS permits (" ++ toString maxWorkers ++ ")"
  | .calculator text => text

end FieldWages
