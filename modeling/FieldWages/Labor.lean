import FieldWages.Decimal.Basic

/-!
# Labors

A *labor* is a kind of field work. Piecework is paid by the unit above a daily
minimum, at a base price; it needs both to be positive.
-/

namespace FieldWages

/-- A kind of work. -/
structure Labor where
  id : String
  name : String
  isPiecework : Bool
  /-- The units to be done in a day before any is paid. -/
  minTaskRequirement : Option UInt32
  /-- What a unit above the minimum is paid. -/
  basePrice : Option Decimal
deriving DecidableEq

/-- What piecework is paid by. -/
structure PieceworkTerms where
  minimum : UInt32
  price : Decimal
deriving DecidableEq

/-- The terms of a labor, if it is piecework with a positive minimum and price. -/
def Labor.terms? (l : Labor) : Option PieceworkTerms :=
  match l.isPiecework, l.minTaskRequirement, l.basePrice with
  | true, some minimum, some price =>
    if 0 < minimum ∧ Decimal.zero < price then some ⟨minimum, price⟩ else none
  | _, _, _ => none

/-- The labors by the ids that attendance refers to. -/
abbrev LaborCatalog := List (String × Labor)

/-- The labor of an id; of several entries the last counts. -/
def LaborCatalog.find? (c : LaborCatalog) (id : String) : Option Labor :=
  (c.reverse.find? fun e => e.1 = id).map (·.2)

end FieldWages
