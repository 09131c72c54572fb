import FieldWages.Attendance
import FieldWages.Count
import FieldWages.Decimal.Quotient
import FieldWages.Diagnostic
import FieldWages.Labor
import FieldWages.Period
import FieldWages.SortedMap

/-!
# Piecework

Counted units are added up by date and labor. Of each labor the units above
its daily minimum are paid at its price; a date is judged by the sum of the
counts against the sum of the minimums of its labors. The score of a period is
full if no date of it missed its minimum, zero otherwise, and there is none if
no date has piecework.

* `PieceworkSummary.ofAttendance`: dates, score and pay of a period, and the
  diagnostics of labors that could not be counted.
-/

namespace FieldWages

/-- The piecework of one date. -/
structure PieceworkDay where
  date : Date
  count : UInt64
  minimum : UInt64
  percent : Decimal
  excessUnits : UInt64
  excessPay : Decimal
deriving DecidableEq

/-- The piecework of a period. -/
structure PieceworkSummary where
  days : SortedMap Date PieceworkDay
  score : Option Decimal
  totalExcessPay : Decimal
  diagnostics : List Diagnostic
deriving DecidableEq

/-- The score of a period in which no minimum was missed. -/
def fullScore : Decimal := .hundred

/-- The units above a minimum. -/
def unitsAbove (count minimum : Nat) : Nat := count - minimum

/-- A count in percent of a minimum, to the hundredth; zero for no minimum. -/
def piecePercent (count minimum : UInt64) : Except Fault Decimal :=
  if minimum = 0 then .ok .zero
  else do
    let ratio ← (Decimal.ofUInt64 count).div (.ofUInt64 minimum)
    let percent ← ratio.mul fullScore
    pure percent.toHundredths

/-! ## Counting -/

/-- Units and terms of each labor of a date. -/
abbrev LaborCounts := SortedMap String (Nat × PieceworkTerms)

/-- What has been counted so far, and which labors have been remarked upon. -/
structure PieceworkTally where
  counts : SortedMap Date LaborCounts
  reported : List String
  diagnostics : List Diagnostic

namespace PieceworkTally

/-- Nothing counted yet. -/
def none : PieceworkTally := ⟨.empty, [], []⟩

/-- The tally with a remark on a labor, unless it has one. -/
def report (t : PieceworkTally) (laborId : String) (d : Diagnostic) : PieceworkTally :=
  if laborId ∈ t.reported then t
  else { t with reported := laborId :: t.reported, diagnostics := t.diagnostics ++ [d] }

/-- The tally with more units of a labor on a date. -/
def count (t : PieceworkTally) (d : Date) (laborId : String) (units : UInt32)
    (terms : PieceworkTerms) : PieceworkTally :=
  let labors := (t.counts.get? d).getD .empty
  let (n, terms) := (labors.get? laborId).getD (0, terms)
  { t with counts := t.counts.insert d (labors.insert laborId (n + units.toNat, terms)) }

/-- The tally with one more entry of attendance. Entries outside the period,
    without count or labor, and of labors that are no piecework are passed over. -/
def addEntry (labors : LaborCatalog) (p : Period) (t : PieceworkTally) (e : AttendanceEntry) :
    PieceworkTally :=
  match p.contains e.workDate, e.laborId, e.productivityCount with
  | true, some laborId, some units =>
    match labors.find? laborId with
    | .none =>
      t.report laborId
        ⟨Diagnostic.laborNotFound, s!"labor '{laborId}' not found; productivity skipped",
          e.workDate⟩
    | some labor =>
      if !labor.isPiecework then t
      else
        match labor.terms? with
        | .none =>
          t.report laborId
            ⟨Diagnostic.pieceworkTermsMissing,
              s!"labor '{laborId}' lacks a positive minimum task requirement or base price; treated as non-piecework",
              e.workDate⟩
        | some terms => t.count e.workDate laborId units terms
  | _, _, _ => t

end PieceworkTally

/-! ## Judging -/

namespace PieceworkDay

/-- The units of one labor above its minimum. -/
def laborExcess (labor : Nat × PieceworkTerms) : Nat :=
  unitsAbove labor.1 labor.2.minimum.toNat

/-- The pay of the excess units of one labor, added to a sum. -/
def addPay (sum : Decimal) (labor : Nat × PieceworkTerms) : Except Fault Decimal := do
  let units ← Count.word64 (laborExcess labor)
  let pay ← (Decimal.ofUInt64 units).mul labor.2.price
  sum.add pay

/-- The piecework of a date, given what was counted of each labor. -/
def ofCounts (d : Date) (labors : LaborCounts) : Except Fault PieceworkDay := do
  let count ← Count.word64 (Count.total (·.1) labors.values)
  let minimum ← Count.word64 (Count.total (·.2.minimum.toNat) labors.values)
  let units ← Count.word64 (Count.total laborExcess labors.values)
  let pay ← labors.values.foldlM addPay .zero
  let percent ← piecePercent count minimum
  pure
    { date := d
      count
      minimum
      percent
      excessUnits := units
      excessPay := pay.toHundredths }

end PieceworkDay

namespace PieceworkSummary

/-- No piecework. -/
def none : PieceworkSummary := ⟨.empty, .none, .zero, []⟩

/-- The score of the dates with piecework. -/
def scoreOf (days : List PieceworkDay) : Option Decimal :=
  if days.isEmpty then .none
  else if days.all fun d => fullScore ≤ d.percent then some fullScore
  else some .zero

/-- The piecework of a list of attendance in a period. -/
def ofAttendance (entries : List AttendanceEntry) (labors : LaborCatalog) (p : Period) :
    Except Fault PieceworkSummary := do
  let tally := entries.foldl (PieceworkTally.addEntry labors p) .none
  let days ← tally.counts.entries.mapM fun (d, counts) => PieceworkDay.ofCounts d counts
  let total ← Decimal.sum (days.map (·.excessPay))
  pure
    { days := .ofList (days.map fun d => (d.date, d))
      score := scoreOf days
      totalExcessPay := total
      diagnostics := tally.diagnostics }

/-- The units above the minimums of all dates. -/
def excessUnits (s : PieceworkSummary) : Except Fault UInt64 :=
  Count.word64 (Count.total (·.excessUnits.toNat) s.days.values)

end PieceworkSummary

end FieldWages
