import FieldWages.Payroll

/-!
# Plain records

The records that a calculation is shown on, given by the few numbers that matter
there: a day by its number, a period by its first and its last day, an entry by
its day and its hours. All else about them is plain: an ordinary employee, the
standard overtime rates, no holidays, no labors and no concepts.
-/

namespace FieldWages

theorem Date.first_le_toNat (n : UInt16) : -95746130 ≤ (n.toNat : Int) := by omega

theorem Date.toNat_le_last (n : UInt16) : (n.toNat : Int) ≤ 95745398 := by
  have := n.toNat_lt
  omega

/-- The day of the given number. -/
def Date.onDay (n : UInt16) : Date := ⟨n.toNat, first_le_toNat n, toNat_le_last n⟩

/-- The days from one number to another, both included. -/
def Period.between (first last : UInt16) : Period := ⟨.onDay first, .onDay last⟩

/-- The first second of a day. -/
def TimeOfDay.midnight : TimeOfDay where
  second := 0
  nano := 0

/-- The time so many seconds after a midnight. -/
def TimeOfDay.afterMidnight (seconds : UInt32) : TimeOfDay where
  second := seconds.toNat % 86400
  nano := 0
  second_lt := Nat.mod_lt _ (by decide)
  leap h := absurd h (Nat.not_succ_le_zero _)

/-- An employee of whom nothing is known that matters to the pay. -/
def Employee.plain : Employee := ⟨"W-1", "", none, none, none, 0⟩

/-- An entry of so many hours, in hundredths, on the day of the given number. -/
def AttendanceEntry.ofHours (day : UInt16) (hundredths : UInt32) : AttendanceEntry :=
  ⟨"A-1", "W-1", ⟨.onDay day, .midnight⟩, none, none, Decimal.ofParts? hundredths.toNat 2, none,
    none⟩

/-- An entry of so many units of a labor, counted on the day of the given number. -/
def AttendanceEntry.ofUnits (day : UInt16) (units : UInt32) (labor : String) : AttendanceEntry :=
  { ofHours day 800 with productivityCount := units, laborId := labor }

/-- Days of eight hours, in a month of twenty-six working days. -/
def Parameters.plain (period : Period) (workingDays : UInt32) : Parameters :=
  ⟨period, workingDays, 26, .standard, .ofUInt32 8, 30⟩

/-- No holidays, no labors and no concepts. -/
def PayrollInputs.plain (period : Period) (workingDays : UInt32) : PayrollInputs where
  parameters := .plain period workingDays
  calendar := ⟨.empty⟩
  labors := []
  concepts := []

end FieldWages
