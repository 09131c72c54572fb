import FieldWages.Date.Basic

/-!
# Civil dates

A day is written by year, month and day of the month in the Gregorian
calendar, which is taken to have been in use at all times; there is a year
zero. The year is counted from March, so that the leap day ends it: four
hundred such years are 146097 days, and the months of one repeat every 153
days from March and from August.

* `Civil.serial_ofSerial`: counting the days of a civil date undoes splitting
  the number of a day into year, month and day;
* `Date.ofCivil?`: a civil date names a day exactly if that day is written so.
-/

namespace FieldWages

/-- Year, month and day of the month. -/
structure Civil where
  year : Int
  month : Int
  day : Int
deriving DecidableEq, Repr

namespace Civil

/-- The years, counted from March, that have passed on a day of the era: full
    centuries, full spans of four years, and single years. Only the last
    century and the last year of a span may be a day longer. -/
def yearOfEra (dayOfEra : Int) : Int :=
  let century := min 3 (dayOfEra / 36524)
  let dayOfCentury := dayOfEra - 36524 * century
  100 * century + 4 * (dayOfCentury / 1461) + min 3 (dayOfCentury % 1461 / 365)

/-- The days before the first of March of a year of the era. -/
def daysBeforeYear (yearOfEra : Int) : Int := yearOfEra * 365 + yearOfEra / 4 - yearOfEra / 100

/-- The days of the year before a month, where March is month zero. -/
def daysBeforeMonth (month : Int) : Int := (153 * month + 2) / 5

/-- The civil date of the day with the given number. -/
def ofSerial (serial : Int) : Civil :=
  let era := (serial + 306) / 146097
  let dayOfEra := (serial + 306) % 146097
  let year := yearOfEra dayOfEra
  let dayOfYear := dayOfEra - daysBeforeYear year
  let month := (5 * dayOfYear + 2) / 153
  { year := era * 400 + year + (if month < 10 then 0 else 1)
    month := if month < 10 then month + 3 else month - 9
    day := dayOfYear - daysBeforeMonth month + 1 }

/-- The number of the day of a civil date. -/
def serial (c : Civil) : Int :=
  let year := if c.month ≤ 2 then c.year - 1 else c.year
  let dayOfYear := daysBeforeMonth ((c.month + 9) % 12) + c.day - 1
  year / 400 * 146097 + daysBeforeYear (year % 400) + dayOfYear - 306

theorem yearOfEra_bounds {n : Int} (h₀ : 0 ≤ n) (h₁ : n < 146097) :
    (0 ≤ yearOfEra n ∧ yearOfEra n < 400) ∧
      0 ≤ n - daysBeforeYear (yearOfEra n) ∧ n - daysBeforeYear (yearOfEra n) ≤ 365 := by
  simp only [yearOfEra, daysBeforeYear]
  have hc₀ : 0 ≤ min 3 (n / 36524) := by omega
  have hc₁ : min 3 (n / 36524) ≤ 3 := by omega
  have hd₀ : 0 ≤ n - 36524 * min 3 (n / 36524) := by omega
  have hd₁ : n - 36524 * min 3 (n / 36524) ≤ 36524 := by omega
  have hc : n = 36524 * min 3 (n / 36524) + (n - 36524 * min 3 (n / 36524)) := by omega
  generalize n - 36524 * min 3 (n / 36524) = day at *
  generalize min 3 (n / 36524) = century at *
  have hy₀ : 0 ≤ min 3 (day % 1461 / 365) := by omega
  have hy₁ : min 3 (day % 1461 / 365) ≤ 3 := by omega
  have hr₀ : 0 ≤ day % 1461 - 365 * min 3 (day % 1461 / 365) := by omega
  have hr₁ : day % 1461 - 365 * min 3 (day % 1461 / 365) ≤ 365 := by omega
  have hq₀ : 0 ≤ day / 1461 := by omega
  have hq₁ : day / 1461 ≤ 24 := by omega
  have hq : day = 1461 * (day / 1461) + day % 1461 := by omega
  generalize min 3 (day % 1461 / 365) = year at *
  generalize day % 1461 = rest at *
  generalize day / 1461 = span at *
  have h₂ : (100 * century + 4 * span + year) / 4 = 25 * century + span := by omega
  have h₃ : (100 * century + 4 * span + year) / 100 = century := by omega
  rw [h₂, h₃]
  omega

/-- A civil date with its month counted from March. -/
theorem serial_mk {era year month day : Int} (hy₀ : 0 ≤ year) (hy₁ : year < 400)
    (hm₀ : 0 ≤ month) (hm₁ : month < 12) :
    serial ⟨era * 400 + year + (if month < 10 then 0 else 1),
        if month < 10 then month + 3 else month - 9, day⟩ =
      era * 146097 + daysBeforeYear year + (daysBeforeMonth month + day - 1) - 306 := by
  simp only [serial]
  by_cases hm : month < 10
  · have e₁ : ¬ month + 3 ≤ 2 := by omega
    have e₂ : (month + 3 + 9) % 12 = month := by omega
    have e₃ : (era * 400 + year + 0) / 400 = era := by omega
    have e₄ : (era * 400 + year + 0) % 400 = year := by omega
    simp only [hm, if_true, e₁, if_false, e₂, e₃, e₄]
  · have e₁ : month - 9 ≤ 2 := by omega
    have e₂ : (month - 9 + 9) % 12 = month := by omega
    have e₃ : (era * 400 + year + 1 - 1) / 400 = era := by omega
    have e₄ : (era * 400 + year + 1 - 1) % 400 = year := by omega
    simp only [hm, if_false, e₁, if_true, e₂, e₃, e₄]

theorem serial_ofSerial (n : Int) : (ofSerial n).serial = n := by
  have h₀ : 0 ≤ (n + 306) % 146097 := by omega
  have h₁ : (n + 306) % 146097 < 146097 := by omega
  obtain ⟨⟨hy₀, hy₁⟩, hd₀, hd₁⟩ := yearOfEra_bounds h₀ h₁
  rw [ofSerial, serial_mk hy₀ hy₁ (by omega) (by omega)]
  omega

end Civil

namespace Date

/-- How a day is written with year, month and day. -/
def civil (d : Date) : Civil := .ofSerial d.serial

/-- The day a civil date names: the one that is written so, if it is in range. -/
def ofCivil? (c : Civil) : Option Date := do
  let d ← ofSerial? c.serial
  if d.civil = c then some d else none

theorem ofCivil?_civil (d : Date) : ofCivil? d.civil = some d := by
  have h : ofSerial? d.civil.serial = some d := by
    rw [civil, Civil.serial_ofSerial]
    unfold ofSerial?
    rw [dif_pos ⟨d.first_le, d.le_last⟩]
  simp [ofCivil?, h]

end Date

end FieldWages
