import FieldWages.Fault

/-!
# Dates

A *date* is a day, numbered from Monday the first of January of the year one,
within the range of years from -262143 to 262142. Numbering the days makes the
weekday a remainder by seven and a step of `n` days an addition; how a day is
written with year, month and day is the matter of `FieldWages.Date.Civil`.

* `Date.serial_later`: a step that succeeds adds to the number of the day;
* `Date.through`: the days from one date to another, both included;
* `Date.mem_through`, `Date.pairwise_through`: these days and no others, in order.
-/

namespace FieldWages

/-- A day by its number, where day zero is Monday, 1 January of the year 1. -/
structure Date where
  serial : Int
  first_le : -95746130 ≤ serial := by decide
  le_last : serial ≤ 95745398 := by decide
deriving DecidableEq, Repr

/-- The days of a week. -/
inductive Weekday where
  | monday | tuesday | wednesday | thursday | friday | saturday | sunday
deriving DecidableEq, Repr

namespace Date

theorem ext {a b : Date} (h : a.serial = b.serial) : a = b := by
  cases a; cases b; simp_all

/-! ## Order -/

instance : LE Date := ⟨fun a b => a.serial ≤ b.serial⟩

instance : LT Date := ⟨fun a b => a.serial < b.serial⟩

theorem le_iff {a b : Date} : a ≤ b ↔ a.serial ≤ b.serial := Iff.rfl

theorem lt_iff {a b : Date} : a < b ↔ a.serial < b.serial := Iff.rfl

instance (a b : Date) : Decidable (a ≤ b) := inferInstanceAs (Decidable (a.serial ≤ b.serial))

instance (a b : Date) : Decidable (a < b) := inferInstanceAs (Decidable (a.serial < b.serial))

instance : Std.IsLinearOrder Date where
  le_refl a := Int.le_refl a.serial
  le_trans _ _ _ := Int.le_trans
  le_antisymm _ _ h h' := ext (Int.le_antisymm h h')
  le_total a b := Int.le_total a.serial b.serial

instance : Std.LawfulOrderLT Date where
  lt_iff a b := by rw [lt_iff, le_iff, le_iff]; omega

/-- The earlier of two dates. -/
protected def min (a b : Date) : Date := if b < a then b else a

/-! ## Steps -/

/-- The day of the given number, if it is in range. -/
def ofSerial? (serial : Int) : Option Date :=
  if h : -95746130 ≤ serial ∧ serial ≤ 95745398 then some ⟨serial, h.1, h.2⟩ else none

/-- The date so many days later. -/
def later (d : Date) (days : Nat) : Except Fault Date :=
  match ofSerial? (d.serial + days) with
  | some d => .ok d
  | none => .error .afterLastDate

/-- The date so many days earlier. -/
def earlier (d : Date) (days : Nat) : Except Fault Date :=
  match ofSerial? (d.serial - days) with
  | some d => .ok d
  | none => .error .beforeFirstDate

theorem serial_of_ofSerial? {n : Int} {d : Date} (h : ofSerial? n = some d) : d.serial = n := by
  unfold ofSerial? at h
  split at h
  · cases h; rfl
  · contradiction

theorem serial_later {d e : Date} {days : Nat} (h : d.later days = .ok e) :
    e.serial = d.serial + days := by
  unfold later at h
  split at h
  · cases h; exact serial_of_ofSerial? ‹_›
  · contradiction

/-- The days from `a` to `b`, both included, in order; none if `b` is earlier. -/
def through (a b : Date) : List Date :=
  (List.range (b.serial + 1 - a.serial).toNat).filterMap fun (k : Nat) => ofSerial? (a.serial + k)

theorem mem_through {a b d : Date} : d ∈ a.through b ↔ a ≤ d ∧ d ≤ b := by
  simp only [through, List.mem_filterMap, List.mem_range, le_iff]
  constructor
  · rintro ⟨k, hk, hd⟩
    have := serial_of_ofSerial? hd
    omega
  · rintro ⟨ha, hb⟩
    refine ⟨(d.serial - a.serial).toNat, by omega, ?_⟩
    have hd : a.serial + ((d.serial - a.serial).toNat : Int) = d.serial := by omega
    rw [hd, ofSerial?, dif_pos ⟨d.first_le, d.le_last⟩]

theorem pairwise_through {a b : Date} : (a.through b).Pairwise (· < ·) := by
  refine List.pairwise_filterMap.2 (List.pairwise_lt_range.imp ?_)
  intro j k hjk d hd e he
  have := serial_of_ofSerial? hd
  have := serial_of_ofSerial? he
  rw [lt_iff]
  omega

/-! ## Weekdays -/

/-- How many days after the last Monday a date is. -/
def daysFromMonday (d : Date) : Nat := (d.serial % 7).toNat

/-- The weekday of a date. -/
def weekday (d : Date) : Weekday :=
  match d.daysFromMonday with
  | 0 => .monday
  | 1 => .tuesday
  | 2 => .wednesday
  | 3 => .thursday
  | 4 => .friday
  | 5 => .saturday
  | _ => .sunday

/-- Whether a date is a Sunday. -/
def isSunday (d : Date) : Bool := d.weekday == .sunday

end Date

end FieldWages
