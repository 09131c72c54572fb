import FieldWages.Date.Basic

/-!
# Times of day

A *time of day* is a second of the day with a fraction in nanoseconds. A leap
second is written as the second behind the fifty-ninth of a minute; it is kept
as that fifty-ninth second with a fraction of one second or more, so the
minute of a time of day (`TimeOfDay.minute`) never sees it.

* `DateTime.shift?`: the date and time so many minutes later or earlier.
-/

namespace FieldWages

/-- A second of the day and a fraction of it. -/
structure TimeOfDay where
  /-- The seconds since midnight. -/
  second : Nat
  /-- The nanoseconds of the fraction, a whole second more in a leap second. -/
  nano : Nat
  second_lt : second < 86400 := by decide
  nano_lt : nano < 2000000000 := by decide
  leap : 1000000000 ≤ nano → second % 60 = 59 := by decide
deriving DecidableEq, Repr

/-- A date with a time of day. -/
structure DateTime where
  date : Date
  time : TimeOfDay
deriving DecidableEq, Repr

/-- An instant, by date and time of day in universal time. -/
structure Timestamp where
  utc : DateTime
deriving DecidableEq, Repr

namespace TimeOfDay

/-- The minutes since midnight, seconds dropped. -/
def minute (t : TimeOfDay) : Nat := t.second / 60

theorem minute_lt (t : TimeOfDay) : t.minute < 1440 := by
  have := t.second_lt
  simp only [minute]
  omega

/-- The time of day with these parts, if there is one. The second sixty is the
    leap second of the minute. -/
def ofParts? (hour minute second nano : Nat) : Option TimeOfDay :=
  if h : hour < 24 ∧ minute < 60 ∧ second ≤ 60 ∧ nano < 1000000000 then
    if hs : second = 60 then
      some ⟨hour * 3600 + minute * 60 + 59, 1000000000 + nano, by omega, by omega, by omega⟩
    else
      some ⟨hour * 3600 + minute * 60 + second, nano, by omega, by omega, by omega⟩
  else none

/-- The time of day so many minutes later, and how many midnights lie between. -/
def shift (t : TimeOfDay) (minutes : Int) : TimeOfDay × Int :=
  let s : Int := t.second + minutes * 60
  ({ second := (s % 86400).toNat
     nano := t.nano
     second_lt := by omega
     nano_lt := t.nano_lt
     leap := fun h => by have := t.leap h; omega }, s / 86400)

end TimeOfDay

/-- The date and time so many minutes later, if there is a date for it. -/
def DateTime.shift? (t : DateTime) (minutes : Int) : Option DateTime :=
  let (time, days) := t.time.shift minutes
  (Date.ofSerial? (t.date.serial + days)).map (⟨·, time⟩)

end FieldWages
