import FieldWages.Date.Civil
import FieldWages.Text.Digits

/-!
# Dates as text

A date is written as year, month and day with hyphens between them: four
digits for a year from 0 to 9999, a sign and at least four digits for any
other, two digits for month and day. Reading is more liberal: blanks may stand
before each part, a year without a sign may have one to four digits, one with a
sign any number, and month and day one or two.

* `Date.toText`: the written form;
* `Date.ofText?`: the date a text stands for, if it stands for one;
* `Weekday.toText`, `Weekday.ofText?`: three letters, or the full name in
  either case.
-/

namespace FieldWages

open Text

namespace Civil

/-- The written form of a year. -/
def yearChars (year : Int) : List Char :=
  if 0 ≤ year ∧ year ≤ 9999 then padded 4 year.toNat
  else (if year < 0 then '-' else '+') :: padded 4 year.natAbs

/-- The written form of a civil date. -/
def chars (c : Civil) : List Char :=
  yearChars c.year ++ '-' :: padded 2 c.month.toNat ++ '-' :: padded 2 c.day.toNat

end Civil

namespace Date

/-- The written form of a date, as characters. -/
def chars (d : Date) : List Char := d.civil.chars

/-- The written form of a date. -/
def toText (d : Date) : String := String.ofList d.chars

/-- Reads a number of at most `n` digits, after blanks. -/
def readNumber? (n : Nat) (cs : List Char) : Option (Nat × List Char) :=
  let (ds, rest) := takeDigits n (skipBlanks cs)
  if ds = [] then none else some (valueOf ds, rest)

/-- Reads the digits of a year that has a sign. -/
def readSignedYear? (cs : List Char) : Option (Nat × List Char) :=
  let (ds, rest) := takeDigits cs.length cs
  if ds = [] then none else some (valueOf ds, rest)

/-- Reads a year, after blanks. -/
def readYear? (cs : List Char) : Option (Int × List Char) :=
  match skipBlanks cs with
  | '-' :: cs => (readSignedYear? cs).map fun (n, rest) => (-(n : Int), rest)
  | '+' :: cs => (readSignedYear? cs).map fun (n, rest) => ((n : Int), rest)
  | cs => (readNumber? 4 cs).map fun (n, rest) => ((n : Int), rest)

/-- Reads a date at the beginning of a text. -/
def read? (cs : List Char) : Option (Date × List Char) := do
  let (year, cs) ← readYear? cs
  let (month, cs) ← readNumber? 2 (← expect? '-' (skipBlanks cs))
  let (day, cs) ← readNumber? 2 (← expect? '-' (skipBlanks cs))
  let date ← ofCivil? ⟨year, month, day⟩
  pure (date, cs)

/-- The date a text stands for, if it stands for one. -/
def ofText? (text : String) : Option Date := do
  let (date, rest) ← read? text.toList
  if skipBlanks rest = [] then some date else none

end Date

namespace Weekday

/-- The full English name of a weekday. -/
def name : Weekday → String
  | monday => "Monday"
  | tuesday => "Tuesday"
  | wednesday => "Wednesday"
  | thursday => "Thursday"
  | friday => "Friday"
  | saturday => "Saturday"
  | sunday => "Sunday"

/-- The written form of a weekday: the first three letters of its name. -/
def toText : Weekday → String
  | monday => "Mon"
  | tuesday => "Tue"
  | wednesday => "Wed"
  | thursday => "Thu"
  | friday => "Fri"
  | saturday => "Sat"
  | sunday => "Sun"

/-- The weekdays from Monday on. -/
def all : List Weekday := [monday, tuesday, wednesday, thursday, friday, saturday, sunday]

/-- The weekday of a name, short or full, whatever the case of its letters. -/
def ofText? (text : String) : Option Weekday :=
  let fold := fun (s : String) => s.toList.map Char.toLower
  all.find? fun w => fold text = fold w.toText || fold text = fold w.name

end Weekday

end FieldWages
