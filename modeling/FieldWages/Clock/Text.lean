import FieldWages.Clock.Basic
import FieldWages.Date.Text
import FieldWages.TenPow

/-!
# Times as text

A time of day is written as hour, minute and second with colons between them;
a fraction follows if there is one, with three, six or nine places, as few as
show it. Reading accepts one or two digits a part, blanks before each part and
fractions of any length, of which nine digits count; a time of day that stands
alone may leave out its seconds. A date and a time are joined by `T`.

Behind the date and time of an instant stands `Z`. An instant may also be read
from the local time of a zone, with the offset of the zone from universal time
behind it.

* `TimeOfDay.toText`, `DateTime.toText`, `Timestamp.toText`: the written forms;
* `TimeOfDay.ofText?`, `DateTime.ofText?`, `Timestamp.ofText?`: what a text
  stands for.
-/

namespace FieldWages

open Text

namespace TimeOfDay

/-- The written form of a fraction of a second. -/
def fractionChars (nano : Nat) : List Char :=
  if nano = 0 then []
  else if nano % 1000000 = 0 then '.' :: padded 3 (nano / 1000000)
  else if nano % 1000 = 0 then '.' :: padded 6 (nano / 1000)
  else '.' :: padded 9 nano

/-- The written form of a time of day, as characters. -/
def chars (t : TimeOfDay) : List Char :=
  let leap := t.nano / 1000000000
  padded 2 (t.second / 3600) ++ ':' :: padded 2 (t.second / 60 % 60)
    ++ ':' :: padded 2 (t.second % 60 + leap) ++ fractionChars (t.nano % 1000000000)

/-- The written form of a time of day. -/
def toText (t : TimeOfDay) : String := String.ofList t.chars

/-- Reads hour and minute. -/
def readMinute? (cs : List Char) : Option (Nat × Nat × List Char) := do
  let (hour, cs) ← Date.readNumber? 2 cs
  let (minute, cs) ← Date.readNumber? 2 (← expect? ':' (skipBlanks cs))
  pure (hour, minute, cs)

/-- Reads the fraction of a second, in nanoseconds; digits behind the ninth are
    passed over. -/
def readFraction? : List Char → Option (Nat × List Char)
  | '.' :: cs =>
    let (ds, rest) := takeDigits 9 cs
    if ds = [] then none
    else some (valueOf ds * tenPow (9 - ds.length), rest.dropWhile Char.isDigit)
  | cs => some (0, cs)

/-- Reads a second and its fraction. -/
def readSecond? (cs : List Char) : Option (Nat × Nat × List Char) := do
  let (second, cs) ← Date.readNumber? 2 (← expect? ':' (skipBlanks cs))
  if 60 < second then none
  else
    let (nano, cs) ← readFraction? cs
    pure (second, nano, cs)

/-- The time of day a text stands for, if it stands for one. -/
def ofText? (text : String) : Option TimeOfDay := do
  let (hour, minute, cs) ← readMinute? text.toList
  let (second, nano, rest) := (readSecond? cs).getD (0, 0, cs)
  if skipBlanks rest = [] then ofParts? hour minute second nano else none

/-- Reads a time of day with its seconds, and the blanks behind it. -/
def read? (cs : List Char) : Option (TimeOfDay × List Char) := do
  let (hour, minute, cs) ← readMinute? cs
  let (second, nano, cs) ← readSecond? cs
  let time ← ofParts? hour minute second nano
  pure (time, skipBlanks cs)

end TimeOfDay

namespace DateTime

/-- The written form of a date with a time, as characters. -/
def chars (t : DateTime) : List Char := t.date.chars ++ 'T' :: t.time.chars

/-- The written form of a date with a time. -/
def toText (t : DateTime) : String := String.ofList t.chars

/-- The date and time a text stands for, if it stands for one. -/
def ofText? (text : String) : Option DateTime := do
  let (date, cs) ← Date.read? text.toList
  let (time, rest) ← TimeOfDay.read? (← expect? 'T' (skipBlanks cs))
  if rest = [] then some ⟨date, time⟩ else none

end DateTime

namespace Timestamp

/-- The written form of an instant. -/
def toText (t : Timestamp) : String := String.ofList (t.utc.chars ++ ['Z'])

/-- Reads two digits. -/
def readPair? (cs : List Char) : Option (Nat × List Char) :=
  let (ds, rest) := takeDigits 2 cs
  if ds.length = 2 then some (valueOf ds, rest) else none

/-- Reads the hours and minutes of an offset of less than a day, with colons and
    blanks between them, in minutes. -/
def readSpan? (cs : List Char) : Option (Nat × List Char) := do
  let (hours, cs) ← readPair? cs
  let (minutes, cs) ← readPair? (cs.dropWhile fun c => c == ':' || isBlank c)
  if hours < 24 ∧ minutes < 60 then some (hours * 60 + minutes, cs) else none

/-- Reads the offset of a zone from universal time, in minutes: the name of
    universal time in either case, or a sign and a span. -/
def readOffset? (cs : List Char) : Option (Int × List Char) :=
  if (cs.take 3).map Char.toLower = ['u', 't', 'c'] then some (0, cs.drop 3)
  else
    match cs with
    | 'Z' :: cs | 'z' :: cs => some (0, cs)
    | '+' :: cs => (readSpan? cs).map fun (n, rest) => ((n : Int), rest)
    | '-' :: cs | '\u2212' :: cs => (readSpan? cs).map fun (n, rest) => (-(n : Int), rest)
    | _ => none

/-- The time of an instant, behind a letter or a blank that separates it from the
    date. -/
def readTime? : List Char → Option (TimeOfDay × List Char)
  | 'T' :: cs | 't' :: cs | ' ' :: cs => TimeOfDay.read? cs
  | _ => none

/-- The instant a text stands for, if it stands for one: local date and time, and
    the offset of the zone. -/
def ofText? (text : String) : Option Timestamp := do
  let (date, cs) ← Date.read? text.toList
  let (time, cs) ← readTime? cs
  let (offset, rest) ← readOffset? cs
  let utc ← DateTime.shift? ⟨date, time⟩ (-offset)
  if skipBlanks rest = [] then some ⟨utc⟩ else none

end Timestamp

end FieldWages
