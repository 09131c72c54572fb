import FieldWages.Double.Shortest

/-!
# Reading doubles

There are two ways to read a double. The *nearest* one is meant where a number
stands in a text of its own. In a stream of values a number is *scaled*: its
digits are taken as an integer for as long as they fit sixty-four bits, digits
that do not fit only count for their place, and the integer is multiplied or
divided, as doubles, by one power of ten; a result that is infinite is none.

* `Shortest.nearest?`, `Shortest.scaled?`: the shortest decimal of the double
  that is read.
-/

namespace FieldWages

namespace Shortest

/-- The double nearest to `± n * 10 ^ e`, if it is finite. An exponent far out of
    range is cut, as it leaves only zero or infinity. -/
def nearest? (negative : Bool) (n : Nat) (e : Int) : Option Shortest :=
  let size := (Text.digits n).length
  let x :=
    if n = 0 ∨ e + size < -400 then Float.ofScientific 0 false 0
    else if 400 < e + size then Float.ofScientific 1 false 400
    else Float.ofScientific n (e < 0) e.natAbs
  ofFloat? (if negative then -x else x)

/-- The greatest integer of sixty-four bits. -/
def maxWord : Nat := 18446744073709551615

/-- Appends digits to an integer for as long as it fits sixty-four bits; the
    digits left over. -/
def takeWord (n : Nat) : List Char → Nat × List Char
  | [] => (n, [])
  | c :: cs =>
    let n' := n * 10 + Text.digitValue c
    if maxWord < n' then (n, c :: cs) else takeWord n' cs

/-- Multiplies or divides by a power of ten within the range of doubles; smaller
    powers are reached in steps, at most `fuel` of them. -/
def scale? : (fuel : Nat) → Float → Int → Option Float
  | 0, x, _ => some x
  | fuel + 1, x, e =>
    if e.natAbs ≤ 308 then
      let power := Float.ofScientific 1 false e.natAbs
      if 0 ≤ e then
        let y := x * power
        if y.isInf then none else some y
      else some (x / power)
    else if x == 0 then some x
    else if 0 ≤ e then none
    else scale? fuel (x / Float.ofScientific 1 false 308) (e + 308)

/-- The double read from digits before and behind the point and an exponent, by
    scaling. -/
def scaled? (negative : Bool) (whole fraction : List Char) (e : Int) : Option Shortest := do
  let (n, skipped) := takeWord 0 whole
  let (n, unread) := takeWord n fraction
  let places := fraction.length - unread.length
  let x ← scale? 3 n.toUInt64.toFloat (skipped.length - places + e)
  ofFloat? (if negative then -x else x)

end Shortest

end FieldWages
