import FieldWages.Decimal.Arithmetic
import FieldWages.Text.Digits

/-!
# Decimals as text

A decimal is written with exactly as many places as its scale, and with a
minus sign in front if it has one. Reading accepts more: a sign of either
kind, a point with digits on one side only, underscores between and behind
digits, an exponent of ten, and more places than a decimal can hold. Places
beyond the twenty-eighth, and places that would make the mantissa too great,
are rounded away by the first of them, half up. What an exponent moves beyond
the twenty-eighth place is rounded away as well, and there a negative number of
which no digit is left becomes the negative zero.

* `Decimal.toText`: the written form;
* `Decimal.ofText?`: the decimal a text stands for, if it stands for one.
-/

namespace FieldWages

open Text

namespace Decimal

/-- The written form: sign, digits before the point, and the places. -/
def chars (d : Decimal) : List Char :=
  let n := d.mantissa.natAbs
  let unit := tenPow d.scale
  (if d.mantissa < 0 ∨ d.negativeZero then ['-'] else [])
    ++ digits (n / unit)
    ++ (if d.scale = 0 then [] else '.' :: padded d.scale (n % unit))

/-- The written form of a decimal. -/
def toText (d : Decimal) : String := String.ofList d.chars

/-- The written form of the number alone, without trailing zeros. -/
def plainText (d : Decimal) : String := d.normalize.toText

/-! ## Reading -/

/-- Rounds by the first digit that has no room. A mantissa that becomes too great
    gives up its last place. -/
def roundUnread? (m s digit : Nat) : Option (Nat × Nat) :=
  if digit < 5 then some (m, s)
  else if m + 1 ≤ maxMantissa then some (m + 1, s)
  else if s = 0 then none
  else some ((m + 5) / 10, s - 1)

/-- Whether a text is of the form that is passed over behind the last digit read. -/
def isUnread (cs : List Char) : Bool := cs.all fun c => c.isDigit || c == '_'

/-- Below this bound a mantissa is read to its last place and no further. -/
abbrev narrowMantissa : Nat := 18446744073709549060

/-- Reads digits behind the mantissa `m` and the scale `s` found so far. The first
    digit without room, in the mantissa or behind the twenty-eighth place, rounds
    what is read. An underscore behind that place ends the reading of a narrow
    mantissa before it comes to this digit, and is skipped behind a wide one. -/
def scan? (m s : Nat) (point digit : Bool) : List Char → Option (Nat × Nat)
  | [] => if digit then some (m, s) else none
  | c :: cs =>
    if c.isDigit then
      let m' := m * 10 + digitValue c
      if point then
        if maxMantissa < m' ∨ maxScale ≤ s then
          if isUnread cs then roundUnread? m s (digitValue c) else none
        else scan? m' (s + 1) true true cs
      else if maxMantissa < m' then none
      else scan? m' 0 false true cs
    else if c = '.' ∧ ¬point then scan? m s true digit cs
    else if c = '_' ∧ digit then
      if maxScale ≤ s ∧ m < narrowMantissa then
        if isUnread cs then some (m, s) else none
      else scan? m s point true cs
    else none

/-- Reads a text without sign and exponent. -/
def ofUnsignedText? (negative : Bool) (cs : List Char) : Option Decimal := do
  let (m, s) ← scan? 0 0 false false cs
  ofParts? (if negative then -(m : Int) else m) s

/-- Reads a text without an exponent. -/
def ofPlainText? (cs : List Char) : Option Decimal :=
  match cs with
  | '-' :: cs => ofUnsignedText? true cs
  | '+' :: cs => ofUnsignedText? false cs
  | cs => ofUnsignedText? false cs

/-- Reads the digits of an exponent, which may have a plus sign, also behind a
    minus sign. -/
def readExponent? : List Char → Option Nat
  | '+' :: cs => readNat? cs
  | cs => readNat? cs

/-- The decimal of the exact value `d * 10 ^ e`, for an exponent of at most
    twenty-eight: the point moves while there are places, and only then is the
    mantissa enlarged, to be kept without trailing zeros. -/
def scaleUp? (d : Decimal) (e : Nat) : Option Decimal :=
  if e ≤ d.scale then ofParts? d.mantissa (d.scale - e)
  else if maxScale < e then none
  else if d.mantissa = 0 then some zero
  else (fit? (d.mantissa * tenPow e) d.scale).map normalize

/-- The decimal nearest to `d / 10 ^ e` with as many places as that takes, of two
    that are equally near the one farther from zero. -/
def scaleDown? (d : Decimal) (e : Nat) : Option Decimal :=
  let s := d.scale + e
  if s ≤ maxScale then ofParts? d.mantissa s
  else
    (ofParts? (halfAway d.mantissa (tenPow (s - maxScale))) maxScale).map
      (withSign (d.mantissa < 0))

/-- Reads a text with an exponent, which is at least minus twenty-eight. -/
def ofScientificText? (cs : List Char) : Option Decimal :=
  let isMark := fun c => c == 'e' || c == 'E'
  match cs.dropWhile (!isMark ·) with
  | [] => none
  | _ :: exponent => do
    let d ← ofPlainText? (cs.takeWhile (!isMark ·))
    match exponent with
    | '-' :: exponent => do
      let e ← readExponent? exponent
      if maxScale < e then none else scaleDown? d e
    | exponent => do
      let e ← readExponent? exponent
      scaleUp? d e

/-- The decimal a list of characters stands for. -/
def ofChars? (cs : List Char) : Option Decimal :=
  (ofPlainText? cs).or (ofScientificText? cs)

/-- The decimal a text stands for, if it stands for one. -/
def ofText? (text : String) : Option Decimal := ofChars? text.toList

end Decimal

end FieldWages
