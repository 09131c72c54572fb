/-!
# Digits

Digits as text: writing a natural number, with leading zeros if a width is
asked for, and reading digits back. Digits are decimal unless a base is named;
the digits above nine are letters of either case. Blanks are the characters
with the Unicode property White_Space.

* `readNat?`, `readNatIn?`: the value of a text of digits, at least one;
* `takeDigits`: the digits a text begins with, at most so many.
-/

namespace FieldWages.Text

/-- The digits of a natural number. -/
def digits (n : Nat) : List Char := Nat.toDigits 10 n

/-- The digits of a natural number, filled up with zeros on the left. -/
def padded (width n : Nat) : List Char := (digits n).leftpad width '0'

/-- The value of a digit. -/
def digitValue (c : Char) : Nat := c.toNat - '0'.toNat

/-- The value of a list of digits. -/
def valueOf (ds : List Char) : Nat := Nat.ofDigitChars 10 ds 0

/-- The number a text of digits stands for, if it is one. -/
def readNat? (cs : List Char) : Option Nat :=
  if cs ≠ [] ∧ cs.all Char.isDigit then some (valueOf cs) else none

/-- The value of a digit to a base of at most thirty-six. -/
def digitValueIn? (base : Nat) (c : Char) : Option Nat :=
  let n :=
    if '0' ≤ c ∧ c ≤ '9' then c.toNat - '0'.toNat
    else if 'a' ≤ c ∧ c ≤ 'z' then c.toNat - 'a'.toNat + 10
    else if 'A' ≤ c ∧ c ≤ 'Z' then c.toNat - 'A'.toNat + 10
    else base
  if n < base then some n else none

/-- The number a text of digits to a base stands for, if it is one. -/
def readNatIn? (base : Nat) (cs : List Char) : Option Nat :=
  if cs.isEmpty then none
  else (cs.mapM (digitValueIn? base)).map (·.foldl (fun n d => n * base + d) 0)

/-- The digits a text begins with, at most `n` of them, and the rest. -/
def takeDigits (n : Nat) (cs : List Char) : List Char × List Char :=
  let ds := (cs.takeWhile Char.isDigit).take n
  (ds, cs.drop ds.length)

/-- The characters that count as blank. -/
def isBlank (c : Char) : Bool :=
  let n := c.toNat
  (0x09 ≤ n && n ≤ 0x0D) || n == 0x20 || n == 0x85 || n == 0xA0 || n == 0x1680
    || (0x2000 ≤ n && n ≤ 0x200A) || n == 0x2028 || n == 0x2029 || n == 0x202F
    || n == 0x205F || n == 0x3000

/-- The text without the blanks it begins with. -/
def skipBlanks (cs : List Char) : List Char := cs.dropWhile isBlank

/-- The rest of a text that begins with the given character. -/
def expect? (c : Char) : List Char → Option (List Char)
  | [] => none
  | d :: cs => if d = c then some cs else none

end FieldWages.Text
