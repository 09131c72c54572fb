import FieldWages.Double.Reading
import FieldWages.Json.Basic

/-!
# Reading JSON

A text is read as one value with blanks around it. Lists and objects may be
nested up to 127 deep. What is no JSON is no value at all, and so is a number
beyond the range of doubles.

* `Json.ofText?`: the value of a text.
-/

namespace FieldWages.Json

/-- Whether a character may stand between the parts of a value. -/
def isSpace (c : Char) : Bool := c == ' ' || c == '\n' || c == '\r' || c == '\t'

/-- The text without the blanks it begins with. -/
def skipSpace (cs : List Char) : List Char := cs.dropWhile isSpace

/-- The rest of a text that begins with the given characters. -/
def literal? : (expected : List Char) → List Char → Option (List Char)
  | [], cs => some cs
  | _ :: _, [] => none
  | e :: es, c :: cs => if e = c then literal? es cs else none

/-! ## Texts -/

/-- The value of four digits to the base sixteen. -/
def hex4? (a b c d : Char) : Option Nat := Text.readNatIn? 16 [a, b, c, d]

/-- The character a backslash and a letter stand for. -/
def unescape? : Char → Option Char
  | '"' => some '"'
  | '\\' => some '\\'
  | '/' => some '/'
  | 'b' => some (Char.ofNat 8)
  | 'f' => some (Char.ofNat 12)
  | 'n' => some '\n'
  | 'r' => some '\r'
  | 't' => some '\t'
  | _ => none

/-- Whether a number is the first half of a pair that encodes one character. -/
def isHighSurrogate (n : Nat) : Bool := 0xD800 ≤ n && n < 0xDC00

/-- Whether a number is the second half of such a pair. -/
def isLowSurrogate (n : Nat) : Bool := 0xDC00 ≤ n && n < 0xE000

/-- Reads a text behind its opening quote, and the quote that closes it. -/
def textBody? : List Char → Option (List Char × List Char)
  | [] => none
  | '"' :: cs => some ([], cs)
  | '\\' :: 'u' :: a :: b :: c :: d :: cs => do
    let n ← hex4? a b c d
    if isHighSurrogate n then
      match cs with
      | '\\' :: 'u' :: a :: b :: c :: d :: cs => do
        let m ← hex4? a b c d
        if isLowSurrogate m then
          let (s, rest) ← textBody? cs
          pure (Char.ofNat (0x10000 + (n - 0xD800) * 0x400 + (m - 0xDC00)) :: s, rest)
        else none
      | _ => none
    else if isLowSurrogate n then none
    else
      let (s, rest) ← textBody? cs
      pure (Char.ofNat n :: s, rest)
  | '\\' :: c :: cs => do
    let c ← unescape? c
    let (s, rest) ← textBody? cs
    pure (c :: s, rest)
  | c :: cs =>
    if c.toNat < 32 ∨ c = '\\' then none
    else do
      let (s, rest) ← textBody? cs
      pure (c :: s, rest)

/-! ## Numbers -/

/-- Reads the digits of a fraction, if there is a point. -/
def fraction? : List Char → Option (Option (List Char) × List Char)
  | '.' :: cs =>
    let ds := cs.takeWhile Char.isDigit
    if ds = [] then none else some (some ds, cs.dropWhile Char.isDigit)
  | cs => some (none, cs)

/-- Reads the digits of an exponent behind its mark. -/
def exponentDigits? (sign : Int) (cs : List Char) : Option (Int × List Char) :=
  let ds := cs.takeWhile Char.isDigit
  if ds = [] then none else some (sign * Text.valueOf ds, cs.dropWhile Char.isDigit)

/-- Reads an exponent, if there is one. -/
def exponent? : List Char → Option (Option Int × List Char)
  | [] => some (none, [])
  | c :: cs =>
    if c = 'e' ∨ c = 'E' then
      (match cs with
        | '+' :: cs => exponentDigits? 1 cs
        | '-' :: cs => exponentDigits? (-1) cs
        | cs => exponentDigits? 1 cs).map fun (e, rest) => (some e, rest)
    else some (none, c :: cs)

/-- The number of digits without fraction and exponent: an integer if it fits
    sixty-four bits, with or without sign. The negative zero is a double. -/
def integer? (negative : Bool) (whole : List Char) : Option Json :=
  let n := Text.valueOf whole
  if negative then
    if 0 < n ∧ n ≤ 9223372036854775808 then some (int (-n))
    else (Shortest.scaled? negative whole [] 0).map real
  else if n ≤ Shortest.maxWord then some (int n)
  else (Shortest.scaled? negative whole [] 0).map real

/-- Reads a number behind its sign. -/
def number? (negative : Bool) (cs : List Char) : Option (Json × List Char) := do
  let whole := cs.takeWhile Char.isDigit
  if whole = [] ∨ (whole.head? = some '0' ∧ whole.length ≠ 1) then none
  else
    let (fraction, cs) ← fraction? (cs.dropWhile Char.isDigit)
    let (exponent, cs) ← exponent? cs
    match fraction, exponent with
    | none, none => (integer? negative whole).map (·, cs)
    | _, _ =>
      (Shortest.scaled? negative whole (fraction.getD []) (exponent.getD 0)).map (real ·, cs)

/-! ## Values -/

mutual

/-- Reads a value that may nest `depth` deep. -/
def value? : (fuel depth : Nat) → List Char → Option (Json × List Char)
  | 0, _, _ => none
  | fuel + 1, depth, cs =>
    match skipSpace cs with
    | 'n' :: cs => (literal? ['u', 'l', 'l'] cs).map (null, ·)
    | 't' :: cs => (literal? ['r', 'u', 'e'] cs).map (bool true, ·)
    | 'f' :: cs => (literal? ['a', 'l', 's', 'e'] cs).map (bool false, ·)
    | '"' :: cs => (textBody? cs).map fun (s, rest) => (str (String.ofList s), rest)
    | '[' :: cs =>
      if depth = 0 then none
      else
        match skipSpace cs with
        | ']' :: cs => some (arr [], cs)
        | cs => (items? fuel (depth - 1) cs).map fun (vs, rest) => (arr vs, rest)
    | '{' :: cs =>
      if depth = 0 then none
      else
        match skipSpace cs with
        | '}' :: cs => some (obj [], cs)
        | cs => (members? fuel (depth - 1) cs).map fun (ms, rest) => (obj ms, rest)
    | '-' :: cs => number? true cs
    | cs => number? false cs

/-- Reads the items of a list, at least one, and the bracket that closes it. -/
def items? : (fuel depth : Nat) → List Char → Option (List Json × List Char)
  | 0, _, _ => none
  | fuel + 1, depth, cs => do
    let (v, cs) ← value? fuel depth cs
    match skipSpace cs with
    | ']' :: cs => pure ([v], cs)
    | ',' :: cs => do
      let (vs, cs) ← items? fuel depth cs
      pure (v :: vs, cs)
    | _ => none

/-- Reads the members of an object, at least one, and the brace that closes it. -/
def members? : (fuel depth : Nat) → List Char → Option (List (String × Json) × List Char)
  | 0, _, _ => none
  | fuel + 1, depth, cs =>
    match skipSpace cs with
    | '"' :: cs => do
      let (name, cs) ← textBody? cs
      match skipSpace cs with
      | ':' :: cs => do
        let (v, cs) ← value? fuel depth cs
        match skipSpace cs with
        | '}' :: cs => pure ([(String.ofList name, v)], cs)
        | ',' :: cs => do
          let (ms, cs) ← members? fuel depth cs
          pure ((String.ofList name, v) :: ms, cs)
        | _ => none
      | _ => none
    | _ => none

end

/-- The value a list of characters stands for, if it stands for one. -/
def ofChars? (cs : List Char) : Option Json := do
  let (v, rest) ← value? (cs.length + 1) 127 cs
  if skipSpace rest = [] then some v else none

/-- The value a text stands for, if it stands for one. -/
def ofText? (text : String) : Option Json := ofChars? text.toList

end FieldWages.Json
