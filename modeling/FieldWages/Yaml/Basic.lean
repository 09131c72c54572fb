import FieldWages.Double.Reading

/-!
# YAML values

A value is a text, a list of values, or a mapping of values to values. Whether a
text was written in quotes is kept: a *quoted* text is nothing but a text, while
a *plain* one may stand for null, a truth value or a number where such values
are allowed. That is decided by who reads it (`Yaml.Kind.ofPlain`). A mapping
keeps keys that are repeated, and its keys need not be texts.
-/

namespace FieldWages

/-- A YAML value. -/
inductive Yaml where
  | plain (text : List Char)
  | quoted (text : List Char)
  | list (items : List Yaml)
  | mapping (entries : List (Yaml × Yaml))

namespace Yaml

/-- The characters of a text. -/
def text? : Yaml → Option (List Char)
  | plain s | quoted s => some s
  | _ => none

/-- Whether a value is a plain text. -/
def isPlain : Yaml → Bool
  | plain _ => true
  | _ => false

/-- The entries of a mapping by name, if all keys are texts. -/
def named? (entries : List (Yaml × Yaml)) : Option (List (String × Yaml)) :=
  entries.mapM fun e => e.1.text?.map fun s => (String.ofList s, e.2)

/-! ## The kinds of plain texts -/

/-- What a plain text stands for. -/
inductive Kind where
  | null
  | truth (b : Bool)
  | int (negative : Bool) (n : Nat)
  | real (x : Shortest)
  | text

namespace Kind

/-- Whether a text is a number with leading zeros, which counts as a text. -/
def hasLeadingZero : List Char → Bool
  | '0' :: c :: cs => (c :: cs).all Char.isDigit
  | _ => false

/-- Reads a natural number, whose base is shown by the two characters it begins
    with; without them it is decimal. -/
def natural? (cs : List Char) : Option Nat :=
  match cs with
  | '0' :: 'x' :: ds => Text.readNatIn? 16 ds
  | '0' :: 'o' :: ds => Text.readNatIn? 8 ds
  | '0' :: 'b' :: ds => Text.readNatIn? 2 ds
  | ds => if hasLeadingZero ds then none else Text.readNat? ds

/-- Reads the exponent of ten of a number; without its mark it is zero. -/
def exponent? : List Char → Option Int
  | [] => some 0
  | c :: cs =>
    if c = 'e' ∨ c = 'E' then
      match cs with
      | '-' :: ds => (Text.readNat? ds).map fun n => -(n : Int)
      | '+' :: ds => (Text.readNat? ds).map Int.ofNat
      | ds => (Text.readNat? ds).map Int.ofNat
    else none

/-- Reads a number with a point or an exponent, or with neither, as the nearest
    double. -/
def real? (negative : Bool) (cs : List Char) : Option Shortest := do
  let whole := cs.takeWhile Char.isDigit
  let (places, cs) :=
    match cs.dropWhile Char.isDigit with
    | '.' :: cs => (cs.takeWhile Char.isDigit, cs.dropWhile Char.isDigit)
    | cs => ([], cs)
  if whole = [] ∧ places = [] then none
  else
    let e ← exponent? cs
    Shortest.nearest? negative (Text.valueOf (whole ++ places)) (e - places.length)

/-- The number of a text behind its sign. -/
def ofUnsigned (negative : Bool) (cs : List Char) : Kind :=
  match natural? cs with
  | some n => int negative n
  | none =>
    if hasLeadingZero cs then text
    else
      match real? negative cs with
      | some x => real x
      | none => text

/-- What a plain text stands for. -/
def ofPlain (cs : List Char) : Kind :=
  let word := String.ofList cs
  if word ∈ ["", "~", "null", "Null", "NULL"] then null
  else if word ∈ ["true", "True", "TRUE"] then truth true
  else if word ∈ ["false", "False", "FALSE"] then truth false
  else
    match cs with
    | '-' :: cs => ofUnsigned true cs
    | '+' :: cs => ofUnsigned false cs
    | cs => ofUnsigned false cs

end Kind

end Yaml

end FieldWages
