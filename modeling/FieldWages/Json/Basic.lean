import FieldWages.Double.Shortest

/-!
# JSON values

A value is null, a truth value, a number, a text, a list of values or an object
of named values. Numbers written as integers of at most sixty-four bits are
kept as integers; all others are kept as doubles, by their shortest decimals.
The members of an object keep their order; of several with one name the last
counts (`Json.member?`).

* `Json.chars`: the compact written form.
-/

namespace FieldWages

/-- A JSON value. -/
inductive Json where
  | null
  | bool (b : Bool)
  | int (n : Int)
  | real (x : Shortest)
  | str (s : String)
  | arr (items : List Json)
  | obj (members : List (String × Json))

namespace Json

instance : Inhabited Json := ⟨null⟩

/-- The member of a name; of several the last counts. -/
def member? (members : List (String × Json)) (name : String) : Option Json :=
  (members.reverse.find? fun m => m.1 = name).map (·.2)

/-! ## Writing -/

/-- A digit to the base sixteen. -/
def hexDigit (n : Nat) : Char := Nat.digitChar n

/-- How a character is written between quotes. -/
def escapeChar (c : Char) : List Char :=
  if c = '"' then ['\\', '"']
  else if c = '\\' then ['\\', '\\']
  else if c = '\n' then ['\\', 'n']
  else if c = '\r' then ['\\', 'r']
  else if c = '\t' then ['\\', 't']
  else if c.toNat = 8 then ['\\', 'b']
  else if c.toNat = 12 then ['\\', 'f']
  else if c.toNat < 32 then
    ['\\', 'u', '0', '0', hexDigit (c.toNat / 16), hexDigit (c.toNat % 16)]
  else [c]

/-- A text between quotes. -/
def quoted (s : String) : List Char := '"' :: s.toList.flatMap escapeChar ++ ['"']

/-- The digits of an integer, with its sign. -/
def intChars (n : Int) : List Char :=
  (if n < 0 then ['-'] else []) ++ Text.digits n.natAbs

mutual

/-- The compact written form of a value. -/
def chars : Json → List Char
  | null => ['n', 'u', 'l', 'l']
  | bool true => ['t', 'r', 'u', 'e']
  | bool false => ['f', 'a', 'l', 's', 'e']
  | int n => intChars n
  | real x => x.chars
  | str s => quoted s
  | arr items => '[' :: itemsChars items ++ [']']
  | obj members => '{' :: membersChars members ++ ['}']

/-- The items of a list with commas between them. -/
def itemsChars : List Json → List Char
  | [] => []
  | [v] => v.chars
  | v :: w :: vs => v.chars ++ ',' :: itemsChars (w :: vs)

/-- The members of an object with commas between them. -/
def membersChars : List (String × Json) → List Char
  | [] => []
  | [(name, v)] => quoted name ++ ':' :: v.chars
  | (name, v) :: m :: ms => quoted name ++ ':' :: v.chars ++ ',' :: membersChars (m :: ms)

end

/-- The compact written form of a value. -/
def toText (v : Json) : String := String.ofList v.chars

end Json

end FieldWages
