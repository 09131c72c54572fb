import FieldWages.Yaml.Basic

/-!
# Texts in YAML

A text is written plainly or between quotes of either sort, and may go on over
several lines. Where it does, the blanks around a line break are dropped, one
break becomes a space, and of several breaks all but the first are kept
(`foldBreaks`); but a separator of lines or paragraphs is always kept. A plain
text ends at a colon or a comment; inside brackets also
at a bracket or a comma. In single quotes a quote is written twice; in double
quotes a backslash begins an escape.

* `Yaml.plainText?`, `Yaml.singleQuoted?`, `Yaml.doubleQuoted?`: a text, and the
  rest behind it.
-/

namespace FieldWages.Yaml

/-- Whether a character is a blank within a line. -/
def isBlank (c : Char) : Bool := c == ' ' || c == '\t'

/-- Whether a character ends a line: a line feed, or a separator of lines or
    paragraphs. -/
def isBreak (c : Char) : Bool := c == '\n' || c == '\u2028' || c == '\u2029'

/-- Whether a text begins with a blank or a line break, or is at its end. -/
def atBlank : List Char → Bool
  | [] => true
  | c :: _ => isBlank c || isBreak c

/-- The form of a run of blanks inside a text. Behind an escaped line break, only
    further breaks count. -/
def foldBreaks (escaped : Bool) (blanks : List Char) : List Char :=
  match blanks.filter isBreak with
  | [] => if escaped then [] else blanks
  | b :: bs =>
    if escaped || b != '\n' then b :: bs
    else if bs.isEmpty then [' ']
    else bs

/-- The last line of a run of blanks, from the break in front of it. -/
def lastLine : List Char → List Char
  | [] => []
  | c :: cs => if cs.any isBreak then lastLine cs else c :: cs

/-- The characters that list and mapping are written with in brackets. -/
def isBracketOrComma (c : Char) : Bool := [',', '[', ']', '{', '}'].contains c

/-- The characters that may not follow a colon inside brackets. -/
def endsName (c : Char) : Bool := isBracketOrComma c || c == '?'

/-- The characters that begin something other than a plain text. -/
def isReserved (c : Char) : Bool :=
  ['#', '&', '*', '!', '|', '>', '\x27', '\x22', '%', '@', '\x60'].contains c

/-- Whether a plain text can begin here. -/
def startsPlain (inBrackets : Bool) : List Char → Bool
  | [] => false
  | c :: cs =>
    if c = '-' then !atBlank cs
    else if c = '?' ∨ c = ':' then !inBrackets && !atBlank cs
    else !isBracketOrComma c && !isReserved c && !isBlank c && !isBreak c

/-- A text with characters put in front of what has been read. -/
def prepend (s : List Char) (r : List Char × List Char) : List Char × List Char :=
  (s ++ r.1, r.2)

/-- Reads a plain text, behind the blanks `blanks`, at a column. On a further line
    neither the text nor a tab may stand in front of the column `floor`. The rest
    begins on the line where the text ends, or at a break behind it. -/
def plainText? (inBrackets : Bool) (floor column : Nat) (blanks : List Char) :
    List Char → Option (List Char × List Char)
  | [] => some ([], [])
  | c :: cs =>
    let inFront := blanks.any isBreak && column < floor
    let stop := some ([], lastLine blanks ++ c :: cs)
    if isBreak c then plainText? inBrackets floor 0 (blanks ++ [c]) cs
    else if inFront && c == '\t' then none
    else if isBlank c then plainText? inBrackets floor (column + 1) (blanks ++ [c]) cs
    else if inFront && !inBrackets then stop
    else if c = '#' ∧ blanks ≠ [] then some ([], cs.dropWhile (!isBreak ·))
    else if c = ':' ∧ (atBlank cs ∨ (inBrackets ∧ (cs.head?.any endsName))) then stop
    else if inBrackets && isBracketOrComma c then stop
    else
      (plainText? inBrackets floor (column + 1) [] cs).map
        (prepend (foldBreaks false blanks ++ [c]))

/-- Reads a text behind its single quote and the blanks `blanks`. -/
def singleQuoted? (blanks : List Char) : List Char → Option (List Char × List Char)
  | [] => none
  | '\x27' :: '\x27' :: cs =>
    (singleQuoted? [] cs).map (prepend (foldBreaks false blanks ++ ['\x27']))
  | '\x27' :: cs => some (foldBreaks false blanks, cs)
  | c :: cs =>
    if isBlank c || isBreak c then singleQuoted? (blanks ++ [c]) cs
    else (singleQuoted? [] cs).map (prepend (foldBreaks false blanks ++ [c]))

/-- The character a backslash and a character stand for. -/
def unescape? (c : Char) : Option Char :=
  (([('0', 0), ('a', 7), ('b', 8), ('t', 9), ('\t', 9), ('n', 10), ('v', 11), ('f', 12),
    ('r', 13), ('e', 27), (' ', 32), ('\x22', 34), ('/', 47), ('\\', 92), ('N', 0x85),
    ('_', 0xA0), ('L', 0x2028), ('P', 0x2029)] : List (Char × Nat)).lookup c).map Char.ofNat

/-- The character of a number to the base sixteen. -/
def charOfHex? (ds : List Char) : Option Char := do
  let n ← Text.readNatIn? 16 ds
  if n.isValidChar then some (Char.ofNat n) else none

/-- How many digits follow a letter behind a backslash. -/
def hexWidth? (c : Char) : Option Nat := [('x', 2), ('u', 4), ('U', 8)].lookup c

/-- Reads a text behind its double quote and the blanks `blanks`, which may follow
    an escaped line break. -/
def doubleQuoted? : (fuel : Nat) → (escaped : Bool) → (blanks : List Char) → List Char →
    Option (List Char × List Char)
  | 0, _, _, _ => none
  | _, _, _, [] => none
  | _, escaped, blanks, '\x22' :: cs => some (foldBreaks escaped blanks, cs)
  | fuel + 1, escaped, blanks, '\\' :: c :: cs =>
    let front := foldBreaks escaped blanks
    if isBreak c then (doubleQuoted? fuel true [] cs).map (prepend front)
    else
      match hexWidth? c with
      | some n => do
        let d ← if cs.length < n then none else charOfHex? (cs.take n)
        (doubleQuoted? fuel false [] (cs.drop n)).map (prepend (front ++ [d]))
      | none => do
        let d ← unescape? c
        (doubleQuoted? fuel false [] cs).map (prepend (front ++ [d]))
  | fuel + 1, escaped, blanks, c :: cs =>
    if isBlank c || isBreak c then doubleQuoted? fuel escaped (blanks ++ [c]) cs
    else if c = '\\' then none
    else (doubleQuoted? fuel false [] cs).map (prepend (foldBreaks escaped blanks ++ [c]))

/-- Reads a text between quotes of either sort. -/
def quotedText? : List Char → Option (List Char × List Char)
  | '\x27' :: cs => singleQuoted? [] cs
  | '\x22' :: cs => doubleQuoted? (cs.length + 1) false [] cs
  | _ => none

end FieldWages.Yaml
