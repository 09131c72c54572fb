import FieldWages.Yaml.Text

/-!
# Reading YAML

A document is read from its text by recursion on its structure. Lists and
mappings are written in brackets, or as blocks: the items of a block list begin
with a hyphen, the entries of a block mapping with a key and a colon, and all
of them stand at one column. What belongs to an item or an entry stands behind
it or below it at a greater column; only a list below a key may begin at the
column of the key. A text without content is an empty plain text.

A key may be any value but a block. It stands on one line with the colon behind
it, and takes up at most 1024 bytes of UTF-8 (`Yaml.isKey`).

A reader gets the text from the place where it begins and gives the rest. The
rest behind a block is at the end of a line. Nothing is read by halves: what
does not fit makes the whole document no value.

Anchors, tags, directives, block texts and keys that are marked as such are
refused.

* `Yaml.ofText?`: the value of a document.
-/

namespace FieldWages.Yaml

/-! ## Lines -/

/-- The byte order mark, which may begin a line and takes up a column. -/
abbrev byteOrderMark : Char := '\uFEFF'

/-- The next content from a column on, with its column, over blanks, comments and
    line breaks. No tab may stand in front of it. -/
def seek? (inComment : Bool) (column : Nat) : List Char → Option (Nat × List Char)
  | [] => some (0, [])
  | c :: cs =>
    if isBreak c then seek? false 0 cs
    else if inComment then seek? true column cs
    else if c = ' ' ∨ (c = byteOrderMark ∧ column = 0) then seek? false (column + 1) cs
    else if c = '#' then seek? true column cs
    else if c = '\t' then none
    else some (column, c :: cs)

/-- The end of a line on which nothing but a comment is left. -/
def lineEnd? (cs : List Char) : Option (List Char) :=
  match cs.dropWhile isBlank with
  | [] => some []
  | c :: cs =>
    if isBreak c then some (c :: cs)
    else if c = '#' then some (cs.dropWhile (!isBreak ·))
    else none

/-- Whether a text begins with the hyphen of an item. -/
def startsItem : List Char → Bool
  | '-' :: cs => atBlank cs
  | _ => false

/-- Whether the value that `cs` begins with can be a key, where `rest` is the text
    behind the colon. What counts is its length as written, in bytes of UTF-8 and
    with the blanks in front of the colon. -/
def isKey (cs rest : List Char) : Bool :=
  let key := cs.take (cs.length - rest.length - 1)
  (String.ofList key).utf8ByteSize ≤ 1024 && !key.any isBreak

/-! ## Brackets -/

/-- The text behind blanks, line breaks and comments; `atStart` at the start of a
    line. -/
def skipSpace (inComment atStart : Bool) : List Char → List Char
  | [] => []
  | c :: cs =>
    if isBreak c then skipSpace false true cs
    else if inComment then skipSpace true false cs
    else if isBlank c || (atStart && c == byteOrderMark) then skipSpace false false cs
    else if c = '#' then skipSpace true false cs
    else c :: cs

mutual

/-- Reads a value inside brackets, where `floor` is the column that plain texts
    stand behind. -/
def bracketed? : (fuel : Nat) → (floor : Nat) → List Char → Option (Yaml × List Char)
  | 0, _, _ => none
  | fuel + 1, floor, cs =>
    match cs with
    | '[' :: cs =>
      (bracketItems? fuel floor (skipSpace false false cs)).map fun (vs, rest) => (list vs, rest)
    | '{' :: cs =>
      (bracketEntries? fuel floor (skipSpace false false cs)).map fun (es, rest) =>
        (mapping es, rest)
    | '\x27' :: _ | '\x22' :: _ => (quotedText? cs).map fun (s, rest) => (quoted s, rest)
    | cs =>
      if startsPlain true cs then
        (plainText? true floor 0 [] cs).map fun (s, rest) => (plain s, rest)
      else none

/-- Reads what may follow the value that `cs` begins with inside brackets, to the
    next comma or bracket: a colon makes that value the key of another. -/
def bracketPair? : (fuel : Nat) → (floor : Nat) → (isPlain : Bool) → (cs rest : List Char) →
    Option (Option Yaml × List Char)
  | 0, _, _, _, _ => none
  | fuel + 1, floor, isPlain, cs, rest =>
    match rest.dropWhile isBlank with
    | ':' :: rest =>
      if !isKey cs rest || (isPlain && !atBlank rest) then none
      else
        match skipSpace false false rest with
        | [] => none
        | c :: rest =>
          if c = ',' ∨ c = ']' ∨ c = '}' then some (some (plain []), c :: rest)
          else
            (bracketed? fuel floor (c :: rest)).map fun (v, rest) =>
              (some v, skipSpace false false rest)
    | rest => some (none, skipSpace false false rest)

/-- Reads items, and the bracket that closes them. -/
def bracketItems? : (fuel : Nat) → (floor : Nat) → List Char → Option (List Yaml × List Char)
  | 0, _, _ => none
  | fuel + 1, floor, cs =>
    match cs with
    | ']' :: cs => some ([], cs)
    | cs => do
      let (v, rest) ← bracketed? fuel floor cs
      let (value, rest) ← bracketPair? fuel floor v.isPlain cs rest
      let v := match value with
        | none => v
        | some w => mapping [(v, w)]
      match rest with
      | ']' :: cs => pure ([v], cs)
      | ',' :: cs => do
        let (vs, cs) ← bracketItems? fuel floor (skipSpace false false cs)
        pure (v :: vs, cs)
      | _ => none

/-- Reads entries, and the brace that closes them. -/
def bracketEntries? : (fuel : Nat) → (floor : Nat) → List Char →
    Option (List (Yaml × Yaml) × List Char)
  | 0, _, _ => none
  | fuel + 1, floor, cs =>
    match cs with
    | '}' :: cs => some ([], cs)
    | cs => do
      let (key, rest) ← bracketed? fuel floor cs
      let (value, rest) ← bracketPair? fuel floor key.isPlain cs rest
      let e := (key, value.getD (plain []))
      match rest with
      | '}' :: cs => pure ([e], cs)
      | ',' :: cs => do
        let (es, cs) ← bracketEntries? fuel floor (skipSpace false false cs)
        pure (e :: es, cs)
      | _ => none

end

/-! ## Blocks -/

/-- Reads a value that is no block. -/
def flow? (floor : Nat) (cs : List Char) : Option (Yaml × List Char) :=
  match cs with
  | '[' :: _ | '{' :: _ | '\x27' :: _ | '\x22' :: _ => bracketed? (3 * cs.length + 1) floor cs
  | cs =>
    if startsPlain false cs then
      (plainText? false floor 0 [] cs).map fun (s, rest) => (plain s, rest)
    else none

/-- Reads a value that is no block, to the end of its last line. -/
def inline? (floor : Nat) (cs : List Char) : Option (Yaml × List Char) := do
  let (v, rest) ← flow? floor cs
  pure (v, ← lineEnd? rest)

/-- Reads the key of an entry, and the colon behind it. -/
def entryKey? (cs : List Char) : Option (Yaml × List Char) := do
  let line := cs.takeWhile (!isBreak ·)
  let (key, rest) ← flow? 0 line
  match rest.dropWhile isBlank with
  | ':' :: rest =>
    if isKey line rest && atBlank rest then some (key, rest ++ cs.drop line.length) else none
  | _ => none

mutual

/-- Reads a value that begins at a column. -/
def block? : (fuel : Nat) → (floor column : Nat) → List Char → Option (Yaml × List Char)
  | 0, _, _, _ => none
  | fuel + 1, floor, column, cs =>
    if startsItem cs then
      (blockItems? fuel column cs).map fun (vs, rest) => (list vs, rest)
    else if (entryKey? cs).isSome then
      (blockEntries? fuel column cs).map fun (es, rest) => (mapping es, rest)
    else inline? floor cs

/-- Reads the items at a column. -/
def blockItems? : (fuel : Nat) → (column : Nat) → List Char → Option (List Yaml × List Char)
  | 0, _, _ => none
  | fuel + 1, column, cs => do
    let (c, content) ← seek? false (column + 1) (cs.drop 1)
    let (v, rest) ←
      if column < c ∧ content ≠ [] then block? fuel (column + 1) c content
      else (lineEnd? (cs.drop 1)).map (plain [], ·)
    let (c, next) ← seek? false 0 rest
    if c = column ∧ startsItem next then
      let (vs, rest) ← blockItems? fuel column next
      pure (v :: vs, rest)
    else pure ([v], rest)

/-- Reads the entries at a column. -/
def blockEntries? : (fuel : Nat) → (column : Nat) → List Char →
    Option (List (Yaml × Yaml) × List Char)
  | 0, _, _ => none
  | fuel + 1, column, cs => do
    let (key, cs) ← entryKey? cs
    let (v, rest) ←
      match lineEnd? cs with
      | none => inline? (column + 1) (cs.dropWhile isBlank)
      | some below => do
        let (c, content) ← seek? false 0 below
        if column < c ∧ content ≠ [] then block? fuel (column + 1) c content
        else if c = column ∧ startsItem content then
          (blockItems? fuel column content).map fun (vs, rest) => (list vs, rest)
        else some (plain [], below)
    let (c, next) ← seek? false 0 rest
    if c = column ∧ (entryKey? next).isSome then
      let (es, rest) ← blockEntries? fuel column next
      pure ((key, v) :: es, rest)
    else pure ([(key, v)], rest)

end

/-! ## Documents -/

/-- Whether a document may contain a character. -/
def isAllowed (c : Char) : Bool :=
  let n := c.toNat
  n == 0x09 || n == 0x0A || n == 0x0D || (0x20 ≤ n && n ≤ 0x7E) || n == 0x85
    || (0xA0 ≤ n && n ≤ 0xD7FF) || (0xE000 ≤ n && n ≤ 0xFFFD) || 0x10000 ≤ n

/-- The text with one line feed for each carriage return, with or without a line
    feed behind it, and for each next-line character. -/
def unifyBreaks : List Char → List Char
  | [] => []
  | '\r' :: '\n' :: cs => '\n' :: unifyBreaks cs
  | c :: cs => (if c == '\r' || c == '\x85' then '\n' else c) :: unifyBreaks cs

/-- The lines of a text, each with the break that ends it. -/
def lines : List Char → List (List Char)
  | [] => []
  | c :: cs =>
    if isBreak c then [c] :: lines cs
    else
      match lines cs with
      | [] => [[c]]
      | line :: ls => (c :: line) :: ls

/-- Whether a line holds nothing but a comment. -/
def isVoid (line : List Char) : Bool := (seek? false 0 line).any (·.2.isEmpty)

/-- Whether a line begins with a mark of three equal characters. -/
def isMark (c : Char) (line : List Char) : Bool := line.take 3 == [c, c, c] && atBlank (line.drop 3)

/-- Whether a line may stand behind the document: it is void, or a mark of the end. -/
def isTrailer (line : List Char) : Bool :=
  isVoid line || (isMark '.' line && (lineEnd? (line.drop 3)).isSome)

/-- The text of the document from its first content, and whether that stands behind
    a mark on the same line. At most one document is allowed, and no mark of the
    end without one. -/
def document? (ls : List (List Char)) : Option (Bool × List Char) :=
  let isEnd := fun line => isMark '-' line || isMark '.' line
  let close? := fun (text : List Char) (ls : List (List Char)) =>
    if (ls.dropWhile (!isEnd ·)).all isTrailer then
      some (text ++ (ls.takeWhile (!isEnd ·)).flatten)
    else none
  match ls.dropWhile isVoid with
  | [] => some (false, [])
  | first :: ls =>
    if isMark '-' first then
      if (lineEnd? (first.drop 3)).isSome then (close? [] ls).map (false, ·)
      else (close? (first.drop 3) ls).map (true, ·)
    else if isMark '.' first then none
    else (close? first ls).map (false, ·)

/-- The value of a list of characters. -/
def ofChars? (cs : List Char) : Option Yaml := do
  if cs.all isAllowed then
    let (marked, cs) ← document? (lines (unifyBreaks cs))
    let (v, rest) ←
      if marked then inline? 0 (cs.dropWhile isBlank)
      else
        let (column, content) ← seek? false 0 cs
        if content = [] then some (plain [], [])
        else block? (3 * cs.length + 1) 0 column content
    let (_, rest) ← seek? false 0 rest
    if rest = [] then some v else none
  else none

/-- The value of a document. -/
def ofText? (text : String) : Option Yaml := ofChars? text.toList

end FieldWages.Yaml
