import FieldWages.Record.Input
import FieldWages.Yaml.Parser

/-!
# Configuration files

A configuration is kept in a directory of two YAML files: `engine.yaml` holds
the settings, and `concepts.yaml` the list of the concepts. The settings are
read first. A file that is not there, or whose bytes are no UTF-8, is not found.

A plain number is an integer or the nearest double; in quotes it is a text, which
stands for a decimal but not for a count. A count has no minus sign. Any text may
stand where text is expected. What is optional may be null, in any spelling; the
empty one also stands for a list without items or a record without fields.

* `ConfigFiles.load`: the configuration of a directory.
-/

namespace FieldWages

/-! ## Values of the files -/

namespace Yaml

instance : ReadFrom Yaml String := ⟨fun v => v.text?.map String.ofList⟩

instance : ReadFrom Yaml Category := ⟨fun v => v.text?.bind fun s => Category.ofName? (.ofList s)⟩

/-- Whether an integer fits sixty-four bits, with or without a sign. -/
def isWord (n : Int) : Bool := -9223372036854775808 ≤ n && n ≤ 18446744073709551615

/-- A plain text goes by its kind, and other texts by themselves. -/
instance : ReadFrom Yaml Decimal where
  read?
    | .plain s =>
      match Kind.ofPlain s with
      | .int negative n =>
        let n : Int := if negative then -n else n
        if isWord n then Decimal.ofInt? n else none
      | .real x => Decimal.ofPlainText? x.plainChars
      | .text => Decimal.ofChars? s
      | _ => none
    | .quoted s => Decimal.ofChars? s
    | _ => none

/-- The count below a bound that a plain text stands for. -/
def count? (bound : Nat) : Yaml → Option Nat
  | .plain s =>
    match Kind.ofPlain s with
    | .int false n => if n < bound then some n else none
    | _ => none
  | _ => none

instance : ReadFrom Yaml UInt32 := ⟨fun v => (count? UInt32.size v).map .ofNat⟩

instance : ReadFrom Yaml UInt64 := ⟨fun v => (count? UInt64.size v).map .ofNat⟩

/-- Whether a value is null. -/
def isNull : Yaml → Bool
  | .plain s => match Kind.ofPlain s with
    | .null => true
    | _ => false
  | _ => false

instance {α : Type} [ReadFrom Yaml α] : ReadFrom Yaml (Option α) :=
  ⟨fun v => if v.isNull then some none else (ReadFrom.read? v).map some⟩

instance {α : Type} [ReadFrom Yaml α] : ReadFrom Yaml (List α) where
  read?
    | .list vs => vs.mapM ReadFrom.read?
    | .plain [] => some []
    | _ => none

/-- Reads a record from a mapping; nothing at all gives no field. -/
def record? {α : Type} (r : FieldReader Yaml α) : Yaml → Option α
  | .mapping es => do
    let es ← named? es
    Record.read? r (.named fun name => es.filterMap fun e => if e.1 = name then some e.2 else none)
  | .plain [] => Record.read? r (.named fun _ => [])
  | _ => none

instance : ReadFrom Yaml OvertimeRates := ⟨record? OvertimeRates.reader⟩

instance : ReadFrom Yaml Settings := ⟨record? Settings.reader⟩

instance : ReadFrom Yaml Concept := ⟨record? Concept.reader⟩

/-- The list of concepts under the name `concepts`. -/
def concepts? : Yaml → Option (List Concept) := record? (Record.field "concepts")

end Yaml

/-! ## Files -/

/-- The files of a configuration directory, as far as they are there. -/
structure ConfigFiles where
  engine : Option ByteArray
  concepts : Option ByteArray

namespace ConfigFiles

/-- Reads a file as a value of YAML that has a certain form. -/
def readFile {α : Type} (read? : Yaml → Option α) (path : String) (bytes : Option ByteArray) :
    Except Refusal α :=
  match bytes.bind String.fromUTF8? with
  | none => .error (.configNotFound path)
  | some text =>
    match (Yaml.ofText? text).bind read? with
    | none => .error (.configMalformed path "no value of the expected form")
    | some a => .ok a

/-- The configuration of a directory. -/
def load (directory : String) (files : ConfigFiles) : Except Refusal Configuration := do
  let settings ← readFile ReadFrom.read? (directory ++ "/engine.yaml") files.engine
  let concepts ← readFile Yaml.concepts? (directory ++ "/concepts.yaml") files.concepts
  Configuration.ofParts settings concepts

end ConfigFiles

end FieldWages
